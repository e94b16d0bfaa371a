import Mathlib.Data.List.Perm.Subperm
import StaticSite.Document
import StaticSite.Proofs.Path.Components

/-!
# Sources

Paths of the same place name the same document, and a list of different documents is no longer than
the list of all documents.
-/

namespace StaticSite

namespace Path

/-- The paths are pairwise different. -/
def Distinct (ps : List Path) : Prop := ps.Pairwise fun p q => q.same p = false

end Path

namespace PathMap

variable {α : Type}

theorem find?_congr {p q : Path} (h : p.same q = true) (es : List (Path × α)) :
    find? p es = find? q es := by
  induction es with
  | nil => rfl
  | cons e es ih => rw [find?, find?, Path.same_congr h, ih]

theorem get?_congr {p q : Path} (h : p.same q = true) (m : PathMap α) : m.get? p = m.get? q :=
  find?_congr h m.entries

theorem contains_eq_any (m : PathMap α) (p : Path) : m.contains p = m.keys.any (·.same p) := by
  obtain ⟨es⟩ := m
  show (find? p es).isSome = (es.map (·.1)).any (·.same p)
  induction es with
  | nil => rfl
  | cons e es ih =>
    rw [find?, List.map_cons, List.any_cons, ← ih]
    split
    · rename_i he
      rw [he]
      rfl
    · rename_i he
      rw [Bool.eq_false_iff.2 he, Bool.false_or]

theorem exists_key_of_get? {p : Path} {m : PathMap α} {a : α} (h : m.get? p = some a) :
    ∃ k ∈ m.keys, k.same p = true := by
  have hp : m.contains p = true := by
    rw [contains, h]
    rfl
  rw [contains_eq_any] at hp
  exact List.any_eq_true.1 hp

/-- A key that is there keeps its place and spelling, and a new one comes last. -/
theorem keys_insert (m : PathMap α) (p : Path) (a : α) :
    (m.insert p a).keys = if m.contains p then m.keys else m.keys ++ [p] := by
  obtain ⟨es⟩ := m
  show (set p a es).map (·.1) = if (find? p es).isSome then es.map (·.1) else es.map (·.1) ++ [p]
  induction es with
  | nil => rfl
  | cons e es ih =>
    rw [set, find?]
    split
    · rfl
    · rw [List.map_cons, ih]
      split
      · rfl
      · rfl

theorem distinct_keys_insert {m : PathMap α} (h : Path.Distinct m.keys) (p : Path) (a : α) :
    Path.Distinct (m.insert p a).keys := by
  rw [keys_insert]
  split
  · exact h
  · rename_i hp
    rw [contains_eq_any, Bool.not_eq_true, List.any_eq_false] at hp
    refine List.pairwise_append.2 ⟨h, List.pairwise_singleton _ _, fun q hq r hr => ?_⟩
    rw [List.mem_singleton.1 hr, Path.same_comm]
    exact Bool.eq_false_iff.2 (hp q hq)

theorem distinct_keys_erase {m : PathMap α} (h : Path.Distinct m.keys) (p : Path) :
    Path.Distinct (m.erase p).keys := by
  refine List.Pairwise.sublist ?_ h
  exact List.filter_sublist.map _

end PathMap

/-- The components of different paths are different. -/
theorem Path.Distinct.nodup {ps : List Path} (h : Path.Distinct ps) :
    (ps.map Path.components).Nodup := by
  refine List.pairwise_map.2 (h.imp fun hpq he => ?_)
  rw [Path.same_iff.2 he.symm] at hpq
  cases hpq

/-- Different paths, each the same as one of `ks`, are no more than those of `ks`. -/
theorem Path.Distinct.length_le {ps ks : List Path} (hps : Path.Distinct ps)
    (h : ∀ p ∈ ps, ∃ k ∈ ks, k.same p = true) : ps.length ≤ ks.length := by
  have hsub : ps.map Path.components ⊆ ks.map Path.components := by
    intro cs hcs
    obtain ⟨p, hp, rfl⟩ := List.mem_map.1 hcs
    obtain ⟨k, hk, hkp⟩ := h p hp
    exact List.mem_map.2 ⟨k, hk, Path.same_iff.1 hkp⟩
  have hle := (List.subperm_of_subset hps.nodup hsub).length_le
  rw [List.length_map, List.length_map] at hle
  exact hle

/-- The error says why a document cannot be read or parsed. -/
def CompileError.IsOfDocument : CompileError → Prop
  | .tooDeep _ => False
  | _ => True

theorem parseAt_error {p : Path} {html : String} {e : CompileError}
    (h : parseAt p html = .error e) : e.IsOfDocument := by
  unfold parseAt at h
  split at h
  · cases h
  · cases h; trivial

theorem Language.ofPath_congr {p q : Path} (h : p.same q = true) : ofPath p = ofPath q := by
  simp only [ofPath, Path.extension?, Path.fileName?, Path.same_iff.1 h]

/-- The same text makes the same document at every path of the same place. -/
theorem Document.ofText_congr {p q : Path} (h : p.same q = true) {raw : String} {d : Document}
    (hd : ofText p raw = .ok d) : ofText q raw = .ok { d with path := q } ∧ d.path = p := by
  unfold ofText at hd ⊢
  rw [← Language.ofPath_congr h]
  generalize Language.ofPath p = language at hd ⊢
  generalize FrontMatter.read raw.toList = read at hd ⊢
  rcases language with _ | _
  · cases hd
    exact ⟨rfl, rfl⟩
  · rcases read with e | ⟨metadata, body⟩
    · cases hd
    · obtain rfl := Except.ok.inj hd
      refine ⟨?_, rfl⟩
      dsimp only

theorem Document.folder_congr {d e : Document} (h : d.path.same e.path = true) :
    d.folder.same e.folder = true := by
  have hp := Path.parent?_congr h
  rw [Path.same_iff, folder, folder]
  generalize d.path.parent? = p at hp ⊢
  generalize e.path.parent? = q at hp ⊢
  rcases p with _ | p
  · rcases q with _ | q
    · rfl
    · cases hp
  · rcases q with _ | q
    · cases hp
    · exact Option.some.inj hp

namespace Sources

theorem document_error {s : Sources} {p : Path} {e : CompileError}
    (h : s.document p = .error e) : e.IsOfDocument := by
  unfold document Document.ofText at h
  split at h
  · split at h
    · cases h
    · split at h
      · cases h; trivial
      · cases h
  · cases h; trivial
  · cases h; trivial

/-- A document is at the path where it was read. -/
theorem document_path {s : Sources} {p : Path} {d : Document} (h : s.document p = .ok d) :
    d.path = p := by
  unfold document at h
  split at h
  · exact (Document.ofText_congr (Path.same_refl p) h).2
  · cases h
  · cases h

/-- There is a document that can be read at the path. -/
def Readable (s : Sources) (p : Path) : Prop := ∃ d, s.document p = .ok d

/-- No path of `around` is the same as a later one, and all of them can be read. -/
def nests (s : Sources) : List Path → Bool
  | [] => true
  | p :: around => !around.any (·.same p) && (s.document p).isOk && s.nests around

theorem nests_cons {s : Sources} {p : Path} {around : List Path} :
    s.nests (p :: around) = true ↔
      around.any (·.same p) = false ∧ s.Readable p ∧ s.nests around = true := by
  rw [nests, Bool.and_eq_true, Bool.and_eq_true, Bool.not_eq_true', and_assoc, Readable]
  rcases s.document p with e | d
  · simp [Except.isOk, Except.toBool]
  · simp [Except.isOk, Except.toBool]

theorem nests_iff {s : Sources} {around : List Path} :
    s.nests around = true ↔ Path.Distinct around ∧ ∀ p ∈ around, s.Readable p := by
  induction around with
  | nil => exact ⟨fun _ => ⟨List.Pairwise.nil, fun _ h => absurd h List.not_mem_nil⟩, fun _ => rfl⟩
  | cons p around ih =>
    simp only [nests_cons, ih, Path.Distinct, List.pairwise_cons, List.any_eq_false,
      List.forall_mem_cons, Bool.not_eq_true]
    constructor
    · rintro ⟨hp, hr, hd, hrs⟩
      exact ⟨⟨hp, hd⟩, hr, hrs⟩
    · rintro ⟨⟨hp, hd⟩, hr, hrs⟩
      exact ⟨hp, hr, hd, hrs⟩

theorem read_ofFiles_congr {p q : Path} (h : p.same q = true)
    (files : PathMap (Except String String)) :
    (ofFiles files).read p = (ofFiles files).read q := by
  simp only [ofFiles, PathMap.get?_congr h]

/-- Paths of the same place have the same document, which is told its path. -/
theorem document_congr {files : PathMap (Except String String)} {p q : Path}
    (h : p.same q = true) {d : Document} (hd : (ofFiles files).document p = .ok d) :
    (ofFiles files).document q = .ok { d with path := q } ∧ d.path = p := by
  unfold document at hd ⊢
  rw [← read_ofFiles_congr h]
  split at hd
  · exact Document.ofText_congr h hd
  · cases hd
  · cases hd

theorem exists_key_of_readable {files : PathMap (Except String String)} {p : Path}
    (h : (ofFiles files).Readable p) : ∃ k ∈ files.keys, k.same p = true := by
  obtain ⟨d, hd⟩ := h
  rcases hf : files.get? p with _ | x
  · simp [document, ofFiles, hf] at hd
  · exact PathMap.exists_key_of_get? hf

/-- Documents that differ from each other are no more than there are documents. -/
theorem length_le_bound {files : PathMap (Except String String)} {ps : List Path}
    (hd : Path.Distinct ps) (hr : ∀ p ∈ ps, (ofFiles files).Readable p) :
    ps.length ≤ (ofFiles files).bound := by
  have h := hd.length_le fun p hp => exists_key_of_readable (hr p hp)
  rw [PathMap.keys, List.length_map] at h
  exact h

end Sources

end StaticSite
