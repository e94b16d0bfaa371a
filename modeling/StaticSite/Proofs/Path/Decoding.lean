import Mathlib.Data.List.Forall2
import StaticSite.Proofs.Path.Normal
import StaticSite.Proofs.Path.Rest
import StaticSite.Proofs.Text.Percent

/-!
# Paths with escapes

If no escape of a text stands for `.` or `/`, the decoded text has the same steps, but for the
spelling of the names (`forall₂_stepsOf`). So it leads to a place below the same folders, unless it
climbs out of a folder with a `%` in its name and comes back to it
(`Path.startsWith_of_percentBytes`).
-/

namespace StaticSite

open Text

/-! ## Pieces -/

/-- A text that is cut at `/` is written piece by piece. -/
theorem map_joinPieces {f : List Char → List UInt8}
    (hf : ∀ s t, f (s ++ '/' :: t) = f s ++ byteOf '/' :: f t) {ps : List (List Char)}
    (hne : ps ≠ []) : f (joinPieces ps) = [byteOf '/'].intercalate (ps.map f) := by
  induction ps with
  | nil => exact absurd rfl hne
  | cons p ps ih =>
    rcases ps with _ | ⟨q, ps⟩
    · simp [joinPieces]
    · rw [joinPieces_cons (List.cons_ne_nil q ps), hf, ih (List.cons_ne_nil q ps)]
      simp [List.intercalate]

theorem escapes_of_mem {c : Char} {ps : List (List Char)} {x : List Char} (hx : x ∈ ps)
    (h : escapes c (joinPieces ps) = false) : escapes c x = false := by
  induction ps with
  | nil => cases hx
  | cons p ps ih =>
    by_cases hps : ps = []
    · subst hps
      rwa [List.mem_singleton.1 hx]
    · rw [joinPieces_cons hps, escapes_append_slash, Bool.or_eq_false_iff] at h
      rcases List.mem_cons.1 hx with rfl | hx
      · exact h.1
      · exact ih hx h.2

theorem slash_not_mem_bytes {x : List Char} (h : '/' ∉ x) : byteOf '/' ∉ bytes x := by
  intro hb
  obtain ⟨c, hc, hb⟩ := List.mem_flatMap.1 hb
  exact h (eq_of_byteOf_mem (by decide) hb ▸ hc)

/-- If no escape stands for `/`, the pieces are decoded one by one. -/
theorem forall₂_piecesOf {s d : List Char} (h : percentBytes s = bytes d)
    (hslash : escapes '/' s = false) :
    List.Forall₂ (fun y x => percentBytes y = bytes x) (piecesOf s) (piecesOf d) := by
  rw [← joinPieces_piecesOf s, map_joinPieces percentBytes_append_slash (piecesOf_ne_nil s),
    ← joinPieces_piecesOf d, map_joinPieces (f := bytes) _ (piecesOf_ne_nil d)] at h
  · have hs : ∀ l ∈ (piecesOf s).map percentBytes, byteOf '/' ∉ l := by
      intro l hl hb
      obtain ⟨y, hy, rfl⟩ := List.mem_map.1 hl
      refine slash_not_mem hy (mem_of_mem_percentBytes (by decide) (escapes_of_mem hy ?_) hb)
      rwa [joinPieces_piecesOf]
    have hd : ∀ l ∈ (piecesOf d).map bytes, byteOf '/' ∉ l := by
      intro l hl
      obtain ⟨x, hx, rfl⟩ := List.mem_map.1 hl
      exact slash_not_mem_bytes (slash_not_mem hx)
    have h' := congrArg (List.splitOn (byteOf '/')) h
    rw [List.splitOn_intercalate _ hs (by simp [piecesOf_ne_nil]),
      List.splitOn_intercalate _ hd (by simp [piecesOf_ne_nil])] at h'
    rwa [← List.forall₂_eq_eq_eq, List.forall₂_map_left_iff, List.forall₂_map_right_iff] at h'
  · intro s t
    rw [bytes_append, bytes_cons, utf8EncodeChar_of_lt (by decide)]
    rfl

/-! ## Steps -/

/-- The second step is the first one, or it is the first one decoded, which is a name among the
given steps. -/
inductive Component.Decodes (steps : List Component) : Component → Component → Prop where
  /-- A step is itself. -/
  | same (c : Component) : Decodes steps c c
  /-- A name is decoded. -/
  | name {y x : List Char} (hy : .name y ∈ steps) (h : percentBytes y = bytes x) :
    Decodes steps (.name y) (.name x)

/-- A piece is decoded to nothing but dots only if it is written so. -/
theorem eq_replicate_of_percentBytes {n : Nat} {y : List Char} (hdot : escapes '.' y = false)
    (h : percentBytes y = bytes (List.replicate n '.')) : y = List.replicate n '.' := by
  induction n generalizing y with
  | zero => exact percentBytes_eq_nil_iff.1 h
  | succ n ih =>
    rw [List.replicate_succ, bytes_cons, utf8EncodeChar_of_lt (by decide)] at h
    obtain ⟨y, rfl, hy⟩ := exists_of_percentBytes_eq_cons (by decide) hdot h
    have hdot' : escapes '.' y = false := escapes_drop 1 hdot
    rw [ih hdot' hy, List.replicate_succ]

theorem ofPiece?_decodes {s y x : List Char} (hy : y ∈ piecesOf s) (hdot : escapes '.' y = false)
    (h : percentBytes y = bytes x) :
    Option.Rel (Component.Decodes (stepsOf s)) (Component.ofPiece? y) (Component.ofPiece? x) := by
  have heq : ∀ n, y = List.replicate n '.' ↔ x = List.replicate n '.' := by
    intro n
    constructor
    · rintro rfl
      refine bytes_injective (h.symm.trans (percentBytes_of_not_mem ?_))
      rw [List.mem_replicate]
      exact fun h => absurd h.2 (by decide)
    · rintro rfl
      exact eq_replicate_of_percentBytes hdot h
  have h0 : y = [] ↔ x = [] := heq 0
  have h1 : y = ['.'] ↔ x = ['.'] := heq 1
  have h2 : y = ['.', '.'] ↔ x = ['.', '.'] := heq 2
  have hmem : ∀ c, Component.ofPiece? y = some c → c ∈ stepsOf s := fun c hc =>
    List.mem_filterMap.2 ⟨y, hy, hc⟩
  simp only [Component.ofPiece?, h0, h1, h2] at hmem ⊢
  split
  · exact .none
  · rename_i hx
    rw [if_neg hx] at hmem
    split
    · exact .some (.same _)
    · rename_i hx
      rw [if_neg hx] at hmem
      exact .some (.name (hmem _ rfl) h)

/-- If no escape stands for `.` or `/`, the steps are decoded one by one. -/
theorem forall₂_stepsOf {s d : List Char} (h : percentBytes s = bytes d)
    (hslash : escapes '/' s = false) (hdot : escapes '.' s = false) :
    List.Forall₂ (Component.Decodes (stepsOf s)) (stepsOf s) (stepsOf d) := by
  have hdots : ∀ y ∈ piecesOf s, y ∈ piecesOf s ∧ escapes '.' y = false := fun y hy =>
    ⟨hy, escapes_of_mem hy (by rwa [joinPieces_piecesOf])⟩
  have hpieces := (List.forall₂_and_left _ _).2 ⟨hdots, forall₂_piecesOf h hslash⟩
  exact List.rel_filterMap (fun _ _ hyx => ofPiece?_decodes hyx.1.1 hyx.1.2 hyx.2) hpieces

theorem push_root (cs : List Component) : Component.push cs .root = .root :: cs := by
  rcases cs with _ | ⟨_ | _ | _ | _, cs⟩ <;> rfl

variable {steps cs ds : List Component}

/-- Decoded steps are taken alike. -/
theorem push_decodes (h : List.Forall₂ (Component.Decodes steps) cs ds) {c d : Component}
    (hcd : c.Decodes steps d) :
    List.Forall₂ (Component.Decodes steps) (Component.push cs c) (Component.push ds d) := by
  cases hcd with
  | name hy hn =>
    rw [Path.push_name, Path.push_name]
    exact .cons (.name hy hn) h
  | same => cases c with
    | name n =>
      rw [Path.push_name, Path.push_name]
      exact .cons (.same _) h
    | root =>
      rw [push_root, push_root]
      exact .cons (.same _) h
    | current => exact h
    | parent => cases h with
      | nil => exact .cons (.same _) .nil
      | @cons e _ _ _ hc hcs => cases hc with
        | name hy hn => exact hcs
        | same => cases e with
          | root => exact .cons (.same _) hcs
          | current | parent => exact .cons (.same _) (.cons (.same _) hcs)
          | name n => exact hcs

theorem foldl_push_decodes {as bs : List Component}
    (h : List.Forall₂ (Component.Decodes steps) cs ds)
    (hsteps : List.Forall₂ (Component.Decodes steps) as bs) :
    List.Forall₂ (Component.Decodes steps) (as.foldl Component.push cs)
      (bs.foldl Component.push ds) := by
  induction hsteps generalizing cs ds with
  | nil => exact h
  | cons hc _ ih => exact ih (push_decodes h hc)

theorem eq_of_decodes (h : ∀ n, .name n ∈ cs → .name n ∈ steps → '%' ∉ n)
    (hd : List.Forall₂ (Component.Decodes steps) cs ds) : cs = ds := by
  induction hd with
  | nil => rfl
  | cons hc hcs ih =>
    rw [ih fun n hn => h n (List.mem_cons_of_mem _ hn)]
    cases hc with
    | same => rfl
    | name hy hn =>
      rw [percentBytes_of_not_mem (h _ (List.mem_cons_self ..) hy)] at hn
      rw [bytes_injective hn]

namespace Path

/-- If no escape stands for `.` or `/`, what leads to a place below a folder leads there once it is
decoded, unless it spells a name of the folder that has a `%`. -/
theorem startsWith_of_percentBytes {p : Path} {s d : List Char} (ha : p.isAbsolute = true)
    (hp : ∀ n, .name n ∈ p.components → .name n ∈ stepsOf s → '%' ∉ n) (hs : s.head? ≠ some '/')
    (h : percentBytes s = bytes d) (hslash : escapes '/' s = false) (hdot : escapes '.' s = false)
    (hin : (p.join (ofChars s)).normalize.startsWith p = true) :
    (p.join (ofChars d)).normalize.startsWith p = true := by
  have hsr : (ofChars s).isAbsolute = false := by
    rwa [Bool.eq_false_iff, ne_eq, isAbsolute_ofChars_iff]
  have hdr : (ofChars d).isAbsolute = false := by
    rw [Bool.eq_false_iff, ne_eq, isAbsolute_ofChars_iff]
    intro hd
    obtain ⟨d, rfl⟩ := List.head?_eq_some_iff.1 hd
    rw [bytes_cons, utf8EncodeChar_of_lt (by decide)] at h
    obtain ⟨s, rfl, -⟩ := exists_of_percentBytes_eq_cons (by decide) hslash h
    exact hs rfl
  rw [startsWith_iff] at hin ⊢
  rw [components_normalize (by rw [isAbsolute_join p hsr, ha]), normalSteps_join p hsr,
    chars_ofChars] at hin
  rw [components_normalize (by rw [isAbsolute_join p hdr, ha]), normalSteps_join p hdr,
    chars_ofChars]
  have hrel := foldl_push_decodes
    (List.forall₂_same.2 fun c (_ : c ∈ p.components.foldl Component.push []) => .same c)
    (forall₂_stepsOf h hslash hdot)
  obtain ⟨rest, hrest⟩ := hin
  rw [← List.forall₂_reverse_iff, ← hrest] at hrel
  have htake := List.forall₂_take p.components.length hrel
  rw [List.take_left] at htake
  exact List.prefix_iff_eq_take.2 (eq_of_decodes hp htake)

end Path

end StaticSite
