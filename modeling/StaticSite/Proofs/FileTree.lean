import Mathlib.Data.List.Basic
import StaticSite.FileTree
import StaticSite.Proofs.Path.Normal

/-!
# Trees of files

What a tree holds is seen through `FileTree.entry?`: setting an entry changes one place, and
removing a folder empties the places below it. A path without steps `..` leads to the place of its
names (`FileTree.steps_of_locate`), and it leads there in every tree that still has the entries on
the way (`FileTree.locate_mono`). Making folders adds folders where nothing stood
(`FileTree.addsFolders_createFolders`).
-/

namespace StaticSite

/-- The names of a place as steps of a path. -/
def Place.steps (place : Place) : List Component := place.map fun n => .name n.toList

theorem Place.steps_append (place place' : Place) :
    Place.steps (place ++ place') = Place.steps place ++ Place.steps place' := List.map_append

theorem Place.steps_injective {place place' : Place}
    (h : Place.steps place = Place.steps place') : place = place' :=
  List.map_injective_iff.2 (fun _ _ h => String.toList_inj.1 (Component.name.inj h)) h

theorem Place.steps_isPrefix_iff {place place' : Place} :
    Place.steps place <+: Place.steps place' ↔ place <+: place' := by
  constructor
  · intro h
    obtain ⟨ns, hns, hs⟩ := List.prefix_map_iff.1 h
    rwa [Place.steps_injective hs]
  · rintro ⟨ns, rfl⟩
    rw [Place.steps_append]
    exact List.prefix_append _ _

namespace FileTree

/-- The names of the places can be names of files. -/
def Named (t : FileTree) : Prop := ∀ x ∈ t.entries, ∀ n ∈ x.1, IsName n.toList

instance (t : FileTree) : Decidable t.Named :=
  inferInstanceAs (Decidable (∀ x ∈ t.entries, ∀ n ∈ x.1, IsName n.toList))

/-! ## Entries -/

theorem held_nil (t : FileTree) : t.entry? [] = some .folder := if_pos rfl

theorem lookup_cons_eq (q : Place) (x : Place × FileEntry) (xs : List (Place × FileEntry)) :
    (x :: xs).lookup q = if q = x.1 then some x.2 else xs.lookup q := by
  rw [List.lookup_cons]
  by_cases h : q = x.1
  · rw [if_pos h, beq_iff_eq.2 h]
  · rw [if_neg h, beq_eq_false_iff_ne.2 h]

theorem lookup_setIn (place q : Place) (e : FileEntry) (xs : List (Place × FileEntry)) :
    (setIn place e xs).lookup q = if q = place then some e else xs.lookup q := by
  induction xs with
  | nil => exact lookup_cons_eq q (place, e) []
  | cons x xs ih =>
    rw [setIn]
    by_cases hx : x.1 = place
    · rw [if_pos hx, lookup_cons_eq, lookup_cons_eq, hx]
      by_cases h : q = place
      · rw [if_pos h, if_pos h]
      · rw [if_neg h, if_neg h, if_neg h]
    · rw [if_neg hx, lookup_cons_eq, lookup_cons_eq, ih]
      by_cases h : q = x.1
      · rw [if_pos h, if_pos h, if_neg (fun h' => hx (h ▸ h'))]
      · rw [if_neg h, if_neg h]

/-- Setting an entry changes one place. -/
theorem held_set (t : FileTree) {place : Place} (h : place ≠ []) (e : FileEntry) (q : Place) :
    entry? (t.set place e) q = if q = place then some e else t.entry? q := by
  unfold entry? set
  rw [lookup_setIn]
  by_cases hq : q = []
  · rw [if_pos hq, if_pos hq, if_neg (fun h' : q = place => h (h' ▸ hq))]
  · rw [if_neg hq, if_neg hq]

theorem lookup_filter_not_prefix (place q : Place) (xs : List (Place × FileEntry)) :
    (xs.filter fun x => !place.isPrefixOf x.1).lookup q =
      if place <+: q then none else xs.lookup q := by
  induction xs with
  | nil => simp
  | cons x xs ih =>
    rw [List.filter_cons, lookup_cons_eq]
    by_cases hx : place <+: x.1
    · rw [List.isPrefixOf_iff_prefix.2 hx, Bool.not_true, if_neg Bool.false_ne_true, ih]
      by_cases h : place <+: q
      · rw [if_pos h, if_pos h]
      · rw [if_neg h, if_neg h, if_neg (fun hq : q = x.1 => h (hq ▸ hx))]
    · have hx' : place.isPrefixOf x.1 = false := by
        rwa [Bool.eq_false_iff, ne_eq, List.isPrefixOf_iff_prefix]
      rw [hx', Bool.not_false, if_pos rfl, lookup_cons_eq, ih]
      by_cases hq : q = x.1
      · have h : ¬place <+: q := hq ▸ hx
        rw [if_pos hq, if_pos hq, if_neg h]
      · rw [if_neg hq, if_neg hq]

/-- Removing a folder empties the places at and below it. -/
theorem held_removeUnder (t : FileTree) {place q : Place} (hq : q ≠ []) :
    entry? (t.removeUnder place) q = if place <+: q then none else t.entry? q := by
  unfold entry? removeUnder
  rw [if_neg hq, if_neg hq, lookup_filter_not_prefix]

/-! ## Walking -/

/-- What one piece of a path does to a place. -/
theorem step_eq_ok {t : FileTree} {place place' : Place} {piece : List Char}
    (h : t.step place piece = .ok place') :
    t.entry? place = some .folder ∧
      (Component.ofPiece? piece = none ∧ place' = place ∨
        Component.ofPiece? piece = some .parent ∧ place' = place.dropLast ∨
        Component.ofPiece? piece = some (.name piece) ∧ place' = place ++ [String.ofList piece] ∧
          (t.entry? place').isSome = true) := by
  rw [step] at h
  rw [Component.ofPiece?]
  split at h
  · cases h
  · cases h
  rename_i he
  refine ⟨he, ?_⟩
  split at h
  · rename_i hv
    rw [if_pos hv]
    exact .inl ⟨rfl, (Except.ok.inj h).symm⟩
  rename_i hv
  rw [if_neg hv]
  split at h
  · rename_i hp
    rw [if_pos hp]
    exact .inr (.inl ⟨rfl, (Except.ok.inj h).symm⟩)
  rename_i hp
  rw [if_neg hp]
  split at h
  · cases h
  dsimp only at h
  split at h
  · rename_i hs
    obtain rfl := Except.ok.inj h
    exact .inr (.inr ⟨rfl, rfl, hs⟩)
  · cases h

theorem walk_cons {t : FileTree} {place place' : Place} {x : List Char} {xs : List (List Char)}
    (h : t.walk place (x :: xs) = .ok place') :
    ∃ next, t.step place x = .ok next ∧ t.walk next xs = .ok place' := by
  rw [walk, List.foldlM_cons] at h
  rcases hs : t.step place x with e | next
  · rw [hs] at h
    cases h
  · rw [hs] at h
    exact ⟨next, rfl, h⟩

theorem walk_cons_of_ok {t : FileTree} {place next : Place} {x : List Char} {xs : List (List Char)}
    (h : t.step place x = .ok next) : t.walk place (x :: xs) = t.walk next xs := by
  rw [walk, List.foldlM_cons, h]
  rfl

/-- A walk along names of files leads to a place of such names. -/
theorem isName_of_walk {t : FileTree} {pieces : List (List Char)} (hs : ∀ x ∈ pieces, '/' ∉ x)
    {place place' : Place} (hp : ∀ n ∈ place, IsName n.toList)
    (h : t.walk place pieces = .ok place') : ∀ n ∈ place', IsName n.toList := by
  induction pieces generalizing place with
  | nil =>
    obtain rfl := Except.ok.inj h
    exact hp
  | cons x xs ih =>
    obtain ⟨next, hstep, h⟩ := walk_cons h
    refine ih (fun y hy => hs y (List.mem_cons_of_mem _ hy)) ?_ h
    obtain ⟨-, ⟨-, rfl⟩ | ⟨-, rfl⟩ | ⟨hx, rfl, -⟩⟩ := step_eq_ok hstep
    · exact hp
    · exact fun n hn => hp n ((List.dropLast_sublist _).subset hn)
    · refine List.forall_mem_append.2 ⟨hp, List.forall_mem_singleton.2 ?_⟩
      rw [String.toList_ofList]
      exact (isName_of_ofPiece? (hs x (List.mem_cons_self ..)) hx).2

/-- A walk without steps `..` adds its names to the place. -/
theorem steps_of_walk {t : FileTree} {pieces : List (List Char)}
    (hn : .parent ∉ pieces.filterMap Component.ofPiece?) {place place' : Place}
    (h : t.walk place pieces = .ok place') :
    place'.steps = place.steps ++ pieces.filterMap Component.ofPiece? := by
  induction pieces generalizing place with
  | nil =>
    obtain rfl := Except.ok.inj h
    exact (List.append_nil _).symm
  | cons x xs ih =>
    obtain ⟨next, hstep, hw⟩ := walk_cons h
    obtain ⟨-, ⟨hx, rfl⟩ | ⟨hx, rfl⟩ | ⟨hx, rfl, -⟩⟩ := step_eq_ok hstep
    · rw [List.filterMap_cons_none hx] at hn ⊢
      exact ih hn hw
    · rw [List.filterMap_cons_some hx] at hn
      exact absurd (List.mem_cons_self ..) hn
    · rw [List.filterMap_cons_some hx] at hn ⊢
      rw [ih (fun h' => hn (List.mem_cons_of_mem _ h')) hw, Place.steps_append, List.append_assoc]
      simp [Place.steps]

/-- One piece leads to the same place if the folder and what it leads to are still there. -/
theorem step_mono {t t' : FileTree} {place next : Place} {x : List Char}
    (h : t.step place x = .ok next) (hplace : t'.entry? place = some .folder)
    (hnext : ∀ e, t.entry? next = some e → t'.entry? next = some e) :
    t'.step place x = .ok next := by
  have hf := (step_eq_ok h).1
  simp only [step, hf] at h
  simp only [step, hplace]
  by_cases h1 : x = [] ∨ x = ['.']
  · rw [if_pos h1] at h ⊢
    exact h
  rw [if_neg h1] at h ⊢
  by_cases h2 : x = ['.', '.']
  · rw [if_pos h2] at h ⊢
    exact h
  rw [if_neg h2] at h ⊢
  by_cases h3 : nameLimit < Text.byteSize x
  · rw [if_pos h3] at h
    cases h
  rw [if_neg h3] at h ⊢
  by_cases hs : (t.entry? (place ++ [String.ofList x])).isSome = true
  · rw [if_pos hs] at h
    obtain rfl := Except.ok.inj h
    obtain ⟨e, he⟩ := Option.isSome_iff_exists.1 hs
    rw [hnext e he, if_pos (Option.isSome_some)]
  · rw [if_neg hs] at h
    cases h

/-- A walk without steps `..` needs only the entries on the way. -/
theorem walk_mono {t t' : FileTree} {pieces : List (List Char)}
    (hn : .parent ∉ pieces.filterMap Component.ofPiece?) {place place' : Place}
    (hkeep : ∀ q e, q <+: place' → t.entry? q = some e → t'.entry? q = some e)
    (h : t.walk place pieces = .ok place') : t'.walk place pieces = .ok place' := by
  induction pieces generalizing place with
  | nil => exact h
  | cons x xs ih =>
    obtain ⟨next, hstep, hw⟩ := walk_cons h
    have hxs : .parent ∉ xs.filterMap Component.ofPiece? := fun h' => hn (by
      rw [List.filterMap_cons]
      split
      · exact h'
      · exact List.mem_cons_of_mem _ h')
    have hprefix : next <+: place' := by
      rw [← Place.steps_isPrefix_iff, steps_of_walk hxs hw]
      exact List.prefix_append _ _
    suffices hstep' : t'.step place x = .ok next by
      rw [walk_cons_of_ok hstep']
      exact ih hxs hw
    obtain ⟨hf, hcase⟩ := step_eq_ok hstep
    have hpn : place <+: next := by
      obtain ⟨-, rfl⟩ | ⟨hx, -⟩ | ⟨-, rfl, -⟩ := hcase
      · exact List.prefix_rfl
      · refine absurd ?_ hn
        rw [List.filterMap_cons_some hx]
        exact List.mem_cons_self ..
      · exact List.prefix_append _ _
    exact step_mono hstep (hkeep place _ (hpn.trans hprefix) hf) fun e => hkeep next e hprefix

/-! ## Places of paths -/

theorem locate_eq_ok_iff {t : FileTree} {p : Path} {place : Place} :
    t.locate p = .ok place ↔ checkPath p = .ok () ∧ t.walk [] p.pieces = .ok place := by
  rw [locate]
  rcases checkPath p with e | ⟨⟩
  · exact ⟨fun h => (nomatch h), fun h => (nomatch h.1)⟩
  · exact ⟨fun h => ⟨rfl, h⟩, fun h => h.2⟩

theorem isName_of_locate {t : FileTree} {p : Path} {place : Place} (h : t.locate p = .ok place) :
    ∀ n ∈ place, IsName n.toList :=
  isName_of_walk (fun _ hx => Path.slash_not_mem_pieces hx) (fun _ hn => absurd hn List.not_mem_nil)
    (locate_eq_ok_iff.1 h).2

/-- A path without steps `..` leads to the place of its names. -/
theorem steps_of_locate {t : FileTree} {p : Path} {place : Place} (hp : .parent ∉ p.components)
    (h : t.locate p = .ok place) : place.steps = stepsOf p.chars := by
  have hn := mt p.mem_components_of_mem_stepsOf hp
  rw [Path.stepsOf_chars] at hn ⊢
  exact (steps_of_walk hn (locate_eq_ok_iff.1 h).2).trans (List.nil_append _)

/-- A path without steps `..` leads to the same place if the entries on the way are still there. -/
theorem locate_mono {t t' : FileTree} {p : Path} {place : Place} (hp : .parent ∉ p.components)
    (hkeep : ∀ q e, q <+: place → t.entry? q = some e → t'.entry? q = some e)
    (h : t.locate p = .ok place) : t'.locate p = .ok place := by
  have hn := mt p.mem_components_of_mem_stepsOf hp
  rw [Path.stepsOf_chars] at hn
  obtain ⟨hc, hw⟩ := locate_eq_ok_iff.1 h
  exact locate_eq_ok_iff.2 ⟨hc, walk_mono hn hkeep hw⟩

theorem toList_intercalate (place : Place) :
    ("/".intercalate place).toList = joinPieces (place.map String.toList) := by
  induction place with
  | nil => rfl
  | cons n place ih =>
    rcases place with _ | ⟨m, place⟩
    · rfl
    · rw [String.intercalate_cons_cons, String.toList_append, String.toList_append, ih,
        List.append_assoc]
      rfl

/-- The path of a place is spelled by its names. -/
theorem pathOf_eq (place : Place) :
    pathOf place = Path.ofPieces true (place.map String.toList) := by
  rw [pathOf, Path.ofPieces, if_pos rfl, Path.ofChars, ← toList_intercalate, Path.mk.injEq,
    ← String.toList_inj, String.toList_append]
  exact String.toList_ofList.symm

theorem components_pathOf {place : Place} (h : ∀ n ∈ place, IsName n.toList) :
    (pathOf place).components = .root :: place.steps := by
  have h' : ∀ n ∈ place.map String.toList, IsName n := by
    intro n hn
    obtain ⟨m, hm, rfl⟩ := List.mem_map.1 hn
    exact h m hm
  rw [pathOf_eq, Path.components_ofPieces_names h', List.map_map]
  rfl

theorem parent_not_mem_steps (place : Place) : Component.parent ∉ place.steps := by
  intro h
  obtain ⟨n, -, hn⟩ := List.mem_map.1 h
  cases hn

/-- The path of a place leads there, if it leads anywhere. -/
theorem eq_of_locate_pathOf {t : FileTree} {place place' : Place}
    (hn : ∀ n ∈ place, IsName n.toList) (h : t.locate (pathOf place) = .ok place') :
    place' = place := by
  have hc := components_pathOf hn
  have hparent : .parent ∉ (pathOf place).components := by
    rw [hc, List.mem_cons, not_or]
    exact ⟨nofun, parent_not_mem_steps place⟩
  have hsteps := steps_of_locate hparent h
  rw [Path.components_of_isAbsolute (Path.isAbsolute_of_components hc), List.cons.injEq] at hc
  exact Place.steps_injective (hsteps.trans hc.2)

theorem find?_eq_some_iff {t : FileTree} {p : Path} {e : FileEntry} :
    t.find? p = some e ↔ ∃ place, t.locate p = .ok place ∧ t.entry? place = some e := by
  rw [find?]
  rcases t.locate p with _ | place
  · exact ⟨fun h => (nomatch h), fun ⟨_, h, _⟩ => (nomatch h)⟩
  · exact ⟨fun h => ⟨place, rfl, h⟩, fun ⟨_, h, he⟩ => Except.ok.inj h ▸ he⟩

theorem readFile_eq_ok_iff {t : FileTree} {p : Path} {content : ByteArray} :
    t.readFile p = .ok content ↔
      ∃ place, t.locate p = .ok place ∧ t.entry? place = some (.file content) := by
  rw [readFile]
  rcases t.locate p with _ | place
  · exact ⟨fun h => (nomatch h), fun ⟨_, h, _⟩ => (nomatch h)⟩
  · simp only [bind, Except.bind]
    constructor
    · intro h
      split at h
      · rename_i he
        exact ⟨place, rfl, Except.ok.inj h ▸ he⟩
      · cases h
      · cases h
    · rintro ⟨_, h, he⟩
      rw [Except.ok.inj h, he]

theorem isFile_iff {t : FileTree} {p : Path} :
    t.isFile p = true ↔ ∃ content, t.readFile p = .ok content := by
  simp only [readFile_eq_ok_iff, isFile]
  constructor
  · intro h
    split at h
    · rename_i content hf
      exact ⟨content, find?_eq_some_iff.1 hf⟩
    · cases h
  · rintro ⟨content, h⟩
    rw [find?_eq_some_iff.2 h]

theorem isFolder_iff {t : FileTree} {p : Path} :
    t.isFolder p = true ↔ ∃ place, t.locate p = .ok place ∧ t.entry? place = some .folder := by
  rw [isFolder, beq_iff_eq, find?_eq_some_iff]

/-- The files at and below a path are found by the names on the way from there. -/
theorem exists_of_mem_files {t : FileTree} (ht : t.Named) {p s : Path} (h : s ∈ t.files p) :
    ∃ ns : List (List Char), (∀ n ∈ ns, IsName n) ∧
      s = ns.foldl (fun q n => q.join (Path.ofChars n)) p := by
  rw [files] at h
  split at h
  · rename_i place _
    obtain ⟨names, hn, rfl⟩ := List.mem_map.1 h
    rw [filesUnder, List.mem_mergeSort] at hn
    obtain ⟨x, hx, hn⟩ := List.mem_filterMap.1 hn
    refine ⟨names.map String.toList, fun n hn' => ?_, ?_⟩
    · obtain ⟨m, hm, rfl⟩ := List.mem_map.1 hn'
      refine ht x hx m ?_
      split at hn
      · split at hn
        · rw [← Option.some.inj hn] at hm
          exact List.mem_of_mem_drop hm
        · cases hn
      · cases hn
    · rw [List.foldl_map]
      simp only [Path.ofChars, String.ofList_toList]
  · cases h

/-! ## Making folders -/

/-- Folders were added where nothing stood, and nothing else was changed. -/
def AddsFolders (t t' : FileTree) : Prop :=
  ∀ q, t'.entry? q = t.entry? q ∨ t.entry? q = none ∧ t'.entry? q = some .folder

namespace AddsFolders

variable {t t' t'' : FileTree}

theorem refl (t : FileTree) : t.AddsFolders t := fun _ => .inl rfl

theorem trans (h : t.AddsFolders t') (h' : t'.AddsFolders t'') : t.AddsFolders t'' := by
  intro q
  rcases h q with h | ⟨h, hq⟩ <;> rcases h' q with h' | ⟨h', hq'⟩
  · exact .inl (h'.trans h)
  · exact .inr ⟨h ▸ h', hq'⟩
  · exact .inr ⟨h, h'.trans hq⟩
  · exact .inr ⟨h, hq'⟩

theorem keeps (h : t.AddsFolders t') {q : Place} {e : FileEntry}
    (he : t.entry? q = some e) : t'.entry? q = some e := by
  rcases h q with h | ⟨h, -⟩
  · rw [h, he]
  · rw [h] at he
    cases he

theorem file_iff (h : t.AddsFolders t') {q : Place} {content : ByteArray} :
    t'.entry? q = some (.file content) ↔ t.entry? q = some (.file content) := by
  refine ⟨fun he => ?_, h.keeps⟩
  rcases h q with h | ⟨-, h⟩
  · rw [← h, he]
  · rw [h] at he
    cases he

end AddsFolders

theorem addsFolders_createFolder {t t' : FileTree} {p : Path} (h : t.createFolder p = .ok t') :
    t.AddsFolders t' := by
  rw [createFolder] at h
  rcases hh : t.holder p (namePieces p) with e | place
  · simp [hh, bind, Except.bind] at h
  · simp only [hh, bind, Except.bind] at h
    split at h
    · cases h
    split at h
    · cases h
    split at h
    · cases h
    rename_i hs
    obtain rfl := Except.ok.inj h
    intro q
    rw [held_set t (by simp)]
    split
    · rename_i hq
      rw [hq]
      exact .inr ⟨by simpa using hs, rfl⟩
    · exact .inl rfl

theorem addsFolders_createFoldersWithin (bound : Nat) (t : FileTree) (p : Path) :
    t.AddsFolders (createFoldersWithin bound t p).1 := by
  induction bound generalizing t p with
  | zero => exact .refl t
  | succ bound ih =>
    rw [createFoldersWithin]
    dsimp only
    split
    · exact .refl t
    split
    · rename_i hc
      exact addsFolders_createFolder hc
    · split
      · exact .refl t
      · rename_i q _
        have hq := ih t q
        split
        · rename_i hr
          rw [hr] at hq
          exact hq
        · rename_i hr
          rw [hr] at hq
          split
          · rename_i hc
            exact hq.trans (addsFolders_createFolder hc)
          · exact hq
    · exact .refl t

/-- Making folders adds folders where nothing stood. -/
theorem addsFolders_createFolders (t : FileTree) (p : Path) :
    t.AddsFolders (t.createFolders p).1 := addsFolders_createFoldersWithin _ t p

end FileTree

end StaticSite
