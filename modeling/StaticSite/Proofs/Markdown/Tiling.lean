import StaticSite.Markdown.Render

/-!
# Stretches of the source

What is read from a line of text covers its source from left to right. `Tiles` says so of a list of
pieces, each of which has a stretch of the source: nothing but backslashes is passed over between
one piece and the next, and nothing is covered twice.
-/

namespace StaticSite.Markdown

variable {src : List Char} {i j k : Nat}

/-- The characters of the source between two places. -/
def between (src : List Char) (i j : Nat) : List Char := (src.drop i).take (j - i)

theorem slice_toArray (src : List Char) (span : Span) :
    slice src.toArray span = between src span.start span.stop := by
  rw [slice, between]
  simp [List.extract_eq_take_drop]

theorem between_append (hij : i ≤ j) (hjk : j ≤ k) :
    between src i j ++ between src j k = between src i k := by
  have hk : k - i = (j - i) + (k - j) := by omega
  have hj : i + (j - i) = j := by omega
  rw [between, between, between, hk, List.take_add, List.drop_drop, hj]

@[simp] theorem between_self (src : List Char) (i : Nat) : between src i i = [] := by
  simp [between]

theorem length_between (hj : j ≤ src.length) : (between src i j).length = j - i := by
  rw [between, List.length_take, List.length_drop]
  omega

theorem between_eq_drop (hj : src.length ≤ j) : between src i j = src.drop i := by
  rw [between]
  exact List.take_of_length_le (by rw [List.length_drop]; omega)

theorem getElem?_between {n : Nat} :
    (between src i j)[n]? = if n < j - i then src[i + n]? else none := by
  rw [between, List.getElem?_take, List.getElem?_drop]

theorem mem_between {c : Char} (h : c ∈ between src i j) :
    ∃ n, i ≤ n ∧ n < j ∧ src[n]? = some c := by
  obtain ⟨n, hn⟩ := List.mem_iff_getElem?.1 h
  rw [getElem?_between] at hn
  split at hn
  · exact ⟨i + n, by omega, by omega, hn⟩
  · cases hn

theorem between_succ (hij : i ≤ j) {c : Char} (hc : src[j]? = some c) :
    between src i (j + 1) = between src i j ++ [c] := by
  have hj : j < src.length := (List.getElem?_eq_some_iff.1 hc).1
  rw [← between_append hij (Nat.le_succ j)]
  congr 1
  have hone : j.succ - j = 1 := by omega
  rw [between, hone, List.drop_eq_getElem_cons hj, (List.getElem?_eq_some_iff.1 hc).2]
  rfl

/-! ## Glyphs -/

open Reading

theorem glyphsAt_nil (p : Nat) : glyphsAt p [] = [] := rfl

theorem glyphsAt_cons (p : Nat) (c : Char) (s : List Char) :
    glyphsAt p (c :: s) = ⟨c, p, p + 1⟩ :: glyphsAt (p + 1) s := by
  rw [glyphsAt, List.zipIdx_cons, List.map_cons, List.zipIdx_succ, List.map_map, glyphsAt]
  congr 1
  refine List.map_congr_left fun x _ => ?_
  have hplace : p + (x.2 + 1) = p + 1 + x.2 := by omega
  simp [hplace]

theorem glyphsAt_append (p : Nat) (s t : List Char) :
    glyphsAt p (s ++ t) = glyphsAt p s ++ glyphsAt (p + s.length) t := by
  induction s generalizing p with
  | nil => rfl
  | cons c s ih =>
    rw [List.cons_append, glyphsAt_cons, glyphsAt_cons, ih, List.cons_append, List.length_cons,
      Nat.add_assoc, Nat.add_comm 1]

@[simp] theorem length_glyphsAt (p : Nat) (s : List Char) : (glyphsAt p s).length = s.length := by
  simp [glyphsAt]

@[simp] theorem map_char_glyphsAt (p : Nat) (s : List Char) :
    (glyphsAt p s).map Glyph.char = s := by
  induction s generalizing p with
  | nil => rfl
  | cons c s ih => rw [glyphsAt_cons, List.map_cons, ih]

theorem drop_glyphsAt (p n : Nat) (s : List Char) :
    (glyphsAt p s).drop n = glyphsAt (p + n) (s.drop n) := by
  induction n generalizing p s with
  | zero => rfl
  | succ n ih =>
    cases s with
    | nil => rfl
    | cons c s =>
      rw [glyphsAt_cons, List.drop_succ_cons, ih, List.drop_succ_cons, Nat.add_assoc,
        Nat.add_comm 1]

theorem take_glyphsAt (p n : Nat) (s : List Char) :
    (glyphsAt p s).take n = glyphsAt p (s.take n) := by
  induction n generalizing p s with
  | zero => rfl
  | succ n ih =>
    cases s with
    | nil => rfl
    | cons c s => rw [glyphsAt_cons, List.take_succ_cons, ih, List.take_succ_cons, glyphsAt_cons]

theorem takeWhile_glyphsAt (p : Nat) (f : Char → Bool) (s : List Char) :
    ((glyphsAt p s).takeWhile fun g => f g.char) = glyphsAt p (s.takeWhile f) := by
  induction s generalizing p with
  | nil => rfl
  | cons c s ih =>
    rw [glyphsAt_cons, List.takeWhile_cons, List.takeWhile_cons]
    dsimp only
    split
    · rw [glyphsAt_cons, ih]
    · rfl

/-- The glyphs without those before a place are the glyphs from there on. -/
theorem dropWhile_glyphsAt (p q : Nat) (s : List Char) :
    ((glyphsAt p s).dropWhile (·.start < q)) = glyphsAt (max p q) (s.drop (q - p)) := by
  induction s generalizing p with
  | nil => simp [glyphsAt_nil]
  | cons c s ih =>
    rw [glyphsAt_cons, List.dropWhile_cons]
    by_cases h : p < q
    · obtain ⟨n, hn⟩ : ∃ n, q - p = n + 1 := ⟨q - p - 1, by omega⟩
      have hmax : max (p + 1) q = max p q := by omega
      have hdrop : q - (p + 1) = n := by omega
      rw [if_pos (by simpa using h), ih, hn, List.drop_succ_cons, hmax, hdrop]
    · have hq : q - p = 0 := by omega
      have hmax : max p q = p := by omega
      rw [if_neg (by simpa using h), hq, hmax, List.drop_zero, glyphsAt_cons]

theorem stopOf_glyphsAt {place p : Nat} {s : List Char} (h : s ≠ [] ∨ place = p) :
    stopOf place (glyphsAt p s) = p + s.length := by
  rcases List.eq_nil_or_concat s with rfl | ⟨t, c, rfl⟩
  · exact h.resolve_left fun h => h rfl
  · rw [List.concat_eq_append, glyphsAt_append, stopOf, glyphsAt_cons, glyphsAt_nil,
      List.getLast?_append, List.length_append]
    rfl

/-! ## Tilings -/

/-- Only backslashes stand between two places. -/
structure Gap (src : List Char) (i j : Nat) : Prop where
  le : i ≤ j
  slashes : ∀ n, i ≤ n → n < j → src[n]? = some '\\'

theorem Gap.refl (i : Nat) : Gap src i i := ⟨Nat.le_refl i, fun n h h' => by omega⟩

/-- Of a gap nothing is left without its backslashes. -/
theorem Gap.filter_between (h : Gap src i j) : (between src i j).filter (· != '\\') = [] := by
  refine List.filter_eq_nil_iff.2 fun c hc => ?_
  obtain ⟨n, hi, hj, hn⟩ := mem_between hc
  rw [h.slashes n hi hj] at hn
  cases hn
  simp

theorem Gap.trans (h : Gap src i j) (h' : Gap src j k) : Gap src i k := by
  refine ⟨Nat.le_trans h.le h'.le, fun n hi hk => ?_⟩
  by_cases hj : n < j
  · exact h.slashes n hi hj
  · exact h'.slashes n (Nat.le_of_not_lt hj) hk

theorem Gap.slash (h : src[i]? = some '\\') : Gap src i (i + 1) :=
  ⟨Nat.le_succ i, fun n hi hlt => by rwa [show n = i by omega]⟩

/-- What is left of a gap behind a place in it is a gap. -/
theorem Gap.from (h : Gap src i k) (hij : i ≤ j) (hjk : j ≤ k) : Gap src j k :=
  ⟨hjk, fun n hj hk => h.slashes n (Nat.le_trans hij hj) hk⟩

section Tiles

variable {α : Type} {span : α → Span} {ok : α → Prop} {x : α} {xs ys : List α}

/-- The pieces cover the source between two places but for backslashes, and `ok` holds of each. -/
inductive Tiles (src : List Char) (span : α → Span) (ok : α → Prop) :
    Nat → List α → Nat → Prop where
  | nil {i j : Nat} (h : Gap src i j) : Tiles src span ok i [] j
  | cons {i j : Nat} {x : α} {xs : List α} (h : Gap src i (span x).start)
      (hlt : (span x).start < (span x).stop) (hx : ok x)
      (hxs : Tiles src span ok (span x).stop xs j) : Tiles src span ok i (x :: xs) j

namespace Tiles

theorem le (h : Tiles src span ok i xs j) : i ≤ j := by
  induction h with
  | nil h => exact h.le
  | cons h hlt _ _ ih => exact Nat.le_trans h.le (Nat.le_trans (Nat.le_of_lt hlt) ih)

theorem behind (h : Gap src i j) (hxs : Tiles src span ok j xs k) : Tiles src span ok i xs k := by
  cases hxs with
  | nil h' => exact .nil (h.trans h')
  | cons h' hlt hx hxs => exact .cons (h.trans h') hlt hx hxs

theorem append (h : Tiles src span ok i xs j) (h' : Tiles src span ok j ys k) :
    Tiles src span ok i (xs ++ ys) k := by
  induction h with
  | nil h => exact h'.behind h
  | cons h hlt hx _ ih => exact .cons h hlt hx (ih h')

theorem single (h : Gap src i (span x).start) (hlt : (span x).start < (span x).stop) (hx : ok x) :
    Tiles src span ok i [x] (span x).stop :=
  .cons h hlt hx (.nil (.refl _))

theorem forall_mem (h : Tiles src span ok i xs j) : ∀ x ∈ xs, ok x := by
  induction h with
  | nil _ => exact fun x hx => absurd hx List.not_mem_nil
  | cons _ _ hx _ ih => exact List.forall_mem_cons.2 ⟨hx, ih⟩

theorem bounds (h : Tiles src span ok i xs j) :
    ∀ x ∈ xs, i ≤ (span x).start ∧ (span x).stop ≤ j := by
  induction h with
  | nil _ => exact fun x hx => absurd hx List.not_mem_nil
  | cons h hlt _ hxs ih =>
    refine List.forall_mem_cons.2 ⟨⟨h.le, hxs.le⟩, fun x hx => ⟨?_, (ih x hx).2⟩⟩
    exact Nat.le_trans h.le (Nat.le_trans (Nat.le_of_lt hlt) (ih x hx).1)

/-- The sources of the pieces make the source without some of its backslashes. -/
theorem sources (h : Tiles src span ok i xs j) :
    let s := xs.flatMap fun x => between src (span x).start (span x).stop
    s.Sublist (between src i j) ∧
      s.filter (· != '\\') = (between src i j).filter (· != '\\') := by
  induction h with
  | nil h => exact ⟨List.nil_sublist _, h.filter_between.symm⟩
  | @cons i j x xs h hlt hx hxs ih =>
    obtain ⟨hsub, hfilter⟩ := ih
    dsimp only
    rw [List.flatMap_cons, ← between_append h.le (Nat.le_trans (Nat.le_of_lt hlt) hxs.le),
      ← between_append (Nat.le_of_lt hlt) hxs.le]
    refine ⟨(hsub.append_left _).trans (List.sublist_append_right _ _), ?_⟩
    rw [List.filter_append, hfilter, List.filter_append, h.filter_between, List.nil_append,
      List.filter_append]

/-- Without backslashes, the sources of the pieces make the source. -/
theorem sources_eq (h : Tiles src span ok i xs j) (hslash : '\\' ∉ between src i j) :
    (xs.flatMap fun x => between src (span x).start (span x).stop) = between src i j := by
  obtain ⟨hsub, hfilter⟩ := h.sources
  have hkeep : ∀ {s : List Char}, '\\' ∉ s → s.filter (· != '\\') = s := by
    intro s hs
    refine List.filter_eq_self.2 fun c hc => ?_
    have hne : c ≠ '\\' := fun h => hs (h ▸ hc)
    simpa using hne
  rwa [hkeep hslash, hkeep fun h => hslash (hsub.subset h)] at hfilter

end Tiles

end Tiles

end StaticSite.Markdown
