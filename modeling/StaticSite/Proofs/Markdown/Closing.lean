import StaticSite.Markdown.Render

/-!
# Where constructs within a line end

A link ends with `)`, an address or raw HTML between angle brackets with `>`, and a character
reference with `;`. What a function that reads one of them leaves over follows that character, so
the construct ends where the character stands, and nowhere else.
-/

namespace StaticSite.Markdown

open Text

variable {s t r : List Char}

/-! ## Prefixes and suffixes -/

theorem suffix_of_cons_suffix {c : Char} (h : (c :: r) <:+ s) : r <:+ s :=
  (List.suffix_cons c r).trans h

theorem skipSeparator_suffix (s : List Char) : skipSeparator s <:+ s := by
  have h : s.dropWhile isLineSpace <:+ s := List.dropWhile_suffix _
  unfold skipSeparator
  split
  · rename_i t ht
    rw [ht] at h
    exact (List.dropWhile_suffix _).trans (suffix_of_cons_suffix h)
  · exact h

theorem splitBefore?_eq {pattern : List Char} {p : List Char × List Char}
    (h : splitBefore? pattern s = some p) : p.1 ++ p.2 = s ∧ pattern <+: p.2 := by
  induction s generalizing p with
  | nil =>
    unfold splitBefore? at h
    split at h
    · rename_i hpattern
      cases h
      rw [List.isEmpty_iff.1 hpattern]
      exact ⟨rfl, List.prefix_refl _⟩
    · cases h
  | cons c s ih =>
    unfold splitBefore? at h
    split at h
    · rename_i hpattern
      cases h
      exact ⟨rfl, List.isPrefixOf_iff_prefix.1 hpattern⟩
    · obtain ⟨q, hq, rfl⟩ := Option.map_eq_some_iff.1 h
      obtain ⟨happend, hprefix⟩ := ih hq
      exact ⟨by rw [List.cons_append, happend], hprefix⟩

/-- What stands behind a pattern follows its last character. -/
theorem behind?_suffix {c : Char} (h : behind? (t ++ [c]) s = some r) : (c :: r) <:+ s := by
  obtain ⟨p, hp, rfl⟩ := Option.map_eq_some_iff.1 h
  obtain ⟨rfl, u, hu⟩ := splitBefore?_eq hp
  rw [← hu, List.drop_left, List.append_assoc, ← List.append_assoc]
  exact List.suffix_append _ _

/-! ## Raw HTML -/

theorem tail_splitBefore?_suffix {pattern : List Char} {p : List Char × List Char}
    (h : splitBefore? pattern s = some p) : p.2.tail <:+ s := by
  rw [← (splitBefore?_eq h).1]
  exact (List.tail_suffix _).trans (List.suffix_append _ _)

theorem scanValue?_suffix (h : scanValue? s = some r) : r <:+ s := by
  unfold scanValue? at h
  split at h
  · cases h
  · obtain ⟨p, hp, rfl⟩ := Option.map_eq_some_iff.1 h
    exact (tail_splitBefore?_suffix hp).trans (List.suffix_cons _ _)
  · obtain ⟨p, hp, rfl⟩ := Option.map_eq_some_iff.1 h
    exact (tail_splitBefore?_suffix hp).trans (List.suffix_cons _ _)
  · split at h
    · cases h
    · cases h
      exact (List.dropWhile_suffix _).trans (List.suffix_cons _ _)

theorem scanAttribute?_suffix (h : scanAttribute? s = some r) : r <:+ s := by
  unfold scanAttribute? at h
  split at h
  · cases h
  · rename_i c s
    split at h
    · have hname : s.dropWhile continuesAttribute <:+ c :: s :=
        (List.dropWhile_suffix _).trans (List.suffix_cons _ _)
      dsimp only at h
      split at h
      · rename_i value hvalue
        have hsign : ('=' :: value) <:+ c :: s := by
          rw [← hvalue]
          exact (List.dropWhile_suffix _).trans hname
        exact (scanValue?_suffix h).trans
          ((List.dropWhile_suffix _).trans (suffix_of_cons_suffix hsign))
      · cases h
        exact hname
    · cases h

theorem scanAttributes?_suffix {fuel : Nat} (h : scanAttributes? fuel s = some r) :
    ('>' :: r) <:+ s := by
  induction fuel generalizing s with
  | zero => cases h
  | succ fuel ih =>
    have hblank : s.dropWhile isWhite <:+ s := List.dropWhile_suffix _
    unfold scanAttributes? at h
    split at h
    · rename_i rest hrest
      cases h
      rwa [hrest] at hblank
    · rename_i rest hrest
      cases h
      rw [hrest] at hblank
      exact suffix_of_cons_suffix hblank
    · cases h
    · split at h
      · obtain ⟨u, hu, hr⟩ := Option.bind_eq_some_iff.1 h
        exact (ih hr).trans ((scanAttribute?_suffix hu).trans hblank)
      · cases h

theorem scanTag?_suffix (h : scanTag? s = some r) : ('>' :: r) <:+ s := by
  unfold scanTag? at h
  split at h
  · rename_i c s
    have hname : (s.dropWhile continuesTagName).dropWhile isLineSpace <:+ '/' :: c :: s :=
      (List.dropWhile_suffix _).trans ((List.dropWhile_suffix _).trans
        ((List.suffix_cons _ _).trans (List.suffix_cons _ _)))
    split at h
    · split at h
      · rename_i rest hrest
        cases h
        rwa [hrest] at hname
      · cases h
    · cases h
  · split at h
    · exact (scanAttributes?_suffix h).trans
        ((List.dropWhile_suffix _).trans (List.suffix_cons _ _))
    · cases h
  · cases h

theorem scanDeclaration?_suffix (h : scanDeclaration? s = some r) : ('>' :: r) <:+ s := by
  unfold scanDeclaration? at h
  split at h
  · exact (behind?_suffix (t := ['?']) h).trans (List.suffix_cons _ _)
  · rename_i s
    have hdashes : s <:+ '!' :: '-' :: '-' :: s := List.suffix_append ['!', '-', '-'] s
    split at h
    · cases h
      exact hdashes
    · cases h
      exact suffix_of_cons_suffix hdashes
    · exact (behind?_suffix (t := ['-', '-']) h).trans hdashes
  · rename_i c s _
    have hmark : s <:+ '!' :: c :: s := List.suffix_append ['!', c] s
    split at h
    · exact (behind?_suffix (t := [']', ']']) h).trans hmark
    · split at h
      · exact (behind?_suffix (t := []) h).trans hmark
      · cases h
  · cases h

theorem scanAddress?_suffix {address : List Char} (h : scanAddress? s = some (address, r)) :
    ('>' :: r) <:+ s := by
  unfold scanAddress? at h
  split at h
  · cases h
  · dsimp only at h
    split at h
    · split at h
      · rename_i rest hrest
        cases h
        rw [← hrest]
        exact List.drop_suffix _ _
      · cases h
    · cases h

theorem scanMail?_suffix {address : List Char} (h : scanMail? s = some (address, r)) :
    ('>' :: r) <:+ s := by
  unfold scanMail? at h
  dsimp only at h
  split at h
  · rename_i t ht
    have hsign : ('@' :: t) <:+ s := by
      rw [← ht]
      exact List.drop_suffix _ _
    split at h
    · rename_i rest hrest
      split at h
      · cases h
        rw [← hrest]
        exact (List.drop_suffix _ _).trans (suffix_of_cons_suffix hsign)
      · cases h
    · cases h
  · cases h

/-! ## Links -/

theorem readPointed?_suffix {p : List Char × List Char} (h : readPointed? s = some p) :
    p.2 <:+ s := by
  fun_induction readPointed? s generalizing p with
  | case1 => cases h
  | case2 c s hc ih =>
    obtain ⟨q, hq, rfl⟩ := Option.map_eq_some_iff.1 h
    exact (ih hq).trans (List.suffix_append ['\\', c] s)
  | case3 c s hc ih =>
    obtain ⟨q, hq, rfl⟩ := Option.map_eq_some_iff.1 h
    exact (ih hq).trans (List.suffix_cons _ _)
  | case4 => cases h
  | case5 =>
    cases h
    exact List.suffix_cons _ _
  | case6 c s hc hn hend ih =>
    obtain ⟨q, hq, rfl⟩ := Option.map_eq_some_iff.1 h
    exact (ih hq).trans (List.suffix_cons _ _)

theorem readPlain?_suffix {opened : Nat} {p : List Char × List Char}
    (h : readPlain? opened s = some p) : p.2 <:+ s := by
  fun_induction readPlain? opened s generalizing p with
  | case1 =>
    cases h
    exact List.suffix_refl _
  | case2 => cases h
  | case3 opened c s hc ih =>
    obtain ⟨q, hq, rfl⟩ := Option.map_eq_some_iff.1 h
    exact (ih hq).trans (List.suffix_append ['\\', c] s)
  | case4 opened c s hc ih =>
    obtain ⟨q, hq, rfl⟩ := Option.map_eq_some_iff.1 h
    exact (ih hq).trans (List.suffix_cons _ _)
  | case5 =>
    cases h
    exact List.suffix_refl _
  | case6 => cases h
  | case7 => cases h
  | case8 =>
    rename_i ih
    obtain ⟨q, hq, rfl⟩ := Option.map_eq_some_iff.1 h
    exact (ih hq).trans (List.suffix_cons _ _)

theorem readAddress?_suffix {p : List Char × List Char} (h : readAddress? s = some p) :
    p.2 <:+ s := by
  unfold readAddress? at h
  split at h
  · exact (readPointed?_suffix h).trans (List.suffix_cons _ _)
  · exact readPlain?_suffix h

theorem readTitleFrom_suffix {opening closing : Char} {lineStart : Bool}
    {p : List Char × List Char} (h : readTitleFrom opening closing lineStart s = some p) :
    p.2 <:+ s := by
  fun_induction readTitleFrom opening closing lineStart s generalizing p with
  | case1 => cases h
  | case2 lineStart c s hc ih =>
    obtain ⟨q, hq, rfl⟩ := Option.map_eq_some_iff.1 h
    exact (ih hq).trans (List.suffix_append ['\\', c] s)
  | case3 lineStart c s hc ih =>
    obtain ⟨q, hq, rfl⟩ := Option.map_eq_some_iff.1 h
    exact (ih hq).trans (List.suffix_cons _ _)
  | case4 lineStart c s hc hblank ih => exact (ih h).trans (List.suffix_cons _ _)
  | case5 =>
    cases h
    exact List.suffix_cons _ _
  | case6 => cases h
  | case7 lineStart c s hc hblank hend hopen ih =>
    obtain ⟨q, hq, rfl⟩ := Option.map_eq_some_iff.1 h
    exact (ih hq).trans (List.suffix_cons _ _)

theorem readTitle?_suffix {p : List Char × List Char} (h : readTitle? s = some p) :
    p.2 <:+ s := by
  unfold readTitle? at h
  split at h
  · exact (readTitleFrom_suffix h).trans (List.suffix_cons _ _)
  · exact (readTitleFrom_suffix h).trans (List.suffix_cons _ _)
  · exact (readTitleFrom_suffix h).trans (List.suffix_cons _ _)
  · cases h

theorem readTarget?_suffix {target : Target} (h : readTarget? s = some (target, r)) :
    (')' :: r) <:+ s := by
  unfold readTarget? at h
  split at h
  · rename_i s
    split at h
    · cases h
    · rename_i address rest haddress
      have hrest : skipSeparator rest <:+ '(' :: s :=
        (skipSeparator_suffix rest).trans ((readAddress?_suffix haddress).trans
          ((skipSeparator_suffix s).trans (List.suffix_cons _ _)))
      dsimp only at h
      split at h
      · rename_i t ht
        cases h
        rw [← ht]
        rcases htitle : readTitle? (skipSeparator rest) with _ | p
        · exact hrest
        · exact (skipSeparator_suffix _).trans ((readTitle?_suffix htitle).trans hrest)
      · cases h
  · cases h

/-! ## Character references -/

/-- No link and no raw HTML ends in the text. -/
def EndsNothing (s : List Char) : Prop := ∀ c ∈ s, c ≠ '>' ∧ c ≠ ')'

theorem endsNothing_takeWhile {f : Char → Bool} (h : f '>' = false) (h' : f ')' = false)
    (s : List Char) : EndsNothing (s.takeWhile f) := by
  intro c hc
  have hf : f c = true := List.all_eq_true.1 List.all_takeWhile c hc
  refine ⟨fun he => ?_, fun he => ?_⟩
  · rw [he, h] at hf
    cases hf
  · rw [he, h'] at hf
    cases hf

theorem readNumber?_eq {isDigit : Char → Bool} (h : isDigit '>' = false)
    (h' : isDigit ')' = false) {base limit : Nat} {p : List Char × List Char}
    (hp : readNumber? isDigit base limit s = some p) :
    ∃ digits, s = digits ++ ';' :: p.2 ∧ EndsNothing digits := by
  refine ⟨(s.take limit).takeWhile isDigit, ?_, endsNothing_takeWhile h h' _⟩
  have hprefix : (s.take limit).takeWhile isDigit <+: s :=
    (List.takeWhile_prefix _).trans (List.take_prefix _ _)
  unfold readNumber? at hp
  dsimp only at hp
  split at hp
  · cases hp
  · rename_i rest hrest _
    cases hp
    obtain ⟨t, ht⟩ := hprefix
    have hdrop := congrArg (List.drop ((s.take limit).takeWhile isDigit).length) ht
    rw [List.drop_left, hrest] at hdrop
    rw [← hdrop, ht]
  · cases hp

/-- A character reference ends with the first semicolon behind its `&`. -/
theorem readReference?_eq {p : List Char × List Char} (h : readReference? s = some p) :
    ∃ name, s = name ++ ';' :: p.2 ∧ EndsNothing name := by
  have hnumber : ∀ {t u : List Char}, EndsNothing t →
      (∃ digits, u = digits ++ ';' :: p.2 ∧ EndsNothing digits) →
        ∃ name, t ++ u = name ++ ';' :: p.2 ∧ EndsNothing name := by
    rintro t _ ht ⟨digits, rfl, hdigits⟩
    exact ⟨t ++ digits, (List.append_assoc _ _ _).symm, List.forall_mem_append.2 ⟨ht, hdigits⟩⟩
  unfold readReference? at h
  split at h
  · exact hnumber (t := ['#', 'x']) (by simp [EndsNothing]) (readNumber?_eq rfl rfl h)
  · exact hnumber (t := ['#', 'X']) (by simp [EndsNothing]) (readNumber?_eq rfl rfl h)
  · exact hnumber (t := ['#']) (by simp [EndsNothing]) (readNumber?_eq rfl rfl h)
  · split at h
    · rename_i rest hrest
      obtain ⟨t, ht, rfl⟩ := Option.map_eq_some_iff.1 h
      refine ⟨s.takeWhile Char.isAlphanum, ?_, endsNothing_takeWhile rfl rfl s⟩
      rw [← hrest, List.takeWhile_append_dropWhile]
    · cases h

end StaticSite.Markdown
