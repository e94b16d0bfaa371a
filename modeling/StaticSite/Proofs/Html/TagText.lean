import Mathlib.Data.List.TakeWhile
import Mathlib.Tactic.Tauto
import StaticSite.Html.Token
import StaticSite.Html.Writer

/-!
# Tags that are written and read again

A tag is written with each value between double quotes, where a `"` in the value becomes `&quot;`.
The tag that is read from that text has the same name and the same attributes, with the values as
they were written (`Tag.ofContent_source`).

For this the text must be taken for one tag: the scanner ends a tag at the first `>` outside of
quotes, so the quotes in the text have to be closed, and no `>` may stand outside of them
(`isClosed`). Names and keys that were read can hold quotes, and these pair with the quotes around
the values.
-/

namespace StaticSite.Html

open StaticSite.Text

/-! ## Quotes -/

/-- The place behind a text, unless a `>` in it stands outside of quotes. -/
def Quoting.through : Quoting → List Char → Option Quoting
  | q, [] => some q
  | q, c :: s => if c = '>' ∧ q = .outside then none else (q.step c).through s

/-- Whether all quotes in the text are closed and no `>` stands outside of them. -/
def isClosed (s : List Char) : Bool := Quoting.outside.through s == some .outside

theorem isClosed_iff {s : List Char} :
    isClosed s = true ↔ Quoting.outside.through s = some .outside := beq_iff_eq

theorem Quoting.through_append (q : Quoting) (s t : List Char) :
    q.through (s ++ t) = (q.through s).bind (·.through t) := by
  induction s generalizing q with
  | nil => rfl
  | cons c s ih =>
    rw [List.cons_append, through, through]
    split
    · rfl
    · exact ih _

/-- Whether the character ends a tag, or opens or closes quotes. -/
def isTagMark (c : Char) : Bool := c == '"' || c == '\'' || c == '>'

theorem Quoting.through_plain {s : List Char} (h : ∀ c ∈ s, isTagMark c = false) :
    outside.through s = some .outside := by
  induction s with
  | nil => rfl
  | cons c s ih =>
    obtain ⟨hc, hs⟩ := List.forall_mem_cons.1 h
    have hne : c ≠ '>' ∧ ¬(c = '"' ∨ c = '\'') := by
      simp only [isTagMark, Bool.or_eq_false_iff, beq_eq_false_iff_ne] at hc
      tauto
    rw [through, if_neg fun h => hne.1 h.1, step, if_neg hne.2, ih hs]

theorem Quoting.through_within {q : Char} {s : List Char} (h : q ∉ s) :
    (within q).through (s ++ [q]) = some .outside := by
  induction s with
  | nil => simp [through, step]
  | cons c s ih =>
    rw [List.mem_cons, not_or] at h
    obtain ⟨hc, hs⟩ := h
    rw [List.cons_append, through, if_neg (by simp), step, if_neg (Ne.symm hc), ih hs]

/-- The scanner finds the end of a tag behind a text whose quotes are closed. -/
theorem Markup.cut?_tag {s : List Char} (h : isClosed s = true) (rest : List Char) :
    Markup.tag.cut? [] (s ++ '>' :: rest) = some (s, rest) := by
  have hcut : ∀ before : List Char,
      (before.foldr Quoting.step .outside).through s = some .outside →
        Markup.tag.cut? before (s ++ '>' :: rest) = some (before.reverse ++ s, rest) := by
    clear h
    induction s with
    | nil =>
      intro before h
      have hout : before.foldr Quoting.step .outside = .outside := Option.some.inj h
      rw [List.nil_append, Markup.cut?, if_pos ⟨rfl, beq_iff_eq.2 hout⟩, List.append_nil]
    | cons c s ih =>
      intro before h
      rw [Quoting.through] at h
      split at h
      · cases h
      · rename_i hc
        have hopen : ¬(c = '>' ∧ Markup.tag.closes before = true) :=
          fun hcl => hc ⟨hcl.1, beq_iff_eq.1 hcl.2⟩
        rw [List.cons_append, Markup.cut?, if_neg hopen, ih (c :: before) h]
        simp
  exact hcut [] (isClosed_iff.1 h)

/-! ## Attributes -/

/-- The text is read as the name of an attribute. -/
def IsKey (k : List Char) : Prop :=
  ∃ c s, k = c :: s ∧ isSpace c = false ∧ ∀ d ∈ s, continuesName d = true

/-- The attribute as it is read again. -/
def requoteAttr (a : String × String) : String × String := (a.1, mapChars attrChar a.2)

theorem quote_not_mem (v : List Char) : '"' ∉ v.flatMap attrChar := by
  intro h
  obtain ⟨c, -, hc⟩ := List.mem_flatMap.1 h
  rw [attrChar] at hc
  split at hc
  · exact absurd hc (by decide)
  · rename_i hne
    exact hne (List.mem_singleton.1 hc).symm

theorem attrChar_flatMap {v : List Char} (h : '"' ∉ v) : v.flatMap attrChar = v := by
  induction v with
  | nil => rfl
  | cons c v ih =>
    rw [List.mem_cons, not_or] at h
    obtain ⟨hc, hv⟩ := h
    rw [List.flatMap_cons, ih hv, attrChar, if_neg (Ne.symm hc)]
    rfl

theorem attrSource_requoteAttr (a : String × String) :
    attrSource (requoteAttr a) = attrSource a := by
  simp only [attrSource, requoteAttr, mapChars, String.toList_ofList,
    attrChar_flatMap (quote_not_mem _)]

theorem splitQuoted?_append {q : Char} {v : List Char} (h : q ∉ v) (rest : List Char) :
    splitQuoted? q (v ++ q :: rest) = some (v, rest) := by
  induction v with
  | nil => simp [splitQuoted?]
  | cons c v ih =>
    rw [List.mem_cons, not_or] at h
    obtain ⟨hc, hv⟩ := h
    rw [List.cons_append, splitQuoted?, if_neg (Ne.symm hc), ih hv]
    rfl

theorem readAttrs_nil (seen : List (List Char)) : readAttrs seen [] = [] := by
  rw [readAttrs]
  rfl

/-- An attribute that is written is read first. -/
theorem readAttrs_attrSource {a : String × String} (ha : IsKey a.1.toList)
    {seen : List (List Char)} (hseen : a.1.toList ∉ seen) (rest : List Char) :
    readAttrs seen (attrSource a ++ rest) =
      requoteAttr a :: readAttrs (a.1.toList :: seen) rest := by
  obtain ⟨c, k, hkey, hc, hk⟩ := ha
  obtain ⟨value, hvalue⟩ : ∃ value, value = '"' :: (a.2.toList.flatMap attrChar ++ '"' :: rest) :=
    ⟨_, rfl⟩
  have hspace : (attrSource a ++ rest).dropWhile isSpace = c :: (k ++ '=' :: value) := by
    have hsource : attrSource a ++ rest = ' ' :: c :: (k ++ '=' :: value) := by
      simp [attrSource, hkey, hvalue]
    rw [hsource, List.dropWhile_cons_of_pos (by decide), List.dropWhile_cons_of_neg (by simp [hc])]
  have hname : (k ++ '=' :: value).takeWhile continuesName = k := by
    rw [List.takeWhile_append_of_pos hk, List.takeWhile_cons_of_neg (by decide), List.append_nil]
  have hequals : ((k ++ '=' :: value).dropWhile continuesName).dropWhile isSpace =
      '=' :: value := by
    rw [List.dropWhile_append_of_pos hk, List.dropWhile_cons_of_neg (by decide),
      List.dropWhile_cons_of_neg (by decide)]
  have hquote : value.dropWhile isSpace = value := by
    rw [hvalue, List.dropWhile_cons_of_neg (by decide)]
  rw [readAttrs]
  split
  · rename_i hs
    rw [hspace] at hs
    cases hs
  rename_i hs
  rw [hspace] at hs
  cases hs
  dsimp only
  split
  · rename_i hv
    rw [hequals] at hv
    cases hv
    rw [hname, if_neg (hkey ▸ hseen)]
    split
    · rename_i hq
      rw [hquote, hvalue] at hq
      cases hq
    · rename_i hq
      rw [hquote, hvalue] at hq
      cases hq
      rw [if_pos (.inl rfl)]
      split
      · rename_i hr
        rw [splitQuoted?_append (quote_not_mem _)] at hr
        cases hr
      · rename_i hr
        rw [splitQuoted?_append (quote_not_mem _)] at hr
        cases hr
        rw [requoteAttr, mapChars, hkey, ← hkey, String.ofList_toList]
  · rename_i hne
    exact (hne _ hequals).elim

/-- The attributes that are written are the ones that are read. -/
theorem readAttrs_flatMap {attrs : List (String × String)} (hk : ∀ a ∈ attrs, IsKey a.1.toList)
    (hd : (attrs.map Prod.fst).Nodup) {seen : List (List Char)}
    (hseen : ∀ a ∈ attrs, a.1.toList ∉ seen) :
    readAttrs seen (attrs.flatMap attrSource) = attrs.map requoteAttr := by
  induction attrs generalizing seen with
  | nil => exact readAttrs_nil seen
  | cons a attrs ih =>
    obtain ⟨ha, hk⟩ := List.forall_mem_cons.1 hk
    obtain ⟨ha', hseen⟩ := List.forall_mem_cons.1 hseen
    rw [List.map_cons, List.nodup_cons] at hd
    rw [List.flatMap_cons, readAttrs_attrSource ha ha', List.map_cons]
    congr 1
    refine ih hk hd.2 fun b hb => ?_
    rw [List.mem_cons, not_or]
    refine ⟨fun heq => hd.1 ?_, hseen b hb⟩
    rw [← String.toList_inj.1 heq]
    exact List.mem_map_of_mem hb

/-- The names of the attributes are different keys, and none of them was seen before. -/
structure NewKeys (seen : List (List Char)) (attrs : List (String × String)) : Prop where
  isKey : ∀ a ∈ attrs, IsKey a.1.toList
  unseen : ∀ a ∈ attrs, a.1.toList ∉ seen
  nodup : (attrs.map Prod.fst).Nodup

namespace NewKeys

variable {seen : List (List Char)} {attrs : List (String × String)}

theorem nil : NewKeys seen [] :=
  ⟨fun _ h => absurd h List.not_mem_nil, fun _ h => absurd h List.not_mem_nil, List.nodup_nil⟩

theorem cons {name : List Char} (hname : IsKey name) (hseen : name ∉ seen) (value : String)
    (h : NewKeys (name :: seen) attrs) : NewKeys seen ((String.ofList name, value) :: attrs) := by
  refine ⟨List.forall_mem_cons.2 ⟨?_, h.isKey⟩, List.forall_mem_cons.2 ⟨?_, fun a ha hs => ?_⟩, ?_⟩
  · rwa [String.toList_ofList]
  · rwa [String.toList_ofList]
  · exact h.unseen a ha (List.mem_cons_of_mem _ hs)
  · rw [List.map_cons, List.nodup_cons]
    refine ⟨fun hmem => ?_, h.nodup⟩
    obtain ⟨a, ha, heq⟩ := List.mem_map.1 hmem
    refine h.unseen a ha ?_
    rw [heq, String.toList_ofList]
    exact List.mem_cons_self ..

end NewKeys

theorem dropWhile_eq_cons {p : Char → Bool} {s t : List Char} {c : Char}
    (h : s.dropWhile p = c :: t) : p c = false := by
  have := List.head?_dropWhile_not p s
  rw [h] at this
  simpa using this

/-- Every name that is read is a new key. -/
theorem readAttrs_newKeys (seen : List (List Char)) (s : List Char) :
    NewKeys seen (readAttrs seen s) := by
  have hkey : ∀ {s t : List Char} {c : Char}, s.dropWhile isSpace = c :: t →
      IsKey (c :: t.takeWhile continuesName) :=
    fun h => ⟨_, _, rfl, dropWhile_eq_cons h, fun _ hd => List.mem_takeWhile_imp hd⟩
  fun_induction readAttrs seen s with
  | case1 => exact .nil
  | case2 _ _ _ _ _ _ _ _ _ ih => exact ih
  | case3 => exact .nil
  | case4 => exact .nil
  | case5 _ _ _ _ hs _ _ _ hnew _ _ _ _ _ _ _ ih => exact .cons (hkey hs) hnew _ ih
  | case6 _ _ _ _ hs _ _ _ hnew _ _ _ _ ih => exact .cons (hkey hs) hnew _ ih
  | case7 _ _ _ _ _ _ _ _ ih => exact ih
  | case8 _ _ _ _ hs _ hnew _ ih => exact .cons (hkey hs) hnew _ ih

/-! ## Tags -/

/-- The tag as it is read again. -/
def Tag.requote (t : Tag) : Tag := { t with attrs := t.attrs.map requoteAttr }

/-- What holds of each tag that is read. -/
structure Tag.Lexical (t : Tag) : Prop where
  name : ∀ c ∈ t.name.toList, isSpace c = false
  keys : NewKeys [] t.attrs
  origin : t.origin = none

theorem Tag.ofContent_lexical (content : List Char) : (ofContent content).Lexical where
  name := by
    intro c hc
    rw [ofContent, String.toList_ofList] at hc
    simpa using List.mem_takeWhile_imp hc
  keys := readAttrs_newKeys [] _
  origin := rfl

theorem Tag.requote_source (t : Tag) : t.requote.source = t.source := by
  simp only [requote, source, List.flatMap_map, attrSource_requoteAttr]

/-- What is written of a tag is read as the tag, up to how it ends. -/
theorem Tag.Lexical.readSource {t : Tag} (h : t.Lexical) :
    String.ofList (t.source.takeWhile (!isSpace ·)) = t.name ∧
      readAttrs [] (t.source.dropWhile (!isSpace ·)) = t.attrs.map requoteAttr := by
  have hname : ∀ c ∈ t.name.toList, (!isSpace c) = true := fun c hc => by rw [h.name c hc]; rfl
  have hattrs : (t.attrs.flatMap attrSource).takeWhile (!isSpace ·) = [] ∧
      (t.attrs.flatMap attrSource).dropWhile (!isSpace ·) = t.attrs.flatMap attrSource := by
    rcases t.attrs with _ | ⟨a, attrs⟩
    · exact ⟨rfl, rfl⟩
    · exact ⟨rfl, rfl⟩
  rw [source, List.takeWhile_append_of_pos hname, List.dropWhile_append_of_pos hname, hattrs.1,
    hattrs.2, List.append_nil, String.ofList_toList]
  exact ⟨rfl, readAttrs_flatMap h.keys.isKey h.keys.nodup h.keys.unseen⟩

theorem Tag.ofContent_source {t : Tag} (h : t.Lexical) (hs : t.selfClosing = false)
    (hlast : t.source.getLast? ≠ some '/') : ofContent t.source = t.requote := by
  obtain ⟨hname, hattrs⟩ := h.readSource
  have hopen : (t.source.getLast? == some '/') = false := beq_eq_false_iff_ne.2 hlast
  have horigin := h.origin
  obtain ⟨name, attrs, selfClosing, origin⟩ := t
  subst hs horigin
  rw [ofContent, hopen]
  simp only [Bool.false_eq_true, if_false, hname, hattrs]
  rfl

theorem Tag.ofContent_source_slash {t : Tag} (h : t.Lexical) (hs : t.selfClosing = true) :
    ofContent (t.source ++ ['/']) = t.requote := by
  obtain ⟨hname, hattrs⟩ := h.readSource
  have horigin := h.origin
  obtain ⟨name, attrs, selfClosing, origin⟩ := t
  subst hs horigin
  rw [ofContent, List.getLast?_concat, List.dropLast_concat, beq_self_eq_true]
  simp only [if_true, hname, hattrs]
  rfl

end StaticSite.Html
