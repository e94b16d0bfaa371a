import StaticSite.Component.Property
import StaticSite.Proofs.Html.RoundTrip

/-!
# Well-formed documents

A well-formed document is written to a text that is read as the same document (`parse_serialize`).
It is one that could be written by hand without surprises: tags with plain names and keys, values
without `"`, text where each `<` is followed by what opens no markup, scripts and styles without
their own end tag, and comments and the like without what could end them.
-/

namespace StaticSite.Html

open StaticSite.Text

/-! ## Characters of names -/

theorem isAttrChar_of_isAlpha {c : Char} (h : c.isAlpha = true) : isAttrChar c = true := by
  simp [isAttrChar, Char.isAlphanum, h]

/-- What a character of a name is not: white space, a mark of a tag, `=` or `/`. -/
theorem isAttrChar_plain {c : Char} (h : isAttrChar c = true) :
    isSpace c = false ∧ isTagMark c = false ∧ continuesName c = true ∧ c ≠ '/' := by
  have hne : ∀ d, isAttrChar d = false → c ≠ d := by
    rintro d hd rfl
    rw [hd] at h
    cases h
  have hspace : isSpace c = false := by
    simp only [isSpace, Bool.or_eq_false_iff, beq_eq_false_iff_ne]
    exact ⟨⟨⟨hne ' ' (by decide), hne '\t' (by decide)⟩, hne '\r' (by decide)⟩,
      hne '\n' (by decide)⟩
  refine ⟨hspace, ?_, ?_, hne '/' (by decide)⟩
  · simp only [isTagMark, Bool.or_eq_false_iff, beq_eq_false_iff_ne]
    exact ⟨⟨hne '"' (by decide), hne '\'' (by decide)⟩, hne '>' (by decide)⟩
  · rw [continuesName, hspace, bne_iff_ne.2 (hne '=' (by decide))]
    rfl

/-! ## Tags -/

/-- The tag says nothing that cannot be written as it is. -/
structure Tag.WellFormed (t : Tag) : Prop where
  origin : t.origin = none
  head : t.name.toList.head?.any Char.isAlpha = true
  name : ∀ c ∈ t.name.toList, isAttrChar c = true
  keys : ∀ a ∈ t.attrs, isAttrName a.1 = true
  nodup : (t.attrs.map Prod.fst).Nodup
  values : ∀ a ∈ t.attrs, '"' ∉ a.2.toList

instance (t : Tag) : Decidable t.WellFormed :=
  decidable_of_iff
    (t.origin = none ∧ t.name.toList.head?.any Char.isAlpha = true ∧
      t.name.toList.all isAttrChar = true ∧ (∀ a ∈ t.attrs, isAttrName a.1 = true) ∧
      (t.attrs.map Prod.fst).Nodup ∧ ∀ a ∈ t.attrs, '"' ∉ a.2.toList)
    ⟨fun ⟨origin, head, name, keys, nodup, values⟩ =>
        ⟨origin, head, List.all_eq_true.1 name, keys, nodup, values⟩,
      fun h => ⟨h.origin, h.head, List.all_eq_true.2 h.name, h.keys, h.nodup, h.values⟩⟩

theorem isClosed_append {s t : List Char} (hs : isClosed s = true) (ht : isClosed t = true) :
    isClosed (s ++ t) = true := by
  rw [isClosed_iff, Quoting.through_append, isClosed_iff.1 hs]
  exact isClosed_iff.1 ht

theorem isClosed_of_isAttrChar {s : List Char} (h : ∀ c ∈ s, isAttrChar c = true) :
    isClosed s = true :=
  isClosed_iff.2 (Quoting.through_plain fun c hc => (isAttrChar_plain (h c hc)).2.1)

theorem isAttrName_iff {key : String} :
    isAttrName key = true ↔ key.toList ≠ [] ∧ ∀ c ∈ key.toList, isAttrChar c = true := by
  simp [isAttrName, List.all_eq_true]

theorem isKey_of_isAttrName {key : String} (h : isAttrName key = true) : IsKey key.toList := by
  obtain ⟨hne, hchars⟩ := isAttrName_iff.1 h
  obtain ⟨c, s, hkey⟩ := List.exists_cons_of_ne_nil hne
  rw [hkey] at hchars
  obtain ⟨hc, hs⟩ := List.forall_mem_cons.1 hchars
  exact ⟨c, s, hkey, (isAttrChar_plain hc).1, fun d hd => (isAttrChar_plain (hs d hd)).2.2.1⟩

theorem isClosed_attrSource {a : String × String} (h : isAttrName a.1 = true) :
    isClosed (attrSource a) = true := by
  have hkey := isClosed_of_isAttrChar (isAttrName_iff.1 h).2
  have hvalue : isClosed ('"' :: (a.2.toList.flatMap attrChar ++ ['"'])) = true :=
    isClosed_iff.2 (Quoting.through_within (quote_not_mem _))
  have hsource : attrSource a =
      [' '] ++ (a.1.toList ++ (['='] ++ '"' :: (a.2.toList.flatMap attrChar ++ ['"']))) := by
    simp [attrSource]
  rw [hsource]
  exact isClosed_append (by decide) (isClosed_append hkey (isClosed_append (by decide) hvalue))

namespace Tag.WellFormed

variable {t : Tag} (h : t.WellFormed)

include h

theorem lexical : t.Lexical where
  name c hc := (isAttrChar_plain (h.name c hc)).1
  keys := ⟨fun a ha => isKey_of_isAttrName (h.keys a ha), fun _ _ => List.not_mem_nil, h.nodup⟩
  origin := h.origin

theorem source_closed : isClosed t.source = true := by
  have hattrs : ∀ attrs : List (String × String), (∀ a ∈ attrs, isAttrName a.1 = true) →
      isClosed (attrs.flatMap attrSource) = true := by
    intro attrs
    induction attrs with
    | nil => exact fun _ => rfl
    | cons a attrs ih =>
      intro hkeys
      obtain ⟨ha, hkeys⟩ := List.forall_mem_cons.1 hkeys
      exact isClosed_append (isClosed_attrSource ha) (ih hkeys)
  exact isClosed_append (isClosed_of_isAttrChar h.name) (hattrs _ h.keys)

theorem source_getLast : t.source.getLast? ≠ some '/' := by
  intro hlast
  rcases List.eq_nil_or_concat t.attrs with hattrs | ⟨attrs, a, hattrs⟩
  · rw [Tag.source, hattrs, List.flatMap_nil, List.append_nil] at hlast
    exact (isAttrChar_plain (h.name _ (List.mem_of_getLast? hlast))).2.2.2 rfl
  · have hsource : ∃ s, t.source = s ++ ['"'] := by
      refine ⟨t.name.toList ++ (attrs.flatMap attrSource ++
        (' ' :: a.1.toList ++ "=\"".toList ++ a.2.toList.flatMap attrChar)), ?_⟩
      simp [Tag.source, hattrs, attrSource]
    obtain ⟨s, hs⟩ := hsource
    rw [hs, List.getLast?_concat] at hlast
    exact absurd hlast (by decide)

theorem isLegible : t.isLegible = true := by
  rw [Tag.isLegible, h.head, h.source_closed, bne_iff_ne.2 h.source_getLast,
    isClosed_of_isAttrChar h.name, Bool.or_true, Bool.or_true]
  rfl

theorem requote_eq : t.requote = t := by
  have hattrs : t.attrs.map requoteAttr = t.attrs := by
    refine List.map_congr_left (fun a ha => ?_) |>.trans (List.map_id _)
    rw [requoteAttr, mapChars, attrChar_flatMap (h.values a ha), String.ofList_toList]
    rfl
  rw [Tag.requote, hattrs]

end Tag.WellFormed

/-! ## Nodes -/

/-- A node that can be written as it is. -/
inductive Node.WellFormed : Node → Prop where
  | text {s : String} (nonempty : s ≠ "") (unmarked : byteOrderMark ∉ s.toList)
      (plain : s.toList.IsChain fun c d => c = '<' → opensMarkup d = false) :
      Node.WellFormed (.text s)
  | comment {s : String} (plain : '>' ∉ s.toList) : Node.WellFormed (.comment s)
  | cdata {s : String} (plain : '>' ∉ s.toList) : Node.WellFormed (.cdata s)
  | instruction {s : String} (head : s.toList.head?.any Char.isAlpha = true)
      (plain : '>' ∉ s.toList ∧ '?' ∉ s.toList) : Node.WellFormed (.instruction s)
  | doctype {s : String} (head : s.toList.head?.any Char.isAlpha = true)
      (plain : ∀ c ∈ s.toList, c.isAlphanum = true ∨ c = ' ') : Node.WellFormed (.doctype s)
  | childless {t : Tag} (ht : t.WellFormed) (h : t.selfClosing = true ∨ isVoid t.name = true) :
      Node.WellFormed (.element t [])
  | emptyRaw {t : Tag} (ht : t.WellFormed) (raw : isRawText t.name = true) :
      Node.WellFormed (.element t [])
  | raw {t : Tag} {s : String} (ht : t.WellFormed) (open' : t.selfClosing = false)
      (raw : isRawText t.name = true) (nonempty : s ≠ "")
      (plain : ∀ a b c, s.toList = a ++ '<' :: '/' :: (b ++ c) → lower b ≠ lower t.name.toList) :
      Node.WellFormed (.element t [.text s])
  | element {t : Tag} {cs : Forest} (ht : t.WellFormed) (open' : t.selfClosing = false)
      (notVoid : isVoid t.name = false) (notRaw : isRawText t.name = false) (apart : Apart cs)
      (children : ∀ n ∈ cs, Node.WellFormed n) : Node.WellFormed (.element t cs)

/-- A document that can be written as it is. -/
structure WellFormed (ns : Forest) : Prop where
  apart : Apart ns
  nodes : ∀ n ∈ ns, n.WellFormed

/-! ## Writing and reading -/

theorem runsOn_of_isChain {s : List Char} (hu : byteOrderMark ∉ s)
    (h : s.IsChain fun c d => c = '<' → opensMarkup d = false) : runsOn s = true := by
  induction s with
  | nil => rfl
  | cons c s ih =>
    rw [List.mem_cons, not_or] at hu
    obtain ⟨hnext, hchain⟩ := List.isChain_cons.1 h
    rw [runsOn, ih hu.2 hchain, Bool.and_true]
    by_cases hc : c = '<'
    · rcases s with _ | ⟨d, s⟩
      · simp
      · have hd : d ≠ byteOrderMark := fun hd => hu.2 (hd ▸ List.mem_cons_self ..)
        simp [leavesText, hnext d rfl hc, hd]
    · simp [hc]

theorem isVoid_of_isRawText {name : String} (h : isRawText name = true) : isVoid name = false := by
  obtain ⟨raw, hraw, hsame⟩ := List.any_eq_true.1 h
  have hdistinct : ∀ v ∈ voidNames, ∀ raw ∈ rawTextNames,
      lower v.toList ≠ lower raw.toList := by decide
  rw [isVoid, List.any_eq_false]
  intro v hv hname
  exact hdistinct v hv raw hraw ((beq_iff_eq.1 hname).trans (beq_iff_eq.1 hsame).symm)

namespace Node.WellFormed

variable {n : Node}

theorem markup_rescanned (h : n.WellFormed) (hn : n.isMarkup = true) : n.Rescanned := by
  cases h with
  | @comment s plain =>
    refine comment_rescanned (Markup.isContent_of_not_mem (by simp [plain]) ?_)
    have hreverse : ('!' :: '-' :: '-' :: (s.toList ++ ['-', '-'])).reverse =
        '-' :: '-' :: (s.toList.reverse ++ ['-', '-', '!']) := by simp
    rw [hreverse]
    rcases s.toList.reverse with _ | ⟨c, _ | ⟨d, _ | ⟨e, t⟩⟩⟩
    all_goals rfl
  | @cdata s plain =>
    refine cdata_rescanned (Markup.isContent_of_not_mem (by simp [plain]) ?_)
    simp [Markup.closes]
  | @instruction s head plain =>
    refine instruction_rescanned (Markup.isContent_of_not_mem (by simp [plain.1]) ?_)
    simp [Markup.closes]
  | @doctype s head plain =>
    have hplain : ∀ c ∈ '!' :: ("DOCTYPE ".toList ++ s.toList), c ≠ '<' ∧ c ≠ '>' := by
      refine List.forall_mem_append.2 ⟨doctype_keyword_plain, fun c hc => ⟨?_, ?_⟩⟩
      · rintro rfl
        exact absurd (plain _ hc) (by decide)
      · rintro rfl
        exact absurd (plain _ hc) (by decide)
    have hstart : ∃ c t, s.toList = c :: t ∧ isSpace c = false := by
      rcases hs : s.toList with _ | ⟨c, t⟩
      · rw [hs] at head
        cases head
      · rw [hs] at head
        exact ⟨c, t, rfl, (isAttrChar_plain (isAttrChar_of_isAlpha head)).1⟩
    refine doctype_rescanned hstart (Markup.isContent_of_not_mem (fun h => (hplain _ h).2 rfl) ?_)
    rw [Markup.closes, Markup.depthFromEnd_plain fun c hc => hplain c (List.mem_reverse.1 hc)]
    rfl
  | text | childless | emptyRaw | raw | element => cases hn

end Node.WellFormed

/-- What is written of the node is read as the node itself. -/
structure Node.Faithful (n : Node) : Prop where
  shaped : n.Shaped
  legible : ∀ fresh, n.legible fresh = true
  requote : n.mapTags Tag.requote = n

/-- What is written of the forest is read as the forest itself. -/
structure Faithful (ns : Forest) : Prop where
  shaped : Shaped ns
  legible : ∀ fresh, legible fresh ns = true
  requote : mapTags Tag.requote ns = ns

theorem rawText_toList {s : String} (h : s ≠ "") : rawText s.toList = [.text s] := by
  rw [rawText, String.ofList_toList, if_neg fun hs => h (String.toList_eq_nil_iff.1 ?_)]
  exact List.isEmpty_iff.1 hs

section Faithful

variable {t : Tag} (ht : t.WellFormed)

include ht

theorem faithful_childless (h : t.isChildless = true) : (Node.element t []).Faithful where
  shaped := .childless ht.lexical h
  legible fresh := by
    rw [Node.legible, ht.isLegible, legible, Bool.or_true, Bool.and_true]
  requote := by rw [Node.mapTags, ht.requote_eq, mapTags]

theorem faithful_raw (h : t.isChildless = false) (hraw : isRawText t.name = true) {s : List Char}
    (hs : (splitContent t.name.toList s).2 = []) : (Node.element t (rawText s)).Faithful where
  shaped := .raw ht.lexical h hraw hs
  legible fresh := by rw [Node.legible, ht.isLegible, hraw, Bool.true_or, Bool.and_true]
  requote := by rw [Node.mapTags, ht.requote_eq, mapTags_rawText]

theorem faithful_element (h : t.isChildless = false) (hraw : isRawText t.name = false)
    {cs : Forest} (hcs : Faithful cs) : (Node.element t cs).Faithful where
  shaped := .element ht.lexical h hraw hcs.shaped.apart hcs.shaped.nodes
  legible fresh := by
    rw [Node.legible, ht.isLegible, hcs.legible, Bool.or_true, Bool.and_true]
  requote := by rw [Node.mapTags, ht.requote_eq, hcs.requote]

end Faithful

theorem Node.WellFormed.faithful {n : Node} (h : n.WellFormed)
    (hchildren : ∀ t cs, n = .element t cs → Html.WellFormed cs → Html.Faithful cs) :
    n.Faithful := by
  rcases hm : n.isMarkup with _ | _
  · cases h with
    | @text s nonempty unmarked plain =>
      refine ⟨.text nonempty, fun fresh => ?_, rfl⟩
      have hhead : s.toList.head? ≠ some byteOrderMark :=
        fun h => unmarked (List.mem_of_mem_head? h)
      rw [Node.legible, runsOn_of_isChain unmarked plain, beq_eq_false_iff_ne.2 hhead,
        Bool.and_false]
      rfl
    | childless ht h => exact faithful_childless ht (Bool.or_eq_true_iff.2 h)
    | @emptyRaw t ht raw =>
      rcases hself : t.selfClosing with _ | _
      · have hchildless : t.isChildless = false := by
          rw [Tag.isChildless, hself, isVoid_of_isRawText raw, Bool.or_false]
        exact faithful_raw (s := []) ht hchildless raw rfl
      · exact faithful_childless ht (by rw [Tag.isChildless, hself, Bool.true_or])
    | @raw t s ht opened raw nonempty plain =>
      have hchildless : t.isChildless = false := by
        rw [Tag.isChildless, opened, isVoid_of_isRawText raw, Bool.or_false]
      have := faithful_raw ht hchildless raw (splitContent_snd_eq_nil_iff.2 plain)
      rwa [rawText_toList nonempty] at this
    | element ht opened notVoid notRaw apart children =>
      have hchildless := Bool.or_eq_false_iff.2 ⟨opened, notVoid⟩
      exact faithful_element ht hchildless notRaw (hchildren _ _ rfl ⟨apart, children⟩)
    | comment | cdata | instruction | doctype => cases hm
  · refine ⟨.markup hm (h.markup_rescanned hm), fun fresh => ?_, ?_⟩
    · cases n <;> first | rfl | cases hm
    · cases n <;> first | rfl | cases hm

theorem Faithful.cons {n : Node} {ns : Forest} (hn : n.Faithful) (hns : Faithful ns)
    (h : Apart (n :: ns)) : Faithful (n :: ns) where
  shaped := ⟨h, List.forall_mem_cons.2 ⟨hn.shaped, hns.shaped.nodes⟩⟩
  legible fresh := by rw [Html.legible, hn.legible, hns.legible, Bool.true_and]
  requote := by rw [mapTags, hn.requote, hns.requote]

theorem WellFormed.faithful {ns : Forest} (h : WellFormed ns) : Faithful ns := by
  have hcons : ∀ {n : Node} {ns : Forest}, WellFormed (n :: ns) → n.WellFormed ∧ WellFormed ns :=
    fun h => ⟨(List.forall_mem_cons.1 h.nodes).1,
      (List.isChain_cons.1 h.apart).2, (List.forall_mem_cons.1 h.nodes).2⟩
  induction ns using forest_induction with
  | nil => exact ⟨.nil, fun _ => rfl, rfl⟩
  | leaf n ns hn ih =>
    obtain ⟨hnode, hns⟩ := hcons h
    refine .cons (hnode.faithful fun t cs heq => ?_) (ih hns) h.apart
    subst heq
    cases hn
  | element t cs ns ihcs ihns =>
    obtain ⟨hnode, hns⟩ := hcons h
    refine .cons (hnode.faithful fun u ds heq => ?_) (ihns hns) h.apart
    cases heq
    exact ihcs

/-- A well-formed document is read from what is written of it. -/
theorem parse_serialize {ns : Forest} (h : WellFormed ns) : parse (serialize ns) = .ok ns := by
  obtain ⟨hs, hl, hr⟩ := h.faithful
  rw [parse_source hs (hl true), hr]

/-- Text, a void element, a self-closing one, and a script that holds other end tags. -/
def mainSample : Forest :=
  [.text "1 < 2 & 3 <", .element ⟨"BR", [], false, none⟩ [],
    .element ⟨"x-card", [("src", "/")], true, none⟩ [],
    .element ⟨"Script", [], false, none⟩ [.text "if (a</b) <!-- x"], .text "&lt;"]

/-- A document with each kind of node. -/
def wellFormedSample : Forest :=
  [.doctype "html", .comment " a < b - ",
    .element ⟨"main", [("ID", "x > 'y'"), ("data-a", "")], false, none⟩ mainSample,
    .instruction "php 1", .cdata "]]"]

theorem parse_serialize_sample : WellFormed wellFormedSample ∧
    parse (serialize wellFormedSample) = .ok wellFormedSample := by
  have hraw : Node.WellFormed
      (.element ⟨"Script", [], false, none⟩ [.text "if (a</b) <!-- x"]) :=
    .raw (by decide) rfl (by decide) (by decide) (splitContent_snd_eq_nil_iff.1 (by decide))
  have hmain : ∀ n ∈ mainSample, n.WellFormed := by
    refine List.forall_mem_cons.2 ⟨.text (by decide) (by decide) (by decide), ?_⟩
    refine List.forall_mem_cons.2 ⟨.childless (by decide) (by decide), ?_⟩
    refine List.forall_mem_cons.2 ⟨.childless (by decide) (by decide), ?_⟩
    refine List.forall_mem_cons.2 ⟨hraw, List.forall_mem_singleton.2 ?_⟩
    exact .text (by decide) (by decide) (by decide)
  have h : WellFormed wellFormedSample := by
    refine ⟨by decide, List.forall_mem_cons.2 ⟨.doctype (by decide) (by simp), ?_⟩⟩
    refine List.forall_mem_cons.2 ⟨.comment (by decide), ?_⟩
    refine List.forall_mem_cons.2 ⟨.element (by decide) rfl (by decide) (by decide) ?_ hmain, ?_⟩
    · decide
    · exact List.forall_mem_cons.2 ⟨.instruction (by decide) (by decide),
        List.forall_mem_singleton.2 (.cdata (by decide))⟩
  exact ⟨h, parse_serialize h⟩

end StaticSite.Html
