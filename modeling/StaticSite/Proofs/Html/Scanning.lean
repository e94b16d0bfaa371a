import StaticSite.Html.Reader
import StaticSite.Proofs.Html.TagText

/-!
# Markup that is written and scanned again

What stands between the `<` and the `>` of markup can be followed by anything: the scanner finds the
same `>` (`Markup.IsContent`). So a comment, section, instruction or document type that was scanned
is scanned again from what is written of it (`Node.Rescanned`), and so are tags whose quotes are
closed. The content of a script or style ends at the first end tag of its name, and holds none.
-/

namespace StaticSite.Html

open StaticSite.Text

namespace Markup

/-- The scanner finds the end of markup behind this content, whatever follows. -/
def IsContent (m : Markup) (content : List Char) : Prop :=
  ∀ rest, m.cut? [] (content ++ '>' :: rest) = some (content, rest)

variable {m : Markup} {before s content rest : List Char}

theorem cut?_closes (h : m.cut? before s = some (content, rest)) :
    m.closes content.reverse = true := by
  induction s generalizing before with
  | nil => cases h
  | cons c s ih =>
    rw [cut?] at h
    split at h
    · rename_i hc
      cases h
      rw [List.reverse_reverse]
      exact hc.2
    · exact ih h

/-- Where markup ends does not depend on what follows. -/
theorem cut?_prefix (h : m.cut? before s = some (content, rest)) :
    ∃ passed, content = before.reverse ++ passed ∧
      ∀ rest', m.cut? before (passed ++ '>' :: rest') = some (content, rest') := by
  induction s generalizing before with
  | nil => cases h
  | cons c s ih =>
    rw [cut?] at h
    split at h
    · rename_i hc
      cases h
      refine ⟨[], (List.append_nil _).symm, fun rest' => ?_⟩
      rw [List.nil_append, cut?, if_pos ⟨rfl, hc.2⟩]
    · rename_i hc
      obtain ⟨passed, hcontent, hcut⟩ := ih h
      refine ⟨c :: passed, by rw [hcontent]; simp, fun rest' => ?_⟩
      rw [List.cons_append, cut?, if_neg hc, hcut]

theorem isContent_of_cut? (h : m.cut? [] s = some (content, rest)) : m.IsContent content := by
  obtain ⟨passed, hcontent, hcut⟩ := cut?_prefix h
  rw [List.reverse_nil, List.nil_append] at hcontent
  rwa [← hcontent] at hcut

theorem isContent_of_isClosed (h : isClosed content = true) : Markup.tag.IsContent content :=
  cut?_tag h

/-- Markup ends at the first `>` where it can end. -/
theorem isContent_iff :
    m.IsContent content ↔ m.closes content.reverse = true ∧
      ∀ p q, content = p ++ '>' :: q → m.closes p.reverse = false := by
  constructor
  · refine fun h => ⟨cut?_closes (h []), fun p q heq => ?_⟩
    rw [Bool.eq_false_iff]
    intro hp
    have hcut : ∀ passed before, p = before.reverse ++ passed →
        ∃ content' rest', m.cut? before (passed ++ '>' :: (q ++ ['>'])) = some (content', rest') ∧
          content'.length ≤ p.length := by
      intro passed
      induction passed with
      | nil =>
        intro before hbefore
        rw [List.append_nil] at hbefore
        rw [hbefore, List.reverse_reverse] at hp
        refine ⟨before.reverse, q ++ ['>'], ?_, by rw [hbefore]⟩
        rw [List.nil_append, cut?, if_pos ⟨rfl, hp⟩]
      | cons c passed ih =>
        intro before hbefore
        rw [List.cons_append, cut?]
        split
        · exact ⟨_, _, rfl, by rw [hbefore]; simp⟩
        · exact ih (c :: before) (by rw [hbefore]; simp)
    obtain ⟨content', rest', hcut', hle⟩ := hcut p [] rfl
    have hsame := h []
    rw [heq, List.append_assoc, List.cons_append, hcut'] at hsame
    cases hsame
    rw [List.length_append, List.length_cons] at hle
    omega
  · rintro ⟨hc, hnot⟩ rest
    have hcut : ∀ passed before, content = before.reverse ++ passed →
        m.cut? before (passed ++ '>' :: rest) = some (content, rest) := by
      intro passed
      induction passed with
      | nil =>
        intro before heq
        rw [List.append_nil] at heq
        rw [heq, List.reverse_reverse] at hc
        rw [List.nil_append, cut?, if_pos ⟨rfl, hc⟩, heq]
      | cons c passed ih =>
        intro before heq
        have hopen : ¬(c = '>' ∧ m.closes before = true) := by
          rintro ⟨rfl, hclose⟩
          have := hnot before.reverse passed heq
          rw [List.reverse_reverse, hclose] at this
          cases this
        rw [List.cons_append, cut?, if_neg hopen]
        exact ih (c :: before) (by rw [heq]; simp)
    exact hcut content [] rfl

/-- The first `>` ends markup if the markup can end there. -/
theorem isContent_of_not_mem (h : '>' ∉ content) (hc : m.closes content.reverse = true) :
    m.IsContent content := by
  refine isContent_iff.2 ⟨hc, fun p q heq => absurd ?_ h⟩
  rw [heq]
  exact List.mem_append_right _ (List.mem_cons_self ..)

/-- Markup of known content is scanned as the token of that content. -/
theorem scanMarkup_content {token : Token} (hk : kind? (content ++ '>' :: rest) = some m)
    (hc : m.IsContent content) (ht : m.token content = .ok token) :
    scanMarkup (content ++ '>' :: rest) = .ok ⟨token, '<' :: content ++ ['>'], rest⟩ := by
  simp only [scanMarkup, hk, hc rest, ht]

/-- Markup that was scanned has content that gives the token. -/
theorem scanMarkup_ok {r : Scan} (h : scanMarkup s = .ok r) :
    ∃ m content, kind? s = some m ∧ m.cut? [] s = some (content, r.rest) ∧
      m.token content = .ok r.token := by
  unfold scanMarkup at h
  split at h
  · cases h
  · rename_i m hk
    split at h
    · cases h
    · rename_i content rest hcut
      split at h
      · cases h
      · cases h
      · rename_i token ht
        cases h
        exact ⟨m, content, hk, hcut, ht⟩

/-- A start tag is read off the content of markup. -/
theorem token_start {m : Markup} {content : List Char} {t : Tag}
    (h : m.token content = .ok (.start t)) : t = Tag.ofContent content := by
  unfold Markup.token at h
  split at h
  · cases h
  · cases h
    rfl
  · cases h
  · cases h
  · split at h
    · split at h
      · cases h
      · cases h
    · cases h
  · cases h
  · cases h

end Markup

/-! ## Tags -/

theorem kind?_tag {c : Char} (h : c.isAlpha = true ∨ c = '/') (s : List Char) :
    Markup.kind? (c :: s) = some .tag := by
  have hbang : c ≠ '!' := by rintro rfl; exact absurd h (by decide)
  have hquery : c ≠ '?' := by rintro rfl; exact absurd h (by decide)
  unfold Markup.kind?
  split <;> simp_all

/-- The element has neither children nor an end tag. -/
def Tag.isChildless (t : Tag) : Bool := t.selfClosing || isVoid t.name

/-- The text of a start tag is taken for one tag, which starts with a letter. -/
structure Tag.Legible (t : Tag) : Prop where
  head : ∃ c s, t.name.toList = c :: s ∧ c.isAlpha = true
  closed : isClosed t.source = true

theorem Tag.Legible.source {t : Tag} (h : t.Legible) :
    ∃ c s, t.source = c :: s ∧ c.isAlpha = true := by
  obtain ⟨c, s, hname, hc⟩ := h.head
  exact ⟨c, s ++ t.attrs.flatMap attrSource, by rw [Tag.source, hname]; rfl, hc⟩

theorem tag_token {content : List Char} {c : Char} {s : List Char} (h : content = c :: s)
    (hc : c.isAlpha = true) : Markup.tag.token content = .ok (.start (.ofContent content)) := by
  have hne : c ≠ '/' := by rintro rfl; exact absurd hc (by decide)
  subst h
  unfold Markup.token
  split <;> simp_all

theorem scan_startTag {t : Tag} (h : t.Lexical) (hl : t.Legible) (hs : t.selfClosing = false)
    (hlast : t.source.getLast? ≠ some '/') (rest : List Char) :
    scan '<' (t.source ++ '>' :: rest) =
      .ok ⟨.start t.requote, '<' :: t.source ++ ['>'], rest⟩ := by
  obtain ⟨c, s, hsource, hc⟩ := hl.source
  refine Markup.scanMarkup_content ?_ (Markup.isContent_of_isClosed hl.closed) ?_
  · rw [hsource]
    exact kind?_tag (.inl hc) _
  · rw [tag_token hsource hc, Tag.ofContent_source h hs hlast]

theorem scan_selfClosingTag {t : Tag} (h : t.Lexical) (hl : t.Legible) (hs : t.selfClosing = true)
    (rest : List Char) :
    scan '<' (t.source ++ ['/'] ++ '>' :: rest) =
      .ok ⟨.start t.requote, '<' :: (t.source ++ ['/']) ++ ['>'], rest⟩ := by
  obtain ⟨c, s, hsource, hc⟩ := hl.source
  refine Markup.scanMarkup_content ?_ (Markup.isContent_of_isClosed ?_) ?_
  · rw [hsource]
    exact kind?_tag (.inl hc) _
  · rw [isClosed_iff, Quoting.through_append, isClosed_iff.1 hl.closed]
    rfl
  · rw [tag_token (by rw [hsource]; rfl) hc, Tag.ofContent_source_slash h hs]

theorem trimName_eq {name : List Char} (h : ∀ c ∈ name, isSpace c = false) :
    trimName name = name := by
  have hdrop : name.reverse.dropWhile isSpace = name.reverse := by
    rcases hr : name.reverse with _ | ⟨c, s⟩
    · rfl
    · refine List.dropWhile_cons_of_neg ?_
      rw [h c (List.mem_reverse.1 (hr ▸ List.mem_cons_self ..))]
      exact Bool.false_ne_true
  unfold trimName
  rw [hdrop, List.reverse_reverse]
  split
  · rfl
  · rfl

theorem scan_endTag {name : String} (h : ∀ c ∈ name.toList, isSpace c = false)
    (hc : isClosed name.toList = true) (rest : List Char) :
    scan '<' ('/' :: name.toList ++ '>' :: rest) =
      .ok ⟨.close name, '<' :: '/' :: name.toList ++ ['>'], rest⟩ := by
  have hclosed : isClosed ('/' :: name.toList) = true := hc
  refine Markup.scanMarkup_content (kind?_tag (.inr rfl) _)
    (Markup.isContent_of_isClosed hclosed) ?_
  rw [Markup.token, trimName_eq h, String.ofList_toList]

/-! ## Leaves -/

/-- What is written of the node is scanned as the node, whatever follows. -/
def Node.Rescanned (n : Node) : Prop :=
  ∃ c s, n.source = '<' :: c :: s ∧ opensMarkup c = true ∧
    ∀ rest, scan '<' (c :: s ++ rest) = .ok ⟨.leaf n, n.source, rest⟩

theorem Node.rescanned_of_content {n : Node} {m : Markup} {c : Char} {s : List Char}
    (hn : n.source = '<' :: c :: s ++ ['>']) (hopen : opensMarkup c = true)
    (hk : ∀ rest, Markup.kind? (c :: s ++ rest) = some m) (hc : m.IsContent (c :: s))
    (ht : m.token (c :: s) = .ok (.leaf n)) : n.Rescanned := by
  refine ⟨c, s ++ ['>'], hn, hopen, fun rest => ?_⟩
  have := Markup.scanMarkup_content (hk ('>' :: rest)) hc ht
  rw [hn, ← this, scan]
  simp

theorem comment_rescanned {s : String}
    (h : Markup.comment.IsContent ('!' :: '-' :: '-' :: (s.toList ++ ['-', '-']))) :
    (Node.comment s).Rescanned := by
  refine Node.rescanned_of_content ?_ (by decide) (fun _ => rfl) h ?_
  · unfold Node.source
    simp
  · simp [Markup.token]

theorem cdata_rescanned {s : String}
    (h : Markup.cdata.IsContent ('!' :: ("[CDATA[".toList ++ (s.toList ++ [']', ']'])))) :
    (Node.cdata s).Rescanned := by
  refine Node.rescanned_of_content ?_ (by decide) (fun _ => rfl) h ?_
  · unfold Node.source
    simp
  · simp [Markup.token]

theorem instruction_rescanned {s : String}
    (h : Markup.instruction.IsContent ('?' :: (s.toList ++ ['?']))) :
    (Node.instruction s).Rescanned := by
  refine Node.rescanned_of_content ?_ (by decide) (fun _ => rfl) h ?_
  · unfold Node.source
    simp
  · rcases hs : s.toList ++ ['?'] with _ | ⟨c, t⟩
    · simp at hs
    · have hlength : t.length = s.toList.length := by
        have := congrArg List.length hs
        simpa using this.symm
      rw [Markup.token, ← hs, hlength, List.take_left, String.ofList_toList]

theorem doctype_rescanned {s : String} (hs : ∃ c t, s.toList = c :: t ∧ isSpace c = false)
    (h : Markup.doctype.IsContent ('!' :: ("DOCTYPE ".toList ++ s.toList))) :
    (Node.doctype s).Rescanned := by
  obtain ⟨c, t, hst, hc⟩ := hs
  refine Node.rescanned_of_content ?_ (by decide) (fun _ => rfl) h ?_
  · unfold Node.source
    simp
  · have hkeyword :
        lower (('!' :: ("DOCTYPE ".toList ++ s.toList)).take 8) = "!doctype".toList := by
      simp [lower]
    have hname : (('!' :: ("DOCTYPE ".toList ++ s.toList)).drop 8).dropWhile isSpace = c :: t := by
      have hdrop : ('!' :: ("DOCTYPE ".toList ++ s.toList)).drop 8 = ' ' :: c :: t := by simp [hst]
      rw [hdrop, List.dropWhile_cons_of_pos (by decide), List.dropWhile_cons_of_neg (by simp [hc])]
    rw [Markup.token, if_pos hkeyword, hname]
    simp [← hst]

namespace Markup

variable {s content rest : List Char}

/-- What a comment ends with is not what it starts with. -/
theorem comment_ends (h : comment.closes ('!' :: '-' :: '-' :: s).reverse = true) :
    ∃ p, s = p ++ ['-', '-'] := by
  rcases hr : s.reverse with _ | ⟨x, _ | ⟨y, p⟩⟩
  · simp [hr, closes] at h
  · simp [hr, closes] at h
  · rw [List.reverse_cons, List.reverse_cons, List.reverse_cons, hr] at h
    have hxy : x = '-' ∧ y = '-' := by
      simp only [List.cons_append] at h
      unfold closes at h
      split at h <;> simp_all
    obtain ⟨rfl, rfl⟩ := hxy
    exact ⟨p.reverse, by rw [← List.reverse_reverse s, hr]; simp⟩

theorem cdata_ends
    (h : cdata.closes ('!' :: '[' :: 'C' :: 'D' :: 'A' :: 'T' :: 'A' :: '[' :: s).reverse = true) :
    ∃ p, s = p ++ [']', ']'] := by
  rcases hr : s.reverse with _ | ⟨x, _ | ⟨y, p⟩⟩
  · simp [hr, closes] at h
  · simp [hr, closes] at h
  · have hxy : x = ']' ∧ y = ']' := by
      simp only [List.reverse_cons, hr, List.cons_append] at h
      unfold closes at h
      split at h <;> simp_all
    obtain ⟨rfl, rfl⟩ := hxy
    exact ⟨p.reverse, by rw [← List.reverse_reverse s, hr]; simp⟩

theorem instruction_ends {x c : Char}
    (h : instruction.closes (x :: c :: s).reverse = true) : ∃ p, c :: s = p ++ ['?'] := by
  rcases hr : (c :: s).reverse with _ | ⟨y, p⟩
  · simp at hr
  · have hy : y = '?' := by
      rw [List.reverse_cons, hr, List.cons_append] at h
      unfold closes at h
      split at h <;> simp_all
    subst hy
    exact ⟨p.reverse, by rw [← List.reverse_reverse (c :: s), hr, List.reverse_cons]⟩

theorem depthFromEnd_append (s t : List Char) :
    depthFromEnd (s ++ t) = depthFromEnd s + depthFromEnd t := by
  induction s with
  | nil => exact (Int.zero_add _).symm
  | cons c s ih =>
    simp only [List.cons_append, depthFromEnd, List.foldr_cons] at ih ⊢
    rw [ih]
    split
    · omega
    · split
      · omega
      · rfl

theorem depthFromEnd_plain (h : ∀ c ∈ s, c ≠ '<' ∧ c ≠ '>') : depthFromEnd s = 0 := by
  induction s with
  | nil => rfl
  | cons c s ih =>
    obtain ⟨hc, hs⟩ := List.forall_mem_cons.1 h
    have := ih hs
    simp only [depthFromEnd, List.foldr_cons, if_neg hc.1, if_neg hc.2] at this ⊢
    exact this

/-- What stands before the name of a document type can be spelled in another way. -/
theorem IsContent.respell {w w' name : List Char} (h : doctype.IsContent (w ++ name))
    (hw : ∀ c ∈ w, c ≠ '<' ∧ c ≠ '>') (hrespelled : ∀ c ∈ w', c ≠ '<' ∧ c ≠ '>') :
    doctype.IsContent (w' ++ name) := by
  have hcloses : ∀ p, doctype.closes (w' ++ p).reverse = doctype.closes (w ++ p).reverse := by
    intro p
    simp only [closes, List.reverse_append, depthFromEnd_append]
    rw [depthFromEnd_plain fun c hc => hw c (List.mem_reverse.1 hc),
      depthFromEnd_plain fun c hc => hrespelled c (List.mem_reverse.1 hc)]
  obtain ⟨hend, hnot⟩ := isContent_iff.1 h
  refine isContent_iff.2 ⟨(hcloses name).trans hend, fun p q heq => ?_⟩
  rcases List.append_eq_append_iff.1 heq with ⟨p', hp, hname⟩ | ⟨q', hp, hq⟩
  · rw [hp, hcloses]
    exact hnot (w ++ p') q (by rw [hname, List.append_assoc])
  · rcases q' with _ | ⟨c, q'⟩
    · rw [List.append_nil] at hp
      rw [List.nil_append] at hq
      rw [← hp, ← List.append_nil w', hcloses, List.append_nil]
      exact hnot w q (by rw [hq])
    · cases hq
      exact absurd rfl (hrespelled '>' (hp ▸ List.mem_append_right _ (List.mem_cons_self ..))).2

end Markup

/-- Whether the node is a comment, document type, instruction or section. -/
def Node.isMarkup : Node → Bool
  | .element _ _ => false
  | .text _ => false
  | _ => true

theorem kind?_instruction {c : Char} {s : List Char}
    (h : Markup.kind? (c :: s) = some .instruction) : c = '?' := by
  unfold Markup.kind? at h
  split at h <;> simp_all

/-- What is written before the name of a document type has no angle brackets. -/
theorem doctype_keyword_plain : ∀ c ∈ '!' :: "DOCTYPE ".toList, c ≠ '<' ∧ c ≠ '>' := by
  simp

theorem doctype_token_rescanned {content s : List Char} (hc : Markup.doctype.IsContent content)
    (hkeyword : lower (content.take 8) = "!doctype".toList)
    (hs : (content.drop 8).dropWhile isSpace = s) (hne : s ≠ []) :
    (Node.doctype (String.ofList s)).Rescanned := by
  have hsplit : content = (content.take 8 ++ (content.drop 8).takeWhile isSpace) ++ s := by
    rw [← hs, List.append_assoc, List.takeWhile_append_dropWhile, List.take_append_drop]
  have hplain : ∀ c ∈ content.take 8 ++ (content.drop 8).takeWhile isSpace,
      c ≠ '<' ∧ c ≠ '>' := by
    intro c hmem
    rcases List.mem_append.1 hmem with hc | hc
    · have hlower : c.toLower ∈ "!doctype".toList := hkeyword ▸ List.mem_map_of_mem hc
      constructor
      · rintro rfl
        exact absurd hlower (by decide)
      · rintro rfl
        exact absurd hlower (by decide)
    · have hspace := List.mem_takeWhile_imp hc
      constructor
      · rintro rfl
        exact absurd hspace (by decide)
      · rintro rfl
        exact absurd hspace (by decide)
  obtain ⟨c, t, rfl⟩ := List.exists_cons_of_ne_nil hne
  rw [hsplit] at hc
  have hname : (String.ofList (c :: t)).toList = c :: t := String.toList_ofList
  refine doctype_rescanned ⟨c, t, hname, dropWhile_eq_cons hs⟩ ?_
  rw [hname]
  exact hc.respell hplain doctype_keyword_plain

/-- What was scanned as a leaf is scanned again when it is written. -/
theorem scanMarkup_rescanned {s : List Char} {r : Scan} {n : Node} (h : scanMarkup s = .ok r)
    (hr : r.token = .leaf n) : n.isMarkup = true ∧ n.Rescanned := by
  obtain ⟨m, content, hk, hcut, ht⟩ := Markup.scanMarkup_ok h
  have hc := Markup.isContent_of_cut? hcut
  have hcloses := Markup.cut?_closes hcut
  have hs : s = content ++ '>' :: r.rest := by simpa using Markup.cut?_eq_some hcut
  rw [hr] at ht
  unfold Markup.token at ht
  split at ht
  · cases ht
  · cases ht
  · obtain ⟨p, rfl⟩ := Markup.comment_ends hcloses
    cases ht
    rw [List.length_append, List.length_cons, List.length_singleton, Nat.add_sub_cancel,
      List.take_left]
    have hp : (String.ofList p).toList = p := String.toList_ofList
    exact ⟨rfl, comment_rescanned (by rwa [hp])⟩
  · obtain ⟨p, rfl⟩ := Markup.cdata_ends hcloses
    cases ht
    rw [List.length_append, List.length_cons, List.length_singleton, Nat.add_sub_cancel,
      List.take_left]
    have hp : (String.ofList p).toList = p := String.toList_ofList
    refine ⟨rfl, cdata_rescanned ?_⟩
    rw [hp]
    exact hc
  · split at ht
    · rename_i hkeyword
      split at ht
      · cases ht
      · rename_i hne
        cases ht
        exact ⟨rfl, doctype_token_rescanned hc hkeyword rfl hne⟩
    · cases ht
  · rename_i x c t
    obtain rfl : x = '?' := kind?_instruction (hs ▸ hk)
    obtain ⟨p, hp⟩ := Markup.instruction_ends hcloses
    have hlength : t.length = p.length := by
      have := congrArg List.length hp
      simpa using this
    have hp' : (String.ofList p).toList = p := String.toList_ofList
    cases ht
    rw [hp, hlength, List.take_left]
    refine ⟨rfl, instruction_rescanned ?_⟩
    rw [hp', ← hp]
    exact hc
  · cases ht

/-! ## Raw text -/

/-- The content of a script or style as its children. -/
def rawText (s : List Char) : Forest := if s.isEmpty then [] else [.text (String.ofList s)]

section RawText

variable {name s : List Char}

theorem startsEndTag_iff :
    startsEndTag name s = true ↔ ∃ b c, s = '<' :: '/' :: (b ++ c) ∧ lower b = lower name := by
  constructor
  · intro h
    unfold startsEndTag at h
    split at h
    · rename_i t
      refine ⟨t.take name.length, t.drop name.length, by rw [List.take_append_drop], ?_⟩
      refine ((List.isPrefixOf_iff_prefix.1 h).eq_of_length_le ?_).symm
      rw [lower, lower, List.length_map, List.length_map]
      exact List.length_take_le _ _
    · cases h
  · rintro ⟨b, c, rfl, hb⟩
    have hlength : name.length = b.length := by simpa [lower] using congrArg List.length hb.symm
    rw [startsEndTag, hlength, List.take_left, hb]
    exact List.isPrefixOf_iff_prefix.2 List.prefix_rfl

/-- An end tag stays one when more text follows. -/
theorem startsEndTag_append (h : startsEndTag name s = true) (t : List Char) :
    startsEndTag name (s ++ t) = true := by
  obtain ⟨b, c, rfl, hb⟩ := startsEndTag_iff.1 h
  exact startsEndTag_iff.2 ⟨b, c ++ t, by simp, hb⟩

/-- No end tag reaches over a `<`. -/
theorem startsEndTag_of_append (hname : '<' ∉ lower name) {c : Char} {t : List Char}
    (h : startsEndTag name (c :: (s ++ '<' :: t)) = true) : startsEndTag name (c :: s) = true := by
  obtain ⟨b, d, heq, hb⟩ := startsEndTag_iff.1 h
  have hlt : '<' ∉ b := fun hmem => hname (hb ▸ List.mem_map_of_mem hmem)
  rw [List.cons.injEq] at heq
  obtain ⟨rfl, heq⟩ := heq
  rcases s with _ | ⟨x, s⟩
  · cases heq
  · rw [List.cons_append, List.cons.injEq] at heq
    obtain ⟨rfl, heq⟩ := heq
    rcases List.append_eq_append_iff.1 heq with ⟨e, rfl, hd⟩ | ⟨e, rfl, -⟩
    · rcases e with _ | ⟨y, e⟩
      · exact startsEndTag_iff.2 ⟨s, [], by simp, by simpa using hb⟩
      · rw [List.cons_append, List.cons.injEq] at hd
        exact absurd (hd.1 ▸ List.mem_append_right _ (List.mem_cons_self ..)) hlt
    · exact startsEndTag_iff.2 ⟨b, e, rfl, hb⟩

/-- A text is all content if it holds no end tag. -/
theorem splitContent_snd_eq_nil_iff :
    (splitContent name s).2 = [] ↔
      ∀ a b c, s = a ++ '<' :: '/' :: (b ++ c) → lower b ≠ lower name := by
  induction s with
  | nil => simp [splitContent]
  | cons x s ih =>
    rw [splitContent]
    split
    · rename_i h
      obtain ⟨b, c, heq, hb⟩ := startsEndTag_iff.1 h
      exact ⟨fun h => (List.cons_ne_nil _ _ h).elim, fun h => (h [] b c heq hb).elim⟩
    · rename_i hx
      refine ih.trans ⟨fun h a b c heq => ?_, fun h a b c heq => ?_⟩
      · rcases a with _ | ⟨y, a⟩
        · exact fun hb => hx (startsEndTag_iff.2 ⟨b, c, heq, hb⟩)
        · rw [List.cons_append, List.cons.injEq] at heq
          exact h a b c heq.2
      · exact h (x :: a) b c (by rw [heq]; rfl)

theorem splitContent_content (name s : List Char) :
    (splitContent name (splitContent name s).1).2 = [] := by
  induction s with
  | nil => rfl
  | cons x s ih =>
    rw [splitContent]
    split
    · rfl
    · rename_i hx
      rw [splitContent, if_neg fun h => hx ?_]
      · exact ih
      · have := startsEndTag_append h (splitContent name s).2
        rwa [List.cons_append, splitContent_append] at this

/-- Content ends where an end tag is written behind it. -/
theorem splitContent_append_endTag (hname : '<' ∉ lower name) (h : (splitContent name s).2 = [])
    (rest : List Char) :
    splitContent name (s ++ '<' :: '/' :: (name ++ rest)) = (s, '<' :: '/' :: (name ++ rest)) := by
  induction s with
  | nil =>
    rw [List.nil_append, splitContent, if_pos (startsEndTag_iff.2 ⟨name, rest, rfl, rfl⟩)]
  | cons x s ih =>
    rw [splitContent] at h
    split at h
    · cases h
    · rename_i hx
      rw [List.cons_append, splitContent,
        if_neg fun hend => hx (startsEndTag_of_append hname hend), ih h]

theorem splitAfter_append_cons {c : Char} (h : c ∉ s) (rest : List Char) :
    splitAfter c (s ++ c :: rest) = (s ++ [c], rest) := by
  induction s with
  | nil => simp [splitAfter]
  | cons d s ih =>
    rw [List.mem_cons, not_or] at h
    obtain ⟨hd, hs⟩ := h
    rw [List.cons_append, splitAfter, if_neg (Ne.symm hd), ih hs]
    rfl

/-- The names of raw text elements are written without `<` and `>`. -/
theorem isRawText_plain {name : String} (h : isRawText name = true) :
    '<' ∉ lower name.toList ∧ '>' ∉ name.toList := by
  obtain ⟨raw, hraw, hsame⟩ := List.any_eq_true.1 h
  have hplain : ∀ raw ∈ rawTextNames, '<' ∉ lower raw.toList ∧ '>' ∉ lower raw.toList := by decide
  obtain ⟨hlt, hgt⟩ := hplain raw hraw
  rw [beq_iff_eq.1 hsame] at hlt hgt
  exact ⟨hlt, fun hmem => hgt (List.mem_map_of_mem hmem)⟩

end RawText

end StaticSite.Html
