import StaticSite.Proofs.Html.Shape

/-!
# Documents as they are read

A document that was read is in *canonical* form (`parse_canonical`): its elements come from no
component, text is never empty and never stands beside text, elements without end tag have no
children, and a script or style holds no more than one text without its own end tag. What is read
has this form at every step (`Reader.step_shaped`), since nodes reach the forest in it.
-/

namespace StaticSite.Html

open StaticSite.Text

/-- Children of a script or style of the given name: none, or a single text without `</` and the
name in any case of ASCII letters. -/
def IsRawContent (name : String) (cs : Forest) : Prop :=
  cs = [] ∨ ∃ s, cs = [.text s] ∧
    ∀ a b c, s.toList = a ++ '<' :: '/' :: (b ++ c) → lower b ≠ lower name.toList

/-- A node in canonical form. -/
inductive Node.Canonical : Node → Prop where
  | text {s : String} (nonempty : s ≠ "") : Node.Canonical (.text s)
  | comment (s : String) : Node.Canonical (.comment s)
  | doctype (s : String) : Node.Canonical (.doctype s)
  | instruction (s : String) : Node.Canonical (.instruction s)
  | cdata (s : String) : Node.Canonical (.cdata s)
  | element {t : Tag} {cs : Forest} (origin : t.origin = none)
      (void : isVoid t.name = true → cs = []) (selfClosing : t.selfClosing = true → cs = [])
      (raw : isRawText t.name = true → IsRawContent t.name cs)
      (apart : Apart cs) (children : ∀ n ∈ cs, Node.Canonical n) : Node.Canonical (.element t cs)

/-- A forest in canonical form. -/
structure Canonical (ns : Forest) : Prop where
  /-- No two neighbours are text. -/
  apart : Apart ns
  /-- Every node is in canonical form. -/
  nodes : ∀ n ∈ ns, n.Canonical

theorem isRawContent_rawText {name : String} {s : List Char}
    (h : (splitContent name.toList s).2 = []) : IsRawContent name (rawText s) := by
  rw [rawText]
  split
  · exact .inl rfl
  · refine .inr ⟨_, rfl, ?_⟩
    rw [String.toList_ofList]
    exact splitContent_snd_eq_nil_iff.1 h

theorem canonical_of_mem_rawText {s : List Char} {n : Node} (h : n ∈ rawText s) :
    n.Canonical := by
  rw [rawText] at h
  split at h
  · cases h
  · rename_i hs
    rw [List.mem_singleton.1 h]
    refine .text fun hnil => hs ?_
    rw [String.ofList_eq_empty_iff.1 hnil]
    rfl

theorem apart_rawText (s : List Char) : Apart (rawText s) := by
  rw [rawText]
  split
  · exact .nil
  · exact List.isChain_singleton _

/-- An element that can have children is in canonical form if its children are. -/
theorem Node.Canonical.of_isChildless_eq_false {t : Tag} {cs : Forest} (origin : t.origin = none)
    (h : t.isChildless = false) (raw : isRawText t.name = true → IsRawContent t.name cs)
    (apart : Apart cs) (children : ∀ n ∈ cs, n.Canonical) : Node.Canonical (.element t cs) := by
  obtain ⟨hself, hvoid⟩ := Bool.or_eq_false_iff.1 h
  exact .element origin (fun hv => absurd (hvoid.symm.trans hv) Bool.false_ne_true)
    (fun hc => absurd (hself.symm.trans hc) Bool.false_ne_true) raw apart children

theorem Node.Shaped.canonical {n : Node} (h : n.Shaped) : n.Canonical := by
  induction h with
  | text hs => exact .text hs
  | @markup n hn =>
    cases n with
    | element | text => cases hn
    | comment s => exact .comment s
    | doctype s => exact .doctype s
    | instruction s => exact .instruction s
    | cdata s => exact .cdata s
  | childless ht _ =>
    exact .element ht.origin (fun _ => rfl) (fun _ => rfl) (fun _ => .inl rfl) .nil
      fun _ hn => absurd hn List.not_mem_nil
  | raw ht h _ hs =>
    exact .of_isChildless_eq_false ht.origin h (fun _ => isRawContent_rawText hs) (apart_rawText _)
      fun _ => canonical_of_mem_rawText
  | element ht h hraw apart _ ih =>
    exact .of_isChildless_eq_false ht.origin h
      (fun hr => absurd (hraw.symm.trans hr) Bool.false_ne_true) apart ih

/-- A document that was read is in canonical form. -/
theorem parse_canonical {source : String} {ns : Forest} (h : parse source = .ok ns) :
    Canonical ns :=
  have hshaped := parse_shaped h
  ⟨hshaped.apart, fun n hn => (hshaped.nodes n hn).canonical⟩

/-- A document with text beside what is left out, open elements, and a script cut at its end tag. -/
def carelessSample : Forest :=
  [.text "1 < 2 &amp; 3",
    .element ⟨"p", [], false, none⟩
      [.element ⟨"B", [], false, none⟩ [.text "x", .element ⟨"BR", [], false, none⟩ [], .text "y"]],
    .element ⟨"i", [("k", "v")], true, none⟩ [],
    .element ⟨"Script", [], false, none⟩ [.text "a</b>"],
    .element ⟨"style", [], false, none⟩ [], .text "z"]

theorem parse_canonical_sample :
    parse "1 < 2 &amp; </br>3<p><B>x<BR>y</p><i k=v/><Script>a</b></sCRIPT ><style></style>z" =
        .ok carelessSample ∧ Canonical carelessSample := by
  have h : parse
      "1 < 2 &amp; </br>3<p><B>x<BR>y</p><i k=v/><Script>a</b></sCRIPT ><style></style>z" =
        .ok carelessSample := by decide +kernel
  exact ⟨h, parse_canonical h⟩

end StaticSite.Html
