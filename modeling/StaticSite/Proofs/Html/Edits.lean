import Mathlib.Data.List.SplitBy
import StaticSite.Html.Growth
import StaticSite.Proofs.Html.Outline
import StaticSite.Proofs.Html.Shape

/-!
# Edits of a document under construction

A document is built by *edits*: elements are opened and closed, and text and other nodes are added.
This module says what a list of edits amounts to without building the document. `entries` lists what
the edits add, where a run of text is one node. `stillOpen` lists the elements that they leave open:
an end tag closes the innermost open element of its name and what was opened later (`exists_ends`).
-/

namespace StaticSite.Html

/-- A change of a document under construction. -/
inductive Edit where
  /-- Opens an element. -/
  | openTag (t : Tag)
  /-- Adds a node that is no text. -/
  | push (n : Node) (h : n.isText = false)
  /-- Adds text. -/
  | pushText (s : String)
  /-- Closes the innermost open element of the name and all elements inside it. -/
  | closeTag (name : String)

/-- The document after the edit. There is none if the edit closes a name that is not open. -/
def Growth.edit? (g : Growth) : Edit → Option Growth
  | .openTag t => some (g.openTag t)
  | .push n _ => some (g.push n)
  | .pushText s => some (g.pushText s)
  | .closeTag name => g.closeTag? name

/-- The document after the edits, one after the other. -/
def Growth.edits? (g : Growth) (es : List Edit) : Option Growth := es.foldlM Growth.edit? g

/-- What the edits make of an empty document. -/
def build? (es : List Edit) : Option Growth := ({} : Growth).edits? es

section Run

variable {e : Edit} {es fs : List Edit} {g g' : Growth}

theorem Growth.edits?_cons (g : Growth) (e : Edit) (es : List Edit) :
    g.edits? (e :: es) = (g.edit? e).bind (·.edits? es) := List.foldlM_cons

theorem Growth.edits?_append (g : Growth) (es fs : List Edit) :
    g.edits? (es ++ fs) = (g.edits? es).bind (·.edits? fs) := List.foldlM_append

theorem Growth.edits?_cons_eq_some_iff :
    g.edits? (e :: es) = some g' ↔ ∃ g₁, g.edit? e = some g₁ ∧ g₁.edits? es = some g' := by
  rw [edits?_cons, Option.bind_eq_some_iff]

theorem build?_append_eq_some_iff :
    build? (es ++ fs) = some g ↔ ∃ g₁, build? es = some g₁ ∧ g₁.edits? fs = some g := by
  rw [build?, Growth.edits?_append, Option.bind_eq_some_iff]
  rfl

end Run

/-! ## What edits add -/

/-- Whether the edit adds text. -/
def Edit.isText : Edit → Bool
  | .pushText _ => true
  | _ => false

/-- The text that the edit adds. -/
def Edit.text : Edit → String
  | .pushText s => s
  | _ => ""

/-- What the edit adds besides text, in document order. -/
def Edit.nodes : Edit → List Node
  | .openTag t => [.element t []]
  | .push n _ => outline [n]
  | _ => []

/-- A node of the text, or none if it is empty. -/
def textNode (s : String) : Forest := if s.isEmpty then [] else [.text s]

/-- What the edits add, in their order. Edits are taken in runs, which are as long as possible where
they add text, and single edits elsewhere. A run of text adds one node. -/
def entries (es : List Edit) : List Node :=
  (es.splitBy fun d e => d.isText && e.isText).flatMap fun run =>
    textNode (String.join (run.map Edit.text)) ++ run.flatMap Edit.nodes

theorem entries_append {es fs : List Edit}
    (h : ∀ d ∈ es.getLast?, ∀ e ∈ fs.head?, (d.isText && e.isText) = false) :
    entries (es ++ fs) = entries es ++ entries fs := by
  rw [entries, List.splitBy_append h, List.flatMap_append]
  rfl

theorem entries_append_of_head {es fs : List Edit} (h : ∀ e ∈ fs.head?, e.isText = false) :
    entries (es ++ fs) = entries es ++ entries fs :=
  entries_append fun d _ e he => by rw [h e he, Bool.and_false]

/-- Anything but text stands apart from what is added before and after it. -/
theorem entries_append_cons {e : Edit} (he : e.isText = false) (es fs : List Edit) :
    entries (es ++ e :: fs) = entries es ++ e.nodes ++ entries fs := by
  have hsingle : entries [e] = e.nodes := by
    cases e with
    | pushText => cases he
    | _ => exact (List.append_nil _).trans (List.append_nil _)
  have hcons : entries ([e] ++ fs) = entries [e] ++ entries fs :=
    entries_append fun d hd _ _ => by
      obtain rfl : e = d := by simpa using hd
      rw [he, Bool.false_and]
  have happend : entries (es ++ ([e] ++ fs)) = entries es ++ entries ([e] ++ fs) :=
    entries_append_of_head fun d hd => by
      obtain rfl : e = d := by simpa using hd
      exact he
  rw [← List.singleton_append, happend, hcons, hsingle, List.append_assoc]

/-- Text that is added in one run is one node. -/
theorem entries_texts (ss : List String) :
    entries (ss.map .pushText) = textNode (String.join ss) := by
  rcases ss with _ | ⟨s, ss⟩
  · rfl
  have hchain : ((s :: ss).map Edit.pushText).IsChain fun d e => (d.isText && e.isText) = true :=
    List.isChain_map_of_isChain _ (fun _ _ _ => rfl)
      (List.pairwise_of_forall fun _ _ => trivial : (s :: ss).Pairwise fun _ _ => True).isChain
  have htexts : ((s :: ss).map Edit.pushText).map Edit.text = s :: ss := by
    rw [List.map_map]
    exact List.map_id _
  have hnodes : ((s :: ss).map Edit.pushText).flatMap Edit.nodes = [] := by simp [Edit.nodes]
  rw [entries, List.splitBy_of_isChain (by simp) hchain, List.flatMap_singleton, htexts, hnodes,
    List.append_nil]

/-- To prove a property of all edits, it suffices to put a run of text and another edit in front. -/
@[elab_as_elim]
theorem edits_induction {motive : List Edit → Prop}
    (texts : ∀ ss : List String, motive (ss.map .pushText))
    (cons : ∀ (ss : List String) e es, e.isText = false → motive es →
      motive (ss.map .pushText ++ e :: es)) :
    ∀ es, motive es := by
  suffices h : ∀ (es : List Edit) (ss : List String), motive (ss.map .pushText ++ es) from
    fun es => h es []
  intro es
  induction es with
  | nil => exact fun ss => (List.append_nil (ss.map Edit.pushText)).symm ▸ texts ss
  | cons e es ih =>
    intro ss
    cases e with
    | pushText s =>
      have h := ih (ss ++ [s])
      rwa [List.map_append, List.append_assoc] at h
    | _ => exact cons ss _ es rfl (ih [])

/-! ## What edits leave open -/

/-- The elements that are open after the edits, which are given from the last to the first. -/
def openSince : List Edit → List (Nat × Tag)
  | [] => []
  | .openTag t :: past => (past.length, t) :: openSince past
  | .closeTag name :: past => ((openSince past).dropWhile fun p => !p.2.is name).tail
  | .push _ _ :: past | .pushText _ :: past => openSince past

/-- The elements that are open after the edits, the innermost first. With each stands the number of
the edit that opened it. -/
def stillOpen (es : List Edit) : List (Nat × Tag) := openSince es.reverse

/-- The element that is opened behind the edits `before` is open during the edits `inside`, and the
first of the edits `after` ends it, if there is one. -/
structure Spans (before : List Edit) (t : Tag) (inside after : List Edit) : Prop where
  stays : ∀ es, es <+: inside → (before.length, t) ∈ stillOpen (before ++ .openTag t :: es)
  ends : ∀ e es, after = e :: es → (∃ name, e = .closeTag name) ∧
    (before.length, t) ∉ stillOpen (before ++ .openTag t :: (inside ++ [e]))

/-- An end tag behind the edits ends the open element `p`, which is the innermost of the name, and
everything opened after it. -/
structure Ends (es : List Edit) (name : String) (p : Nat × Tag) : Prop where
  isOpen : p ∈ stillOpen es
  named : p.2.is name = true
  innermost : ∀ q ∈ stillOpen es, p.1 < q.1 → q.2.is name = false
  left : stillOpen (es ++ [.closeTag name]) = (stillOpen es).filter fun q => q.1 < p.1

section StillOpen

variable {es : List Edit} {name : String}

theorem stillOpen_concat (es : List Edit) (e : Edit) :
    stillOpen (es ++ [e]) = openSince (e :: es.reverse) := by
  rw [stillOpen, List.reverse_append]
  rfl

theorem stillOpen_openTag (es : List Edit) (t : Tag) :
    stillOpen (es ++ [.openTag t]) = (es.length, t) :: stillOpen es := by
  rw [stillOpen_concat, openSince, List.length_reverse, stillOpen]

theorem stillOpen_push (es : List Edit) (n : Node) (h : n.isText = false) :
    stillOpen (es ++ [.push n h]) = stillOpen es := stillOpen_concat es _

theorem stillOpen_pushText (es : List Edit) (s : String) :
    stillOpen (es ++ [.pushText s]) = stillOpen es := stillOpen_concat es _

theorem stillOpen_closeTag (es : List Edit) (name : String) :
    stillOpen (es ++ [.closeTag name]) =
      ((stillOpen es).dropWhile fun p => !p.2.is name).tail := by
  rw [stillOpen_concat, openSince, stillOpen]

/-- Elements of other names are closed with the element around them. -/
theorem stillOpen_closeTag_append {inner outer : List (Nat × Tag)}
    (h : stillOpen es = inner ++ outer) (hinner : ∀ q ∈ inner, q.2.is name = false) :
    stillOpen (es ++ [.closeTag name]) = (outer.dropWhile fun p => !p.2.is name).tail := by
  rw [stillOpen_closeTag, h, List.dropWhile_append_of_pos]
  exact fun q hq => by rw [hinner q hq]; rfl

/-- The numbers of the open elements descend. -/
theorem stillOpen_descends (es : List Edit) :
    ((stillOpen es).Pairwise fun p q => q.1 < p.1) ∧ ∀ p ∈ stillOpen es, p.1 < es.length := by
  induction es using List.reverseRecOn with
  | nil => exact ⟨.nil, fun _ h => absurd h List.not_mem_nil⟩
  | append_singleton es e ih =>
    obtain ⟨hpairwise, hlt⟩ := ih
    have hlt' : ∀ p ∈ stillOpen es, p.1 < (es ++ [e]).length := fun p hp =>
      Nat.lt_of_lt_of_le (hlt p hp) (List.length_append ▸ Nat.le_add_right _ _)
    cases e with
    | openTag t =>
      rw [stillOpen_openTag]
      refine ⟨List.pairwise_cons.2 ⟨hlt, hpairwise⟩, List.forall_mem_cons.2 ⟨?_, hlt'⟩⟩
      simp
    | push n hn =>
      rw [stillOpen_push]
      exact ⟨hpairwise, hlt'⟩
    | pushText s =>
      rw [stillOpen_pushText]
      exact ⟨hpairwise, hlt'⟩
    | closeTag name =>
      have hsub : (stillOpen (es ++ [.closeTag name])).Sublist (stillOpen es) := by
        rw [stillOpen_closeTag]
        exact (List.tail_sublist _).trans (List.dropWhile_sublist _)
      exact ⟨hpairwise.sublist hsub, fun p hp => hlt' p (hsub.mem hp)⟩

/-- An end tag whose name is open ends the innermost element of the name. -/
theorem exists_ends {q : Nat × Tag} (hq : q ∈ stillOpen es) (hname : q.2.is name = true) :
    ∃ p, Ends es name p := by
  have hfind : ((stillOpen es).find? fun p => p.2.is name).isSome = true :=
    List.find?_isSome.2 ⟨q, hq, hname⟩
  obtain ⟨p, hp⟩ := Option.isSome_iff_exists.1 hfind
  obtain ⟨hp, inner, outer, hopen, hinner⟩ := List.find?_eq_some_iff_append.1 hp
  have hinner : ∀ q ∈ inner, q.2.is name = false := fun q hq => by simpa using hinner q hq
  have hdescends := (stillOpen_descends es).1
  rw [hopen, List.pairwise_append, List.pairwise_cons] at hdescends
  obtain ⟨-, ⟨houter, -⟩, hlater⟩ := hdescends
  have hlater : ∀ q ∈ inner, p.1 < q.1 := fun q hq => hlater q hq p List.mem_cons_self
  refine ⟨p, hopen ▸ List.mem_append_right _ List.mem_cons_self, hp, ?_, ?_⟩
  · intro q hq hlt
    rw [hopen, List.mem_append, List.mem_cons] at hq
    rcases hq with hq | rfl | hq
    · exact hinner q hq
    · exact absurd hlt (Nat.lt_irrefl _)
    · exact absurd hlt (Nat.lt_asymm (houter q hq))
  · have hnone : (inner.filter fun q => q.1 < p.1) = [] :=
      List.filter_eq_nil_iff.2 fun q hq => by simpa using Nat.le_of_lt (hlater q hq)
    have hall : (outer.filter fun q => q.1 < p.1) = outer :=
      List.filter_eq_self.2 fun q hq => by simpa using houter q hq
    rw [stillOpen_closeTag_append hopen hinner, hopen, List.filter_append, hnone,
      List.filter_cons_of_neg (by simp), hall, List.dropWhile_cons_of_neg (by simpa using hp)]
    rfl

end StillOpen

end StaticSite.Html
