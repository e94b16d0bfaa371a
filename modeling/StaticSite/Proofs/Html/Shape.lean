import Mathlib.Data.List.Chain
import StaticSite.Proofs.Html.Forest
import StaticSite.Proofs.Html.Scanning

/-!
# The shape of a forest that was read

Text is never empty and never stands beside text, tags have the form in which they are read,
elements that cannot have children have none, and a script or style has no child but text without
its own end tag (`parse_shaped`). What is open while a document is read has the same shape.
-/

namespace StaticSite.Html

open StaticSite.Text

/-- Whether the node is text. -/
def Node.isText : Node → Bool
  | .text _ => true
  | _ => false

/-- No two neighbours are text. -/
def Apart (ns : Forest) : Prop := ns.IsChain fun n m => (n.isText && m.isText) = false

instance (ns : Forest) : Decidable (Apart ns) := inferInstanceAs (Decidable (List.IsChain _ _))

theorem Apart.nil : Apart [] := List.IsChain.nil

theorem Apart.reverse {ns : Forest} (h : Apart ns) : Apart ns.reverse := by
  rw [Apart, List.isChain_reverse]
  exact h.imp fun n m hnm => (Bool.and_comm ..).trans hnm

theorem Apart.cons {n : Node} {ns : Forest} (h : Apart ns)
    (hn : ∀ m ∈ ns.head?, (n.isText && m.isText) = false) : Apart (n :: ns) :=
  List.isChain_cons.2 ⟨hn, h⟩

theorem Apart.cons_of_not_isText {n : Node} {ns : Forest} (h : Apart ns) (hn : n.isText = false) :
    Apart (n :: ns) :=
  h.cons fun m _ => by rw [hn, Bool.false_and]

theorem rawText_leaves {s : List Char} : ∀ n ∈ rawText s, n.isLeaf = true := by
  intro n hn
  rw [rawText] at hn
  split at hn
  · cases hn
  · rw [List.mem_singleton.1 hn]
    rfl

/-- The shape of a node that was read. -/
inductive Node.Shaped : Node → Prop where
  | text {s : String} (h : s ≠ "") : Node.Shaped (.text s)
  | markup {n : Node} (hn : n.isMarkup = true) (h : n.Rescanned) : Node.Shaped n
  | childless {t : Tag} (ht : t.Lexical) (h : t.isChildless = true) : Node.Shaped (.element t [])
  | raw {t : Tag} {s : List Char} (ht : t.Lexical) (h : t.isChildless = false)
      (hraw : isRawText t.name = true) (hs : (splitContent t.name.toList s).2 = []) :
      Node.Shaped (.element t (rawText s))
  | element {t : Tag} {cs : Forest} (ht : t.Lexical) (h : t.isChildless = false)
      (hraw : isRawText t.name = false) (apart : Apart cs) (children : ∀ n ∈ cs, Node.Shaped n) :
      Node.Shaped (.element t cs)

/-- The shape of a forest that was read. -/
structure Shaped (ns : Forest) : Prop where
  apart : Apart ns
  nodes : ∀ n ∈ ns, n.Shaped

theorem Shaped.nil : Shaped [] := ⟨.nil, fun _ h => absurd h List.not_mem_nil⟩

theorem Shaped.cons {n : Node} {ns : Forest} (hns : Shaped ns) (hn : n.Shaped)
    (h : n.isText = false) : Shaped (n :: ns) :=
  ⟨hns.apart.cons_of_not_isText h, List.forall_mem_cons.2 ⟨hn, hns.nodes⟩⟩

theorem Shaped.of_cons {n : Node} {ns : Forest} (h : Shaped (n :: ns)) : n.Shaped ∧ Shaped ns :=
  ⟨(List.forall_mem_cons.1 h.nodes).1,
    (List.isChain_cons.1 h.apart).2, (List.forall_mem_cons.1 h.nodes).2⟩

theorem Shaped.reverse {ns : Forest} (h : Shaped ns) : Shaped ns.reverse :=
  ⟨h.apart.reverse, fun n hn => h.nodes n (List.mem_reverse.1 hn)⟩

/-- What is open can have children, and is no script or style. -/
structure OpenElement.Shaped (e : OpenElement) : Prop where
  lexical : e.tag.Lexical
  children : e.tag.isChildless = false
  notRaw : isRawText e.tag.name = false
  before : Html.Shaped e.before

/-- The shape of what was read so far. -/
structure Growth.Shaped (g : Growth) : Prop where
  nodes : Html.Shaped g.nodes
  path : ∀ e ∈ g.path, e.Shaped

namespace Growth

variable {g : Growth}

theorem Shaped.push (hg : g.Shaped) {n : Node} (hn : n.Shaped) (h : n.isText = false) :
    (g.push n).Shaped :=
  ⟨hg.nodes.cons hn h, hg.path⟩

theorem Shaped.pushText (hg : g.Shaped) (s : String) : (g.pushText s).Shaped := by
  obtain ⟨nodes, path⟩ := g
  obtain ⟨⟨apart, nodes⟩, path⟩ := hg
  unfold Growth.pushText
  split
  · exact ⟨⟨apart, nodes⟩, path⟩
  rename_i hs
  have hs : s ≠ "" := fun h => hs (String.isEmpty_iff.2 h)
  split
  · rename_i t ns hns
    dsimp only at hns apart nodes
    subst hns
    rw [Apart, List.isChain_cons] at apart
    obtain ⟨hn, hns⟩ := List.forall_mem_cons.1 nodes
    have hts : t ++ s ≠ "" := fun h => hs (String.append_eq_empty_iff.1 h).2
    exact ⟨⟨apart.2.cons apart.1, List.forall_mem_cons.2 ⟨.text hts, hns⟩⟩, path⟩
  · rename_i hne
    refine ⟨⟨apart.cons fun m hm => ?_, List.forall_mem_cons.2 ⟨.text hs, nodes⟩⟩, path⟩
    cases m with
    | text t =>
      obtain ⟨ns, hns⟩ := List.head?_eq_some_iff.1 hm
      exact (hne t ns hns).elim
    | _ => rfl

theorem Shaped.openTag (hg : g.Shaped) {t : Tag} (ht : t.Lexical) (h : t.isChildless = false)
    (hraw : isRawText t.name = false) : (g.openTag t).Shaped :=
  ⟨.nil, List.forall_mem_cons.2 ⟨⟨ht, h, hraw, hg.nodes⟩, hg.path⟩⟩

theorem closeOne_shaped {e : OpenElement} (he : e.Shaped) {ns : List Node}
    (hns : Html.Shaped ns) : Html.Shaped (closeOne e ns) :=
  he.before.cons
    (.element he.lexical he.children he.notRaw hns.reverse.apart hns.reverse.nodes) rfl

theorem closeIn_shaped {name : String} {path : List OpenElement} :
    ∀ {ns : List Node} {g : Growth}, Html.Shaped ns → (∀ e ∈ path, e.Shaped) →
      closeIn name ns path = some g → g.Shaped := by
  induction path with
  | nil => exact fun _ _ h => by cases h
  | cons e path ih =>
    intro ns g hns hpath h
    obtain ⟨he, hpath⟩ := List.forall_mem_cons.1 hpath
    have hclose := closeOne_shaped he hns
    rw [closeIn] at h
    split at h
    · cases h
      exact ⟨hclose, hpath⟩
    · exact ih hclose hpath h

theorem Shaped.finish (hg : g.Shaped) : Html.Shaped g.finish := by
  obtain ⟨ns, path⟩ := g
  obtain ⟨hns, hpath⟩ := hg
  refine Shaped.reverse ?_
  dsimp only at hns hpath ⊢
  induction path generalizing ns with
  | nil => exact hns
  | cons e path ih =>
    obtain ⟨he, hpath⟩ := List.forall_mem_cons.1 hpath
    exact ih (closeOne e ns) (closeOne_shaped he hns) hpath

end Growth

/-- The form of a token. -/
def Token.Shaped : Token → Prop
  | .start t => t.Lexical
  | .leaf n => n.isMarkup = true ∧ n.Rescanned
  | _ => True

theorem Markup.token_lexical {m : Markup} {content : List Char} {t : Tag}
    (h : m.token content = .ok (.start t)) : t.Lexical :=
  Markup.token_start h ▸ Tag.ofContent_lexical content

theorem scan_shaped {c : Char} {s : List Char} {r : Scan} (h : scan c s = .ok r) :
    r.token.Shaped := by
  unfold scan at h
  split at h
  · cases ht : r.token with
    | text _ => trivial
    | close _ => trivial
    | leaf n => exact scanMarkup_rescanned h ht
    | start t =>
      obtain ⟨m, content, -, -, htoken⟩ := Markup.scanMarkup_ok h
      rw [ht] at htoken
      exact Markup.token_lexical htoken
  · cases h; trivial
  · cases h; trivial

theorem Node.isText_of_isMarkup {n : Node} (h : n.isMarkup = true) : n.isText = false := by
  cases n <;> first | rfl | cases h

namespace Reader

variable {source : List Char} {r : Reader source} {g : Growth}

theorem readRaw_shaped (hg : g.Shaped) {t : Tag} (ht : t.Lexical) (h : t.isChildless = false)
    (hraw : isRawText t.name = true) {text : List Char}
    (hfits : r.position + byteSize text ≤ byteSize source) :
    (r.readRaw t text g hfits).1.Shaped :=
  hg.push (.raw ht h hraw (splitContent_content _ _)) rfl

theorem take_shaped (hg : g.Shaped) {t : Token} (ht : t.Shaped) {r' : Reader source}
    {h : r.position < r'.position} {st : Step r} (hst : r.take g t r' h = .ok st) :
    st.1.Shaped := by
  unfold take at hst
  split at hst
  · cases hst
    exact hg.pushText _
  · cases hst
    exact hg.push (.markup ht.1 ht.2) (Node.isText_of_isMarkup ht.1)
  · split at hst
    · cases hst
      exact hg
    · split at hst
      · cases hst
      · rename_i hclose
        cases hst
        exact Growth.closeIn_shaped hg.nodes hg.path hclose
  · split at hst
    · rename_i hchildless
      cases hst
      exact hg.push (.childless ht hchildless) rfl
    · rename_i hchildren
      have hchildren := Bool.eq_false_iff.2 hchildren
      split at hst
      · rename_i hraw
        split at hst
        · cases hst
        · rename_i text htext
          cases hst
          exact readRaw_shaped hg ht hchildren hraw (r'.fits_here htext)
      · rename_i hraw
        cases hst
        exact hg.openTag ht hchildren (Bool.eq_false_iff.2 hraw)

theorem readToken_shaped (hg : g.Shaped) {st : Step r} (hst : step.readToken r g = .ok st) :
    st.1.Shaped := by
  unfold step.readToken at hst
  split at hst
  · cases hst
    exact hg
  · split at hst
    · cases hst
    · rename_i hs
      exact take_shaped hg (scan_shaped hs) hst

theorem step_shaped (hg : g.Shaped) {st : Step r} (hst : r.step g = .ok st) : st.1.Shaped := by
  unfold step at hst
  split at hst
  · split at hst
    · exact readToken_shaped hg hst
    · cases hst
      exact Growth.Shaped.pushText hg "<"
  · exact readToken_shaped hg hst

theorem read_shaped {r : Reader source} {g : Growth} (hg : g.Shaped) {ns : Forest}
    (h : r.read g = .ok ns) : Html.Shaped ns := by
  induction r, g using Reader.read.induct with
  | case1 r g e hs =>
    rw [read, hs] at h
    cases h
  | case2 r g g' hs =>
    rw [read, hs] at h
    cases h
    exact (step_shaped hg hs).finish
  | case3 r g g' r' hr' hs ih =>
    rw [read, hs] at h
    exact ih (step_shaped hg hs) h

end Reader

theorem parse_shaped {source : String} {ns : Forest} (h : parse source = .ok ns) : Shaped ns :=
  Reader.read_shaped ⟨.nil, fun _ h => absurd h List.not_mem_nil⟩ h

end StaticSite.Html
