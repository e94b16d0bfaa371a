import StaticSite.Proofs.Component.Nesting
import StaticSite.Proofs.Component.SlotFree
import StaticSite.Proofs.Html.Forest

/-!
# Why pages fail

A page fails because of one document: the one that the error names, which cannot be read or parsed
on its own either (`Compiler.compilePage_error`). A component that does not exist makes no page
fail, as the element that stands for it is kept. What is caught there says that this very component
does not exist, and hides no failure inside it (`Compiler.visit_missing`). The content of an
instance that has no place for it is not compiled, and cannot fail
(`Compiler.expandNode_unfilled`).
-/

namespace StaticSite

open StaticSite.Html

/-- What is written in the document at a path, read and parsed on its own. -/
def Sources.content (s : Sources) (p : Path) : Except CompileError Forest := do
  let d ← s.document p
  parseAt d.path d.html

/-- The document that the error names fails on its own, with this error. -/
def Sources.FailsAlone (s : Sources) (e : CompileError) : Prop := s.content e.path = .error e

namespace Sources

variable {s : Sources} {p : Path} {d : Document} {e : CompileError}

theorem content_of_document (hd : s.document p = .ok d) : s.content p = parseAt d.path d.html := by
  rw [content, hd]
  rfl

/-- The error of a document names the path where the document was to be read. -/
theorem document_error_path (h : s.document p = .error e) : e.path = p := by
  unfold document Document.ofText at h
  split at h
  · split at h
    · cases h
    · split at h
      · cases h; rfl
      · cases h
  · cases h; rfl
  · cases h; rfl

theorem failsAlone_of_document (h : s.document p = .error e) : s.FailsAlone e := by
  rw [FailsAlone, document_error_path h, content, h]
  rfl

theorem parseAt_error_path {html : String} (h : parseAt p html = .error e) :
    e.path = p ∧ e.isMissing = false := by
  unfold parseAt at h
  split at h
  · cases h
  · cases h; exact ⟨rfl, rfl⟩

theorem failsAlone_of_parseAt (hd : s.document p = .ok d)
    (h : parseAt d.path d.html = .error e) : s.FailsAlone e := by
  rw [FailsAlone, (parseAt_error_path h).1, document_path hd, content_of_document hd]
  exact h

/-- A missing document is missed at its own path, where there is no text. -/
theorem eq_missing_of_document (h : s.document p = .error e) (he : e.isMissing = true) :
    e = .missing p ∧ s.read p = .error .missing := by
  cases e with
  | missing q =>
    obtain rfl : q = p := document_error_path h
    refine ⟨rfl, ?_⟩
    unfold document Document.ofText at h
    split at h
    · split at h
      · cases h
      · split at h <;> cases h
    · assumption
    · cases h
  | _ => cases he

theorem contains_ofFiles {files : PathMap (Except String String)} (p : Path) :
    (ofFiles files).contains p = true ↔ (ofFiles files).read p ≠ .error .missing := by
  show PathMap.contains files p = true ↔ _
  simp only [PathMap.contains, ofFiles]
  rcases files.get? p with _ | _ | _
  · simp
  · simp
  · simp

theorem contains_eq_false {files : PathMap (Except String String)}
    (h : (ofFiles files).read p = .error .missing) : files.contains p = false :=
  Bool.eq_false_iff.2 fun hp => (contains_ofFiles p).1 hp h

/-- A text that can be parsed at one path can be parsed at all paths of the same place. -/
theorem content_isOk_congr {files : PathMap (Except String String)} {p q : Path}
    (h : p.same q = true) (hp : ((ofFiles files).content p).isOk = true) :
    ((ofFiles files).content q).isOk = true := by
  rcases hd : (ofFiles files).document p with e | d
  · rw [content, hd] at hp
    cases hp
  · have hq := (document_congr h hd).1
    rw [content_of_document hd, parseAt] at hp
    rw [content_of_document hq, parseAt]
    dsimp only
    rcases hparse : Html.parse d.html with e | ns
    · rw [hparse] at hp
      cases hp
    · rfl

/-- If all documents can be parsed, only missing ones fail on their own. -/
theorem isMissing_of_failsAlone {files : PathMap (Except String String)}
    (h : ∀ k ∈ files.keys, ((ofFiles files).content k).isOk = true)
    (he : (ofFiles files).FailsAlone e) : e.isMissing = true := by
  rcases hf : files.get? e.path with _ | x
  · have hdocument : (ofFiles files).document e.path = .error (.missing e.path) := by
      simp [document, ofFiles, hf]
    rw [FailsAlone, content, hdocument] at he
    rw [← Except.error.inj he]
    rfl
  · obtain ⟨k, hk, hkp⟩ := PathMap.exists_key_of_get? hf
    have hok := content_isOk_congr hkp (h k hk)
    rw [he] at hok
    cases hok

end Sources

namespace Compiler

open Compile

variable {c : Compiler}

/-- An error that passes all the documents around the one that it comes from: it is not about a
missing document, and that document fails on its own. -/
def Passes (c : Compiler) (e : CompileError) : Prop :=
  e.isMissing = false ∧ (e.IsOfDocument → c.sources.FailsAlone e)

/-- The errors of a visit: those that pass all documents, and that the visited one is missing. -/
def FailsAt (c : Compiler) (p : Path) (e : CompileError) : Prop :=
  c.Passes e ∨ c.sources.document p = .error e

theorem lasting_true : Lasting fun _ => True :=
  ⟨⟨fun _ h => h, fun h => h⟩, fun _ h => h, fun h => h⟩

theorem visit_fails {enter : List Path → Document → Compile Forest} {around : List Path} {p : Path}
    (he : ∀ d, c.sources.document p = .ok d →
      Safe (fun _ => True) c.Passes (enter (p :: around) d)) :
    Safe (fun _ => True) (c.FailsAt p) (c.visit enter around p) :=
  visit_safe lasting_true (fun _ d hd => (he d hd).imp fun _ => .inl) fun _ => .inr

/-- An error passes the element that stands for the component unless the component is missing. -/
theorem FailsAt.passes {p : Path} {e : CompileError} (h : c.FailsAt p e)
    (he : e.isMissing = false) : c.Passes e := by
  rcases h with h | h
  · exact h
  · exact ⟨he, fun _ => Sources.failsAlone_of_document h⟩

/-- The expansion of a document fails only with errors that pass the documents around it. -/
theorem expandDocument_fails (depth : Nat) :
    ∀ (around : List Path) {p : Path} {d : Document}, c.sources.document p = .ok d →
      Safe (fun _ => True) c.Passes (c.expandDocument depth around d) := by
  induction depth with
  | zero =>
    intro around p d hd s hs
    refine ⟨hs, fun e he => ?_⟩
    cases he
    exact ⟨rfl, fun h => h.elim⟩
  | succ depth ih =>
    intro around p d hd
    refine expandSource_safe lasting_true.toSteady (fun q => ?_) _ _ _ fun e he => ?_
    · exact (visit_fails fun d hd => ih (q :: around) hd).imp fun e => FailsAt.passes
    · exact ⟨(Sources.parseAt_error_path he).2, fun _ => Sources.failsAlone_of_parseAt hd he⟩

/-- A visit that says that a document is missing says so of the visited one, which does not exist.
So nothing that goes wrong inside a component is taken for a missing component. -/
theorem visit_missing {depth : Nat} {around : List Path} {q : Path} {s : Progress}
    {e : CompileError} (h : (outcome (c.visit (c.expandDocument depth) around q) s).1 = .error e)
    (he : e.isMissing = true) : e = .missing q ∧ c.sources.read q = .error .missing := by
  have hvisit : Safe (fun _ => True) (c.FailsAt q) (c.visit (c.expandDocument depth) around q) :=
    visit_fails fun d hd => expandDocument_fails depth (q :: around) hd
  rcases (hvisit s trivial).2 e h with hpass | hdocument
  · rw [hpass.1] at he
    cases he
  · exact Sources.eq_missing_of_document hdocument he

/-! ## Content that has no place -/

/-- What is logged about the content of an instance of a component without slots. -/
def dropped (target : Path) (children : Forest) : List Log.Entry :=
  if children.all Node.isBlank then []
  else [⟨"compile", s!"`{target}` has no <slot>, instance content dropped", true⟩]

/-- An instance of a component without slots is made of the component alone. -/
theorem outcome_splice_unfilled {f : Fragment} (hf : hasSlot f.nodes = false) (target : Path)
    (tag : Tag) (children : Forest) (content : Compile Forest) (s : Progress) :
    outcome (c.splice target f tag children content) s =
      (.ok (f.spliced tag (UInt32.ofNat (s.scope.instances + 1))),
        { counted s with log := s.log ++ dropped target children }) := by
  have hslot : ∀ number, hasSlot (f.spliced tag number) = false := fun number =>
    (slotsWithin_spliced f tag number).slots_eq hf
  unfold splice
  rw [outcome_bind, outcome_countInstance]
  show outcome (if hasSlot (f.spliced tag _) = true then _ else _) _ = _
  rw [hslot, if_neg Bool.false_ne_true, dropped]
  rcases children.all Node.isBlank with _ | _
  · rfl
  · show _ = (Except.ok _, { counted s with log := s.log ++ [] })
    rw [List.append_nil]
    rfl

/-- The content of an instance is not compiled if its component contains itself or has no slot: all
contents have one outcome, but for what is logged about them. -/
theorem expandNode_unfilled {v : Visit} {folder target : Path} {tag : Tag} {s t : Progress}
    {o : Option Fragment} (htarget : c.targetIn folder tag = .document target)
    (ho : outcome (v target) s = (.ok o, t)) (hf : ∀ f ∈ o, hasSlot f.nodes = false) :
    ∃ (ns : Forest) (u : Progress), ∀ children, ∃ log,
      outcome (c.expandNode v folder (.element tag children)) s = (.ok ns, { u with log }) := by
  have hinstance : ∀ children, outcome (c.expandNode v folder (.element tag children)) s =
      outcome (c.instantiate v folder target tag children (c.expand v folder children)) s := by
    intro children
    rw [expandNode, htarget]
  cases o with
  | none =>
    refine ⟨[], t, fun children => ⟨t.log, ?_⟩⟩
    rw [hinstance, instantiate, outcome_bind, outcome_attempt, ho]
    rfl
  | some f =>
    refine ⟨f.spliced tag (UInt32.ofNat (t.scope.instances + 1)), counted t, fun children =>
      ⟨t.log ++ dropped target children, ?_⟩⟩
    rw [hinstance, instantiate, outcome_bind, outcome_attempt, ho]
    exact outcome_splice_unfilled (hf f rfl) target tag children _ t

/-! ## Pages -/

/-- The errors of a page: its document cannot be read, or one fails that passes the page. -/
theorem compilePage_fails (p : Path) : Safe (fun _ => True) (c.FailsAt p) (c.compilePage p) := by
  intro s _
  refine ⟨trivial, fun e he => ?_⟩
  rw [compilePage, outcome_compilePageBy] at he
  rcases hd : c.sources.document p with e' | d
  · rw [hd] at he
    cases he
    exact .inr hd
  · rw [hd] at he
    refine .inl ?_
    refine ((expandDocument_fails c.depth [p] hd).bind (fun ns => ?_) s trivial).2 e he
    intro s hs
    rw [outcome_finishPage]
    split
    · exact ⟨hs, fun e he => by cases he⟩
    · exact ⟨hs, fun e he => by cases he⟩

/-- An error of a page is that of the document named in it, and no document but the page is said to
be missing. -/
theorem failsAlone_of_compilePage {r : References} {files : PathMap (Except String String)}
    {reuse dedupe : Bool} {s : Progress} {p : Path} {e : CompileError}
    (he : (outcome (compilePage ⟨r, .ofFiles files, reuse, dedupe⟩ p) s).1 = .error e) :
    (Sources.ofFiles files).FailsAlone e ∧
      (e.isMissing = true → e = .missing p ∧ files.contains p = false) := by
  rcases (compilePage_fails p s trivial).2 e he with hpass | hdocument
  · refine ⟨hpass.2 (isOfDocument_of_ne fun q hq => ?_), fun h => ?_⟩
    · exact (compilePage_nests r files reuse dedupe p).2.1 s q (hq ▸ he)
    · rw [hpass.1] at h
      cases h
  · refine ⟨Sources.failsAlone_of_document hdocument, fun h => ?_⟩
    exact (Sources.eq_missing_of_document hdocument h).imp_right Sources.contains_eq_false

/-- A page fails only with the error that the document named in it gives on its own, whatever the
cache holds, and says that a document is missing only of itself. What is caught where an element
stands for a missing document is about that document alone. So every page that exists is compiled if
all documents can be read and parsed, whatever they refer to.

Wherever an instance stands, its content changes nothing and does not fail if the instance is left
out because its component contains itself, or if the component has no slot. Only the log may tell
one content from another. -/
theorem compilePage_error (r : References) (files : PathMap (Except String String))
    (reuse dedupe : Bool) (s : Progress) (p : Path) :
    let c : Compiler := ⟨r, .ofFiles files, reuse, dedupe⟩
    (∀ e, (outcome (c.compilePage p) s).1 = .error e →
      c.sources.content e.path = .error e ∧ (e.isMissing = true → e = .missing p)) ∧
    (∀ depth around q t e,
      (outcome (c.visit (c.expandDocument depth) around q) t).1 = .error e →
        e.isMissing = true → e = .missing q ∧ files.contains q = false) ∧
    ((∀ k ∈ files.keys, (c.sources.content k).isOk = true) → files.contains p = true →
      ∃ ns, (outcome (c.compilePage p) s).1 = .ok ns) ∧
    ∀ depth around folder tag target t,
      let v := c.visit (c.expandDocument depth) around
      c.targetIn folder tag = .document target →
      (around.any (·.same target) = true ∨
        ∃ f, (outcome (v target) t).1 = .ok (some f) ∧ hasSlot f.nodes = false) →
      ∃ (ns : Forest) (u : Progress), ∀ children, ∃ log,
        outcome (c.expandNode v folder (.element tag children)) t = (.ok ns, { u with log }) := by
  intro c
  refine ⟨fun e he => (failsAlone_of_compilePage he).imp_right fun h hm => (h hm).1, ?_, ?_, ?_⟩
  · intro depth around q t e he hm
    exact (visit_missing he hm).imp_right Sources.contains_eq_false
  · intro hkeys hp
    rcases ho : (outcome (c.compilePage p) s).1 with e | ns
    · obtain ⟨halone, hpath⟩ := failsAlone_of_compilePage ho
      rw [(hpath (Sources.isMissing_of_failsAlone hkeys halone)).2] at hp
      cases hp
    · exact ⟨ns, rfl⟩
  · intro depth around folder tag target t v htarget hunfilled
    rcases hunfilled with hcut | ⟨f, hf, hslot⟩
    · exact expandNode_unfilled htarget (outcome_visit_around hcut t) fun f hf => by cases hf
    · refine expandNode_unfilled htarget (Prod.ext hf rfl) fun g hg => ?_
      cases hg
      exact hslot

/-- A text that refers to a missing component, to the document it stands in, to an external document
and to nothing. -/
def danglingText : String :=
  "<x-none></x-none><include src=index.html></include><include src=//a></include>" ++
    "<include></include>"

/-- A page with this text alone. -/
def danglingSite : PathMap (Except String String) := ⟨[(⟨"/s/index.html"⟩, .ok danglingText)]⟩

/-- A page that refers to nothing that exists, and then to a component with an end tag too many.
Another page refers to this component too, but only in the content of an instance without a slot
and in that of an instance of itself. -/
def brokenSite : PathMap (Except String String) :=
  ⟨[(⟨"/s/index.html"⟩, .ok (danglingText ++ "<x-bad></x-bad>")),
    (⟨"/s/spared.html"⟩, .ok ("<x-plain><x-bad></x-bad></x-plain>" ++
      "<include src=spared.html><x-bad></x-bad></include>")),
    (⟨"/s/c/plain.html"⟩, .ok "plain"),
    (⟨"/s/c/bad.html"⟩, .ok "<p></div></section>")]⟩

theorem compilePage_error_sample :
    let c := siteCompiler brokenSite true true
    let e : CompileError := .malformed ⟨"/s/c/bad.html"⟩ (.unmatchedEnd "div" 9)
    let v := c.visit (c.expandDocument c.depth) [⟨"/s/spared.html"⟩]
    let self : Tag := { name := "include", attrs := [("src", "spared.html")] }
    ((outcome (c.compilePage ⟨"/s/index.html"⟩) {}).1 = .error e ∧
      c.sources.content ⟨"/s/c/bad.html"⟩ = .error e) ∧
    (∃ ns, (outcome ((siteCompiler danglingSite true true).compilePage ⟨"/s/index.html"⟩) {}).1 =
      .ok ns) ∧
    ((∃ (ns : Forest) (u : Progress), ∀ children, ∃ log,
        outcome (c.expandNode v ⟨"/s"⟩ (.element { name := "x-plain" } children)) {} =
          (.ok ns, { u with log })) ∧
      (∃ (ns : Forest) (u : Progress), ∀ children, ∃ log,
        outcome (c.expandNode v ⟨"/s"⟩ (.element self children)) {} = (.ok ns, { u with log })) ∧
      (outcome (c.compilePage ⟨"/s/spared.html"⟩) {}).1 = .ok [.text "plain"]) := by
  intro c e v self
  have h : (outcome (c.compilePage ⟨"/s/index.html"⟩) {}).1 = .error e := by decide +kernel
  have hplain : ∃ f, (outcome (v ⟨"/s/c/plain.html"⟩) {}).1 = .ok (some f) ∧
      hasSlot f.nodes = false := by
    have hslot : ((outcome (v ⟨"/s/c/plain.html"⟩) {}).1.map fun o => o.map fun f =>
        hasSlot f.nodes) = .ok (some false) := by decide +kernel
    rcases ho : (outcome (v ⟨"/s/c/plain.html"⟩) {}).1 with e | _ | f
    · rw [ho] at hslot
      cases hslot
    · rw [ho] at hslot
      cases hslot
    · rw [ho] at hslot
      exact ⟨f, rfl, Option.some.inj (Except.ok.inj hslot)⟩
  have hself : c.targetIn ⟨"/s"⟩ self = .document ⟨"/s/spared.html"⟩ := by decide
  refine ⟨⟨h, ((compilePage_error _ brokenSite true true {} _).1 e h).1⟩, ?_, ?_, ?_, ?_⟩
  · exact (compilePage_error _ danglingSite true true {} _).2.2.1 (by decide +kernel) rfl
  · exact (compilePage_error _ brokenSite true true {} ⟨""⟩).2.2.2 _ _ _ _ _ {} rfl (.inr hplain)
  · exact (compilePage_error _ brokenSite true true {} ⟨""⟩).2.2.2 _ _ _ _ _ {} hself
      (.inl (by decide))
  · decide +kernel

end Compiler

end StaticSite
