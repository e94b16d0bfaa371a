import StaticSite.Proofs.Component.Ensures
import StaticSite.Proofs.Component.Failure
import StaticSite.Proofs.Component.SlotFree
import StaticSite.Proofs.Html.Every

/-!
# Whether pages are expanded completely

A compiled page has no element left that stands for a document that there is, wherever the element
comes from: the page, a component, the content of an instance or what stands in a slot without
content (`Compiler.compilePage_complete`). An element is kept only if it stands for itself, or if
the visit of its document found nothing to read.

What an element stands for depends on the folder of the document in which it is written. An element
that is left is written in a document that the page reaches (`Compiler.Reaches`), and it is from
there that it leads nowhere.
-/

namespace StaticSite

open StaticSite.Html

namespace Resolver

variable {r : Resolver} {src : String} {s : List Char}

/-- A reference that starts with a single `/` leads to the same document from every folder. -/
theorem resolve_rooted (hsrc : Text.trim src.toList = '/' :: s) (hs : s.head? ≠ some '/')
    (folder : Path) :
    r.resolve folder src = .local (r.root.join (Path.ofChars s)).normalize := by
  have hexternal : isExternalLink ('/' :: s) = false := by
    unfold isExternalLink
    split
    · rename_i h
      cases h
      exact absurd rfl hs
    · simp [isSchemeChar]
  unfold resolve
  rw [hsrc]
  dsimp only
  rw [hexternal]
  rfl

end Resolver

/-- A document can be found where it is said to be, and nowhere else. -/
def Sources.Consistent (s : Sources) : Prop :=
  ∀ p, s.contains p = true ↔ s.read p ≠ .error .missing

namespace Compiler

open Compile

variable {c : Compiler} {v : Visit} {folder p q target : Path} {d : Document} {t tag : Tag}

/-- An element of the same name and source is written in the document at the path. -/
def Writes (c : Compiler) (p : Path) (t : Tag) : Prop :=
  ∃ u ∈ tags (c.written p), u.name = t.name ∧ u.attr? "src" = t.attr? "src"

/-- The document at the second path is the one at the first, or one that it refers to, directly or
through others. Paths of the same place are taken for the same document. -/
def Reaches (c : Compiler) : Path → Path → Prop :=
  Relation.ReflTransGen fun p q => p.same q = true ∨ c.Refers p q

/-- The element is written in a document that the one at `p` reaches, and stands there for no
document that there is. -/
def Unresolved (c : Compiler) (p : Path) (t : Tag) : Prop :=
  ∃ q d, c.Reaches p q ∧ c.sources.document q = .ok d ∧ c.Writes q t ∧
    ∀ r, c.targetIn d.folder t = .document r → c.sources.contains r = false

theorem targetIn_eq_of_src {t u : Tag} (hname : t.name = u.name)
    (hsrc : t.attr? "src" = u.attr? "src") : c.targetIn folder t = c.targetIn folder u := by
  rw [targetIn, targetIn, References.target, References.target, Tag.is, Tag.is, hname, hsrc]

theorem every_writes (hd : c.sources.document p = .ok d) {ns : Forest}
    (hns : parse d.html = .ok ns) : Every (c.Writes p) ns :=
  fun t ht => ⟨t, (written_of_parse hd hns).symm ▸ ht, rfl, rfl⟩

theorem Writes.refers (ht : c.Writes p t) (hd : c.sources.document p = .ok d)
    (htarget : c.targetIn d.folder t = .document q) : c.Refers p q := by
  obtain ⟨u, hu, hname, hsrc⟩ := ht
  exact ⟨d, hd, u, hu, (targetIn_eq_of_src hname hsrc).trans htarget⟩

theorem unresolved_sourceOnly : SourceOnly (c.Unresolved p) := by
  intro t u hname hsrc ⟨q, d, hq, hd, ⟨w, hw, hwname, hwsrc⟩, h⟩
  refine ⟨q, d, hq, hd, ⟨w, hw, hwname.trans hname, hwsrc.trans hsrc⟩, fun r hr => h r ?_⟩
  exact (targetIn_eq_of_src hname hsrc).trans hr

/-- An element that stands for no document is unresolved. -/
theorem unresolved_of_targetIn (hd : c.sources.document p = .ok d) (ht : c.Writes p t)
    (h : ∀ r, c.targetIn d.folder t ≠ .document r) : c.Unresolved p t :=
  ⟨p, d, .refl, hd, ht, fun r hr => absurd hr (h r)⟩

/-- An element is unresolved if the document that it stands for does not exist. -/
theorem unresolved_of_not_contains (hd : c.sources.document p = .ok d) (ht : c.Writes p t)
    (h : c.targetIn d.folder t = .document target)
    (htarget : c.sources.contains target = false) : c.Unresolved p t := by
  refine ⟨p, d, .refl, hd, ht, fun r hr => ?_⟩
  rw [h] at hr
  cases hr
  exact htarget

/-- What is unresolved in a document is so in those of the same place, and in those that refer to
it. -/
theorem Unresolved.around (hpq : p.same q = true ∨ c.Refers p q) (h : c.Unresolved q t) :
    c.Unresolved p t := by
  obtain ⟨r, d, hr, hrest⟩ := h
  exact ⟨r, d, .head hpq hr, hrest⟩

/-! ## What the name and the source of an element say -/

/-- An element named `x-NAME` is no `include`. -/
theorem is_include_of_toList {x : Char} {name : List Char}
    (h : tag.name.toList = x :: '-' :: name) : tag.is "include" = false := by
  rw [Bool.eq_false_iff, Tag.is, Text.sameName, h, ne_eq, beq_iff_eq]
  intro hname
  have hdash := congrArg (fun l => l[1]?) hname
  exact absurd hdash (by simp [Text.lower])

/-- An element named `x-NAME` stands for the component `NAME`. -/
theorem componentName?_of_toList {x : Char} {name : List Char}
    (h : tag.name.toList = x :: '-' :: name) (hx : x = 'x' ∨ x = 'X') (hname : name ≠ []) :
    componentName? tag.name = some (String.ofList name) := by
  obtain ⟨a, s, rfl⟩ := List.exists_cons_of_ne_nil hname
  have hlower : x.toLower = 'x' := by
    rcases hx with rfl | rfl
    · rfl
    · rfl
  unfold componentName?
  rw [h]
  exact if_pos hlower

/-- If the document of a component does not exist, neither of the two that may be does. -/
theorem not_contains_componentPath {name : String}
    (h : c.sources.contains (c.componentPath c.sources.contains name) = false) :
    c.sources.contains (c.components.join ⟨name ++ ".html"⟩) = false ∧
      c.sources.contains (c.components.join ⟨name ++ ".md"⟩) = false := by
  unfold References.componentPath at h
  dsimp only at h
  split at h
  · rename_i hmarkdown
    rw [h, Bool.and_false] at hmarkdown
    cases hmarkdown
  · rename_i hmarkdown
    refine ⟨h, ?_⟩
    rw [h, Bool.not_false, Bool.true_and] at hmarkdown
    exact Bool.eq_false_iff.2 hmarkdown

/-- A component that an element is left to stand for does not exist. -/
theorem Unresolved.component {x : Char} {name : List Char} (h : c.Unresolved p tag)
    (htag : tag.name.toList = x :: '-' :: name) (hx : x = 'x' ∨ x = 'X') (hname : name ≠ []) :
    c.sources.contains (c.components.join ⟨String.ofList name ++ ".html"⟩) = false ∧
      c.sources.contains (c.components.join ⟨String.ofList name ++ ".md"⟩) = false := by
  obtain ⟨q, d, -, -, -, h⟩ := h
  refine not_contains_componentPath (h _ ?_)
  rw [targetIn, References.target, is_include_of_toList htag,
    componentName?_of_toList htag hx hname]
  rfl

/-- A reference from the base folder that an element is left to include leads to no document. -/
theorem Unresolved.rooted {src : String} {s : List Char} (h : c.Unresolved p tag)
    (hi : tag.is "include" = true) (hattr : tag.attr? "src" = some src)
    (hsrc : Text.trim src.toList = '/' :: s) (hs : s.head? ≠ some '/') :
    c.sources.contains (c.resolver.root.join (Path.ofChars s)).normalize = false := by
  obtain ⟨q, d, -, -, -, h⟩ := h
  refine h _ ?_
  rw [targetIn, References.target, if_pos hi, hattr]
  dsimp only
  rw [Resolver.resolve_rooted hsrc hs]

/-! ## Expansions -/

/-- The cache keeps components whose elements may all stay. -/
def KeepsComplete (c : Compiler) (k : Cache) : Prop :=
  k.Holds fun p f => Every (c.Unresolved p) f.nodes

theorem KeepsComplete.keeps (p : Path) :
    CacheKeeps c.KeepsComplete p fun f => Every (c.Unresolved p) f.nodes := by
  refine ⟨fun h => h.claim p, fun h => h.abandon p, fun h hf => ?_, fun h => h p _⟩
  refine h.finish fun q hpq t ht => ?_
  exact (hf t ht).around (.inl ((Path.same_comm q p).trans hpq))

/-- A visit makes a component whose elements may all stay, and says that the component is missing
only if there is no such document. -/
structure VisitsComplete (c : Compiler) (v : Visit) : Prop where
  ensures : ∀ p, Ensures c.KeepsComplete (fun o => ∀ f ∈ o, Every (c.Unresolved p) f.nodes) (v p)
  missing : ∀ {p s e}, (outcome (v p) s).1 = .error e → e.isMissing = true →
    c.sources.contains p = false

theorem splice_complete {f : Fragment} (hf : Every (c.Unresolved p) f.nodes) (children : Forest)
    {content : Compile Forest}
    (hcontent : Ensures c.KeepsComplete (Every (c.Unresolved p)) content) :
    Ensures c.KeepsComplete (Every (c.Unresolved p)) (c.splice target f tag children content) := by
  have hspliced : ∀ number, Every (c.Unresolved p) (f.spliced tag number) := fun number =>
    (hf.mapTags (f := Tag.stamp number) fun _ ht =>
      unresolved_sourceOnly (t := _) rfl rfl ht).applyProperties unresolved_sourceOnly _ _
  have hfill : ∀ xs, Every (c.Unresolved p) xs →
      ∀ g ∈ c.filling? xs, ∀ first, Every (c.Unresolved p) (g.next first) := by
    intro xs hxs g hg first
    rcases next_of_filling? hg first with h | h
    · exact h.symm ▸ hxs
    · exact h.symm ▸ hxs.stripScripts
  refine Ensures.countInstance.bind fun number _ => ?_
  show Ensures _ _ (if hasSlot (f.spliced tag number) = true then _ else _)
  split
  · refine hcontent.bind fun xs hxs => .pure ?_
    exact Every.fillSlots (hfill xs hxs) true (hspliced number)
  · split
    · exact (Ensures.report _).bind fun _ _ => .pure (hspliced number)
    · exact .pure (hspliced number)

theorem instantiate_complete (hv : c.VisitsComplete v) (hd : c.sources.document p = .ok d)
    (htag : c.Writes p tag) (htarget : c.targetIn d.folder tag = .document target)
    (children : Forest) {content : Compile Forest}
    (hcontent : Ensures c.KeepsComplete (Every (c.Unresolved p)) content) :
    Ensures c.KeepsComplete (Every (c.Unresolved p))
      (c.instantiate v d.folder target tag children content) := by
  intro s hs
  obtain ⟨hJ, hA⟩ := hv.ensures target s hs
  have hmissing := @VisitsComplete.missing c v hv target s
  unfold instantiate
  rw [outcome_bind, outcome_attempt]
  generalize outcome (v target) s = o at hJ hA hmissing
  obtain ⟨e | _ | f, t⟩ := o
  · dsimp only
    split
    · rename_i he
      have hleft : c.Unresolved p tag :=
        unresolved_of_not_contains hd htag htarget (hmissing rfl he)
      refine ((Ensures.report _).bind fun _ _ => hcontent.bind fun xs hxs => ?_) t hJ
      exact .pure (Every.element_iff.2 ⟨hleft, hxs, .nil⟩)
    · exact ⟨hJ, fun _ h => by cases h⟩
  · exact Ensures.pure Every.nil t hJ
  · have hf : Every (c.Unresolved p) f.nodes := fun u hu =>
      (hA (some f) rfl f rfl u hu).around (.inr (htag.refers hd htarget))
    exact splice_complete hf children hcontent t hJ

mutual

theorem expandNode_complete (hv : c.VisitsComplete v) (hd : c.sources.document p = .ok d) :
    ∀ n : Node, Every (c.Writes p) [n] →
      Ensures c.KeepsComplete (Every (c.Unresolved p)) (c.expandNode v d.folder n)
  | .element tag children, hn => by
    obtain ⟨htag, hchildren, -⟩ := Every.element_iff.1 hn
    have hcontent := expand_complete hv hd children hchildren
    unfold expandNode
    split
    · rename_i target htarget
      exact instantiate_complete hv hd htag htarget children hcontent
    · rename_i hother
      refine (Ensures.warn _).bind fun _ _ => hcontent.bind fun xs hxs => .pure ?_
      exact Every.element_iff.2 ⟨unresolved_of_targetIn hd htag hother, hxs, .nil⟩
  | .text _, _ | .comment _, _ | .doctype _, _ | .instruction _, _ | .cdata _, _ =>
    .pure ((Every.leaf_iff rfl).2 .nil)

/-- Nothing is left of an expansion of what is written in a document but what may stay. -/
theorem expand_complete (hv : c.VisitsComplete v) (hd : c.sources.document p = .ok d) :
    ∀ ns : Forest, Every (c.Writes p) ns →
      Ensures c.KeepsComplete (Every (c.Unresolved p)) (c.expand v d.folder ns)
  | [], _ => .pure .nil
  | n :: ns, h => by
    obtain ⟨hn, hns⟩ := Every.cons_iff.1 h
    rw [expand]
    refine (expandNode_complete hv hd n hn).bind fun xs hxs => ?_
    exact (expand_complete hv hd ns hns).bind fun ys hys => .pure (hxs.append hys)

end

/-! ## Documents -/

theorem compileFragment_complete {enter : Document → Compile Forest} {p : Path}
    (he : ∀ d, c.sources.document p = .ok d →
      Ensures c.KeepsComplete (Every (c.Unresolved p)) (enter d)) :
    Ensures c.KeepsComplete (fun f => Every (c.Unresolved p) f.nodes)
      (c.compileFragment enter p) := by
  intro s hs
  rw [outcome_compileFragment]
  rcases hd : c.sources.document p with e | d
  · exact ⟨hs, fun _ h => by cases h⟩
  · dsimp only
    rw [map_eq_pure_bind]
    refine ((he d hd).bind fun ns hns => .pure ?_) (noted p s) hs
    have hkept : Every (c.Unresolved p)
        (if c.dedupe then (retainFirst PathMap.empty ns).1 else ns) := by
      split
      · exact hns.retainFirst _
      · exact hns
    refine hkept.mapTags fun t ht => ?_
    unfold Tag.tagScript
    split
    · exact unresolved_sourceOnly (t := t) rfl rfl ht
    · exact ht

section Found

variable (hfound : c.sources.Consistent)

include hfound

theorem expandDocument_complete (depth : Nat) :
    ∀ (around : List Path) {p : Path} {d : Document}, c.sources.document p = .ok d →
      Ensures c.KeepsComplete (Every (c.Unresolved p)) (c.expandDocument depth around d) := by
  induction depth with
  | zero => exact fun _ _ _ _ s hs => ⟨hs, fun _ h => by cases h⟩
  | succ depth ih =>
    intro around p d hd s hs
    have hv : c.VisitsComplete (c.visit (c.expandDocument depth) around) := by
      refine ⟨fun q => ?_, fun {q s e} he hm => Bool.eq_false_iff.2 fun hq => ?_⟩
      · exact visit_ensures (KeepsComplete.keeps q)
          (compileFragment_complete fun d hd => ih (q :: around) hd)
      · exact (hfound q).1 hq (visit_missing he hm).2
    rw [expandDocument, outcome_expandSource]
    rcases hns : parse d.html with e | ns
    · exact ⟨hs, fun _ h => by cases h⟩
    · exact expand_complete hv hd ns (every_writes hd hns) s hs

theorem compilePage_ensures_complete (p : Path) :
    Ensures c.KeepsComplete (Every (c.Unresolved p)) (c.compilePage p) := by
  intro s hs
  rw [compilePage, outcome_compilePageBy]
  rcases hd : c.sources.document p with e | d
  · exact ⟨hs, fun _ h => by cases h⟩
  · refine (expandDocument_complete hfound c.depth [p] hd).bind (fun ns hns t ht => ?_) s hs
    rw [outcome_finishPage]
    split
    · exact ⟨ht, fun xs hxs => by cases hxs; exact hns.retainFirst _⟩
    · exact ⟨ht, fun xs hxs => by cases hxs; exact hns⟩

theorem KeepsComplete.after {events : List Event} {s : Progress} (hs : c.KeepsComplete s.cache) :
    c.KeepsComplete (c.after events s).cache := by
  induction events generalizing s with
  | nil => exact hs
  | cons event events ih =>
    refine ih ?_
    rcases event with p | p | ⟨p, anew⟩
    · exact hs.claim p
    · exact hs.abandon p
    · exact (compilePage_ensures_complete hfound p
        { s with scope := nextScope anew s.scope } hs).1

end Found

/-- A page and a component that refer to missing documents, one of them in the content of an
element that is left and one in the fallback of a slot. What the component refers to by `gap.html`
exists beside the page, but not beside the component. -/
def gappySite : PathMap (Except String String) :=
  ⟨[(⟨"/s/index.html"⟩, .ok "<X-none><x-c></x-c></X-none><include src=' /no.html'></include>"),
    (⟨"/s/gap.html"⟩, .ok "gap"),
    (⟨"/s/c/c.html"⟩, .ok "<slot><x-none></x-none></slot><include src=gap.html></include>")]⟩

end Compiler

end StaticSite
