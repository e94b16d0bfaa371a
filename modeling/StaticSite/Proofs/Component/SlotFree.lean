import Mathlib.Logic.Relation
import StaticSite.Proofs.Component.Ensures
import StaticSite.Proofs.Component.Session
import StaticSite.Proofs.Html.SlotNesting

/-!
# Whether pages are free of slots

An instance takes the slots of its component away, unless one stands inside another
(`compilePage_leaves_slot`). So a page without slots is compiled to a page without slots if no slot
stands inside another one in a document that the page refers to, directly or through other documents
(`compilePage_slotFree`).

What is expanded has slots, and slots inside slots, only as it was written, if the components that
it refers to have no slot inside a slot. The cache keeps such components for such documents only.
-/

namespace StaticSite

open StaticSite.Html

namespace Compiler

open Compile

variable {c : Compiler} {J : Cache → Prop} {v : Visit} {folder : Path} {ns cs : Forest}

/-! ## Expansions -/

/-- An instance has slots, and slots inside slots, only if its component has them. -/
theorem slotsWithin_spliced (f : Fragment) (tag : Tag) (number : UInt32) :
    SlotsWithin (f.spliced tag number) f.nodes :=
  (SlotsWithin.applyProperties f.metadata tag _).trans
    (SlotsWithin.mapTags (f := Tag.stamp number) (fun _ => rfl) f.nodes)

/-- A slot receives the content of the instance, or this content without the scripts of
components. -/
theorem next_of_filling? {xs : Forest} {g : Filling} (hg : c.filling? xs = some g) (first : Bool) :
    g.next first = xs ∨ g.next first = stripScripts xs := by
  unfold filling? at hg
  split at hg
  · cases hg
  · split at hg
    · cases hg
      cases first with
      | true => exact .inl rfl
      | false => exact .inr rfl
    · cases hg
      cases first with
      | true => exact .inl rfl
      | false => exact .inl rfl

/-- An instance of a component without slots inside slots has the slots of its content alone. -/
theorem splice_within {G : Prop} {f : Fragment} (hf : G → nestsSlots f.nodes = false)
    (target : Path) (tag : Tag) (children : Forest) {x : Compile Forest}
    (hx : Ensures J (fun xs => G → SlotsWithin xs cs) x) :
    Ensures J (fun xs => G → SlotsWithin xs cs) (c.splice target f tag children x) := by
  have hspliced : ∀ number, SlotsWithin (f.spliced tag number) f.nodes := slotsWithin_spliced f tag
  have hfill : ∀ number xs, G → SlotsWithin xs cs →
      SlotsWithin (fillSlots (c.filling? xs) true (f.spliced tag number)).1 cs := by
    intro number xs hG hxs
    rcases hfilling : c.filling? xs with _ | g
    · exact .of_hasSlot ((hasSlot_fill_none true).trans ((hspliced number).nested_eq (hf hG))) cs
    · refine .fill_some (fun first => ?_) true _
      rcases next_of_filling? hfilling first with h | h
      · exact h.symm ▸ hxs
      · exact h.symm ▸ (SlotsWithin.stripScripts xs).trans hxs
  refine Ensures.countInstance.bind fun number _ => ?_
  show Ensures J _ (if hasSlot (f.spliced tag number) = true then _ else _)
  split
  · exact hx.bind fun xs hxs => .pure fun hG => hfill number xs hG (hxs hG)
  · rename_i hslot
    have hwithin : SlotsWithin (f.spliced tag number) cs :=
      .of_hasSlot (Bool.eq_false_iff.2 hslot) cs
    split
    · exact (Ensures.report _).bind fun _ _ => .pure fun _ => hwithin
    · exact .pure fun _ => hwithin

theorem instantiate_within {G : Prop} {target : Path}
    (hv : Ensures J (fun o => G → ∀ f ∈ o, nestsSlots f.nodes = false) (v target)) (tag : Tag)
    (children : Forest) {x : Compile Forest} (hx : Ensures J (fun xs => G → SlotsWithin xs cs) x) :
    Ensures J (fun xs => G → SlotsWithin xs [.element tag cs])
      (c.instantiate v folder target tag children x) := by
  intro s hs
  obtain ⟨hJ, hA⟩ := hv s hs
  unfold instantiate
  rw [outcome_bind, outcome_attempt]
  generalize outcome (v target) s = o at hJ hA
  obtain ⟨e | _ | f, t⟩ := o
  · dsimp only
    split
    · refine ((Ensures.report _).bind fun _ _ => ?_) t hJ
      exact hx.bind fun xs hxs => .pure fun hG => .element rfl (hxs hG)
    · exact ⟨hJ, fun _ h => by cases h⟩
  · exact Ensures.pure (fun _ => .nil _) t hJ
  · have hf : G → nestsSlots f.nodes = false := fun hG => hA (some f) rfl hG f rfl
    exact (splice_within hf target tag children hx).imp
      (fun xs hxs hG => (hxs hG).trans (.children tag cs)) t hJ

/-- Every document that an element of the forest stands for is good. -/
def RefersTo (c : Compiler) (folder : Path) (Good : Path → Prop) (ns : Forest) : Prop :=
  ∀ t ∈ tags ns, ∀ q, c.targetIn folder t = .document q → Good q

/-- An expansion has slots, and slots inside slots, only as what is expanded, if the components are
good: if no slot stands inside another in them. -/
theorem expand_within {Good : Path → Prop}
    (hv : ∀ q, Ensures J (fun o => Good q → ∀ f ∈ o, nestsSlots f.nodes = false) (v q))
    (ns : Forest) :
    Ensures J (fun xs => c.RefersTo folder Good ns → SlotsWithin xs ns) (c.expand v folder ns) := by
  induction ns using forest_induction with
  | nil => exact .pure fun _ => .nil _
  | leaf n ns hn ih =>
    have hnode : c.expandNode v folder n = pure [n] := by
      cases n <;> first | rfl | cases hn
    rw [expand, hnode]
    refine Ensures.bind (A := fun xs => xs = [n]) (.pure rfl) fun xs hxs => ?_
    refine ih.bind fun ys hys => .pure fun hrefs => ?_
    rw [hxs]
    refine SlotsWithin.cons (.refl _) (hys ?_)
    rwa [RefersTo, tags_leaf hn] at hrefs
  | element t cs ns ihcs ihns =>
    have hcs : c.RefersTo folder Good (.element t cs :: ns) → c.RefersTo folder Good cs :=
      fun h u hu => h u (by rw [tags_element]; simp [hu])
    have hns : c.RefersTo folder Good (.element t cs :: ns) → c.RefersTo folder Good ns :=
      fun h u hu => h u (by rw [tags_element]; simp [hu])
    have hx : Ensures J
        (fun xs => c.RefersTo folder Good (.element t cs :: ns) → SlotsWithin xs cs)
        (c.expand v folder cs) := ihcs.imp fun xs hxs h => hxs (hcs h)
    have hnode : Ensures J
        (fun xs => c.RefersTo folder Good (.element t cs :: ns) → SlotsWithin xs [.element t cs])
        (c.expandNode v folder (.element t cs)) := by
      unfold expandNode
      split
      · rename_i target htarget
        refine instantiate_within ((hv target).imp fun o ho h => ho ?_) t cs hx
        exact h t (by rw [tags_element]; exact List.mem_cons_self ..) target htarget
      · refine (Ensures.warn _).bind fun _ _ => ?_
        exact hx.bind fun xs hxs => .pure fun h => .element rfl (hxs h)
    rw [expand]
    refine hnode.bind fun xs hxs => ?_
    exact ihns.bind fun ys hys => .pure fun h => .cons (hxs h) (hys (hns h))

/-! ## Documents -/

/-- What is written in the document at the path; nothing if it cannot be read. -/
def written (c : Compiler) (p : Path) : Forest :=
  match c.sources.document p with
  | .ok d => (parse d.html).toOption.getD []
  | .error _ => []

theorem written_of_parse {p : Path} {d : Document} {ns : Forest}
    (hd : c.sources.document p = .ok d) (hns : parse d.html = .ok ns) : c.written p = ns := by
  rw [written, hd]
  dsimp only
  rw [hns]
  rfl

/-- An element of the document at `p` stands for the document at `q`. -/
def Refers (c : Compiler) (p q : Path) : Prop :=
  ∃ d, c.sources.document p = .ok d ∧
    ∃ t ∈ tags (c.written p), c.targetIn d.folder t = .document q

/-- No slot stands inside a slot, in the document at `p` and in those that it refers to, directly or
through others. -/
def Unnested (c : Compiler) (p : Path) : Prop :=
  ∀ q, Relation.ReflTransGen c.Refers p q → nestsSlots (c.written q) = false

theorem Unnested.of_refers {p q : Path} (h : c.Unnested p) (hpq : c.Refers p q) : c.Unnested q :=
  fun r hr => h r (.head hpq hr)

variable {files : PathMap (Except String String)} (hc : c.sources = .ofFiles files) {p q : Path}

include hc

/-- Paths of the same place have the same text, and refer to the same documents. -/
theorem written_congr (h : p.same q = true) :
    c.written p = c.written q ∧ ∀ r, c.Refers p r → c.Refers q r := by
  have hwritten : ∀ {p q : Path} {d : Document}, p.same q = true →
      c.sources.document p = .ok d → c.written p = c.written q := by
    intro p q d h hd
    have hq := hd
    rw [hc] at hq
    unfold written
    rw [hd, hc, (Sources.document_congr h hq).1]
  refine ⟨?_, ?_⟩
  · rcases hp : c.sources.document p with e | d
    · rcases hq : c.sources.document q with e' | d'
      · rw [written, written, hp, hq]
      · exact (hwritten ((Path.same_comm q p).trans h) hq).symm
    · exact hwritten h hp
  · rintro r ⟨d, hd, t, ht, hr⟩
    have hp := hd
    rw [hc] at hp
    obtain ⟨hq, hpath⟩ := Sources.document_congr h hp
    rw [← hpath] at h
    have hfolder : d.folder.same { d with path := q }.folder = true := Document.folder_congr h
    refine ⟨{ d with path := q }, hc ▸ hq, t, ?_, ?_⟩
    · rw [hpath] at h
      exact hwritten h hd ▸ ht
    · exact (targetIn_congr hfolder t).symm.trans hr

theorem Unnested.congr (hp : c.Unnested p) (h : p.same q = true) : c.Unnested q := by
  have hqp : q.same p = true := (Path.same_comm q p).trans h
  intro r hr
  rcases Relation.ReflTransGen.cases_head hr with rfl | ⟨x, hqx, hxr⟩
  · rw [← (written_congr hc h).1]
    exact hp p .refl
  · exact hp r (.head ((written_congr hc hqp).2 x hqx) hxr)

/-- No document refers to one with a slot inside a slot if there is none. -/
theorem unnested_of_keys (h : ∀ k ∈ files.keys, nestsSlots (c.written k) = false) (p : Path) :
    c.Unnested p := by
  intro q _
  rcases hq : c.sources.document q with e | d
  · rw [written, hq]
    rfl
  · have hreadable : (Sources.ofFiles files).Readable q := ⟨d, hc ▸ hq⟩
    obtain ⟨k, hk, hkq⟩ := Sources.exists_key_of_readable hreadable
    rw [← (written_congr hc hkq).1]
    exact h k hk

omit hc

/-- The cache keeps components without slots inside slots, as far as there is none in their
documents. -/
def KeepsUnnested (c : Compiler) (k : Cache) : Prop :=
  k.Holds fun p f => c.Unnested p → nestsSlots f.nodes = false

include hc

theorem KeepsUnnested.finish {k : Cache} (h : c.KeepsUnnested k) {f : Fragment}
    (hf : c.Unnested p → nestsSlots f.nodes = false) : c.KeepsUnnested (k.finish p f) := by
  refine Cache.Holds.finish h fun q hpq hflat => ?_
  exact hf (hflat.congr hc ((Path.same_comm q p).trans hpq))

/-! ## Compiles -/

/-- How documents are expanded: with the slots that are written in them. -/
def EntersWithin (c : Compiler) (enter : List Path → Document → Compile Forest) : Prop :=
  ∀ around p d, c.sources.document p = .ok d →
    Ensures c.KeepsUnnested (fun xs => c.Unnested p → SlotsWithin xs (c.written p)) (enter around d)

omit hc in
theorem compileFragment_within {enter : List Path → Document → Compile Forest}
    (he : c.EntersWithin enter) (around : List Path) (p : Path) :
    Ensures c.KeepsUnnested (fun f => c.Unnested p → nestsSlots f.nodes = false)
      (c.compileFragment (enter around) p) := by
  intro s hs
  rw [outcome_compileFragment]
  rcases hd : c.sources.document p with e | d
  · exact ⟨hs, fun _ h => by cases h⟩
  · dsimp only
    rw [map_eq_pure_bind]
    refine (he around p d hd).bind (fun ns hns => ?_) (noted p s) hs
    refine .pure fun hflat => ?_
    have hkept : SlotsWithin (if c.dedupe then (retainFirst PathMap.empty ns).1 else ns) ns := by
      split
      · exact .retainFirst _ ns
      · exact .refl ns
    have hfragment := (SlotsWithin.mapTags (Tag.tagScript_is p · "slot") _).trans hkept
    exact (hfragment.trans (hns hflat)).nested_eq (hflat p .refl)

theorem visit_within {enter : List Path → Document → Compile Forest} (he : c.EntersWithin enter)
    (around : List Path) (p : Path) :
    Ensures c.KeepsUnnested (fun o => c.Unnested p → ∀ f ∈ o, nestsSlots f.nodes = false)
      (c.visit enter around p) := by
  have hkeeps : CacheKeeps c.KeepsUnnested p fun f => c.Unnested p → nestsSlots f.nodes = false :=
    ⟨fun h => h.claim p, fun h => h.abandon p, fun h hf => KeepsUnnested.finish hc h hf,
      fun h => h p _⟩
  exact (visit_ensures hkeeps (compileFragment_within he (p :: around) p)).imp
    fun o ho hflat f hf => ho f hf hflat

/-- Documents are expanded to what has slots, and slots inside slots, only as they are written. -/
theorem expandDocument_within (depth : Nat) : c.EntersWithin (c.expandDocument depth) := by
  induction depth with
  | zero => exact fun _ _ _ _ s hs => ⟨hs, fun _ h => by cases h⟩
  | succ depth ih =>
    intro around p d hd s hs
    rw [expandDocument, outcome_expandSource]
    rcases hparse : parse d.html with e | ns
    · exact ⟨hs, fun _ h => by cases h⟩
    have hwritten : c.written p = ns := written_of_parse hd hparse
    refine (expand_within (visit_within hc ih around) ns).imp (fun xs hxs hflat => ?_) s hs
    rw [hwritten]
    refine hxs fun t ht q hq => hflat.of_refers ⟨d, hd, t, ?_, hq⟩
    rwa [hwritten]

theorem compilePage_within (p : Path) :
    Ensures c.KeepsUnnested (fun xs => c.Unnested p → SlotsWithin xs (c.written p))
      (c.compilePage p) := by
  intro s hs
  rw [compilePage, outcome_compilePageBy]
  rcases hd : c.sources.document p with e | d
  · exact ⟨hs, fun _ h => by cases h⟩
  · refine (expandDocument_within hc c.depth [p] p d hd).bind (fun ns hns t ht => ?_) s hs
    rw [outcome_finishPage]
    split
    · refine ⟨ht, fun xs hxs hflat => ?_⟩
      cases hxs
      exact (SlotsWithin.retainFirst _ ns).trans (hns hflat)
    · exact ⟨ht, fun xs hxs => by cases hxs; exact hns⟩

theorem KeepsUnnested.after {events : List Event} {s : Progress} (hs : c.KeepsUnnested s.cache) :
    c.KeepsUnnested (c.after events s).cache := by
  induction events generalizing s with
  | nil => exact hs
  | cons event events ih =>
    refine ih ?_
    rcases event with p | p | ⟨p, anew⟩
    · exact hs.claim p
    · exact hs.abandon p
    · exact (compilePage_within hc p { s with scope := nextScope anew s.scope } hs).1

omit hc

/-- A page without slots is compiled to a page without slots, after every session, if no slot stands
inside another one in a document that the page refers to, directly or through others. An instance
without content leaves a slot if and only if one stands inside another. -/
theorem compilePage_slotFree (r : References) (files : PathMap (Except String String))
    (reuse dedupe : Bool) (events : List Event) (p : Path)
    (hpage : hasSlot (written ⟨r, .ofFiles files, reuse, dedupe⟩ p) = false)
    (hflat : Unnested ⟨r, .ofFiles files, reuse, dedupe⟩ p) :
    (∀ ns, (pageAfter ⟨r, .ofFiles files, reuse, dedupe⟩ events p).1 = .ok ns →
      hasSlot ns = false) ∧
    ∀ ns first, hasSlot (fillSlots none first ns).1 = nestsSlots ns := by
  refine ⟨fun ns hns => ?_, fun _ => hasSlot_fill_none⟩
  have hcache : KeepsUnnested ⟨r, .ofFiles files, reuse, dedupe⟩
      (after ⟨r, .ofFiles files, reuse, dedupe⟩ events {}).cache := .after rfl Cache.Holds.empty
  have hwithin := (compilePage_within (c := ⟨r, .ofFiles files, reuse, dedupe⟩) rfl p
    { after ⟨r, .ofFiles files, reuse, dedupe⟩ events {} with scope := {} } hcache).2 ns hns hflat
  exact hwithin.slots_eq hpage

/-- A site whose components forward slots to each other, and use fallbacks. -/
def forwardingSite : PathMap (Except String String) :=
  ⟨[(⟨"/s/index.html"⟩, .ok "<x-outer>a</x-outer><x-outer></x-outer><x-none></x-none>"),
    (⟨"/s/c/outer.html"⟩, .ok "<x-inner><slot>b</slot></x-inner><slot><x-inner></x-inner></slot>"),
    (⟨"/s/c/inner.html"⟩, .ok "<p><slot>c</slot></p>")]⟩

theorem compilePage_slotFree_sample :
    hasSlot ((siteCompiler forwardingSite true true).written ⟨"/s/index.html"⟩) = false ∧
      (siteCompiler forwardingSite true true).Unnested ⟨"/s/index.html"⟩ ∧
      ∀ ns, ((siteCompiler forwardingSite true true).pageAfter
          [.page ⟨"/s/index.html"⟩ true, .claim ⟨"/s/c/none.html"⟩] ⟨"/s/index.html"⟩).1 = .ok ns →
        hasSlot ns = false := by
  have hpage : hasSlot ((siteCompiler forwardingSite true true).written ⟨"/s/index.html"⟩) =
      false := by decide +kernel
  have hflat : (siteCompiler forwardingSite true true).Unnested ⟨"/s/index.html"⟩ :=
    unnested_of_keys rfl (by decide +kernel) _
  exact ⟨hpage, hflat, (compilePage_slotFree _ _ true true _ _ hpage hflat).1⟩

/-- A component with a slot in the fallback of a slot. -/
def nestingSite : PathMap (Except String String) :=
  ⟨[(⟨"/s/index.html"⟩, .ok "<x-c></x-c>"),
    (⟨"/s/c/c.html"⟩, .ok "<slot><slot>x</slot></slot>")]⟩

/-- A page without slots can be compiled to a page with a slot. -/
theorem compilePage_leaves_slot :
    hasSlot ((siteCompiler nestingSite true true).written ⟨"/s/index.html"⟩) = false ∧
      ((siteCompiler nestingSite true true).pageAfter [] ⟨"/s/index.html"⟩).1 =
        .ok [.element ⟨"slot", [], false, none⟩ [.text "x"]] := by
  decide +kernel

end Compiler

end StaticSite
