import StaticSite.Proofs.Component.Checked
import StaticSite.Proofs.Html.Pruned

/-!
# Compiles that drop scripts and compiles that keep them

A compile that drops the scripts of later instances is run side by side with one that keeps them
all. What both make is related by a relation of forests that each way of building a forest respects
(`PruningLaws`), as long as the relation is respected where the scripts of a component are dropped:
that is checked for each component (`Compiler.expandChecked_pruning`).
-/

namespace StaticSite

open StaticSite.Html

/-- The same compiler, whose pages drop the scripts of later instances or not. -/
def Compiler.deduping (c : Compiler) (dedupe : Bool) : Compiler := { c with dedupe }

/-- What is built of related forests is related. On the left, later copies of content lack the
scripts of components. -/
structure PruningLaws (R : Forest → Forest → Prop) : Prop where
  nil : R [] []
  append {ns ms xs ys : Forest} : R ns ms → R xs ys → R (ns ++ xs) (ms ++ ys)
  leaf {n : Node} : n.isLeaf = true → R [n] [n]
  script {t : Tag} {ns : Forest} : t.is "script" = true → (∀ n ∈ ns, n.isLeaf = true) →
    R [.element t ns] [.element t ns]
  element {t : Tag} {ns ms : Forest} : t.is "script" = false → R ns ms →
    R [.element t ns] [.element t ms]
  stamp {ns ms : Forest} (number : UInt32) : R ns ms →
    R (stampInstance number ns) (stampInstance number ms)
  applyProperties {ns ms : Forest} (m : Metadata) (tag : Tag) : R ns ms →
    R (applyProperties m tag ns) (applyProperties m tag ms)
  tagScripts {ns ms : Forest} (p : Path) : R ns ms → R (tagScripts p ns) (tagScripts p ms)
  hasSlot {ns ms : Forest} : R ns ms → hasSlot ns = hasSlot ms
  all_isBlank {ns ms : Forest} : R ns ms → ns.all Node.isBlank = ms.all Node.isBlank
  fill {ns ms xs ys : Forest} : R ns ms → R xs ys →
    R (fillSlots (some (.ofContent xs)) true ns).1
      (fillSlots (some { first := ys, later := ys }) true ms).1
  fill_none {ns ms : Forest} : R ns ms → R (fillSlots none true ns).1 (fillSlots none true ms).1

/-- Links compiles that drop the scripts of later instances to ones that keep them. -/
def Link.pruning (c : Compiler) {R : Forest → Forest → Prop} (hR : PruningLaws R) :
    Link (c.deduping true) (c.deduping false) Link.Fixed where
  Together _ s t := s.scope.instances = t.scope.instances
  Alike _ := R
  Fragments f g := f.metadata = g.metadata ∧ R f.nodes g.nodes
  Lost _ _ := False
  excuseLeft := True
  excuseRight := False
  lost_extends h _ _ := h
  log _ _ h := h
  mono _ h := h
  nil _ := hR.nil
  append h h' := hR.append h h'
  leaf _ _ h := hR.leaf h
  element {_ tag _ _} _ hs h := by
    rcases hscript : tag.is "script" with _ | _
    · exact hR.element hscript h
    · obtain ⟨rfl, hleaf⟩ := hs hscript
      exact hR.script hscript hleaf
  stamp {w s t f g} tag h hfg := by
    refine ⟨w, le_refl w, congrArg (· + 1) h, ?_⟩
    unfold Fragment.spliced
    rw [hfg.1, h]
    exact hR.applyProperties _ _ (hR.stamp _ hfg.2)
  hasSlot h := hR.hasSlot h
  fill {_ _ _ xs ys} h hc := by
    unfold Compiler.filling?
    rw [hR.all_isBlank hc]
    rcases ys.all Node.isBlank with _ | _
    · exact hR.fill h hc
    · exact hR.fill_none h

namespace Compiler

open Compile Link

variable {c : Compiler} {R : Forest → Forest → Prop} {ok : Forest → Bool}

/-- A compile that drops scripts makes what is related to what one makes that keeps them, if every
component stays so when its scripts are dropped. -/
theorem expandChecked_pruning (hR : PruningLaws R)
    (hok : ∀ {ns ms : Forest}, R ns ms → ok ns = true →
      R (retainFirst PathMap.empty ns).1 ms) (depth : Nat) (around : List Path) (d : Document) :
    (Link.pruning c hR).caching.Agree .fixed (fun _ => R)
      (outcome ((c.deduping true).expandChecked (fun _ => ok) depth around d) {})
      (outcome ((c.deduping false).expandDocument depth around d) {}) := by
  refine expandChecked_follows (L := Link.pruning c hR) trivial rfl (fun _ _ => rfl) rfl
    ⟨fun _ _ h => h, fun h => h⟩ ?_ depth around d Fixed.fixed {} {} ⟨rfl, rfl, fun _ => .none⟩
  intro _ ns ms d h hns
  exact ⟨rfl, hR.tagScripts d.path (hok h hns)⟩

end Compiler

end StaticSite
