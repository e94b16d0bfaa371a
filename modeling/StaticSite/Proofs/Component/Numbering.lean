import Mathlib.Order.Basic
import StaticSite.Proofs.Component.Follow
import StaticSite.Proofs.Html.Alike

/-!
# Numbers of instances

Two compiles of the same page may number their instances differently. A `Pairing` says which counts
correspond: the instances are spliced in one after the other, so each count has at most one
counterpart. Below 2³² counts and numbers are the same, and forests whose numbers correspond have
the same scripts dropped.

`Link.counting` links compiles that may serve components from the cache to ones that need not, along
whatever else they have in common.
-/

namespace StaticSite

open StaticSite.Html

/-- Fragments that are the same but for the numbers of instances, which are replaced where they are
spliced in. -/
structure Fragment.Alike (f g : Fragment) : Prop where
  metadata : f.metadata = g.metadata
  nodes : Html.Alike (Origin.Alike fun _ _ => True) f.nodes g.nodes

namespace Fragment.Alike

theorem refl (f : Fragment) : f.Alike f :=
  ⟨rfl, .refl (fun _ => ⟨Path.same_refl _, trivial⟩) _⟩

theorem symm {f g : Fragment} (h : f.Alike g) : g.Alike f :=
  ⟨h.metadata.symm, h.nodes.symm fun o o' ho =>
    ⟨(Path.same_comm o'.component o.component).trans ho.component, trivial⟩⟩

theorem trans {f g k : Fragment} (h : f.Alike g) (h' : g.Alike k) : f.Alike k :=
  ⟨h.metadata.trans h'.metadata,
    h.nodes.trans (fun _ _ _ ho ho' => ⟨Path.same_trans ho.component ho'.component, trivial⟩)
      h'.nodes⟩

end Fragment.Alike

/-- The counts of instances of a left and a right compile that correspond. -/
abbrev Pairing := Nat → Nat → Prop

namespace Pairing

/-- The pairing is about instances that were counted, and gives each at most one counterpart. -/
structure Fits (R : Pairing) (s t : Progress) : Prop where
  left_le : ∀ {i j}, R i j → i ≤ s.scope.instances
  right_le : ∀ {i j}, R i j → j ≤ t.scope.instances
  left_unique : ∀ {i i' j}, R i j → R i' j → i = i'
  right_unique : ∀ {i j j'}, R i j → R i j' → j = j'

/-- A pairing stays one while more instances are counted. -/
theorem Fits.mono {R : Pairing} {s t s' t' : Progress} (h : R.Fits s t)
    (hs : s.scope.instances ≤ s'.scope.instances) (ht : t.scope.instances ≤ t'.scope.instances) :
    R.Fits s' t' :=
  ⟨fun hij => Nat.le_trans (h.left_le hij) hs, fun hij => Nat.le_trans (h.right_le hij) ht,
    h.left_unique, h.right_unique⟩

theorem fits_empty (s t : Progress) : Fits (fun _ _ => False) s t :=
  ⟨fun h => h.elim, fun h => h.elim, fun h => h.elim, fun h => h.elim⟩

/-- The pairing, with the next two counts paired. -/
def next (R : Pairing) (s t : Progress) : Pairing := fun i j =>
  R i j ∨ i = s.scope.instances + 1 ∧ j = t.scope.instances + 1

theorem Fits.next {R : Pairing} {s t : Progress} (h : R.Fits s t) :
    (R.next s t).Fits (Compile.counted s) (Compile.counted t) := by
  refine ⟨?_, ?_, ?_, ?_⟩
  · rintro i j (hij | ⟨rfl, -⟩)
    · exact Nat.le_succ_of_le (h.left_le hij)
    · exact Nat.le_refl _
  · rintro i j (hij | ⟨-, rfl⟩)
    · exact Nat.le_succ_of_le (h.right_le hij)
    · exact Nat.le_refl _
  · rintro i i' j (hij | ⟨rfl, rfl⟩) (hij' | ⟨rfl, hj⟩)
    · exact h.left_unique hij hij'
    · have := h.right_le hij
      omega
    · have := h.right_le hij'
      omega
    · rfl
  · rintro i j j' (hij | ⟨rfl, rfl⟩) (hij' | ⟨hi, rfl⟩)
    · exact h.right_unique hij hij'
    · have := h.left_le hij
      omega
    · have := h.left_le hij'
      omega
    · rfl

/-- The numbers of paired counts. -/
def Numbers (R : Pairing) (a b : UInt32) : Prop :=
  ∃ i j, R i j ∧ a = UInt32.ofNat i ∧ b = UInt32.ofNat j

theorem ofNat_inj {i j : Nat} (hi : i < UInt32.size) (hj : j < UInt32.size) :
    UInt32.ofNat i = UInt32.ofNat j ↔ i = j := by
  constructor
  · intro h
    have h' := congrArg UInt32.toNat h
    rwa [UInt32.toNat_ofNat_of_lt' hi, UInt32.toNat_ofNat_of_lt' hj] at h'
  · exact congrArg _

/-- As long as numbers do not start again from zero, those of different instances differ. -/
theorem Fits.separates {R : Pairing} {s t : Progress} (h : R.Fits s t)
    (hs : s.scope.instances < UInt32.size) (ht : t.scope.instances < UInt32.size) :
    Separates R.Numbers := by
  rintro _ _ _ _ ⟨i, i', hi, rfl, rfl⟩ ⟨j, j', hj, rfl, rfl⟩
  rw [ofNat_inj (Nat.lt_of_le_of_lt (h.left_le hi) hs) (Nat.lt_of_le_of_lt (h.left_le hj) hs),
    ofNat_inj (Nat.lt_of_le_of_lt (h.right_le hi) ht) (Nat.lt_of_le_of_lt (h.right_le hj) ht)]
  constructor
  · rintro rfl
    exact h.right_unique hi hj
  · rintro rfl
    exact h.left_unique hi hj

/-- Forests that are the same but for numbers of instances, which correspond. -/
abbrev Forests (R : Pairing) : Forest → Forest → Prop := Html.Alike (Origin.Alike R.Numbers)

theorem Forests.mono {R R' : Pairing} (h : R ≤ R') {ns ms : Forest} (hnm : R.Forests ns ms) :
    R'.Forests ns ms := by
  refine Html.Alike.mono (fun o o' ho => ⟨ho.component, ?_⟩) hnm
  obtain ⟨i, j, hij, hi, hj⟩ := ho.number
  exact ⟨i, j, h i j hij, hi, hj⟩

theorem spliced_alike {f g : Fragment} (h : f.Alike g) (R : Pairing) (s t : Progress) (tag : Tag) :
    (R.next s t).Forests (f.spliced tag (UInt32.ofNat (s.scope.instances + 1)))
      (g.spliced tag (UInt32.ofNat (t.scope.instances + 1))) := by
  unfold Fragment.spliced
  rw [h.metadata]
  refine Html.Alike.applyProperties (h.nodes.mapTags fun t u htu => ?_) _ _
  refine ⟨htu.name, htu.attrs, htu.selfClosing, ?_⟩
  have ho := htu.origin
  rw [Tag.stamp, Tag.stamp]
  dsimp only
  generalize t.origin = a at ho ⊢
  generalize u.origin = b at ho ⊢
  cases ho with
  | none => exact .none
  | some ho => exact .some ⟨ho.component, _, _, .inr ⟨rfl, rfl⟩, rfl, rfl⟩

theorem filling?_alike {c c' : Compiler} (hd : c.dedupe = c'.dedupe) {R : Pairing} {ns ms : Forest}
    (h : R.Forests ns ms) :
    Option.Rel (Filling.Alike (Origin.Alike R.Numbers)) (c.filling? ns) (c'.filling? ms) := by
  rw [Compiler.filling?, Compiler.filling?, h.all_isBlank, hd]
  split
  · exact .none
  · split
    · exact .some ⟨h, h.stripScripts⟩
    · exact .some ⟨h, h⟩

theorem tagScripts_alike {R : Origin → Origin → Prop}
    (hR : ∀ o o', R o o' → o.component.same o'.component = true) {p q : Path}
    (hpq : p.same q = true) {ns ms : Forest} (h : Html.Alike R ns ms) :
    Html.Alike (Origin.Alike fun _ _ => True) (tagScripts p ns) (tagScripts q ms) := by
  refine h.mapTags fun t u htu => ?_
  rw [Tag.tagScript, Tag.tagScript, htu.is, htu.origin_isNone]
  split
  · exact ⟨htu.name, htu.attrs, htu.selfClosing, .some ⟨hpq, trivial⟩⟩
  · exact htu.mono fun o o' ho => ⟨hR o o' ho, trivial⟩

/-- Expansions whose numbers correspond make the same fragments. -/
theorem toFragment_alike {c c' : Compiler} (hd : c.dedupe = c'.dedupe) {R : Pairing}
    {s t : Progress} (hR : R.Fits s t) (hs : s.scope.instances < UInt32.size)
    (ht : t.scope.instances < UInt32.size) (p : Path) (d : Document) {ns ms : Forest}
    (h : R.Forests ns ms) : (c.toFragment p d ns).Alike (c'.toFragment p d ms) := by
  refine ⟨rfl, ?_⟩
  have hkept : R.Forests (if c.dedupe then (retainFirst PathMap.empty ns).1 else ns)
      (if c'.dedupe then (retainFirst PathMap.empty ms).1 else ms) := by
    rw [hd]
    split
    · exact (h.retainFirst (hR.separates hs ht) .empty).1
    · exact h
  exact tagScripts_alike (fun _ _ ho => ho.component) (Path.same_refl p) hkept

end Pairing

/-- The same compiler, which serves components from the cache or does not. -/
def Compiler.reusing (c : Compiler) (reuse : Bool) : Compiler := { c with reuse }

/-- What two compiles have in common besides the pairing of their counts. -/
structure Pace where
  /-- What holds of what both left behind. -/
  Holds : Progress → Progress → Prop
  /-- They went too far to be compared any longer. -/
  Lost : Progress → Progress → Prop
  /-- The right compile may use up its depth where the left one does not. -/
  excuseRight : Prop
  log {s t : Progress} (l l' : List Log.Entry) :
    Holds s t → Holds { s with log := l } { t with log := l' }
  counted {s t : Progress} : Holds s t → Holds (Compile.counted s) (Compile.counted t)
  claim {s t : Progress} (p : Path) :
    Holds s t → Holds { s with cache := (s.cache.claim p).2 } t
  abandon {s t : Progress} (p : Path) :
    Holds s t → Holds { s with cache := s.cache.abandon p } t
  lost_extends {s t s' t' : Progress} : Lost s t → s.Extends s' → t.Extends t' → Lost s' t'
  /-- Numbers have not started again from zero. -/
  bounded {s t : Progress} :
    Holds s t → ¬Lost s t → s.scope.instances < UInt32.size ∧ t.scope.instances < UInt32.size

/-- Links compiles of a compiler by the pairing of their counts, where the left compiles may serve
components from the cache or not. -/
def Link.counting (c : Compiler) (reuse : Bool) (P : Pace) : Link (c.reusing reuse) c Pairing where
  Together R s t := R.Fits s t ∧ P.Holds s t
  Alike R := R.Forests
  Fragments := Fragment.Alike
  Lost := P.Lost
  excuseLeft := True
  excuseRight := P.excuseRight
  lost_extends := P.lost_extends
  log l l' h := ⟨h.1.mono (Nat.le_refl _) (Nat.le_refl _), P.log l l' h.2⟩
  mono hw h := Pairing.Forests.mono hw h
  nil _ := .nil
  append h h' := Html.Alike.append h h'
  leaf _ _ h := .leaf h .nil
  element ht _ h := .element ⟨rfl, rfl, rfl, by rw [ht]; exact .none⟩ h .nil
  stamp tag h hfg :=
    ⟨_, fun _ _ => .inl, ⟨h.1.next, P.counted h.2⟩, Pairing.spliced_alike hfg _ _ _ tag⟩
  hasSlot h := Html.Alike.hasSlot h
  fill h h' := (h.fillSlots (Pairing.filling?_alike rfl h') true).1

namespace Compiler

open Compile Link

variable {c : Compiler} {reuse : Bool} {P : Pace}

theorem compileFragment_counting {R : Pairing} {p : Path} {enter enter' : Document → Compile Forest}
    (he : ∀ d, c.sources.document p = .ok d →
      (Link.counting c reuse P).Follows R Pairing.Forests (enter d) (enter' d)) :
    (Link.counting c reuse P).Follows R (fun _ => Fragment.Alike)
      ((c.reusing reuse).compileFragment enter p) (c.compileFragment enter' p) := by
  refine compileFragment_follows rfl he fun d _ hst hlost hnm => ?_
  obtain ⟨hs, ht⟩ := P.bounded hst.2 hlost
  exact Pairing.toFragment_alike rfl hst.1 hs ht p d hnm

end Compiler

end StaticSite
