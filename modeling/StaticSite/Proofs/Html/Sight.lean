import StaticSite.Proofs.Html.Pruned

/-!
# How slots hide what is not blank

Blank content does not fill a slot, and a forest is blank if nothing but blanks stands at its top
level. Slots at the top level give way to what they are filled with. The *sight* of a forest is the
least number of slots around something that is not blank and no slot itself, so it says how many
instances without content open a fragment until something is seen (`sees_fill_none`).

A forest that lacks scripts of components is blank where the whole forest is as long as both have
the same sight (`BlankAlike`). Dropping the scripts of later instances keeps sight or not
(`keepsSight`). It does if and only if no instances of the component can tell the difference
(`keepsSight_iff`).
-/

namespace StaticSite.Html

/-- Whether the node is a slot. -/
def Node.isSlot : Node → Bool
  | .element t _ => t.is "slot"
  | _ => false

mutual

/-- The sight of a node. -/
def Node.sight : Node → Option Nat
  | .element t cs => if t.is "slot" then (sight cs).map (· + 1) else some 0
  | n => if n.isBlank then none else some 0

/-- The least number of slots around something at the top level that is neither blank nor a slot, if
there is anything. -/
def sight : Forest → Option Nat
  | [] => none
  | n :: ns => Option.merge min n.sight (sight ns)

end

/-- Whether something that is neither blank nor a slot stands inside at most `i` slots. -/
def sees (i : Nat) (ns : Forest) : Bool := (sight ns).any (· ≤ i)

theorem isSlot_leaf {n : Node} (h : n.isLeaf = true) : n.isSlot = false := by
  cases n <;> first | rfl | cases h

section Laws

variable {i : Nat} {ns ms : Forest}

theorem sees_leaf {n : Node} (h : n.isLeaf = true) (ns : Forest) :
    sees i (n :: ns) = (!n.isBlank || sees i ns) := by
  rw [sees, sight, any_merge_min, sees]
  congr 1
  have hsight : n.sight = if n.isBlank then none else some 0 := by
    cases n <;> first | rfl | cases h
  rw [hsight]
  rcases n.isBlank with _ | _
  · exact decide_eq_true (Nat.zero_le i)
  · rfl

theorem sees_element (t : Tag) (cs ns : Forest) :
    sees i (.element t cs :: ns) =
      ((if t.is "slot" then decide (0 < i) && sees (i - 1) cs else true) || sees i ns) := by
  rw [sees, sight, any_merge_min, sees, Node.sight]
  congr 1
  split
  · exact any_map_succ _ _
  · exact decide_eq_true (Nat.zero_le i)

theorem sees_append : sees i (ns ++ ms) = (sees i ns || sees i ms) := by
  induction ns with
  | nil => rfl
  | cons n ns ih =>
    simp only [sees, List.cons_append, sight, any_merge_min] at ih ⊢
    rw [ih, Bool.or_assoc]

/-- Two forests have the same sight if they let the same numbers of slots be seen through. -/
theorem sight_eq_iff : sight ns = sight ms ↔ ∀ i, sees i ns = sees i ms := any_le_inj.symm

theorem sees_mapTags {f : Tag → Tag} (hf : ∀ t, (f t).is "slot" = t.is "slot") :
    sees i (mapTags f ns) = sees i ns := by
  induction ns using forest_induction generalizing i with
  | nil => rfl
  | leaf n ns hl ih => rw [mapTags_leaf hl, sees_leaf hl, sees_leaf hl, ih]
  | element t cs ns ihcs ihns => rw [mapTags_element, sees_element, sees_element, hf, ihcs, ihns]

theorem sees_applyProperties (m : Metadata) (tag : Tag) :
    sees i (applyProperties m tag ns) = sees i ns := by
  induction ns using forest_induction with
  | nil => rfl
  | leaf n ns hl ih => rw [applyProperties_leaf hl, sees_leaf hl, sees_leaf hl, ih]
  | element t cs ns _ ih =>
    rw [applyProperties_element, sees_element, sees_element, ih, Tag.setProperties_is]

/-- A forest is blank if nothing is seen in it and no slot stands at its top level. -/
theorem all_isBlank_eq : ns.all Node.isBlank = !(sees 0 ns || ns.any Node.isSlot) := by
  induction ns using forest_induction with
  | nil => rfl
  | leaf n ns hl ih =>
    rw [List.all_cons, List.any_cons, sees_leaf hl, ih, isSlot_leaf hl]
    cases n.isBlank <;> simp
  | element t cs ns _ ih =>
    rw [List.all_cons, List.any_cons, sees_element]
    have hblank : (Node.element t cs).isBlank = false := rfl
    have hslot : (Node.element t cs).isSlot = t.is "slot" := rfl
    rw [hblank, hslot]
    cases t.is "slot" <;> simp

/-- Without content, an instance opens a slot around everything. -/
theorem sees_fill_none (first : Bool) :
    sees i (fillSlots none first ns).1 = sees (i + 1) ns := by
  induction ns using forest_induction generalizing first with
  | nil => rfl
  | leaf n ns hl ih => rw [fillSlots_leaf hl, sees_leaf hl, sees_leaf hl, ih]
  | element t cs ns ihcs ihns =>
    rcases hs : t.is "slot" with _ | _
    · rw [fillSlots_element _ _ hs, sees_element, sees_element, hs]
      rfl
    · rw [fillSlots_slot _ _ hs, sees_element, sees_append, ihns, hs]
      simp

/-- With content, an instance shows what no slot is around, and its content if a slot stands at the
top level. -/
theorem sees_fill_some {f : Filling} (hf : sees i f.later = true → sees i f.first = true)
    (first : Bool) :
    sees i (fillSlots (some f) first ns).1 =
      (sees 0 ns || ns.any Node.isSlot && sees i (f.next first)) := by
  -- A later slot matters only if there was a first one, which shows as much.
  have hnext : ∀ first, sees i (f.next false) = true → sees i (f.next first) = true := by
    intro first h
    cases first with
    | false => exact h
    | true => exact hf h
  induction ns using forest_induction generalizing first with
  | nil => rfl
  | leaf n ns hl ih =>
    rw [fillSlots_leaf hl, sees_leaf hl, sees_leaf hl, ih, List.any_cons, isSlot_leaf hl,
      Bool.false_or, Bool.or_assoc]
  | element t cs ns _ ihns =>
    have hfirst := hnext first
    have hslot : (Node.element t cs).isSlot = t.is "slot" := rfl
    rw [Bool.eq_iff_iff, List.any_cons, hslot, sees_element]
    rcases hs : t.is "slot" with _ | _
    · rw [fillSlots_element _ _ hs, sees_element, hs]
      simp
    · rw [fillSlots_slot _ _ hs, sees_append, ihns]
      simp
      tauto

end Laws

namespace Pruned

variable {ns ms : Forest} {i : Nat}

/-- What is seen of the left forest is seen of the right one. -/
theorem sees_of_left (h : Pruned ns ms) (hns : sees i ns = true) : sees i ms = true := by
  induction h generalizing i with
  | nil => exact hns
  | leaf hl _ ih =>
    rw [sees_leaf hl, Bool.or_eq_true] at hns ⊢
    exact hns.imp_right ih
  | script _ _ _ ih =>
    rw [sees_element, Bool.or_eq_true] at hns ⊢
    exact hns.imp_right ih
  | @element t _ _ _ _ _ _ _ ihcs ihns =>
    rw [sees_element, Bool.or_eq_true] at hns ⊢
    refine hns.imp (fun hcs => ?_) ihns
    rcases hs : t.is "slot" with _ | _
    · rfl
    · rw [hs, if_pos rfl, Bool.and_eq_true] at hcs
      rw [if_pos rfl, Bool.and_eq_true]
      exact hcs.imp_right ihcs
  | dropped _ _ _ _ ih =>
    rw [sees_element, ih hns, Bool.or_true]

theorem any_isSlot (h : Pruned ns ms) : ns.any Node.isSlot = ms.any Node.isSlot := by
  induction h with
  | nil => rfl
  | leaf _ _ ih => rw [List.any_cons, List.any_cons, ih]
  | script _ _ _ ih => rw [List.any_cons, List.any_cons, ih]
  | element _ _ _ _ ih =>
    rw [List.any_cons, List.any_cons, ih]
    rfl
  | @dropped t _ _ _ ht _ _ _ ih =>
    rw [List.any_cons, ih]
    show _ = (t.is "slot" || _)
    rw [Tag.not_slot ht, Bool.false_or]

/-- Without the scripts of components, both forests are the same. -/
theorem stripScripts_eq (h : Pruned ns ms) : Html.stripScripts ns = Html.stripScripts ms := by
  induction h with
  | nil => rfl
  | leaf hl _ ih => rw [stripScripts_leaf hl, stripScripts_leaf hl, ih]
  | script ht _ _ ih =>
    rw [stripScripts_element, stripScripts_element, if_pos ht, if_pos ht, ih]
  | element ht _ _ ihcs ihns =>
    rw [stripScripts_element, stripScripts_element, if_neg (by simp [ht]), if_neg (by simp [ht]),
      ihcs, ihns]
  | dropped ht ho _ _ ih =>
    rw [stripScripts_element, if_pos ht, if_neg (by simp [ho]), ih]

end Pruned

/-- The left forest lacks scripts of components, and both have the same sight. -/
structure BlankAlike (ns ms : Forest) : Prop where
  pruned : Pruned ns ms
  sees_eq : ∀ i, sees i ns = sees i ms

namespace BlankAlike

variable {ns ms xs ys : Forest}

theorem nil : BlankAlike [] [] := ⟨.nil, fun _ => rfl⟩

theorem append (h : BlankAlike ns ms) (h' : BlankAlike xs ys) :
    BlankAlike (ns ++ xs) (ms ++ ys) := by
  refine ⟨h.pruned.append h'.pruned, fun i => ?_⟩
  rw [sees_append, sees_append, h.sees_eq, h'.sees_eq]

theorem leaf {n : Node} (h : n.isLeaf = true) : BlankAlike [n] [n] := ⟨.leaf h .nil, fun _ => rfl⟩

theorem script {t : Tag} (ht : t.is "script" = true) (h : ∀ n ∈ ns, n.isLeaf = true) :
    BlankAlike [.element t ns] [.element t ns] :=
  ⟨.script ht h .nil, fun _ => rfl⟩

theorem element {t : Tag} (ht : t.is "script" = false) (h : BlankAlike ns ms) :
    BlankAlike [.element t ns] [.element t ms] := by
  refine ⟨.element ht h.pruned .nil, fun i => ?_⟩
  rw [sees_element, sees_element, h.sees_eq]

theorem applyProperties (m : Metadata) (tag : Tag) (h : BlankAlike ns ms) :
    BlankAlike (applyProperties m tag ns) (applyProperties m tag ms) := by
  refine ⟨h.pruned.applyProperties m tag, fun i => ?_⟩
  rw [sees_applyProperties, sees_applyProperties, h.sees_eq]

theorem stamp (number : UInt32) (h : BlankAlike ns ms) :
    BlankAlike (stampInstance number ns) (stampInstance number ms) := by
  refine ⟨h.pruned.stamp number, fun i => ?_⟩
  unfold stampInstance
  rw [sees_mapTags (f := Tag.stamp number) fun _ => rfl,
    sees_mapTags (f := Tag.stamp number) fun _ => rfl, h.sees_eq]

theorem tagScripts (p : Path) (h : BlankAlike ns ms) :
    BlankAlike (tagScripts p ns) (tagScripts p ms) := by
  refine ⟨h.pruned.tagScripts p, fun i => ?_⟩
  unfold Html.tagScripts
  rw [sees_mapTags (Tag.tagScript_is p · "slot"), sees_mapTags (Tag.tagScript_is p · "slot"),
    h.sees_eq]

/-- Content is blank in both forests or in none. -/
theorem all_isBlank (h : BlankAlike ns ms) : ns.all Node.isBlank = ms.all Node.isBlank := by
  rw [all_isBlank_eq, all_isBlank_eq, h.sees_eq, h.pruned.any_isSlot]

/-- Scripts may be missing in the later copies of the left content, and in none of the right one. -/
theorem fill (h : BlankAlike ns ms) (hc : BlankAlike xs ys) :
    BlankAlike (fillSlots (some (.ofContent xs)) true ns).1
      (fillSlots (some { first := ys, later := ys }) true ms).1 := by
  refine ⟨(h.pruned.fillSlots (.some ⟨hc.pruned, hc.pruned.stripScripts⟩) true).1, fun i => ?_⟩
  have hlater : sees i (stripScripts xs) = true → sees i xs = true :=
    (Pruned.of_flat hc.pruned.left_flat).stripScripts.sees_of_left
  rw [sees_fill_some hlater, sees_fill_some fun h => h, h.sees_eq, h.pruned.any_isSlot]
  show (_ || _ && sees i xs) = (_ || _ && sees i ys)
  rw [hc.sees_eq]

theorem fill_none (h : BlankAlike ns ms) :
    BlankAlike (fillSlots none true ns).1 (fillSlots none true ms).1 := by
  refine ⟨(h.pruned.fillSlots .none true).1, fun i => ?_⟩
  rw [sees_fill_none, sees_fill_none, h.sees_eq]

end BlankAlike

/-! ## First instances -/

/-- Whether a forest has the same sight when the scripts of later instances are dropped. -/
def keepsSight (ns : Forest) : Bool := sight (retainFirst PathMap.empty ns).1 == sight ns

/-- A component with the same sight is blank as before when the scripts of later instances are
dropped. -/
theorem BlankAlike.retainFirst {ns ms : Forest} (h : BlankAlike ns ms) (hk : keepsSight ns = true) :
    BlankAlike (retainFirst PathMap.empty ns).1 ms := by
  refine ⟨h.pruned.retainFirst _, fun i => ?_⟩
  rw [sight_eq_iff.1 (beq_iff_eq.1 hk), h.sees_eq]

/-- What is left of a component inside `i` instances without content, which stand in one whose
content is a slot of its own, without fallback. -/
def vacated : (i : Nat) → Forest → Forest
  | 0, ns =>
    (fillSlots none true
      (fillSlots (some (.ofContent [.element { name := "slot" } []])) true ns).1).1
  | i + 1, ns => vacated i (fillSlots none true ns).1

/-- An instance without content leaves no slot at the top level of what was filled with one. -/
theorem any_isSlot_refill {f : Filling}
    (hf : ∀ first, f.next first = [.element { name := "slot" } []]) (ns : Forest)
    (first first' : Bool) :
    (fillSlots none first' (fillSlots (some f) first ns).1).1.any Node.isSlot = false := by
  induction ns using forest_induction generalizing first first' with
  | nil => rfl
  | leaf n ns hl ih =>
    rw [fillSlots_leaf hl, fillSlots_leaf hl, List.any_cons, isSlot_leaf hl, ih,
      Bool.or_false]
  | element t cs ns _ ih =>
    rcases hs : t.is "slot" with _ | _
    · rw [fillSlots_element _ _ hs, fillSlots_element _ _ hs, List.any_cons, ih, Bool.or_false]
      exact hs
    · rw [fillSlots_slot _ _ hs]
      dsimp only
      rw [hf, List.singleton_append, fillSlots_slot _ _ (by decide)]
      exact ih false first'

theorem all_isBlank_vacated {i : Nat} {ns : Forest} :
    (vacated i ns).all Node.isBlank = !sees i ns := by
  induction i generalizing ns with
  | zero =>
    have hslot : ∀ first, (Filling.ofContent [.element { name := "slot" } []]).next first =
        [.element { name := "slot" } []] := by
      intro first
      cases first
      · rfl
      · rfl
    rw [vacated, all_isBlank_eq, any_isSlot_refill hslot, sees_fill_none, sees_fill_some fun h => h]
    rw [hslot]
    have hsees : sees (0 + 1) [.element { name := "slot" } []] = false := rfl
    rw [hsees, Bool.and_false, Bool.or_false, Bool.or_false]
  | succ i ih => rw [vacated, ih, sees_fill_none]

/-- Dropping the scripts of later instances keeps sight if and only if no instances around the
component can then be blank where they would not be otherwise. -/
theorem keepsSight_iff {ns : Forest} :
    keepsSight ns = true ↔ ∀ i, (vacated i (retainFirst PathMap.empty ns).1).all Node.isBlank =
      (vacated i ns).all Node.isBlank := by
  rw [keepsSight, beq_iff_eq, sight_eq_iff]
  simp only [all_isBlank_vacated, Bool.not_inj_iff]

end StaticSite.Html
