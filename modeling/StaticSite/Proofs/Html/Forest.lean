import StaticSite.Component.Property
import StaticSite.Component.Slot
import StaticSite.Html.Writer

/-!
# Induction over forests

A node is an element or a leaf. What holds of a forest is proved by induction over its elements and
leaves (`forest_induction`), and the equations below say what each operation does with either.
-/

namespace StaticSite.Html

/-- Whether the node is no element. -/
def Node.isLeaf : Node → Bool
  | .element _ _ => false
  | _ => true

/-- To prove a property of all forests, it suffices to add leaves and elements in front. -/
@[elab_as_elim]
theorem forest_induction {motive : Forest → Prop} (nil : motive [])
    (leaf : ∀ n ns, n.isLeaf = true → motive ns → motive (n :: ns))
    (element : ∀ t cs ns, motive cs → motive ns → motive (.element t cs :: ns)) :
    ∀ ns, motive ns
  | [] => nil
  | .element t cs :: ns =>
    element t cs ns (forest_induction nil leaf element cs) (forest_induction nil leaf element ns)
  | .text _ :: ns | .comment _ :: ns | .doctype _ :: ns | .instruction _ :: ns | .cdata _ :: ns =>
    leaf _ ns rfl (forest_induction nil leaf element ns)

theorem Node.sameAll_iff {ns ms : Forest} : Node.sameAll ns ms = true ↔ ns = ms := by
  induction ns using forest_induction generalizing ms with
  | nil => cases ms <;> simp [sameAll]
  | leaf n ns hn ih =>
    rcases ms with _ | ⟨m, ms⟩
    · simp [sameAll]
    · have hsame : n.same m = true ↔ n = m := by
        cases n with
        | element => cases hn
        | _ => cases m <;> simp [same]
      rw [sameAll, Bool.and_eq_true, hsame, ih, List.cons.injEq]
  | element t cs ns ihcs ihns =>
    rcases ms with _ | ⟨m, ms⟩
    · simp [sameAll]
    · have hsame : (element t cs).same m = true ↔ element t cs = m := by
        cases m <;> simp [same, ihcs]
      rw [sameAll, Bool.and_eq_true, hsame, ihns, List.cons.injEq]

theorem Node.same_iff {n m : Node} : n.same m = true ↔ n = m := by
  have := @Node.sameAll_iff [n] [m]
  simpa [sameAll] using this

instance : DecidableEq Node := fun _ _ => decidable_of_iff _ Node.same_iff

/-- What the next slot receives, which may be the first one. -/
def Filling.next (f : Filling) (first : Bool) : Forest := if first then f.first else f.later

section Leaf

variable {n : Node} (h : n.isLeaf = true) (ns : Forest)

include h

theorem mapTags_leaf (f : Tag → Tag) : mapTags f (n :: ns) = n :: mapTags f ns := by
  cases n <;> first | rfl | cases h

theorem tags_leaf : tags (n :: ns) = tags ns := by
  cases n <;> first | rfl | cases h

theorem applyProperties_leaf (m : Metadata) (tag : Tag) :
    applyProperties m tag (n :: ns) = n :: applyProperties m tag ns := by
  cases n <;> first | rfl | cases h

theorem stripScripts_leaf : stripScripts (n :: ns) = n :: stripScripts ns := by
  cases n <;> first | rfl | cases h

theorem retainFirst_leaf (r : ScriptRegistry) :
    retainFirst r (n :: ns) = (n :: (retainFirst r ns).1, (retainFirst r ns).2) := by
  cases n <;> first | rfl | cases h

theorem fillSlots_leaf (content : Option Filling) (first : Bool) :
    fillSlots content first (n :: ns) =
      (n :: (fillSlots content first ns).1, (fillSlots content first ns).2) := by
  cases n <;> first | rfl | cases h

theorem hasSlot_leaf : hasSlot (n :: ns) = hasSlot ns := by
  rw [hasSlot, tags_leaf h]
  rfl

end Leaf

section Leaves

variable {ns : Forest} (h : ∀ n ∈ ns, n.isLeaf = true)

include h

theorem mapTags_leaves (f : Tag → Tag) : mapTags f ns = ns := by
  induction ns with
  | nil => rfl
  | cons n ns ih =>
    obtain ⟨hn, hns⟩ := List.forall_mem_cons.1 h
    rw [mapTags_leaf hn, ih hns]

theorem tags_leaves : tags ns = [] := by
  induction ns with
  | nil => rfl
  | cons n ns ih =>
    obtain ⟨hn, hns⟩ := List.forall_mem_cons.1 h
    rw [tags_leaf hn, ih hns]

theorem fillSlots_leaves (content : Option Filling) (first : Bool) :
    fillSlots content first ns = (ns, first) := by
  induction ns with
  | nil => rfl
  | cons n ns ih =>
    obtain ⟨hn, hns⟩ := List.forall_mem_cons.1 h
    rw [fillSlots_leaf hn, ih hns]

theorem hasSlot_leaves : hasSlot ns = false := by
  induction ns with
  | nil => rfl
  | cons n ns ih =>
    obtain ⟨hn, hns⟩ := List.forall_mem_cons.1 h
    rw [hasSlot_leaf hn, ih hns]

end Leaves

section Element

variable (t : Tag) (cs ns : Forest)

theorem mapTags_element (f : Tag → Tag) :
    mapTags f (.element t cs :: ns) = .element (f t) (mapTags f cs) :: mapTags f ns := rfl

theorem tags_element : tags (.element t cs :: ns) = t :: (tags cs ++ tags ns) := rfl

theorem hasSlot_element :
    hasSlot (.element t cs :: ns) = (t.is "slot" || hasSlot cs || hasSlot ns) := by
  rw [hasSlot, tags_element, List.any_cons, List.any_append, Bool.or_assoc]
  rfl

theorem applyProperties_element (m : Metadata) (tag : Tag) :
    applyProperties m tag (.element t cs :: ns) =
      .element (t.setProperties (metadataProperties m ++ instanceProperties tag)) cs ::
        applyProperties m tag ns := rfl

theorem stripScripts_element :
    stripScripts (.element t cs :: ns) =
      if t.is "script" then
        if t.origin.isNone then .element t cs :: stripScripts ns else stripScripts ns
      else .element t (stripScripts cs) :: stripScripts ns := by
  rw [stripScripts, Node.stripScripts]
  split
  · split
    · rfl
    · rfl
  · rfl

theorem retainFirst_element (r : ScriptRegistry) :
    retainFirst r (.element t cs :: ns) =
      if t.is "script" then
        match t.origin with
        | none => (.element t cs :: (retainFirst r ns).1, (retainFirst r ns).2)
        | some o =>
          if (r.mark o).emits o then
            (.element t cs :: (retainFirst (r.mark o) ns).1, (retainFirst (r.mark o) ns).2)
          else retainFirst (r.mark o) ns
      else
        (.element t (retainFirst r cs).1 :: (retainFirst (retainFirst r cs).2 ns).1,
          (retainFirst (retainFirst r cs).2 ns).2) := by
  rw [retainFirst]
  unfold Node.retainFirst
  split
  · rcases t.origin with _ | o
    · rfl
    · dsimp only
      split
      · rfl
      · rfl
  · rfl

theorem fillSlots_slot {t : Tag} (h : t.is "slot" = true) (content : Option Filling)
    (first : Bool) :
    fillSlots content first (.element t cs :: ns) =
      match content with
      | none => (cs ++ (fillSlots none first ns).1, (fillSlots none first ns).2)
      | some f =>
        (f.next first ++ (fillSlots (some f) false ns).1,
          (fillSlots (some f) false ns).2) := by
  rw [fillSlots]
  unfold Node.fillSlots
  rw [if_pos h]
  rcases content with _ | f
  · rfl
  · rfl

theorem fillSlots_element {t : Tag} (h : t.is "slot" = false) (content : Option Filling)
    (first : Bool) :
    fillSlots content first (.element t cs :: ns) =
      (.element t (fillSlots content first cs).1 ::
          (fillSlots content (fillSlots content first cs).2 ns).1,
        (fillSlots content (fillSlots content first cs).2 ns).2) := by
  rw [fillSlots]
  unfold Node.fillSlots
  rw [if_neg (by simp [h])]
  rfl

theorem source_element :
    source (.element t cs :: ns) =
      (if t.selfClosing && cs.isEmpty then '<' :: t.source ++ "/>".toList
      else if isVoid t.name then '<' :: t.source ++ ['>']
      else '<' :: t.source ++ '>' :: source cs ++ "</".toList ++ t.name.toList ++ ['>']) ++
        source ns := by
  rw [source]
  unfold Node.source
  rfl

end Element

end StaticSite.Html
