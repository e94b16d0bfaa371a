import StaticSite.Proofs.Html.Exposure
import StaticSite.Proofs.Html.Picking

/-!
# What stands in the slots

`Filled xs ns ms` says that `ms` is `ns` with the forests of the list `xs` in the places of its
slots, in document order. A slot inside another one goes with it, and what was put into a slot is
not looked at again, whatever slots it has. There is one such forest for each list of the right
length (`Filled.unique`), and `fillSlots` gives it (`filled_fillSlots`): the first slot receives the
content, and each later one the content without the scripts of components, so these are in the
result once (`Flat.fillSlots_conserves`).
-/

namespace StaticSite.Html

/-- The element is a script that belongs to a component. -/
def Tag.isComponentScript (t : Tag) : Bool := t.is "script" && t.origin.isSome

/-- The right forest is the left one with the forests of the list in the places of its slots. -/
inductive Filled : List Forest → Forest → Forest → Prop where
  | nil : Filled [] [] []
  | leaf {n : Node} {xs : List Forest} {ns ms : Forest} (h : n.isLeaf = true)
      (hns : Filled xs ns ms) : Filled xs (n :: ns) (n :: ms)
  | slot {t : Tag} {cs x : Forest} {xs : List Forest} {ns ms : Forest} (ht : t.is "slot" = true)
      (hns : Filled xs ns ms) : Filled (x :: xs) (.element t cs :: ns) (x ++ ms)
  | element {t : Tag} {xs ys : List Forest} {cs ds ns ms : Forest} (ht : t.is "slot" = false)
      (hcs : Filled xs cs ds) (hns : Filled ys ns ms) :
      Filled (xs ++ ys) (.element t cs :: ns) (.element t ds :: ms)

/-- Of `k` forests the first is `x`, and the others are `y`. -/
def copies (x y : Forest) : Nat → List Forest
  | 0 => []
  | k + 1 => x :: List.replicate k y

section Copies

variable (x y : Forest)

theorem copies_self (k : Nat) : copies y y k = List.replicate k y := by
  cases k with
  | zero => rfl
  | succ k => rfl

theorem copies_add (j k : Nat) :
    copies x y (j + k) = copies x y j ++ copies (if j = 0 then x else y) y k := by
  cases j with
  | zero => rw [Nat.zero_add, if_pos rfl, copies, List.nil_append]
  | succ j =>
    rw [if_neg (Nat.succ_ne_zero j), copies_self, Nat.succ_add, copies, copies, List.cons_append,
      List.replicate_append_replicate]

end Copies

theorem hasSlot_eq_false_iff {ns : Forest} : hasSlot ns = false ↔ pick (·.is "slot") ns = [] := by
  rw [pick_eq_nil_iff, hasSlot, List.any_eq_false]
  simp only [Bool.not_eq_true]

namespace Filled

variable {xs : List Forest} {ns ms ms' : Forest}

theorem length_eq (h : Filled xs ns ms) : xs.length = (pick (·.is "slot") ns).length := by
  induction h with
  | nil => rfl
  | leaf hl _ ih => rw [pick_leaf hl, ih]
  | slot ht _ ih =>
    rw [pick_element, if_pos ht, List.length_cons, ih, List.singleton_append, List.length_cons]
  | element ht _ _ ihcs ihns =>
    rw [pick_element, if_neg (by simp [ht]), List.length_append, List.length_append, ihcs, ihns]

/-- The forests in the slots and what stands around them are all there is. -/
theorem unique (h : Filled xs ns ms) (h' : Filled xs ns ms') : ms = ms' := by
  induction h generalizing ms' with
  | nil =>
    generalize [] = zs at h'
    cases h'
    rfl
  | leaf hl _ ih =>
    cases h' with
    | leaf _ h' => rw [ih h']
    | slot | element => cases hl
  | @slot t cs x xs ns ms ht _ ih =>
    generalize hzs : x :: xs = zs at h'
    cases h' with
    | leaf hl => cases hl
    | slot _ h' =>
      obtain ⟨rfl, rfl⟩ := List.cons.inj hzs
      rw [ih h']
    | element ht' =>
      rw [ht] at ht'
      cases ht'
  | @element t xs ys cs ds ns ms ht hcs hns ihcs ihns =>
    generalize hzs : xs ++ ys = zs at h'
    cases h' with
    | leaf hl => cases hl
    | slot ht' =>
      rw [ht] at ht'
      cases ht'
    | element _ hcs' hns' =>
      obtain ⟨rfl, rfl⟩ := List.append_inj hzs (hcs.length_eq.trans hcs'.length_eq.symm)
      rw [ihcs hcs', ihns hns']

/-- Among leaves there are no slots. -/
theorem of_leaves (hl : ∀ n ∈ ns, n.isLeaf = true) (h : Filled xs ns ms) : xs = [] ∧ ms = ns := by
  have hxs : xs = [] := by
    rw [← List.length_eq_zero_iff, h.length_eq, pick_leaves hl, List.length_nil]
  subst hxs
  refine ⟨rfl, h.unique ?_⟩
  clear h
  induction ns with
  | nil => exact .nil
  | cons n ns ih =>
    obtain ⟨hn, hns⟩ := List.forall_mem_cons.1 hl
    exact .leaf hn (ih hns)

/-- What is picked is what stands around the slots, and what was put into them. -/
theorem perm_pick {P : Tag → Bool} (hP : ∀ t, P t = true → t.is "script" = true)
    (h : Filled xs ns ms) (hflat : Flat ns) :
    (pick P ms).Perm (pick P (without (·.is "slot") ns) ++ xs.flatMap (pick P)) := by
  induction h with
  | nil => exact .nil
  | leaf hl _ ih =>
    cases hflat with
    | leaf _ hns =>
      rw [pick_leaf hl, without_leaf hl, pick_leaf hl]
      exact ih hns
    | script | element => cases hl
  | @slot t cs x xs ns ms ht _ ih =>
    have hns : Flat ns := by
      cases hflat with
      | leaf _ hns | script _ _ hns | element _ _ hns => exact hns
    rw [pick_append, without_element, if_pos ht, List.flatMap_cons]
    exact ((ih hns).append_left _).trans (List.perm_append_comm_assoc ..)
  | @element t xs ys cs ds ns ms ht hcs _ ihcs ihns =>
    rw [without_element, if_neg (by simp [ht]), pick_element, pick_element]
    cases hflat with
    | leaf hl => cases hl
    | script _ hleaves hns =>
      obtain ⟨rfl, rfl⟩ := hcs.of_leaves hleaves
      rw [without_leaves hleaves, List.append_assoc, List.nil_append]
      exact (ihns hns).append_left _
    | element hscript hcs' hns =>
      have hPt : P t = false := Bool.eq_false_iff.2 fun h => by simp [hP t h] at hscript
      rw [hPt, if_neg Bool.false_ne_true, if_neg Bool.false_ne_true, List.flatMap_append]
      refine ((ihcs hcs').append (ihns hns)).trans ?_
      rw [List.append_assoc, List.append_assoc]
      exact (List.perm_append_comm_assoc ..).append_left _

end Filled

/-- The first slot receives what the filling has for it, and each later slot the rest. -/
theorem filled_fillSlots (f : Filling) (first : Bool) (ns : Forest) :
    Filled (copies (f.next first) f.later (pick (·.is "slot") ns).length) ns
      (fillSlots (some f) first ns).1 := by
  induction ns using forest_induction generalizing first with
  | nil => exact .nil
  | leaf n ns hl ih =>
    rw [fillSlots_leaf hl, pick_leaf hl]
    exact .leaf hl (ih first)
  | element t cs ns ihcs ihns =>
    rw [pick_element, List.length_append]
    rcases hs : t.is "slot" with _ | _
    · rw [fillSlots_element _ _ hs, if_neg Bool.false_ne_true, copies_add]
      refine .element hs (ihcs first) ?_
      -- The flag that comes out of the children is lowered exactly if there is a slot among them,
      -- which is where `copies_add` goes on with the second forest.
      have hnext : (if (pick (·.is "slot") cs).length = 0 then f.next first else f.later) =
          f.next (fillSlots (some f) first cs).2 := by
        rw [fillSlots_flag]
        rcases hcs : hasSlot cs with _ | _
        · rw [if_pos (List.length_eq_zero_iff.2 (hasSlot_eq_false_iff.1 hcs)), Bool.not_false,
            Bool.and_true]
        · rw [if_neg, Bool.not_true, Bool.and_false]
          · rfl
          · rw [List.length_eq_zero_iff, ← hasSlot_eq_false_iff, hcs]
            exact Bool.noConfusion
      rw [hnext]
      exact ihns _
    · rw [fillSlots_slot _ _ hs, if_pos rfl, List.length_singleton, Nat.add_comm]
      refine .slot hs ?_
      rw [← copies_self]
      exact ihns false

/-- Exactly the scripts of components are stripped. -/
theorem Flat.stripScripts_eq_without {ns : Forest} (h : Flat ns) :
    Html.stripScripts ns = without Tag.isComponentScript ns := by
  induction h with
  | nil => rfl
  | leaf hl _ ih => rw [stripScripts_leaf hl, without_leaf hl, ih]
  | @script t cs ns ht hcs _ ih =>
    rw [stripScripts_element, if_pos ht, without_element, without_leaves hcs, ih,
      Tag.isComponentScript, ht]
    rcases t.origin with _ | o
    · rfl
    · rfl
  | @element t cs ns ht _ _ ihcs ihns =>
    rw [stripScripts_element, if_neg (by simp [ht]), without_element, Tag.isComponentScript, ht,
      ihcs, ihns]
    rfl

theorem flatMap_pick_copies (P : Tag → Bool) (content : Forest) (k : Nat) :
    (copies content (without P content) k).flatMap (pick P) =
      if k = 0 then [] else pick P content := by
  cases k with
  | zero => rfl
  | succ k =>
    have hlater : (List.replicate k (without P content)).flatMap (pick P) = [] := by
      rw [List.flatMap_eq_nil_iff]
      intro x hx
      rw [List.eq_of_mem_replicate hx, pick_without_self]
    rw [copies, List.flatMap_cons, hlater, List.append_nil, if_neg (Nat.succ_ne_zero k)]

/-- The slots that are not inside other slots are replaced by copies of the content, the first of
them whole and each later one without the scripts of components, and nothing else is changed. So the
scripts of components are those around the slots and, if there is a slot, those of the content,
each once. -/
theorem Flat.fillSlots_conserves {ns content : Forest} (h : Flat ns) (hc : Flat content) :
    let later := without Tag.isComponentScript content
    let slots := pick (·.is "slot") ns
    let result := (Html.fillSlots (some (.ofContent content)) true ns).1
    (∀ ms, Filled (copies content later slots.length) ns ms ↔ ms = result) ∧
      tags later = (tags content).filter (fun t => !t.isComponentScript) ∧
      (pick Tag.isComponentScript result).Perm
        (pick Tag.isComponentScript (without (·.is "slot") ns) ++
          if slots.length = 0 then [] else pick Tag.isComponentScript content) := by
  have hscript : ∀ t : Tag, t.isComponentScript = true → t.is "script" = true :=
    fun t ht => (Bool.and_eq_true_iff.1 ht).1
  have hfilled := filled_fillSlots (.ofContent content) true ns
  have hlater : (Filling.ofContent content).later = without Tag.isComponentScript content :=
    hc.stripScripts_eq_without
  rw [hlater] at hfilled
  refine ⟨fun ms => ⟨fun hms => hms.unique hfilled, fun hms => hms ▸ hfilled⟩,
    hc.tags_without hscript, ?_⟩
  rw [← flatMap_pick_copies]
  exact hfilled.perm_pick hscript h

/-- A script of the component in front of two slots, of which the first holds another slot. -/
def sampleFragment : Forest :=
  [.element { name := "script", origin := some ⟨⟨"/c/two.html"⟩, 0⟩ } [.text "two"],
    .element { name := "p" } [.element { name := "slot" } [.element { name := "slot" } []]],
    .element { name := "SLOT" } [.text "none"]]

/-- A script of a component, a script of the page and a slot, around a text. -/
def sampleContent : Forest :=
  [.element { name := "b" } [.element { name := "script", origin := some ⟨⟨"/c/nav.html"⟩, 3⟩ }
      [.text "nav"], .text "x"],
    .element { name := "script" } [.text "page"], .element { name := "slot" } []]

theorem fillSlots_conserves_sample :
    Flat sampleFragment ∧ Flat sampleContent ∧
    (∀ ms, Filled [sampleContent, [.element { name := "b" } [.text "x"],
        .element { name := "script" } [.text "page"], .element { name := "slot" } []]]
        sampleFragment ms ↔
      ms = (fillSlots (some (.ofContent sampleContent)) true sampleFragment).1) ∧
    (pick Tag.isComponentScript
        (fillSlots (some (.ofContent sampleContent)) true sampleFragment).1).Perm
      [.element { name := "script", origin := some ⟨⟨"/c/two.html"⟩, 0⟩ } [.text "two"],
        .element { name := "script", origin := some ⟨⟨"/c/nav.html"⟩, 3⟩ } [.text "nav"]] := by
  have htext : ∀ s : String, ∀ n ∈ [Node.text s], n.isLeaf = true := by simp [Node.isLeaf]
  have hfragment : Flat sampleFragment :=
    .script (by decide) (htext _) (.element (by decide) (.element (by decide)
      (.element (by decide) .nil .nil) .nil) (.element (by decide) (.leaf rfl .nil) .nil))
  have hcontent : Flat sampleContent :=
    .element (by decide) (.script (by decide) (htext _) (.leaf rfl .nil))
      (.script (by decide) (htext _) (.element (by decide) .nil .nil))
  obtain ⟨hfilled, -, hscripts⟩ := hfragment.fillSlots_conserves hcontent
  refine ⟨hfragment, hcontent, ?_, ?_⟩
  · have hcopies : copies sampleContent (without Tag.isComponentScript sampleContent)
        (pick (·.is "slot") sampleFragment).length =
        [sampleContent, [.element { name := "b" } [.text "x"],
          .element { name := "script" } [.text "page"], .element { name := "slot" } []]] := by
      decide +kernel
    rwa [hcopies] at hfilled
  · have hpick : pick Tag.isComponentScript (without (·.is "slot") sampleFragment) ++
        (if (pick (·.is "slot") sampleFragment).length = 0 then []
          else pick Tag.isComponentScript sampleContent) =
        [.element { name := "script", origin := some ⟨⟨"/c/two.html"⟩, 0⟩ } [.text "two"],
          .element { name := "script", origin := some ⟨⟨"/c/nav.html"⟩, 3⟩ } [.text "nav"]] := by
      decide +kernel
    rwa [hpick] at hscripts

end StaticSite.Html
