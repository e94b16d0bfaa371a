import StaticSite.Proofs.Html.Exposure

/-!
# Forests that lack scripts

`Pruned ns ms` says that `ns` is `ms` without some scripts of components. Whatever is done with both
keeps it so. The left forest has lost no component altogether as long as both expose the scripts of
each component to the same numbers of slots (`Spared`).

Dropping the scripts of later instances keeps that exposure or not (`keepsExposure`). It does if and
only if no instance of the component can lose the scripts of another one (`keepsExposure_iff`).
-/

namespace StaticSite.Html

/-- The left forest is the right one without some scripts of components. -/
inductive Pruned : Forest → Forest → Prop where
  | nil : Pruned [] []
  | leaf {n : Node} {ns ms : Forest} (h : n.isLeaf = true) (hns : Pruned ns ms) :
      Pruned (n :: ns) (n :: ms)
  | script {t : Tag} {cs ns ms : Forest} (ht : t.is "script" = true)
      (hcs : ∀ n ∈ cs, n.isLeaf = true) (hns : Pruned ns ms) :
      Pruned (.element t cs :: ns) (.element t cs :: ms)
  | element {t : Tag} {cs ds ns ms : Forest} (ht : t.is "script" = false) (hcs : Pruned cs ds)
      (hns : Pruned ns ms) : Pruned (.element t cs :: ns) (.element t ds :: ms)
  | dropped {t : Tag} {cs ns ms : Forest} (ht : t.is "script" = true)
      (ho : t.origin.isNone = false) (hcs : ∀ n ∈ cs, n.isLeaf = true) (hns : Pruned ns ms) :
      Pruned ns (.element t cs :: ms)

namespace Pruned

variable {ns ms xs ys : Forest} {P : Tag → Bool}

theorem left_flat (h : Pruned ns ms) : Flat ns := by
  induction h with
  | nil => exact .nil
  | leaf hl _ ih => exact .leaf hl ih
  | script ht hcs _ ih => exact .script ht hcs ih
  | element ht _ _ ihcs ihns => exact .element ht ihcs ihns
  | dropped _ _ _ _ ih => exact ih

theorem of_flat (h : Flat ns) : Pruned ns ns := by
  induction h with
  | nil => exact .nil
  | leaf hl _ ih => exact .leaf hl ih
  | script ht hcs _ ih => exact .script ht hcs ih
  | element ht _ _ ihcs ihns => exact .element ht ihcs ihns

theorem append (h : Pruned ns ms) (h' : Pruned xs ys) : Pruned (ns ++ xs) (ms ++ ys) := by
  induction h with
  | nil => exact h'
  | leaf hl _ ih => exact .leaf hl ih
  | script ht hcs _ ih => exact .script ht hcs ih
  | element ht hcs _ _ ih => exact .element ht hcs ih
  | dropped ht ho hcs _ ih => exact .dropped ht ho hcs ih

theorem mapTags {f : Tag → Tag} (hf : ∀ t, (f t).is "script" = t.is "script")
    (ho : ∀ t, t.origin.isNone = false → (f t).origin.isNone = false) (h : Pruned ns ms) :
    Pruned (mapTags f ns) (mapTags f ms) := by
  induction h with
  | nil => exact .nil
  | leaf hl _ ih =>
    rw [mapTags_leaf hl, mapTags_leaf hl]
    exact .leaf hl ih
  | script ht hcs _ ih =>
    rw [mapTags_element, mapTags_element, mapTags_leaves hcs]
    exact .script ((hf _).trans ht) hcs ih
  | element ht _ _ ihcs ihns => exact .element ((hf _).trans ht) ihcs ihns
  | dropped ht ht' hcs _ ih =>
    rw [mapTags_element, mapTags_leaves hcs]
    exact .dropped ((hf _).trans ht) (ho _ ht') hcs ih

theorem stamp (number : UInt32) (h : Pruned ns ms) :
    Pruned (stampInstance number ns) (stampInstance number ms) := by
  refine h.mapTags (fun _ => rfl) fun t ht => ?_
  rw [Tag.stamp, Option.isNone_map]
  exact ht

theorem tagScripts (p : Path) (h : Pruned ns ms) : Pruned (tagScripts p ns) (tagScripts p ms) := by
  refine h.mapTags (Tag.tagScript_is p · "script") fun t ht => ?_
  rw [Tag.tagScript, ht, Bool.and_false]
  exact ht

theorem applyProperties (m : Metadata) (tag : Tag) (h : Pruned ns ms) :
    Pruned (applyProperties m tag ns) (applyProperties m tag ms) := by
  induction h with
  | nil => exact .nil
  | leaf hl _ ih =>
    rw [applyProperties_leaf hl, applyProperties_leaf hl]
    exact .leaf hl ih
  | script ht hcs _ ih => exact .script ((Tag.setProperties_is _ _ _).trans ht) hcs ih
  | element ht hcs _ _ ih => exact .element ((Tag.setProperties_is _ _ _).trans ht) hcs ih
  | dropped ht ho hcs _ ih =>
    refine .dropped ((Tag.setProperties_is _ _ _).trans ht) ?_ hcs ih
    rwa [Tag.setProperties_origin]

theorem stripScripts (h : Pruned ns ms) : Pruned (stripScripts ns) ms := by
  induction h with
  | nil => exact .nil
  | leaf hl _ ih =>
    rw [stripScripts_leaf hl]
    exact .leaf hl ih
  | @script t _ _ _ ht hcs _ ih =>
    rw [stripScripts_element, if_pos ht]
    split
    · exact .script ht hcs ih
    · rename_i ho
      exact .dropped ht (Bool.eq_false_iff.2 ho) hcs ih
  | element ht _ _ ihcs ihns =>
    rw [stripScripts_element, if_neg (by simp [ht])]
    exact .element ht ihcs ihns
  | dropped ht ho hcs _ ih => exact .dropped ht ho hcs ih

theorem retainFirst (r : ScriptRegistry) (h : Pruned ns ms) : Pruned (retainFirst r ns).1 ms := by
  induction h generalizing r with
  | nil => exact .nil
  | leaf hl _ ih =>
    rw [retainFirst_leaf hl]
    exact .leaf hl (ih r)
  | script ht hcs _ ih =>
    rw [retainFirst_element, if_pos ht]
    split
    · exact .script ht hcs (ih r)
    · rename_i ho
      split
      · exact .script ht hcs (ih _)
      · exact .dropped ht (by rw [ho]; rfl) hcs (ih _)
  | element ht _ _ ihcs ihns =>
    rw [retainFirst_element, if_neg (by simp [ht])]
    exact .element ht (ihcs r) (ihns _)
  | dropped ht ho hcs _ ih => exact .dropped ht ho hcs (ih r)

theorem hasSlot (h : Pruned ns ms) : hasSlot ns = hasSlot ms := by
  induction h with
  | nil => rfl
  | leaf hl _ ih => rw [hasSlot_leaf hl, hasSlot_leaf hl, ih]
  | script _ _ _ ih => rw [hasSlot_element, hasSlot_element, ih]
  | element _ _ _ ihcs ihns => rw [hasSlot_element, hasSlot_element, ihcs, ihns]
  | dropped ht _ hcs _ ih =>
    rw [hasSlot_element, Tag.not_slot ht, hasSlot_leaves hcs, ih]
    rfl

/-- Slots are filled in both forests in the same way. -/
theorem fillSlots {content content' : Option Filling}
    (hc : Option.Rel (fun f g => Pruned f.first g.first ∧ Pruned f.later g.later) content content')
    (first : Bool) (h : Pruned ns ms) :
    Pruned (fillSlots content first ns).1 (fillSlots content' first ms).1 ∧
      (fillSlots content first ns).2 = (fillSlots content' first ms).2 := by
  induction h generalizing first with
  | nil => exact ⟨.nil, rfl⟩
  | leaf hl _ ih =>
    obtain ⟨hns, hflag⟩ := ih first
    rw [fillSlots_leaf hl, fillSlots_leaf hl]
    exact ⟨.leaf hl hns, hflag⟩
  | script ht hcs _ ih =>
    obtain ⟨hns, hflag⟩ := ih first
    rw [fillSlots_element _ _ (Tag.not_slot ht), fillSlots_element _ _ (Tag.not_slot ht),
      fillSlots_leaves hcs, fillSlots_leaves hcs]
    exact ⟨.script ht hcs hns, hflag⟩
  | @element t cs ds ns ms ht hcs _ ihcs ihns =>
    rcases hs : t.is "slot" with _ | _
    · obtain ⟨hcs', hflag⟩ := ihcs first
      rw [fillSlots_element _ _ hs, fillSlots_element _ _ hs, hflag]
      obtain ⟨hns', hflag'⟩ := ihns (Html.fillSlots content' first ds).2
      exact ⟨.element ht hcs' hns', hflag'⟩
    · rw [fillSlots_slot _ _ hs, fillSlots_slot _ _ hs]
      cases hc with
      | none =>
        obtain ⟨hns', hflag⟩ := ihns first
        exact ⟨hcs.append hns', hflag⟩
      | some hf =>
        obtain ⟨hns', hflag⟩ := ihns false
        refine ⟨Pruned.append ?_ hns', hflag⟩
        cases first with
        | true => exact hf.1
        | false => exact hf.2
  | dropped ht ho hcs _ ih =>
    obtain ⟨hns, hflag⟩ := ih first
    rw [fillSlots_element _ _ (Tag.not_slot ht), fillSlots_leaves hcs]
    exact ⟨.dropped ht ho hcs hns, hflag⟩

/-- What is left is exposed in the whole forest. -/
theorem exposes_of_left {i : Nat} (h : Pruned ns ms) (hns : exposes P i ns = true) :
    exposes P i ms = true := by
  induction h generalizing i with
  | nil => exact hns
  | leaf hl _ ih =>
    rw [exposes_leaf hl] at hns ⊢
    exact ih hns
  | script _ _ _ ih =>
    rw [exposes_element, Bool.or_eq_true] at hns ⊢
    exact hns.imp_right ih
  | @element t _ _ _ _ _ _ _ ihcs ihns =>
    rw [exposes_element, Bool.or_eq_true, Bool.or_eq_true] at hns ⊢
    refine hns.imp (fun h => h.imp_right fun hcs => ?_) ihns
    rcases hs : t.is "slot" with _ | _
    · rw [hs] at hcs
      exact ihcs hcs
    · rw [hs] at hcs
      rw [if_pos rfl, Bool.and_eq_true] at hcs ⊢
      exact hcs.imp_right ihcs
  | dropped _ _ _ _ ih =>
    rw [exposes_element, ih hns, Bool.or_true]

/-- What belongs to no component is exposed alike. -/
theorem exposes_eq {i : Nat}
    (hP : ∀ t, t.is "script" = true → t.origin.isNone = false → P t = false) (h : Pruned ns ms) :
    exposes P i ns = exposes P i ms := by
  induction h generalizing i with
  | nil => rfl
  | leaf hl _ ih => rw [exposes_leaf hl, exposes_leaf hl, ih]
  | script _ _ _ ih => rw [exposes_element, exposes_element, ih]
  | element _ _ _ ihcs ihns => rw [exposes_element, exposes_element, ihcs, ihcs, ihns]
  | dropped ht ho hcs _ ih =>
    rw [exposes_element, hP _ ht ho, exposes_leaves hcs, exposes_leaves hcs, ih, Tag.not_slot ht]
    rfl

/-- Content is blank in both forests or in none, if the left one exposes what the right one does. -/
theorem all_isBlank (h : Pruned ns ms)
    (hk : ∀ k, exposes (·.isScriptOf k) 0 ns = exposes (·.isScriptOf k) 0 ms) :
    ns.all Node.isBlank = ms.all Node.isBlank := by
  have hblank : ms.all Node.isBlank = true → ns.all Node.isBlank = true := by
    intro hms
    clear hk
    induction h with
    | nil => rfl
    | leaf _ _ ih =>
      rw [List.all_cons, Bool.and_eq_true] at hms ⊢
      exact hms.imp_right ih
    | _ => cases hms
  have helement : ms.all Node.isBlank = false → ns.all Node.isBlank = true →
      ∃ k, exposes (·.isScriptOf k) 0 ms = true := by
    intro hms hns
    clear hk hblank
    induction h with
    | nil => cases hms
    | leaf hl _ ih =>
      rw [List.all_cons, Bool.and_eq_true] at hns
      rw [List.all_cons, hns.1, Bool.true_and] at hms
      obtain ⟨k, hk⟩ := ih hms hns.2
      exact ⟨k, by rw [exposes_leaf hl, hk]⟩
    | script _ _ _ _ => cases hns
    | element _ _ _ _ _ => cases hns
    | @dropped t cs _ _ ht ho _ _ _ =>
      rcases hto : t.origin with _ | o
      · rw [hto] at ho
        cases ho
      · refine ⟨o.component, ?_⟩
        rw [exposes_element, Tag.isScriptOf_iff.2 ⟨ht, o, hto, Path.same_refl _⟩]
        rfl
  have hnone : ∀ {k : Path} {zs : Forest}, zs.all Node.isBlank = true →
      exposes (·.isScriptOf k) 0 zs = false := by
    intro k zs hzs
    refine exposes_leaves fun n hn => ?_
    have := List.all_eq_true.1 hzs n hn
    cases n <;> first | rfl | cases this
  rcases hms : ms.all Node.isBlank with _ | _
  · rw [Bool.eq_false_iff]
    intro hns
    obtain ⟨k, hm⟩ := helement hms hns
    rw [← hk k, hnone hns] at hm
    cases hm
  · exact hblank hms

end Pruned

/-! ## No component lost -/

/-- Both forests expose the scripts of each component alike. -/
structure Spared (ns ms : Forest) : Prop where
  pruned : Pruned ns ms
  exposes_eq : ∀ k i, exposes (·.isScriptOf k) i ns = exposes (·.isScriptOf k) i ms

theorem Tag.is_script_of_isScriptOf {k : Path} {t : Tag} (h : t.isScriptOf k = true) :
    t.is "script" = true :=
  (Bool.and_eq_true_iff.1 h).1

namespace Spared

variable {ns ms xs ys : Forest}

theorem nil : Spared [] [] := ⟨.nil, fun _ _ => rfl⟩

theorem append (h : Spared ns ms) (h' : Spared xs ys) : Spared (ns ++ xs) (ms ++ ys) := by
  refine ⟨h.pruned.append h'.pruned, fun k i => ?_⟩
  rw [exposes_append, exposes_append, h.exposes_eq, h'.exposes_eq]

theorem leaf {n : Node} (h : n.isLeaf = true) : Spared [n] [n] := ⟨.leaf h .nil, fun _ _ => rfl⟩

theorem script {t : Tag} (ht : t.is "script" = true) (h : ∀ n ∈ ns, n.isLeaf = true) :
    Spared [.element t ns] [.element t ns] :=
  ⟨.script ht h .nil, fun _ _ => rfl⟩

theorem element {t : Tag} (ht : t.is "script" = false) (h : Spared ns ms) :
    Spared [.element t ns] [.element t ms] := by
  refine ⟨.element ht h.pruned .nil, fun k i => ?_⟩
  rw [exposes_element, exposes_element, h.exposes_eq, h.exposes_eq]

theorem applyProperties (m : Metadata) (tag : Tag) (h : Spared ns ms) :
    Spared (applyProperties m tag ns) (applyProperties m tag ms) := by
  refine ⟨h.pruned.applyProperties m tag, fun k i => ?_⟩
  have hP : ∀ t ps, (Tag.setProperties t ps).isScriptOf k = t.isScriptOf k := by
    intro t ps
    rw [Tag.isScriptOf, Tag.isScriptOf, Tag.setProperties_is, Tag.setProperties_origin]
  rw [exposes_applyProperties hP, exposes_applyProperties hP, h.exposes_eq]

theorem stamp (number : UInt32) (h : Spared ns ms) :
    Spared (stampInstance number ns) (stampInstance number ms) := by
  have hP : ∀ k t, (Tag.stamp number t).isScriptOf k = t.isScriptOf k := by
    intro k t
    rw [Tag.isScriptOf, Tag.isScriptOf, Tag.stamp]
    rcases t.origin with _ | o
    · rfl
    · rfl
  refine ⟨h.pruned.stamp number, fun k i => ?_⟩
  unfold stampInstance
  rw [exposes_mapTags (f := Tag.stamp number) fun _ => rfl,
    exposes_mapTags (f := Tag.stamp number) fun _ => rfl]
  simp only [hP]
  exact h.exposes_eq k i

theorem hasSlot (h : Spared ns ms) : Html.hasSlot ns = Html.hasSlot ms := h.pruned.hasSlot

theorem all_isBlank (h : Spared ns ms) : ns.all Node.isBlank = ms.all Node.isBlank :=
  h.pruned.all_isBlank fun k => h.exposes_eq k 0

/-- Scripts may be missing in the later copies of the left content, and in none of the right one. -/
theorem fill (h : Spared ns ms) (hc : Spared xs ys) :
    Spared (fillSlots (some (.ofContent xs)) true ns).1
      (fillSlots (some { first := ys, later := ys }) true ms).1 := by
  refine ⟨(h.pruned.fillSlots (.some ⟨hc.pruned, hc.pruned.stripScripts⟩) true).1, fun k i => ?_⟩
  have hP : ∀ t : Tag, t.isScriptOf k = true → t.is "script" = true :=
    fun t => Tag.is_script_of_isScriptOf
  have hlater : exposes (·.isScriptOf k) i (stripScripts xs) = true →
      exposes (·.isScriptOf k) i xs = true :=
    (Pruned.of_flat hc.pruned.left_flat).stripScripts.exposes_of_left
  rw [exposes_fill_some hP hlater, exposes_fill_some hP fun h => h, h.exposes_eq, h.hasSlot]
  show (_ || _ && exposes (·.isScriptOf k) i xs) = (_ || _ && exposes (·.isScriptOf k) i ys)
  rw [hc.exposes_eq]

theorem fill_none (h : Spared ns ms) :
    Spared (fillSlots none true ns).1 (fillSlots none true ms).1 := by
  refine ⟨(h.pruned.fillSlots .none true).1, fun k i => ?_⟩
  have hP : ∀ t : Tag, t.isScriptOf k = true → t.is "script" = true :=
    fun t => Tag.is_script_of_isScriptOf
  rw [exposes_fill_none hP, exposes_fill_none hP, h.exposes_eq]

theorem tagScripts (p : Path) (h : Spared ns ms) : Spared (tagScripts p ns) (tagScripts p ms) := by
  have hown : ∀ i, exposes Tag.isOwnScript i ns = exposes Tag.isOwnScript i ms := by
    refine fun i => h.pruned.exposes_eq fun t _ ho => ?_
    rw [Tag.isOwnScript, ho, Bool.and_false]
  refine ⟨h.pruned.tagScripts p, fun k i => ?_⟩
  unfold Html.tagScripts
  rw [exposes_mapTags (Tag.tagScript_is p · "slot"),
    exposes_mapTags (Tag.tagScript_is p · "slot")]
  simp only [Tag.isScriptOf_tagScript]
  rw [exposes_or, exposes_or, h.exposes_eq]
  rcases p.same k with _ | _
  · simp only [Bool.false_and]
    rw [h.pruned.exposes_eq fun _ _ _ => rfl]
  · simp only [Bool.true_and]
    rw [hown]

/-- No component has all of its scripts missing on the left. -/
theorem count_pos (h : Spared ns ms) {k : Path} (hk : 0 < count (·.isScriptOf k) ms) :
    0 < count (·.isScriptOf k) ns := by
  obtain ⟨i, hi⟩ := count_pos_iff_exposes.1 hk
  exact count_pos_iff_exposes.2 ⟨i, (h.exposes_eq k i).trans hi⟩

end Spared

/-! ## First instances -/

/-- Whether the scripts of each component are exposed as before when those of its later instances
are dropped. -/
def keepsExposure (ns : Forest) : Bool :=
  (tags ns).all fun t => t.origin.all fun o =>
    exposure (·.isScriptOf o.component) (retainFirst PathMap.empty ns).1 ==
      exposure (·.isScriptOf o.component) ns

theorem isScriptOf_congr {p q : Path} (h : p.same q = true) (t : Tag) :
    t.isScriptOf p = t.isScriptOf q := by
  rw [Tag.isScriptOf, Tag.isScriptOf]
  rcases t.origin with _ | o
  · rfl
  · rw [Option.any_some, Option.any_some, Path.same_congr h]

theorem keepsExposure_iff_exposes {ns : Forest} (h : Flat ns) :
    keepsExposure ns = true ↔ ∀ k i,
      exposes (·.isScriptOf k) i (retainFirst PathMap.empty ns).1 =
        exposes (·.isScriptOf k) i ns := by
  rw [keepsExposure, List.all_eq_true]
  constructor
  · intro hall k
    rw [← exposure_eq_iff]
    by_cases hk : 0 < count (·.isScriptOf k) ns
    · obtain ⟨t, ht, hP⟩ := List.countP_pos_iff.1 hk
      obtain ⟨-, o, ho, hsame⟩ := Tag.isScriptOf_iff.1 hP
      have := hall t ht
      rw [ho, Option.all_some, beq_iff_eq] at this
      have hcongr : (fun t : Tag => t.isScriptOf k) = fun t => t.isScriptOf o.component :=
        funext fun t => (isScriptOf_congr hsame t).symm
      rw [hcongr]
      exact this
    · rw [exposure_eq_iff]
      intro i
      have hfalse : exposes (·.isScriptOf k) i ns = false := by
        rw [Bool.eq_false_iff]
        exact fun hi => hk (count_pos_iff_exposes.2 ⟨i, hi⟩)
      rw [hfalse, Bool.eq_false_iff]
      intro hi
      rw [((Pruned.of_flat h).retainFirst _).exposes_of_left hi] at hfalse
      cases hfalse
  · intro hall t _
    rcases t.origin with _ | o
    · rfl
    · rw [Option.all_some, beq_iff_eq, exposure_eq_iff]
      exact hall o.component

/-- A component whose first instances are as exposed as all of them is spared when the scripts of
later instances are dropped. -/
theorem Spared.retainFirst {ns ms : Forest} (h : Spared ns ms) (hk : keepsExposure ns = true) :
    Spared (retainFirst PathMap.empty ns).1 ms := by
  refine ⟨h.pruned.retainFirst _, fun k i => ?_⟩
  rw [(keepsExposure_iff_exposes h.pruned.left_flat).1 hk, h.exposes_eq]

/-- What is left of a component inside `i` instances without content, which stand in an instance
with content. -/
def opened : (i : Nat) → Forest → Forest
  | 0, ns => (fillSlots (some (.ofContent [.text "x"])) true ns).1
  | i + 1, ns => opened i (fillSlots none true ns).1

theorem count_opened_pos_iff {P : Tag → Bool} (hP : ∀ t, P t = true → t.is "script" = true)
    {i : Nat} {ns : Forest} : 0 < count P (opened i ns) ↔ exposes P i ns = true := by
  induction i generalizing ns with
  | zero =>
    have hnone : ∀ (j : Nat) (first : Bool),
        exposes P j ((Filling.ofContent [.text "x"]).next first) = false := by
      intro j first
      cases first
      · rfl
      · rfl
    have hfill : ∀ j, exposes P j (opened 0 ns) = exposes P 0 ns := by
      intro j
      rw [opened, exposes_fill_some hP, hnone, Bool.and_false, Bool.or_false]
      intro h
      have hlater : exposes P j (Filling.ofContent [.text "x"]).later = false := hnone j false
      rw [hlater] at h
      cases h
    rw [count_pos_iff_exposes]
    constructor
    · rintro ⟨j, hj⟩
      rwa [hfill] at hj
    · intro h
      exact ⟨0, (hfill 0).trans h⟩
  | succ i ih => rw [opened, ih, exposes_fill_none hP]

/-- Dropping the scripts of later instances keeps exposure if and only if no instances around the
component can then lose a script of which they would keep a copy otherwise. -/
theorem keepsExposure_iff {ns : Forest} (h : Flat ns) :
    keepsExposure ns = true ↔ ∀ k i, 0 < count (·.isScriptOf k) (opened i ns) →
      0 < count (·.isScriptOf k) (opened i (Html.retainFirst PathMap.empty ns).1) := by
  have hP : ∀ (k : Path) (t : Tag), t.isScriptOf k = true → t.is "script" = true :=
    fun k t => Tag.is_script_of_isScriptOf
  rw [keepsExposure_iff_exposes h]
  constructor
  · intro hall k i hi
    rw [count_opened_pos_iff (hP k)] at hi ⊢
    exact (hall k i).trans hi
  · intro hall k i
    rw [Bool.eq_iff_iff]
    constructor
    · exact ((Pruned.of_flat h).retainFirst _).exposes_of_left
    · intro hi
      have := hall k i
      rw [count_opened_pos_iff (hP k), count_opened_pos_iff (hP k)] at this
      exact this hi

end StaticSite.Html
