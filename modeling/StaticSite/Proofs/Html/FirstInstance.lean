import StaticSite.Proofs.Html.Picking

/-!
# Scripts of the instance that was chosen

Of each component, `retainFirst` chooses an instance: the one that the registry holds, or else that
of the first script of the component in document order (`chosen?`). The choice depends on no more of
the forest than what the scripts say, so the forest that is left is the forest without the scripts
of other instances (`Flat.retainFirst_exact`).
-/

namespace StaticSite.Html

/-- The number of the instance of the component that the element is a script of. -/
def Tag.numberOf? (c : Path) (t : Tag) : Option UInt32 :=
  if t.is "script" then (t.origin.filter (·.component.same c)).map (·.number) else none

/-- The number of the instance that the first script of the component belongs to. -/
def firstNumber? (c : Path) (ns : Forest) : Option UInt32 := (tags ns).findSome? (Tag.numberOf? c)

/-- The number of the instance of the component whose scripts are kept. -/
def chosen? (r : ScriptRegistry) (ns : Forest) (c : Path) : Option UInt32 :=
  (PathMap.get? r c).or (firstNumber? c ns)

/-- Whether the element is a script of another instance of its component than the one whose scripts
are kept. -/
def Tag.isSuperseded (r : ScriptRegistry) (ns : Forest) (t : Tag) : Bool :=
  t.is "script" && t.origin.any fun o => chosen? r ns o.component != some o.number

/-! ## The choice -/

section Chosen

variable {r r' : ScriptRegistry} {t : Tag} {o : Origin} {cs ns ms : Forest}

theorem firstNumber?_leaf {n : Node} (h : n.isLeaf = true) (c : Path) :
    firstNumber? c (n :: ns) = firstNumber? c ns := by
  rw [firstNumber?, tags_leaf h, firstNumber?]

theorem firstNumber?_leaves (h : ∀ n ∈ ns, n.isLeaf = true) (c : Path) :
    firstNumber? c ns = none := by
  rw [firstNumber?, tags_leaves h, List.findSome?_nil]

theorem firstNumber?_element (c : Path) :
    firstNumber? c (.element t cs :: ns) =
      (t.numberOf? c).or ((firstNumber? c cs).or (firstNumber? c ns)) := by
  rw [firstNumber?, tags_element, List.findSome?_cons, List.findSome?_append]
  rcases t.numberOf? c with _ | number
  · rfl
  · rfl

theorem Tag.numberOf?_of_not_script (h : t.is "script" = false) (c : Path) :
    t.numberOf? c = none := by
  rw [numberOf?, h]
  rfl

theorem Tag.numberOf?_of_origin_none (h : t.origin = none) (c : Path) : t.numberOf? c = none := by
  rw [numberOf?, h]
  split
  · rfl
  · rfl

theorem Tag.numberOf?_of_script (h : t.is "script" = true) (ho : t.origin = some o) (c : Path) :
    t.numberOf? c = if o.component.same c then some o.number else none := by
  rw [numberOf?, if_pos h, ho, Option.filter_some]
  split
  · rfl
  · rfl

theorem get?_mark_eq_or (r : ScriptRegistry) (o : Origin) (c : Path) :
    PathMap.get? (r.mark o) c =
      (PathMap.get? r c).or (if o.component.same c then some o.number else none) := by
  rw [get?_mark]
  by_cases hsame : o.component.same c = true
  · rw [hasEmitted_eq, PathMap.get?_congr hsame, if_pos hsame]
    rcases PathMap.get? r c with _ | number
    · exact if_pos ⟨rfl, hsame⟩
    · exact if_neg fun h => Bool.noConfusion h.1
  · rw [if_neg hsame, Option.or_none, if_neg fun h => hsame h.2]

/-- A script makes the choice, unless it was made before. -/
theorem chosen?_mark (h : t.is "script" = true) (ho : t.origin = some o)
    (hcs : ∀ n ∈ cs, n.isLeaf = true) (c : Path) :
    chosen? (r.mark o) ns c = chosen? r (.element t cs :: ns) c := by
  rw [chosen?, chosen?, get?_mark_eq_or, firstNumber?_element, Tag.numberOf?_of_script h ho,
    firstNumber?_leaves hcs, Option.none_or, Option.or_assoc]

/-- A script is kept if its instance is the chosen one. -/
theorem emits_mark_eq (h : t.is "script" = true) (ho : t.origin = some o)
    (hcs : ∀ n ∈ cs, n.isLeaf = true) :
    (r.mark o).emits o = (chosen? r (.element t cs :: ns) o.component == some o.number) := by
  rw [← chosen?_mark h ho hcs, chosen?, ScriptRegistry.emits, get?_mark_eq_or,
    if_pos (Path.same_refl _)]
  rcases PathMap.get? r o.component with _ | number
  · rfl
  · rfl

/-- The registry holds the choices of a forest once its scripts were looked at. -/
theorem Flat.get?_retainFirst_eq (h : Flat ns) (r : ScriptRegistry) (c : Path) :
    PathMap.get? (Html.retainFirst r ns).2 c = chosen? r ns c := by
  induction h generalizing r with
  | nil => exact (Option.or_none).symm
  | leaf hl _ ih =>
    rw [retainFirst_leaf hl, chosen?, firstNumber?_leaf hl]
    exact ih r
  | @script t cs ns ht hcs _ ih =>
    rw [retainFirst_element, if_pos ht]
    rcases ho : t.origin with _ | o
    · rw [chosen?, firstNumber?_element, Tag.numberOf?_of_origin_none ho, firstNumber?_leaves hcs]
      exact ih r
    · rw [← chosen?_mark ht ho hcs]
      dsimp only
      split
      · exact ih (r.mark o)
      · exact ih (r.mark o)
  | @element t cs ns ht _ _ ihcs ihns =>
    rw [retainFirst_element, if_neg (by simp [ht])]
    refine (ihns _).trans ?_
    rw [chosen?, ihcs, chosen?, chosen?, firstNumber?_element, Tag.numberOf?_of_not_script ht,
      Option.none_or, Option.or_assoc]

/-- The choices for what stands behind an element are those for the element with it. -/
theorem chosen?_behind (h : Flat cs) (ht : t.is "script" = false) (c : Path) :
    chosen? (Html.retainFirst r cs).2 ns c = chosen? r (.element t cs :: ns) c := by
  rw [chosen?, h.get?_retainFirst_eq, chosen?, chosen?, firstNumber?_element,
    Tag.numberOf?_of_not_script ht, Option.none_or, Option.or_assoc]

theorem Tag.isSuperseded_congr (h : ∀ c, chosen? r ns c = chosen? r' ms c) (t : Tag) :
    t.isSuperseded r ns = t.isSuperseded r' ms := by
  simp only [isSuperseded, h]

/-- What stands behind a forest changes no choice of its components. -/
theorem Tag.isSuperseded_inside {u : Tag} (hu : u ∈ tags cs) (ht : t.is "script" = false) :
    u.isSuperseded r (.element t cs :: ns) = u.isSuperseded r cs := by
  rw [isSuperseded, isSuperseded]
  by_cases hs : u.is "script" = true
  · rcases ho : u.origin with _ | o
    · rfl
    · have hfirst : ∃ number, firstNumber? o.component cs = some number := by
        rw [← Option.isSome_iff_exists, firstNumber?, List.findSome?_isSome_iff]
        refine ⟨u, hu, ?_⟩
        rw [numberOf?_of_script hs ho, if_pos (Path.same_refl _)]
        rfl
      obtain ⟨number, hnumber⟩ := hfirst
      rw [Option.any_some, Option.any_some, chosen?, chosen?, firstNumber?_element,
        numberOf?_of_not_script ht, hnumber]
      rfl
  · rw [Bool.eq_false_iff.2 hs]
    rfl

end Chosen

/-! ## The forest that is left -/

/-- The scripts of other instances than the chosen ones are dropped, and nothing else is. -/
theorem Flat.retainFirst_eq_without {ns : Forest} (h : Flat ns) {r : ScriptRegistry}
    {P : Tag → Bool} (hP : ∀ t ∈ tags ns, P t = t.isSuperseded r ns) :
    (Html.retainFirst r ns).1 = without P ns := by
  induction h generalizing r with
  | nil => rfl
  | @leaf n ns hl _ ih =>
    rw [retainFirst_leaf hl, without_leaf hl]
    rw [tags_leaf hl] at hP
    refine congrArg (n :: ·) (ih fun t ht => (hP t ht).trans ?_)
    refine Tag.isSuperseded_congr (fun c => ?_) t
    rw [chosen?, firstNumber?_leaf hl, chosen?]
  | @script t cs ns ht hcs _ ih =>
    rw [tags_element, tags_leaves hcs, List.nil_append] at hP
    obtain ⟨hPt, hPns⟩ := List.forall_mem_cons.1 hP
    rw [retainFirst_element, if_pos ht, without_element, without_leaves hcs, hPt, Tag.isSuperseded,
      ht]
    rcases ho : t.origin with _ | o
    · refine congrArg (Node.element t cs :: ·) (ih fun u hu => (hPns u hu).trans ?_)
      refine Tag.isSuperseded_congr (fun c => ?_) u
      rw [chosen?, firstNumber?_element, Tag.numberOf?_of_origin_none ho, firstNumber?_leaves hcs]
      rfl
    · have hns := ih (r := r.mark o) fun u hu => (hPns u hu).trans
        (Tag.isSuperseded_congr (fun c => (chosen?_mark ht ho hcs c).symm) u)
      dsimp only
      rw [emits_mark_eq ht ho hcs, Option.any_some, Bool.true_and, bne]
      rcases chosen? r (.element t cs :: ns) o.component == some o.number with _ | _
      · exact hns
      · exact congrArg (Node.element t cs :: ·) hns
  | @element t cs ns ht hcs _ ihcs ihns =>
    rw [tags_element] at hP
    obtain ⟨hPt, hPrest⟩ := List.forall_mem_cons.1 hP
    obtain ⟨hPcs, hPns⟩ := List.forall_mem_append.1 hPrest
    have hcs' := ihcs (r := r) fun u hu => (hPcs u hu).trans (Tag.isSuperseded_inside hu ht)
    have hns' := ihns (r := (Html.retainFirst r cs).2) fun u hu =>
      (hPns u hu).trans (Tag.isSuperseded_congr (fun c => (chosen?_behind hcs ht c).symm) u)
    rw [retainFirst_element, if_neg (by simp [ht]), without_element, hPt, Tag.isSuperseded, ht,
      hcs', hns']
    rfl

/-- A forest whose scripts all belong to the instances that the registry holds stays as it is, and
so does the registry. -/
theorem retainFirst_eq_self {r : ScriptRegistry} {ns : Forest}
    (h : ∀ t ∈ tags ns, t.is "script" = true → ∀ o, t.origin = some o →
      PathMap.get? r o.component = some o.number) : retainFirst r ns = (ns, r) := by
  induction ns using forest_induction with
  | nil => rfl
  | leaf n ns hl ih =>
    rw [tags_leaf hl] at h
    rw [retainFirst_leaf hl, ih h]
  | element t cs ns ihcs ihns =>
    rw [tags_element] at h
    obtain ⟨ht, hrest⟩ := List.forall_mem_cons.1 h
    obtain ⟨hcs, hns⟩ := List.forall_mem_append.1 hrest
    rw [retainFirst_element]
    split
    · rename_i hs
      rcases ho : t.origin with _ | o
      · dsimp only
        rw [ihns hns]
      · have hget := ht hs o ho
        have hmark : r.mark o = r := by
          rw [ScriptRegistry.mark, hasEmitted_eq, hget]
          rfl
        have hemits : r.emits o = true := by
          rw [ScriptRegistry.emits, hget]
          exact beq_self_eq_true _
        dsimp only
        rw [hmark, if_pos hemits, ihns hns]
    · rw [ihcs hcs, ihns hns]

/-- Exactly the scripts of other instances than the chosen ones are dropped, and what is left stays
in its place. The registry then holds the choices, and a second time nothing is changed. -/
theorem Flat.retainFirst_exact {ns : Forest} (h : Flat ns) (r : ScriptRegistry) :
    (Html.retainFirst r ns).1 = without (Tag.isSuperseded r ns) ns ∧
    (∀ c, PathMap.get? (Html.retainFirst r ns).2 c = chosen? r ns c) ∧
    Html.retainFirst (Html.retainFirst r ns).2 (Html.retainFirst r ns).1 =
      Html.retainFirst r ns :=
  ⟨h.retainFirst_eq_without fun _ _ => rfl, h.get?_retainFirst_eq r,
    retainFirst_eq_self fun _ ht hs _ ho => h.retainFirst_number ht hs ho⟩

/-- A script with a text, of an instance of a component. -/
def sampleScript (component : String) (number : UInt32) (code : String) : Node :=
  .element { name := "script", origin := some ⟨⟨component⟩, number⟩ } [.text code]

/-- The scripts of two instances of a component take turns, and those of another component, of which
the registry holds the seventh instance, stand between them. -/
def sampleInstances : Forest :=
  [.element { name := "div" } [sampleScript "/c/card.html" 1 "lib"],
    sampleScript "/c/nav.html" 2 "nav", sampleScript "/c/card.html" 3 "lib",
    .element { name := "p" } [sampleScript "/c/./card.html" 1 "init", .text "x",
      sampleScript "/c/card.html" 3 "init"],
    sampleScript "/c/nav.html" 7 "nav", .element { name := "script" } [.text "page"]]

theorem retainFirst_exact_sample :
    Flat sampleInstances ∧
    (retainFirst ⟨[(⟨"/c/nav.html"⟩, 7)]⟩ sampleInstances).1 =
      [.element { name := "div" } [sampleScript "/c/card.html" 1 "lib"],
        .element { name := "p" } [sampleScript "/c/./card.html" 1 "init", .text "x"],
        sampleScript "/c/nav.html" 7 "nav", .element { name := "script" } [.text "page"]] ∧
    PathMap.get? (retainFirst ⟨[(⟨"/c/nav.html"⟩, 7)]⟩ sampleInstances).2 ⟨"/c/card.html"⟩ =
      some 1 ∧
    retainFirst (retainFirst ⟨[(⟨"/c/nav.html"⟩, 7)]⟩ sampleInstances).2
        (retainFirst ⟨[(⟨"/c/nav.html"⟩, 7)]⟩ sampleInstances).1 =
      retainFirst ⟨[(⟨"/c/nav.html"⟩, 7)]⟩ sampleInstances := by
  have htext : ∀ s : String, ∀ n ∈ [Node.text s], n.isLeaf = true := by simp [Node.isLeaf]
  have hscript {t : Tag} {s : String} {ns : Forest} (ht : t.is "script" = true) (h : Flat ns) :
      Flat (.element t [.text s] :: ns) := .script ht (htext s) h
  have h : Flat sampleInstances :=
    .element (by decide) (hscript (by decide) .nil) (hscript (by decide) (hscript (by decide)
      (.element (by decide) (hscript (by decide) (.leaf rfl (hscript (by decide) .nil)))
        (hscript (by decide) (hscript (by decide) .nil)))))
  obtain ⟨hforest, hregistry, hagain⟩ := h.retainFirst_exact ⟨[(⟨"/c/nav.html"⟩, 7)]⟩
  refine ⟨h, hforest.trans (by decide +kernel), (hregistry _).trans (by decide +kernel), hagain⟩

end StaticSite.Html
