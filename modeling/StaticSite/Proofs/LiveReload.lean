import Mathlib.Data.List.Lex
import StaticSite.LiveReload
import StaticSite.Proofs.Html.Attribute
import StaticSite.Proofs.Html.Scripts

/-!
# The script that reloads a page

Places of elements are compared as lists of numbers, which is document order: an element comes
before what it contains, and that before what stands behind it. `lastBody?` finds the greatest place
of a `body` (`lastBody?_spec`), so that there is an element for `appendAt?` to add the script to
(`exists_appended`). A page that has the script stays as it is, and so does every page when the
script is added once more (`injectReload_once`).
-/

namespace StaticSite.Html

/-- The tag and the children of the element at a place. -/
def elementAt? : List Nat → Forest → Option (Tag × Forest)
  | [], _ => none
  | i :: place, ns =>
    match ns[i]? with
    | some (.element t cs) => if place.isEmpty then some (t, cs) else elementAt? place cs
    | _ => none

/-- At the place stands a `body` with these children, and at no later place stands another one. -/
structure IsLastBody (page : Forest) (place : List Nat) (t : Tag) (cs : Forest) : Prop where
  stands : elementAt? place page = some (t, cs)
  body : t.is "body" = true
  last : ∀ place' t' cs', elementAt? place' page = some (t', cs') → t'.is "body" = true →
    place' ≤ place

/-- The right forest is the left one with a node more, which stands behind the other children of the
element at the place. -/
inductive Appended (new : Node) : List Nat → Forest → Forest → Prop where
  | here (t : Tag) (cs ns : Forest) :
      Appended new [0] (.element t cs :: ns) (.element t (cs ++ [new]) :: ns)
  | inside {place : List Nat} {cs ds : Forest} (t : Tag) (ns : Forest)
      (h : Appended new place cs ds) :
      Appended new (0 :: place) (.element t cs :: ns) (.element t ds :: ns)
  | behind {i : Nat} {place : List Nat} {ns ms : Forest} (n : Node)
      (h : Appended new (i :: place) ns ms) : Appended new ((i + 1) :: place) (n :: ns) (n :: ms)

variable {new n : Node} {i : Nat} {place : List Nat} {t : Tag} {cs ns ms : Forest}

/-! ## Places -/

theorem cons_le_cons_iff {i j : Nat} {p q : List Nat} :
    i :: p ≤ j :: q ↔ i < j ∨ i = j ∧ p ≤ q := by
  rw [← not_lt, List.cons_lt_cons_iff, ← not_lt (a := q)]
  by_cases hpq : q < p
  · simp only [hpq, and_true, not_true, and_false, or_false]
    omega
  · simp only [hpq, and_false, or_false, not_false_eq_true, and_true]
    omega

theorem elementAt?_nil : elementAt? place [] = none := by
  cases place with
  | nil => rfl
  | cons i place => rfl

theorem elementAt?_inside (h : elementAt? place cs = some (t, ns)) (u : Tag) (ms : Forest) :
    elementAt? (0 :: place) (.element u cs :: ms) = some (t, ns) := by
  cases place with
  | nil => cases h
  | cons i place => exact h

/-- An element of a forest is its first node, or stands inside of it or behind it. -/
theorem elementAt?_cons_cases (h : elementAt? place (n :: ns) = some (t, cs)) :
    (place = [0] ∧ n = .element t cs) ∨
    (∃ place' u ds, place = 0 :: place' ∧ n = .element u ds ∧
      elementAt? place' ds = some (t, cs)) ∨
    ∃ i place', place = (i + 1) :: place' ∧ elementAt? (i :: place') ns = some (t, cs) := by
  rcases place with _ | ⟨_ | i, place⟩
  · cases h
  · cases n with
    | element u ds =>
      cases place with
      | nil =>
        cases h
        exact .inl ⟨rfl, rfl⟩
      | cons j place => exact .inr (.inl ⟨_, u, ds, rfl, rfl, h⟩)
    | _ => cases h
  · exact .inr (.inr ⟨i, place, rfl, h⟩)

theorem mem_tags_of_elementAt? (h : elementAt? place ns = some (t, cs)) : t ∈ tags ns := by
  induction ns using forest_induction generalizing place with
  | nil =>
    rw [elementAt?_nil] at h
    cases h
  | leaf n ns hl ih =>
    rw [tags_leaf hl]
    obtain ⟨-, rfl⟩ | ⟨-, u, ds, -, rfl, -⟩ | ⟨i, q, -, hq⟩ := elementAt?_cons_cases h
    · cases hl
    · cases hl
    · exact ih hq
  | element u ds ns ihds ihns =>
    rw [tags_element]
    obtain ⟨-, hn⟩ | ⟨q, _, _, -, hn, hq⟩ | ⟨i, q, -, hq⟩ := elementAt?_cons_cases h
    · cases hn
      exact List.mem_cons_self
    · cases hn
      exact List.mem_cons_of_mem _ (List.mem_append_left _ (ihds hq))
    · exact List.mem_cons_of_mem _ (List.mem_append_right _ (ihns hq))

/-! ## The last body -/

theorem lastBody?_leaf (h : n.isLeaf = true) :
    lastBody? (n :: ns) = (lastBody? ns).map (List.modifyHead (· + 1)) := by
  rw [lastBody?]
  rcases lastBody? ns with _ | place
  · cases n <;> first | rfl | cases h
  · rfl

theorem lastBody?_element :
    lastBody? (.element t cs :: ns) =
      ((lastBody? ns).map (List.modifyHead (· + 1))).or
        (((lastBody? cs).or (if t.is "body" then some [] else none)).map (0 :: ·)) := by
  rw [lastBody?, Node.lastBody?]
  rcases lastBody? ns with _ | place
  · rcases lastBody? cs with _ | place
    · rfl
    · rfl
  · rfl

namespace IsLastBody

/-- The last body of what stands behind a node is the last one with that node in front. -/
theorem behind (h : IsLastBody ns place t cs) (n : Node) :
    IsLastBody (n :: ns) (place.modifyHead (· + 1)) t cs := by
  rcases place with _ | ⟨i, place⟩
  · cases h.stands
  refine ⟨h.stands, h.body, fun place' t' cs' hplace ht' => ?_⟩
  show place' ≤ (i + 1) :: place
  obtain ⟨rfl, -⟩ | ⟨q, _, _, rfl, -, -⟩ | ⟨j, q, rfl, hq⟩ := elementAt?_cons_cases hplace
  · exact cons_le_cons_iff.2 (.inl (Nat.succ_pos i))
  · exact cons_le_cons_iff.2 (.inl (Nat.succ_pos i))
  · have hle := h.last _ _ _ hq ht'
    rw [cons_le_cons_iff] at hle ⊢
    exact hle.imp Nat.succ_lt_succ fun h => ⟨congrArg _ h.1, h.2⟩

/-- If there is no body behind an element, the last one inside of it is the last one. -/
theorem inside (h : IsLastBody ms place t cs) (u : Tag)
    (hns : ∀ t ∈ tags ns, t.is "body" = false) :
    IsLastBody (.element u ms :: ns) (0 :: place) t cs := by
  refine ⟨elementAt?_inside h.stands u ns, h.body, fun place' t' cs' hplace ht' => ?_⟩
  obtain ⟨rfl, -⟩ | ⟨q, _, _, rfl, hn, hq⟩ | ⟨j, q, rfl, hq⟩ := elementAt?_cons_cases hplace
  · exact cons_le_cons_iff.2 (.inr ⟨rfl, not_lt.1 (List.not_lt_nil _)⟩)
  · cases hn
    exact cons_le_cons_iff.2 (.inr ⟨rfl, h.last _ _ _ hq ht'⟩)
  · rw [hns t' (mem_tags_of_elementAt? hq)] at ht'
    cases ht'

/-- A body without a body inside of it or behind it is the last one. -/
theorem here (ht : t.is "body" = true) (hcs : ∀ t ∈ tags cs, t.is "body" = false)
    (hns : ∀ t ∈ tags ns, t.is "body" = false) : IsLastBody (.element t cs :: ns) [0] t cs := by
  refine ⟨rfl, ht, fun place' t' cs' hplace ht' => ?_⟩
  obtain ⟨rfl, -⟩ | ⟨q, _, _, rfl, hn, hq⟩ | ⟨j, q, rfl, hq⟩ := elementAt?_cons_cases hplace
  · exact le_refl _
  · cases hn
    rw [hcs t' (mem_tags_of_elementAt? hq)] at ht'
    cases ht'
  · rw [hns t' (mem_tags_of_elementAt? hq)] at ht'
    cases ht'

end IsLastBody

/-- The place that is found is the last one, and if none is found there is none. -/
theorem lastBody?_spec (ns : Forest) :
    lastBody? ns = none ∧ (∀ t ∈ tags ns, t.is "body" = false) ∨
    ∃ place t cs, lastBody? ns = some place ∧ IsLastBody ns place t cs := by
  induction ns using forest_induction with
  | nil => exact .inl ⟨rfl, fun _ h => by cases h⟩
  | leaf n ns hl ih =>
    rw [lastBody?_leaf hl, tags_leaf hl]
    obtain ⟨hnone, hns⟩ | ⟨place, t, cs, hsome, h⟩ := ih
    · exact .inl ⟨by rw [hnone, Option.map_none], hns⟩
    · exact .inr ⟨_, t, cs, by rw [hsome, Option.map_some], h.behind n⟩
  | element t cs ns ihcs ihns =>
    rw [lastBody?_element, tags_element, List.forall_mem_cons, List.forall_mem_append]
    obtain ⟨hnone, hns⟩ | ⟨place, u, ds, hsome, h⟩ := ihns
    · rw [hnone, Option.map_none, Option.none_or]
      obtain ⟨hnone, hcs⟩ | ⟨place, u, ds, hsome, h⟩ := ihcs
      · rw [hnone, Option.none_or]
        rcases ht : t.is "body" with _ | _
        · exact .inl ⟨rfl, rfl, hcs, hns⟩
        · exact .inr ⟨[0], t, cs, rfl, .here ht hcs hns⟩
      · exact .inr ⟨_, u, ds, by rw [hsome]; rfl, h.inside t hns⟩
    · exact .inr ⟨_, u, ds, by rw [hsome]; rfl, h.behind _⟩

/-! ## The node that is added -/

theorem appendAt?_behind :
    appendAt? new ((i + 1) :: place) (n :: ns) = (appendAt? new (i :: place) ns).map (n :: ·) := by
  rw [appendAt?, appendAt?, List.getElem?_cons_succ]
  rcases ns[i]? with _ | m
  · rfl
  · cases m with
    | element t cs =>
      dsimp only
      rw [Option.map_map]
      rfl
    | _ => rfl

/-- At the place of an element a node can be added. -/
theorem exists_appended (new : Node) (h : elementAt? place ns = some (t, cs)) :
    ∃ ms, appendAt? new place ns = some ms ∧ Appended new place ns ms := by
  induction ns using forest_induction generalizing place with
  | nil =>
    rw [elementAt?_nil] at h
    cases h
  | leaf n ns hl ih =>
    obtain ⟨-, rfl⟩ | ⟨-, u, ds, -, rfl, -⟩ | ⟨i, q, rfl, hq⟩ := elementAt?_cons_cases h
    · cases hl
    · cases hl
    · obtain ⟨ms, hms, happended⟩ := ih hq
      exact ⟨n :: ms, by rw [appendAt?_behind, hms, Option.map_some], happended.behind n⟩
  | element u ds ns ihds ihns =>
    obtain ⟨rfl, -⟩ | ⟨q, _, _, rfl, hn, hq⟩ | ⟨i, q, rfl, hq⟩ := elementAt?_cons_cases h
    · exact ⟨_, rfl, .here u ds ns⟩
    · cases hn
      obtain ⟨ms, hms, happended⟩ := ihds hq
      refine ⟨.element u ms :: ns, ?_, happended.inside u ns⟩
      -- The empty place means the element itself, so `appendAt?` asks whether it goes on.
      have hinside : q.isEmpty = false := by
        cases q with
        | nil => cases hq
        | cons _ _ => rfl
      rw [appendAt?, List.getElem?_cons_zero]
      dsimp only
      rw [hinside, if_neg Bool.false_ne_true, hms]
      rfl
    · obtain ⟨ms, hms, happended⟩ := ihns hq
      exact ⟨_ :: ms, by rw [appendAt?_behind, hms, Option.map_some], happended.behind _⟩

namespace Appended

theorem elementAt?_eq (h : Appended new place ns ms) (hp : elementAt? place ns = some (t, cs)) :
    elementAt? place ms = some (t, cs ++ [new]) := by
  induction h with
  | here u ds ns =>
    cases hp
    rfl
  | inside u ns h ih =>
    cases h with
    | here | inside | behind => exact ih hp
  | behind n h ih => exact ih hp

theorem count_eq (P : Tag → Bool) (h : Appended new place ns ms) :
    count P ms = count P ns + count P [new] := by
  induction h with
  | here t cs ns =>
    rw [count_element, count_element, count_append]
    omega
  | inside t ns _ ih =>
    rw [count_element, count_element, ih]
    omega
  | @behind i place ns ms n _ ih =>
    rw [← List.singleton_append (l := ms), ← List.singleton_append (l := ns), count_append,
      count_append, ih]
    omega

end Appended

/-! ## The script -/

theorem count_reloadScript (raw : String) :
    count (Tag.isScriptFrom raw) [reloadScript raw] = 1 := by
  have hscript : Tag.isScriptFrom raw { name := "script", attrs := [("src", raw)] } = true := by
    have hname : Tag.is { name := "script", attrs := [("src", raw)] } "script" = true :=
      sameName_refl _
    have hsrc : Tag.attr? { name := "script", attrs := [("src", raw)] } "src" = some raw :=
      Tag.attr?_setAttr_self { name := "script" } "src" raw
    rw [Tag.isScriptFrom, hname, hsrc, beq_self_eq_true]
    rfl
  rw [reloadScript, count_element, hscript]
  rfl

theorem injectReload_of_count_pos {address : String} {page : Forest}
    (h : 0 < count (Tag.isScriptFrom (Text.escape address)) page) :
    injectReload address page = none := by
  obtain ⟨t, ht, hscript⟩ := List.countP_pos_iff.1 h
  exact if_pos (List.any_eq_true.2 ⟨t, ht, hscript⟩)

/-- A page that has the script is left alone. In any other page it is added once, as the last child
of the last `body`, or behind everything else if there is no `body`; a second time it is not. -/
theorem injectReload_once (address : String) (page : Forest) :
    (∃ t ∈ tags page, t.isScriptFrom (Text.escape address) = true) ∧
      injectReload address page = none ∨
    (∀ t ∈ tags page, t.isScriptFrom (Text.escape address) = false) ∧
      ∃ result, injectReload address page = some result ∧
        count (Tag.isScriptFrom (Text.escape address)) result = 1 ∧
        ((∀ t ∈ tags page, t.is "body" = false) ∧
            result = page ++ [reloadScript (Text.escape address)] ∨
          ∃ place t cs, IsLastBody page place t cs ∧
            elementAt? place result = some (t, cs ++ [reloadScript (Text.escape address)]) ∧
            Appended (reloadScript (Text.escape address)) place page result) ∧
        injectReload address result = none := by
  generalize hraw : Text.escape address = raw
  have hadded := count_reloadScript raw
  by_cases h : ∃ t ∈ tags page, t.isScriptFrom raw = true
  · exact .inl ⟨h, if_pos (List.any_eq_true.2 (hraw ▸ h))⟩
  · have hnone : ∀ t ∈ tags page, t.isScriptFrom raw = false :=
      fun t ht => Bool.eq_false_iff.2 fun hscript => h ⟨t, ht, hscript⟩
    have hpage : count (Tag.isScriptFrom raw) page = 0 :=
      List.countP_eq_zero.2 fun t ht => by rw [hnone t ht]; exact Bool.false_ne_true
    have hinject : injectReload address page =
        some (((lastBody? page).bind (appendAt? (reloadScript raw) · page)).getD
          (page ++ [reloadScript raw])) := by
      rw [injectReload, hraw]
      refine if_neg ?_
      rw [List.any_eq_true]
      exact h
    have hagain {result : Forest} (hresult : count (Tag.isScriptFrom raw) result = 1) :
        injectReload address result = none :=
      injectReload_of_count_pos (by rw [hraw, hresult]; exact Nat.one_pos)
    refine .inr ⟨hnone, _, hinject, ?_⟩
    obtain ⟨hplace, hbody⟩ | ⟨place, t, cs, hplace, hlast⟩ := lastBody?_spec page
    · rw [hplace, Option.bind_none, Option.getD_none]
      have hresult : count (Tag.isScriptFrom raw) (page ++ [reloadScript raw]) = 1 := by
        rw [count_append, hpage, hadded]
      exact ⟨hresult, .inl ⟨hbody, rfl⟩, hagain hresult⟩
    · obtain ⟨result, hsome, happended⟩ := exists_appended (reloadScript raw) hlast.stands
      rw [hplace, Option.bind_some, hsome, Option.getD_some]
      have hresult : count (Tag.isScriptFrom raw) result = 1 := by
        rw [happended.count_eq, hpage, hadded]
      exact ⟨hresult, .inr ⟨place, t, cs, hlast, happended.elementAt?_eq hlast.stands, happended⟩,
        hagain hresult⟩

end StaticSite.Html
