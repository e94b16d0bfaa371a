import StaticSite.Link
import StaticSite.Proofs.Html.Attribute
import StaticSite.Proofs.Link.Place

/-!
# Changed links stay as they are

A link that was moved starts with `/`, so it is kept or leaves the site when the page is looked at
again, and the classes of its anchor are normal by then. So the links of a page that were changed
are not changed again (`Relinker.relink_idempotent`), and all that is changed on the way are links
and classes of anchors (`Relinker.Relinked`).
-/

namespace StaticSite

open Html Text

namespace Text

theorem collapse_cons {c : Char} (hc : isBlank c = false) (s : List Char) :
    collapse (c :: s) = c :: collapse s := by
  rw [collapse.eq_def]
  dsimp only
  rw [if_neg (by simp [hc])]

/-- A space in front of a character that is not blank is a run of its own. -/
theorem collapse_space_cons {c : Char} (hc : isBlank c = false) (s : List Char) :
    collapse (' ' :: c :: s) = ' ' :: collapse (c :: s) := by
  have hspace : isBlank ' ' = true := by decide
  rw [collapse.eq_def]
  dsimp only
  rw [if_pos hspace, if_neg (by simp [hc])]

theorem collapse_collapse (s : List Char) : collapse (collapse s) = collapse s := by
  fun_induction collapse s with
  | case1 => rfl
  | case2 => decide
  | case3 _ _ _ _ _ ih => exact ih
  | case4 _ _ d s hd ih =>
    rw [Bool.not_eq_true] at hd
    rw [collapse_cons hd] at ih ⊢
    rw [collapse_space_cons hd, ih]
  | case5 c s hc ih => rw [collapse_cons (Bool.not_eq_true _ ▸ hc), ih]

/-- A character that is not blank stays in front when blanks are cut off. -/
theorem head?_trim {c : Char} (hc : isBlank c = false) (s : List Char) :
    (trim (c :: s)).head? = some c := by
  have hlast : ∀ u : List Char, ((u ++ [c]).dropWhile isBlank).getLast? = some c := by
    intro u
    induction u with
    | nil => simp [hc]
    | cons d u ih =>
      rw [List.cons_append, List.dropWhile_cons]
      split
      · exact ih
      · rw [← List.cons_append, List.getLast?_concat]
  rw [trim, trimStart, List.dropWhile_cons_of_neg (by simp [hc]), trimEnd, List.head?_reverse,
    List.reverse_cons]
  exact hlast s.reverse

end Text

namespace Relinker

variable {r : Relinker}

/-! ## Classes -/

/-- The tag with its classes normalized. -/
def tidyTag (t : Tag) : Tag :=
  match t.attr? "class" with
  | some value => t.setAttr "class" (normalizeClass value)
  | none => t

theorem tidyTag_of_some {t : Tag} {value : String} (h : t.attr? "class" = some value) :
    tidyTag t = t.setAttr "class" (normalizeClass value) := by
  rw [tidyTag, h]

theorem tidyTag_of_none {t : Tag} (h : t.attr? "class" = none) : tidyTag t = t := by
  rw [tidyTag, h]

theorem attr?_class_tidyTag (t : Tag) :
    (tidyTag t).attr? "class" = (t.attr? "class").map normalizeClass := by
  rcases h : t.attr? "class" with _ | value
  · rw [tidyTag_of_none h, h]
    rfl
  · rw [tidyTag_of_some h]
    exact Tag.attr?_setAttr_self t "class" (normalizeClass value)

theorem attr?_href_tidyTag (t : Tag) : (tidyTag t).attr? "href" = t.attr? "href" := by
  have hname : sameName "class" "href" = false := by decide
  rw [tidyTag]
  split
  · exact Tag.attr?_setAttr hname t _
  · rfl

/-- Nothing but attributes changes. -/
theorem tidyTag_eq (t : Tag) : tidyTag t = { t with attrs := (tidyTag t).attrs } := by
  rw [tidyTag]
  split
  · rfl
  · rfl

theorem normalizeClass_normalizeClass (value : String) :
    normalizeClass (normalizeClass value) = normalizeClass value := by
  rw [normalizeClass, normalizeClass, String.toList_ofList, collapse_collapse]

theorem tidyTag_tidyTag (t : Tag) : tidyTag (tidyTag t) = tidyTag t := by
  have hclass := attr?_class_tidyTag t
  rcases h : t.attr? "class" with _ | value
  · rw [h] at hclass
    exact tidyTag_of_none hclass
  · rw [h] at hclass
    rw [tidyTag_of_some hclass, normalizeClass_normalizeClass]
    exact Tag.setAttr_eq_self hclass

/-! ## Links -/

/-- The tag with its link changed. -/
def moveTag (t : Tag) : LinkOutcome → Tag
  | .kept | .outside _ => t
  | .moved url _ => t.setAttr "href" url

theorem moveTag_eq (t : Tag) (link : LinkOutcome) :
    moveTag t link = { t with attrs := (moveTag t link).attrs } := by
  cases link with
  | kept | outside | moved => rfl

theorem attr?_class_moveTag (t : Tag) (link : LinkOutcome) :
    (moveTag t link).attr? "class" = t.attr? "class" := by
  have hname : sameName "href" "class" = false := by decide
  cases link with
  | kept | outside => rfl
  | moved url target => exact Tag.attr?_setAttr hname t url

theorem relinkTag_of_none {t : Tag} (h : r.anchor? t = none) : r.relinkTag t = t := by
  rw [relinkTag, h]

theorem relinkTag_of_some {t : Tag} {link : LinkOutcome} (h : r.anchor? t = some link) :
    r.relinkTag t = tidyTag (moveTag t link) := by
  rw [relinkTag, h]
  cases link with
  | kept | outside | moved => rfl

theorem anchor?_congr {t u : Tag} (ha : t.is "a" = u.is "a")
    (hhref : t.attr? "href" = u.attr? "href") : r.anchor? t = r.anchor? u := by
  rw [anchor?, anchor?, ha, hhref]

theorem anchor?_tidyTag (t : Tag) : r.anchor? (tidyTag t) = r.anchor? t :=
  anchor?_congr (by rw [tidyTag_eq]; rfl) (attr?_href_tidyTag t)

theorem anchor?_eq_some {t : Tag} {link : LinkOutcome} (h : r.anchor? t = some link) :
    t.is "a" = true ∧ ∃ href, t.attr? "href" = some href ∧ r.outcome (trim href.toList) = link := by
  rw [anchor?] at h
  split at h
  · rename_i ha
    refine ⟨ha, ?_⟩
    split at h
    · cases h
    · rename_i href hhref
      dsimp only at h
      split at h
      · cases h
      · exact ⟨href, hhref, Option.some.inj h⟩
  · cases h

/-- The address of a moved link starts with `/`, so it is kept. -/
theorem outcome_url {href : List Char} {url : String} {target : Path}
    (h : r.outcome href = .moved url target) : r.outcome (trim url.toList) = .kept := by
  obtain ⟨-, place, -, hurl, -⟩ := outcome_eq_moved_iff.1 h
  have hslash : isBlank '/' = false := by decide
  have hhead : (trim url.toList).head? = some '/' := by
    rw [hurl]
    exact head?_trim hslash _
  obtain ⟨s, hs⟩ := List.head?_eq_some_iff.1 hhead
  have hfixed : isFixedLink (trim (trim url.toList)) = true := by
    rw [hs, isFixedLink, head?_trim hslash s]
    simp
  rw [outcome]
  exact if_pos hfixed

/-- A link that was looked at is not moved. -/
theorem anchor?_relinkTag (r : Relinker) (t : Tag) {link : LinkOutcome}
    (h : r.anchor? (r.relinkTag t) = some link) :
    moveTag (r.relinkTag t) link = r.relinkTag t ∧ target? link = none := by
  rcases ht : r.anchor? t with _ | _ | href | ⟨url, target⟩
  · rw [relinkTag_of_none ht, ht] at h
    cases h
  · rw [relinkTag_of_some ht, moveTag, anchor?_tidyTag, ht] at h
    cases h
    exact ⟨rfl, rfl⟩
  · rw [relinkTag_of_some ht, moveTag, anchor?_tidyTag, ht] at h
    cases h
    exact ⟨rfl, rfl⟩
  · rw [relinkTag_of_some ht, moveTag, anchor?_tidyTag] at h
    obtain ⟨-, href, -, hout⟩ := anchor?_eq_some ht
    obtain ⟨-, href', hhref, hlink⟩ := anchor?_eq_some h
    rw [Tag.attr?_setAttr_self, Option.some_inj] at hhref
    subst hhref
    rw [outcome_url hout] at hlink
    subst hlink
    exact ⟨rfl, rfl⟩

theorem relinkTag_relinkTag (r : Relinker) (t : Tag) :
    r.relinkTag (r.relinkTag t) = r.relinkTag t := by
  rcases h : r.anchor? (r.relinkTag t) with _ | link
  · exact relinkTag_of_none h
  · rw [relinkTag_of_some h, (anchor?_relinkTag r t h).1]
    rcases ht : r.anchor? t with _ | link'
    · rw [relinkTag_of_none ht, ht] at h
      cases h
    · rw [relinkTag_of_some ht, tidyTag_tidyTag]

/-! ## What is changed -/

/-- What becomes of a tag: one that is no anchor stays as it is, and of an anchor no more than the
values of its link and its classes change. -/
structure Relinked (r : Relinker) (t u : Tag) : Prop where
  name : u.name = t.name
  selfClosing : u.selfClosing = t.selfClosing
  origin : u.origin = t.origin
  attrs : Revalued ["href", "class"] t.attrs u.attrs
  /-- Other elements stay, and so do anchors whose links are left alone. -/
  other : t.is "a" = false ∨ r.anchor? t = none → u = t
  /-- The link of an anchor is what it is moved to, if it is. -/
  href : ∀ link, r.anchor? t = some link → u.attr? "href" = (moveTag t link).attr? "href"
  /-- The classes of an anchor are normalized. -/
  classes : r.anchor? t ≠ none → u.attr? "class" = (t.attr? "class").map normalizeClass

theorem revalued_setAttr {t : Tag} {key old : String} (h : t.attr? key = some old)
    (value : String) : Revalued [key] t.attrs (t.setAttr key value).attrs := by
  refine .setAttrIn value ?_
  rw [← Option.isSome_map, ← Tag.attr?, h]
  rfl

theorem revalued_tidyTag (t : Tag) : Revalued ["class"] t.attrs (tidyTag t).attrs := by
  rcases h : t.attr? "class" with _ | value
  · rw [tidyTag_of_none h]
    exact .refl _ _
  · rw [tidyTag_of_some h]
    exact revalued_setAttr h _

theorem revalued_moveTag {t : Tag} {link : LinkOutcome} (h : r.anchor? t = some link) :
    Revalued ["href"] t.attrs (moveTag t link).attrs := by
  obtain ⟨-, href, hhref, -⟩ := anchor?_eq_some h
  cases link with
  | kept | outside => exact .refl _ _
  | moved url target => exact revalued_setAttr hhref url

theorem relinked_relinkTag (r : Relinker) (t : Tag) : r.Relinked t (r.relinkTag t) := by
  rcases h : r.anchor? t with _ | link
  · rw [relinkTag_of_none h]
    refine ⟨rfl, rfl, rfl, .refl _ _, fun _ => rfl, fun link hlink => ?_, fun hne => absurd h hne⟩
    rw [h] at hlink
    cases hlink
  · rw [relinkTag_of_some h]
    have hall : tidyTag (moveTag t link) =
        { t with attrs := (tidyTag (moveTag t link)).attrs } := by
      rw [tidyTag_eq, moveTag_eq]
    have hattrs : Revalued ["href", "class"] t.attrs (tidyTag (moveTag t link)).attrs :=
      ((revalued_moveTag h).mono (by simp)).trans ((revalued_tidyTag _).mono (by simp))
    refine ⟨?_, ?_, ?_, hattrs, ?_, ?_, fun _ => ?_⟩
    · rw [hall]
    · rw [hall]
    · rw [hall]
    · rintro (ha | hnone)
      · rw [(anchor?_eq_some h).1] at ha
        cases ha
      · rw [h] at hnone
        cases hnone
    · intro link' hlink'
      rw [h, Option.some_inj] at hlink'
      rw [attr?_href_tidyTag, hlink']
    · rw [attr?_class_tidyTag, attr?_class_moveTag]

theorem inventory_eq_nil {page : Forest} (h : ∀ link ∈ r.links page, target? link = none) :
    r.inventory page = [] := by
  rw [inventory, List.filterMap_eq_nil_iff.2 h]
  rfl

/-- A page whose links were changed has none left to change, and leads to no further source. What
was changed are links and classes of anchors: the shape of the page, its texts and its other
elements are the same. -/
theorem relink_idempotent (r : Relinker) (page : Forest) :
    r.relink (r.relink page) = r.relink page ∧ r.inventory (r.relink page) = [] ∧
      Tagwise r.Relinked page (r.relink page) := by
  refine ⟨mapTags_mapTags_self r.relinkTag_relinkTag page, inventory_eq_nil fun link hlink => ?_,
    .mapTags r.relinked_relinkTag page⟩
  obtain ⟨u, hu, hlink⟩ := List.mem_filterMap.1 hlink
  rw [relink, tags_mapTags] at hu
  obtain ⟨t, -, rfl⟩ := List.mem_map.1 hu
  exact (anchor?_relinkTag r t hlink).2

end Relinker

end StaticSite
