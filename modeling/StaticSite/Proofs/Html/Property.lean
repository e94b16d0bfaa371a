import Mathlib
import StaticSite.Proofs.Html.Attribute
import StaticSite.Proofs.Html.WellFormed
import StaticSite.Proofs.Metadata

/-!
# Properties of instances

Properties are set one after the other, so of each name the last one counts
(`Tag.attr?_setProperties`), and the attributes of the instance come behind the front matter. Other
attributes stay where they are (`Grown.setProperties`). An element that has the properties already
is left alone (`Tag.setProperties_eq_self`). So the top-level elements of a component carry the
properties of the instance (`applyProperties_carries`).
-/

namespace StaticSite

open Text

namespace Html

/-! ## Names -/

theorem sameName_properties (a b : String) :
    sameName (propertyName a) (propertyName b) = sameName a b := by
  have hlower : ∀ key : String, lower (propertyName key).toList =
      lower "data-prop-".toList ++ lower key.toList := by
    intro key
    rw [propertyName, String.toList_append, lower, List.map_append, lower, lower]
  rw [Bool.eq_iff_iff, sameName, sameName, beq_iff_eq, beq_iff_eq, hlower, hlower,
    List.append_cancel_left_eq]

theorem isAttrChar_toLower (c : Char) : isAttrChar c.toLower = isAttrChar c := by
  by_cases hupper : c.isUpper
  · have halpha : c.isAlpha = true := by rw [Char.isAlpha, hupper, Bool.true_or]
    rw [isAttrChar_of_isAlpha halpha,
      isAttrChar_of_isAlpha (c.isAlpha_toLower_eq_isAlpha.trans halpha)]
  · rw [Char.toLower_eq_of_not_isUpper hupper]

/-- Whether a key can be an attribute name does not depend on the case of its letters. -/
theorem isAttrName_congr {a b : String} (h : sameName a b = true) :
    isAttrName a = isAttrName b := by
  have hlower : ∀ key : String,
      isAttrName key = (!(lower key.toList).isEmpty && (lower key.toList).all isAttrChar) := by
    intro key
    have hempty : key.isEmpty = (lower key.toList).isEmpty := by
      rw [lower, List.isEmpty_map, Bool.eq_iff_iff, List.isEmpty_iff, String.isEmpty_iff,
        String.toList_eq_nil_iff]
    have hall : (lower key.toList).all isAttrChar = key.toList.all isAttrChar := by
      rw [lower, List.all_map]
      exact congrArg (List.all _) (funext isAttrChar_toLower)
    rw [isAttrName, hempty, hall]
  rw [hlower, hlower, beq_iff_eq.1 h]

/-- The value of the last entry of this name, in any case of ASCII letters. -/
def lastNamed? (key : String) (as : List (String × String)) : Option String :=
  (as.findRev? fun a => sameName a.1 key).map (·.2)

section LastNamed

variable {key : String} {as : List (String × String)}

theorem lastNamed?_append (as bs : List (String × String)) :
    lastNamed? key (as ++ bs) = (lastNamed? key bs).or (lastNamed? key as) := by
  rw [lastNamed?, List.findRev?_eq_find?_reverse, List.reverse_append, List.find?_append,
    Option.map_or, ← List.findRev?_eq_find?_reverse, ← List.findRev?_eq_find?_reverse]
  rfl

theorem lastNamed?_singleton (a : String × String) :
    lastNamed? key [a] = if sameName a.1 key then some a.2 else none := by
  show Option.map Prod.snd (if sameName a.1 key then some a else none) = _
  split
  · rfl
  · rfl

theorem lastNamed?_cons (a : String × String) :
    lastNamed? key (a :: as) =
      (lastNamed? key as).or (if sameName a.1 key then some a.2 else none) := by
  rw [← List.singleton_append, lastNamed?_append, lastNamed?_singleton]

theorem lastNamed?_eq_none_iff :
    lastNamed? key as = none ↔ ∀ a ∈ as, sameName a.1 key = false := by
  rw [lastNamed?, List.findRev?_eq_find?_reverse, Option.map_eq_none_iff, List.find?_eq_none]
  simp

/-- Of the last entry of a name the value is found. -/
theorem lastNamed?_eq_some {before after : List (String × String)} {a : String × String}
    (ha : sameName a.1 key = true) (hafter : ∀ b ∈ after, sameName b.1 key = false) :
    lastNamed? key (before ++ a :: after) = some a.2 := by
  rw [lastNamed?_append, lastNamed?_cons, lastNamed?_eq_none_iff.2 hafter, if_pos ha]
  rfl

/-- The entries of one name are all carried, or none is. -/
theorem lastNamed?_carried (p : String × String → Bool) (f : String → String) {b : Bool}
    (hp : ∀ a ∈ as, sameName a.1 key = true → p a = b) :
    lastNamed? (propertyName key) ((as.filter p).map fun a => (propertyName a.1, f a.2)) =
      if b then (lastNamed? key as).map f else none := by
  induction as with
  | nil => cases b <;> rfl
  | cons a as ih =>
    obtain ⟨ha, has⟩ := List.forall_mem_cons.1 hp
    rw [List.filter_cons, lastNamed?_cons]
    have hother : lastNamed? (propertyName key)
        ((if p a then a :: as.filter p else as.filter p).map fun a => (propertyName a.1, f a.2)) =
        (lastNamed? (propertyName key) ((as.filter p).map fun a => (propertyName a.1, f a.2))).or
          (if p a && sameName a.1 key then some (f a.2) else none) := by
      rcases p a with _ | _
      · simp
      · rw [if_pos rfl, List.map_cons, lastNamed?_cons, sameName_properties]
        rfl
    rw [hother, ih has]
    rcases hkey : sameName a.1 key with _ | _
    · simp
    · rw [ha hkey]
      cases b
      · rfl
      · simp

end LastNamed

theorem lastNamed?_instanceProperties (source : Tag) (key : String) :
    lastNamed? (propertyName key) (instanceProperties source) =
      if source.is "include" && sameName key "src" then none else lastNamed? key source.attrs := by
  have hsrc : ∀ a ∈ source.attrs, sameName a.1 key = true →
      (!(source.is "include" && sameName a.1 "src")) =
        !(source.is "include" && sameName key "src") :=
    fun a _ ha => by rw [sameName_trans ha]
  rw [instanceProperties]
  refine (lastNamed?_carried _ id hsrc).trans ?_
  rw [Option.map_id]
  rcases source.is "include" && sameName key "src" with _ | _
  · rfl
  · rfl

theorem lastNamed?_metadataProperties (m : Metadata) (key : String) :
    lastNamed? (propertyName key) (metadataProperties m) =
      if isAttrName key then (lastNamed? key m).map escape else none :=
  lastNamed?_carried _ escape fun _ _ ha => isAttrName_congr ha

namespace Tag

/-! ## Setting properties -/

variable {ps : List (String × String)}

theorem setProperties_cons (t : Tag) (p : String × String) (ps : List (String × String)) :
    t.setProperties (p :: ps) = (t.setAttr p.1 p.2).setProperties ps := rfl

theorem setProperties_eq (t : Tag) (ps : List (String × String)) :
    t.setProperties ps = { t with attrs := (t.setProperties ps).attrs } := by
  induction ps generalizing t with
  | nil => rfl
  | cons p ps ih =>
    rw [setProperties_cons, ih]
    rfl

/-- Of the properties of a name the last one counts, and without any the attribute stays. -/
theorem attr?_setProperties (t : Tag) (ps : List (String × String)) (name : String) :
    (t.setProperties ps).attr? name = (lastNamed? name ps).or (t.attr? name) := by
  induction ps generalizing t with
  | nil => rfl
  | cons p ps ih =>
    rw [setProperties_cons, ih, attr?_setAttr_eq, lastNamed?_cons, Option.or_assoc]
    split
    · rfl
    · rfl

/-- An attribute that is set again by a property need not be set before. -/
theorem setProperties_setAttr {t : Tag} {key : String} (ht : (t.attr? key).isSome = true)
    (hps : (lastNamed? key ps).isSome = true) (value : String) :
    (t.setAttr key value).setProperties ps = t.setProperties ps := by
  induction ps generalizing t with
  | nil => cases hps
  | cons p ps ih =>
    rw [setProperties_cons, setProperties_cons]
    rcases hname : sameName key p.1 with _ | _
    · rw [lastNamed?_cons, sameName_comm, hname, if_neg Bool.false_ne_true, Option.or_none] at hps
      rw [setAttr_comm hname ht]
      refine ih ?_ hps
      rw [attr?_setAttr_eq, sameName_comm, hname, if_neg Bool.false_ne_true]
      exact ht
    · rw [setAttr_setAttr hname ht]

/-- An element that has the last property of each name stays as it is. -/
theorem setProperties_eq_self {t : Tag}
    (h : ∀ name value, lastNamed? name ps = some value → t.attr? name = some value) :
    t.setProperties ps = t := by
  induction ps with
  | nil => rfl
  | cons p ps ih =>
    have hps : t.setProperties ps = t := ih fun name value hvalue =>
      h name value (by rw [lastNamed?_cons, hvalue]; rfl)
    rw [setProperties_cons]
    -- The first property may set another value than the last one of its name, so the element is
    -- not the same after each step.
    rcases hlast : lastNamed? p.1 ps with _ | value
    · have hp : t.attr? p.1 = some p.2 :=
        h p.1 p.2 (by rw [lastNamed?_cons, hlast, sameName_refl]; rfl)
      rw [setAttr_eq_self hp, hps]
    · have hp : t.attr? p.1 = some value := h p.1 value (by rw [lastNamed?_cons, hlast]; rfl)
      rw [setProperties_setAttr (by rw [hp]; rfl) (by rw [hlast]; rfl), hps]

theorem setProperties_setProperties (t : Tag) (ps : List (String × String)) :
    (t.setProperties ps).setProperties ps = t.setProperties ps :=
  setProperties_eq_self fun name value h => by
    rw [attr?_setProperties, h]
    rfl

end Tag

/-! ## Instances -/

theorem Grown.setProperties {keys : List String} {ps : List (String × String)}
    (hps : ∀ p ∈ ps, p.1 ∈ keys) (t : Tag) : Grown keys t.attrs (t.setProperties ps).attrs := by
  induction ps generalizing t with
  | nil => exact refl keys t.attrs
  | cons p ps ih =>
    obtain ⟨hp, hps⟩ := List.forall_mem_cons.1 hps
    exact (setAttrIn hp p.2 t.attrs).trans (ih hps (t.setAttr p.1 p.2))

/-- No character that ends an attribute value or opens a tag is left in escaped text. -/
theorem not_mem_escape {c : Char} (hc : c ∈ ['<', '>', '"', '\'']) (s : String) :
    c ∉ (escape s).toList := by
  rw [escape, mapChars, String.toList_ofList, List.mem_flatMap]
  rintro ⟨d, -, hd⟩
  have hreference : ∀ reference : List Char,
      reference.all (fun d => !(['<', '>', '"', '\''].contains d)) = true → c ∉ reference :=
    fun reference hall hmem => by simpa [hc] using List.all_eq_true.1 hall c hmem
  unfold escapeChar at hd
  split at hd
  · exact hreference _ (by decide) hd
  · exact hreference _ (by decide) hd
  · exact hreference _ (by decide) hd
  · exact hreference _ (by decide) hd
  · exact hreference _ (by decide) hd
  · rw [List.mem_singleton.1 hd] at hc
    simp_all

/-- What an element of a component has when the properties of an instance were set. -/
structure Tag.Carries (m : Metadata) (source t u : Tag) : Prop where
  name : u.name = t.name
  selfClosing : u.selfClosing = t.selfClosing
  origin : u.origin = t.origin
  /-- Of the attributes of the instance with one name the last one is carried. The source of an
  `include` is not. -/
  ofInstance : ∀ key value, lastNamed? key source.attrs = some value →
    (source.is "include" && sameName key "src") = false →
    u.attr? (propertyName key) = some value
  /-- Of the entries with one name the last one is carried, if the instance has no such
  attribute. -/
  ofMetadata : ∀ e ∈ m, isAttrName e.1 = true → lastNamed? e.1 source.attrs = none →
    (∀ e' ∈ m, sameName e'.1 e.1 = true → e'.1 ≤ e.1) →
    u.attr? (propertyName e.1) = some (escape e.2) ∧
      ∀ c ∈ ['<', '>', '"', '\''], c ∉ (escape e.2).toList
  attrs : Grown ((metadataProperties m ++ instanceProperties source).map Prod.fst) t.attrs u.attrs

theorem lastNamed?_of_ordered {m : Metadata} (hm : m.Ordered) {e : String × String}
    (he : e ∈ m) (hlast : ∀ e' ∈ m, sameName e'.1 e.1 = true → e'.1 ≤ e.1) :
    lastNamed? e.1 m = some e.2 := by
  obtain ⟨before, after, rfl⟩ := List.append_of_mem he
  refine lastNamed?_eq_some (sameName_refl e.1) fun e' he' => Bool.eq_false_iff.2 fun hname => ?_
  have hlt : e.1 < e'.1 := (List.pairwise_cons.1 (List.pairwise_append.1 hm).2.1).1 e' he'
  exact absurd (hlast e' (by simp [he']) hname) (not_le.2 hlt)

theorem carries_setProperties {m : Metadata} (hm : m.Ordered) (source t : Tag) :
    Tag.Carries m source t
      (t.setProperties (metadataProperties m ++ instanceProperties source)) := by
  have hattr : ∀ key, (t.setProperties (metadataProperties m ++ instanceProperties source)).attr?
      (propertyName key) =
        ((if source.is "include" && sameName key "src" then none
          else lastNamed? key source.attrs).or
        (if isAttrName key then (lastNamed? key m).map escape else none)).or
          (t.attr? (propertyName key)) := by
    intro key
    rw [Tag.attr?_setProperties, lastNamed?_append, lastNamed?_instanceProperties,
      lastNamed?_metadataProperties]
  refine ⟨?_, ?_, ?_, fun key value hvalue hsrc => ?_, fun e he hname hnone hlast => ?_,
    .setProperties (fun p hp => List.mem_map_of_mem hp) t⟩
  · rw [Tag.setProperties_eq]
  · rw [Tag.setProperties_eq]
  · rw [Tag.setProperties_eq]
  · rw [hattr, hsrc, hvalue]
    rfl
  · rw [hattr, hnone, ite_self, hname, lastNamed?_of_ordered hm he hlast]
    exact ⟨rfl, fun c hc => not_mem_escape hc e.2⟩

/-- Forests that differ in the tags of their top-level elements alone, which are related. -/
inductive Topwise (T : Tag → Tag → Prop) : Forest → Forest → Prop where
  | nil : Topwise T [] []
  | leaf {n : Node} {ns ms : Forest} (h : n.isLeaf = true) (hns : Topwise T ns ms) :
      Topwise T (n :: ns) (n :: ms)
  | element {t u : Tag} {cs ns ms : Forest} (ht : T t u) (hns : Topwise T ns ms) :
      Topwise T (.element t cs :: ns) (.element u cs :: ms)

/-- The top-level elements of a component carry the properties of its instance, those of the
instance before those of the front matter, and nothing else is changed. To set them again changes
nothing. -/
theorem applyProperties_carries {m : Metadata} (hm : m.Ordered) (source : Tag) (ns : Forest) :
    Topwise (Tag.Carries m source) ns (applyProperties m source ns) ∧
      applyProperties m source (applyProperties m source ns) = applyProperties m source ns := by
  induction ns using forest_induction with
  | nil => exact ⟨.nil, rfl⟩
  | leaf n ns hl ih =>
    rw [applyProperties_leaf hl, applyProperties_leaf hl, ih.2]
    exact ⟨.leaf hl ih.1, rfl⟩
  | element t cs ns _ ih =>
    rw [applyProperties_element, applyProperties_element, Tag.setProperties_setProperties, ih.2]
    exact ⟨.element (carries_setProperties hm source t) ih.1, rfl⟩

/-- Names that differ in the case of their letters, in the front matter and in the instance, and an
element that has one of them already. -/
theorem applyProperties_carries_sample :
    let m := Metadata.ofEntries [("title", "T"), ("author", "<b>"), ("Author", "z"), ("a b", "c")]
    let source : Tag :=
      { name := "Include", attrs := [("SRC", "/c.html"), ("Title", "A"), ("tiTle", "B")] }
    let t : Tag := { name := "p", attrs := [("DATA-PROP-TITLE", "old")] }
    m.Ordered ∧
    (∃ u, applyProperties m source [.element t []] = [.element u []] ∧
      u.attr? (propertyName "title") = some "B" ∧
      u.attr? (propertyName "author") = some "&lt;b&gt;") ∧
    applyProperties m source (applyProperties m source [.element t []]) =
      applyProperties m source [.element t []] := by
  intro m source t
  have hm : m.Ordered := Metadata.ordered_ofEntries _
  have hmem : ("author", "<b>") ∈ m := by decide +kernel
  have hlast : ∀ e' ∈ m, sameName e'.1 "author" = true → e'.1 ≤ "author" := by decide +kernel
  obtain ⟨htop, hagain⟩ := applyProperties_carries hm source [.element t []]
  refine ⟨hm, ⟨_, applyProperties_element t [] [] m source, ?_⟩, hagain⟩
  rw [applyProperties_element] at htop
  generalize t.setProperties (metadataProperties m ++ instanceProperties source) = u at htop
  cases htop with
  | leaf h => cases h
  | element h =>
    exact ⟨h.ofInstance "title" "B" (by decide +kernel) (by decide +kernel),
      (h.ofMetadata _ hmem (by decide) (by decide +kernel) hlast).1⟩

end Html

end StaticSite
