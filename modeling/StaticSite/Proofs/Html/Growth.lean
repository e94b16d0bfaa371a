import StaticSite.Proofs.Html.Edits
import StaticSite.Proofs.Html.Reading

/-!
# Building documents

Nothing that is added to a document under construction is lost, doubled or moved
(`build_keeps_edits`). In document order the finished document consists of what the edits added, in
the order of the edits. A node that was added stands there unchanged, and below an element that was
opened stands what was added until it was closed.

An element reaches the document when it is closed, and the place of what is inside it is known from
the open elements around (`exists_outline_finish`). Up to the end tag that closes it, an element is
built like a document of its own (`edits?_within`), so the document is the same as if the element
had been added when it was complete (`exists_complete`), and what is complete does not change
(`Complete`).
-/

namespace StaticSite.Html

/-- The document keeps everything that the edits added, once and in order. -/
structure Growth.Keeps (g : Growth) (es : List Edit) : Prop where
  /-- The document lists what was added, in the order of the edits. -/
  listed : outline g.finish = entries es
  /-- What was added as a node stands in its place unchanged. -/
  pushed : ∀ before n h after, es = before ++ .push n h :: after →
    StandsBetween n g.finish (entries before) (entries after)
  /-- Below an element that was opened stands what was added while it was open. -/
  opened : ∀ before t rest, es = before ++ .openTag t :: rest → ∃ inside after children,
    rest = inside ++ after ∧ Spans before t inside after ∧ outline children = entries inside ∧
      StandsBetween (.element t children) g.finish (entries before) (entries after)
  /-- The same elements are open in the document. -/
  path : g.path.map (·.tag) = (stillOpen es).map (·.2)
  /-- An end tag fails exactly when no element of the name is open. -/
  fails : ∀ name, g.closeTag? name = none ↔ ∀ p ∈ stillOpen es, p.2.is name = false
  /-- Any other end tag ends the innermost element of the name and everything opened after it. -/
  closes : ∀ name g', g.closeTag? name = some g' → ∃ p, Ends es name p ∧
    g'.path.map (·.tag) = (stillOpen (es ++ [.closeTag name])).map (·.2)

namespace Growth

variable {g g' : Growth} {name : String} {nodes : List Node} {path : List OpenElement}

theorem path_pushText (g : Growth) (s : String) : (g.pushText s).path = g.path := by
  unfold pushText
  split
  · rfl
  · split <;> rfl

theorem edits?_texts (g : Growth) (ss : List String) :
    g.edits? (ss.map .pushText) = some (g.pushText (String.join ss)) := by
  induction ss generalizing g with
  | nil => rfl
  | cons s ss ih =>
    rw [List.map_cons, edits?_cons]
    exact (ih _).trans (by rw [pushText_pushText, String.join_cons])

/-! ## End tags -/

theorem finish_append (nodes : List Node) (inner path : List OpenElement) :
    finish ⟨nodes, inner ++ path⟩ = finish ⟨(finish ⟨nodes, inner⟩).reverse, path⟩ := by
  simp only [finish, List.foldl_append, List.reverse_reverse]

/-- Closing an element adds it, with what was added to it, behind its siblings. -/
theorem finish_cons (nodes : List Node) (e : OpenElement) (path : List OpenElement) :
    finish ⟨nodes, e :: path⟩ =
      (push ⟨e.before, path⟩ (.element e.tag nodes.reverse)).finish := rfl

/-- The innermost open element of the name is closed, and what is open inside it. -/
theorem closeIn_eq_some (h : closeIn name nodes path = some g) :
    ∃ inner e, path = inner ++ e :: g.path ∧ (∀ d ∈ inner, d.tag.is name = false) ∧
      e.tag.is name = true ∧
      g = push ⟨e.before, g.path⟩ (.element e.tag (finish ⟨nodes, inner⟩)) := by
  induction path generalizing nodes with
  | nil => cases h
  | cons e path ih =>
    rw [closeIn] at h
    split at h
    · rename_i hname
      cases h
      exact ⟨[], e, rfl, fun _ hd => absurd hd List.not_mem_nil, hname, rfl⟩
    · rename_i hname
      obtain ⟨inner, d, hpath, hinner, hd, hg⟩ := ih h
      exact ⟨e :: inner, d, congrArg (e :: ·) hpath,
        List.forall_mem_cons.2 ⟨Bool.eq_false_iff.2 hname, hinner⟩, hd, hg⟩

theorem closeIn_eq_none_iff :
    closeIn name nodes path = none ↔ ∀ e ∈ path, e.tag.is name = false := by
  induction path generalizing nodes with
  | nil => exact ⟨fun _ _ h => absurd h List.not_mem_nil, fun _ => rfl⟩
  | cons e path ih =>
    rw [closeIn, List.forall_mem_cons, ← Bool.not_eq_true]
    split
    · rename_i h
      exact ⟨fun hn => (by cases hn), fun hn => absurd h hn.1⟩
    · rename_i h
      exact ih.trans (and_iff_right h).symm

/-- An end tag does not change what becomes of the document. -/
theorem finish_closeTag? (h : g.closeTag? name = some g') : g'.finish = g.finish := by
  obtain ⟨inner, e, hpath, -, -, hg'⟩ := closeIn_eq_some h
  have hg : g = ⟨g.nodes, inner ++ e :: g'.path⟩ := by rw [← hpath]
  rw [hg, finish_append, finish_cons, List.reverse_reverse, ← hg']

/-! ## The list of the finished document -/

/-- What was added to the innermost open element is listed last. -/
theorem exists_outline_finish (path : List OpenElement) :
    ∃ frame, ∀ nodes, outline (finish ⟨nodes, path⟩) = frame ++ outline nodes.reverse := by
  induction path with
  | nil => exact ⟨[], fun _ => rfl⟩
  | cons e path ih =>
    obtain ⟨frame, hframe⟩ := ih
    refine ⟨frame ++ outline e.before.reverse ++ [.element e.tag []], fun nodes => ?_⟩
    rw [finish_cons, push, hframe, List.reverse_cons, outline_append, outline_element]
    simp only [List.append_assoc, List.singleton_append]

theorem outline_push (g : Growth) (n : Node) :
    outline (g.push n).finish = outline g.finish ++ outline [n] := by
  obtain ⟨frame, hframe⟩ := exists_outline_finish g.path
  have hg : outline g.finish = frame ++ outline g.nodes.reverse := hframe g.nodes
  rw [push, hframe, hg, List.reverse_cons, outline_append, List.append_assoc]

/-- Text that comes next is a node of its own. -/
def Parted (g : Growth) : Prop := ∀ t, g.nodes.head? ≠ some (.text t)

theorem parted_push {n : Node} (h : n.isText = false) : (g.push n).Parted := by
  intro t ht
  obtain rfl : n = .text t := Option.some.inj ht
  cases h

theorem outline_pushText (hg : g.Parted) (s : String) :
    outline (g.pushText s).finish = outline g.finish ++ textNode s := by
  by_cases hs : s = ""
  · rw [hs, pushText_empty]
    exact (List.append_nil _).symm
  · rw [pushText_eq_push hs hg, outline_push, textNode, if_neg fun h => hs (String.isEmpty_iff.1 h)]
    rfl

/-- An edit that adds no text adds its nodes at the end of the list. -/
theorem outline_edit? {e : Edit} (he : e.isText = false) (h : g.edit? e = some g') :
    outline g'.finish = outline g.finish ++ e.nodes ∧ g'.Parted := by
  cases e with
  | openTag t =>
    cases h
    exact ⟨outline_push g (.element t []), fun _ ht => by cases ht⟩
  | push n hn =>
    cases h
    exact ⟨outline_push g n, parted_push hn⟩
  | pushText s => cases he
  | closeTag name =>
    obtain ⟨_, _, _, _, _, hg'⟩ := closeIn_eq_some h
    refine ⟨?_, hg' ▸ parted_push rfl⟩
    rw [finish_closeTag? h]
    exact (List.append_nil _).symm

/-- The document lists what it listed before the edits, and then what they add. -/
theorem outline_edits? {es : List Edit} (hg : g.Parted) (h : g.edits? es = some g') :
    outline g'.finish = outline g.finish ++ entries es := by
  induction es using edits_induction generalizing g with
  | texts ss =>
    rw [edits?_texts] at h
    cases h
    rw [outline_pushText hg, entries_texts]
  | cons ss e es he ih =>
    rw [edits?_append, edits?_texts, Option.bind_some] at h
    obtain ⟨g₁, hg₁, h⟩ := edits?_cons_eq_some_iff.1 h
    obtain ⟨houtline, hparted⟩ := outline_edit? he hg₁
    rw [ih hparted h, houtline, outline_pushText hg, entries_append_cons he, entries_texts]
    simp only [List.append_assoc]

/-! ## Complete nodes -/

/-- The node is complete: it was added, with all below it, to an open element or to the document, or
it stands inside a node that was. In document order it stands behind the entries `before`. -/
inductive Complete (n : Node) (before : List Node) : Growth → Prop
  | here (later : List Node) {m : Node} {earlier : List Node} {path : List OpenElement}
      {xs ys : List Node} (hm : m.isText = false) (stands : StandsBetween n [m] xs ys)
      (place : outline (finish ⟨earlier, path⟩) ++ xs = before) :
      Complete n before ⟨later ++ m :: earlier, path⟩
  | outside {nodes : List Node} {e : OpenElement} {path : List OpenElement}
      (h : Complete n before ⟨e.before, path⟩) : Complete n before ⟨nodes, e :: path⟩

namespace Complete

variable {n : Node} {before : List Node}

theorem of_push (h : n.isText = false) : Complete n (outline g.finish) (g.push n) :=
  here [] h (.refl n) (List.append_nil _)

theorem push (h : Complete n before g) (m : Node) : Complete n before (g.push m) := by
  cases h with
  | here later hm stands place => exact here (m :: later) hm stands place
  | outside h => exact h.outside

/-- Text is joined to text only, and a complete node is no text and stands in none. -/
theorem pushText (h : Complete n before g) (s : String) : Complete n before (g.pushText s) := by
  unfold Growth.pushText
  split
  · exact h
  cases h with
  | here later hm stands place =>
    split
    · rename_i hnodes
      rcases later with _ | ⟨l, later⟩
      · cases hnodes
        cases hm
      · cases hnodes
        exact here (_ :: later) hm stands place
    · exact here (_ :: later) hm stands place
  | outside h =>
    split
    · exact h.outside
    · exact h.outside

/-- A node inside an open element moves with it to the siblings of the element. -/
theorem closeOne {e : OpenElement} (h : Complete n before ⟨nodes, e :: path⟩) :
    Complete n before (Growth.push ⟨e.before, path⟩ (.element e.tag nodes.reverse)) := by
  cases h with
  | @here later m earlier _ xs _ hm stands place =>
    have hstands := (stands.append earlier.reverse later.reverse).element e.tag
    rw [← List.reverse_cons, ← List.reverse_append] at hstands
    refine here [] rfl hstands ?_
    rw [← place, finish_cons, outline_push, outline_element, List.append_assoc]
    rfl
  | outside h => exact h.push _

theorem closeIn (h : Complete n before ⟨nodes, path⟩)
    (hclose : Growth.closeIn name nodes path = some g) : Complete n before g := by
  induction path generalizing nodes with
  | nil => cases hclose
  | cons e path ih =>
    rw [Growth.closeIn] at hclose
    split at hclose
    · cases hclose
      exact h.closeOne
    · exact ih h.closeOne hclose

theorem finish (h : Complete n before g) : ∃ after, StandsBetween n g.finish before after := by
  obtain ⟨nodes, path⟩ := g
  induction path generalizing nodes with
  | nil =>
    cases h with
    | @here later m earlier _ _ _ hm stands place =>
      have hstands := stands.append earlier.reverse later.reverse
      rw [← List.reverse_cons, ← List.reverse_append] at hstands
      exact ⟨_, place ▸ hstands⟩
  | cons e path ih => exact ih _ h.closeOne

theorem edit? {e : Edit} (h : Complete n before g) (he : g.edit? e = some g') :
    Complete n before g' := by
  cases e with
  | openTag t =>
    cases he
    exact h.outside
  | push m hm =>
    cases he
    exact h.push m
  | pushText s =>
    cases he
    exact h.pushText s
  | closeTag name => exact h.closeIn he

theorem edits? {es : List Edit} (h : Complete n before g) (hes : g.edits? es = some g') :
    Complete n before g' := by
  induction es generalizing g with
  | nil =>
    cases hes
    exact h
  | cons e es ih =>
    obtain ⟨g₁, hg₁, hes⟩ := edits?_cons_eq_some_iff.1 hes
    exact ih (h.edit? hg₁) hes

end Complete

/-- A node that is added stands in the finished document, behind what was listed before. -/
theorem exists_standsBetween {n : Node} (hn : n.isText = false) {es : List Edit}
    (h : (g.push n).edits? es = some g') :
    ∃ after, StandsBetween n g'.finish (outline g.finish) after :=
  ((Complete.of_push hn).edits? h).finish

/-! ## Inside an element -/

/-- The document with more open elements around it. -/
def within (g : Growth) (path : List OpenElement) : Growth := ⟨g.nodes, g.path ++ path⟩

/-- An end tag that closes nothing inside closes an element around. -/
theorem closeTag?_within (g : Growth) (name : String) (path : List OpenElement) :
    (g.within path).closeTag? name =
      ((g.closeTag? name).map (·.within path)).or (closeIn name g.finish.reverse path) := by
  obtain ⟨nodes, inner⟩ := g
  rw [closeTag?, closeTag?, within]
  induction inner generalizing nodes with
  | nil =>
    rw [closeIn, finish, List.reverse_reverse]
    rfl
  | cons e inner ih =>
    rw [List.cons_append, closeIn, closeIn]
    split
    · rfl
    · exact ih _

theorem pushText_within (g : Growth) (s : String) (path : List OpenElement) :
    (g.within path).pushText s = (g.pushText s).within path := by
  obtain ⟨nodes, inner⟩ := g
  unfold pushText
  split
  · rfl
  rcases nodes with _ | ⟨n, nodes⟩
  · rfl
  · cases n <;> rfl

theorem edit?_within {e : Edit} (h : g.edit? e = some g') (path : List OpenElement) :
    (g.within path).edit? e = some (g'.within path) := by
  cases e with
  | openTag t =>
    cases h
    rfl
  | push n hn =>
    cases h
    rfl
  | pushText s =>
    cases h
    exact congrArg some (pushText_within g s path)
  | closeTag name =>
    have hclose : g.closeTag? name = some g' := h
    refine (closeTag?_within g name path).trans ?_
    rw [hclose]
    rfl

/-- What can be done without the elements around leaves them as they are. -/
theorem edits?_within {es : List Edit} (h : g.edits? es = some g') (path : List OpenElement) :
    (g.within path).edits? es = some (g'.within path) := by
  induction es generalizing g with
  | nil =>
    cases h
    rfl
  | cons e es ih =>
    obtain ⟨g₁, hg₁, h⟩ := edits?_cons_eq_some_iff.1 h
    exact edits?_cons_eq_some_iff.2 ⟨_, edit?_within hg₁ path, ih h⟩

theorem finish_within (g : Growth) (e : OpenElement) (path : List OpenElement) :
    (g.within (e :: path)).finish =
      (push ⟨e.before, path⟩ (.element e.tag g.finish)).finish := by
  rw [within, finish_append, finish_cons, List.reverse_reverse]

/-- Edits succeed up to the first end tag that closes nothing. -/
theorem exists_edits? (g : Growth) (es : List Edit) : ∃ inside after g', es = inside ++ after ∧
    g.edits? inside = some g' ∧
      ∀ e fs, after = e :: fs → ∃ name, e = .closeTag name ∧ g'.closeTag? name = none := by
  induction es generalizing g with
  | nil => exact ⟨[], [], g, rfl, rfl, fun _ _ h => by cases h⟩
  | cons e es ih =>
    rcases he : g.edit? e with _ | g₁
    · refine ⟨[], e :: es, g, rfl, rfl, ?_⟩
      rintro _ _ ⟨rfl, rfl⟩
      cases e with
      | closeTag name => exact ⟨name, rfl, he⟩
      | _ => cases he
    · obtain ⟨inside, after, g', rfl, hinside, hafter⟩ := ih g₁
      exact ⟨e :: inside, after, g', rfl, edits?_cons_eq_some_iff.2 ⟨g₁, he, hinside⟩, hafter⟩

/-- To open an element and to fill it comes to the same as to add it when it is complete. -/
theorem exists_complete {t : Tag} {es : List Edit} (h : (g.openTag t).edits? es = some g') :
    ∃ inside after inner, es = inside ++ after ∧ build? inside = some inner ∧
      (∀ e fs, after = e :: fs → ∃ name, e = .closeTag name ∧ inner.closeTag? name = none) ∧
      ∃ rest g'', (g.push (.element t inner.finish)).edits? rest = some g'' ∧
        g''.finish = g'.finish := by
  obtain ⟨inside, after, inner, rfl, hinside, hafter⟩ := exists_edits? {} es
  refine ⟨inside, after, inner, rfl, hinside, hafter, ?_⟩
  have hwithin : (g.openTag t).edits? inside = some (inner.within (⟨t, g.nodes⟩ :: g.path)) :=
    edits?_within hinside _
  rw [edits?_append, hwithin, Option.bind_some] at h
  rcases after with _ | ⟨e, fs⟩
  · cases h
    exact ⟨[], _, rfl, (finish_within inner ⟨t, g.nodes⟩ g.path).symm⟩
  · obtain ⟨name, rfl, hnone⟩ := hafter e fs rfl
    rw [edits?_cons, edit?, closeTag?_within, hnone, Option.map_none, Option.none_or, closeIn,
      closeOne, List.reverse_reverse] at h
    -- The end tag closes the element itself, or it closes one around and the element with it.
    split at h
    · exact ⟨fs, g', h, rfl⟩
    · exact ⟨.closeTag name :: fs, g', (edits?_cons ..).trans h, rfl⟩

end Growth

/-! ## Open elements -/

section StillOpen

variable {es : List Edit} {g : Growth}

/-- What edits leave open is open inside what was open before, and it is what is open in the
document that they make. -/
theorem exists_stillOpen_append (before : List Edit) (h : build? es = some g) :
    ∃ inner, stillOpen (before ++ es) = inner ++ stillOpen before ∧
      inner.map (·.2) = g.path.map (·.tag) := by
  induction es using List.reverseRecOn generalizing g with
  | nil =>
    cases h
    exact ⟨[], by rw [List.append_nil]; rfl, rfl⟩
  | append_singleton es e ih =>
    obtain ⟨g₁, hg₁, h⟩ := build?_append_eq_some_iff.1 h
    obtain ⟨_, he, ⟨⟩⟩ := Growth.edits?_cons_eq_some_iff.1 h
    obtain ⟨inner, hopen, hinner⟩ := ih hg₁
    rw [← List.append_assoc]
    cases e with
    | openTag t =>
      cases he
      refine ⟨((before ++ es).length, t) :: inner, ?_, congrArg (t :: ·) hinner⟩
      rw [stillOpen_openTag, hopen]
      rfl
    | push n hn =>
      cases he
      exact ⟨inner, (stillOpen_push ..).trans hopen, hinner⟩
    | pushText s =>
      cases he
      exact ⟨inner, (stillOpen_pushText ..).trans hopen, by rwa [Growth.path_pushText]⟩
    | closeTag name =>
      -- The edits make a document, so the tag closes an element that they opened themselves.
      obtain ⟨closed, d, hpath, hclosed, hd, -⟩ := Growth.closeIn_eq_some he
      rw [hpath, List.map_append, List.map_cons, List.map_eq_append_iff] at hinner
      obtain ⟨closed', left, rfl, hclosed', hleft⟩ := hinner
      obtain ⟨p, left, rfl, hp, hleft⟩ := List.map_eq_cons_iff.1 hleft
      refine ⟨left, ?_, hleft⟩
      have hnames : ∀ q ∈ closed', q.2.is name = false := by
        rw [← List.forall_mem_map (P := fun t : Tag => t.is name = false), hclosed']
        exact List.forall_mem_map.2 hclosed
      rw [List.append_assoc] at hopen
      rw [stillOpen_closeTag_append hopen hnames, List.cons_append, List.dropWhile_cons, hp, hd]
      rfl

/-- The same elements are open in the document. -/
theorem path_of_build? (h : build? es = some g) :
    g.path.map (·.tag) = (stillOpen es).map (·.2) := by
  obtain ⟨inner, hopen, hinner⟩ := exists_stillOpen_append [] h
  rw [List.nil_append] at hopen
  rw [hopen, List.map_append, hinner]
  exact (List.append_nil _).symm

/-- An end tag closes nothing exactly when no open element has the name. -/
theorem closeTag?_eq_none_iff {name : String} {l : List (Nat × Tag)}
    (h : l.map (·.2) = g.path.map (·.tag)) :
    g.closeTag? name = none ↔ ∀ p ∈ l, p.2.is name = false := by
  have htags : (∀ e ∈ g.path, e.tag.is name = false) ↔
      ∀ t ∈ g.path.map (·.tag), t.is name = false :=
    (List.forall_mem_map (P := fun t : Tag => t.is name = false)).symm
  rw [Growth.closeTag?, Growth.closeIn_eq_none_iff, htags, ← h, List.forall_mem_map]

/-- The element that is opened behind `before` is open as long as what follows makes a document of
its own, and the end tag that closes nothing there ends it. -/
theorem spans_of_build? {before after : List Edit} (t : Tag) (h : build? es = some g)
    (hafter : ∀ e fs, after = e :: fs → ∃ name, e = .closeTag name ∧ g.closeTag? name = none) :
    Spans before t es after := by
  have hbefore : ∀ es, before ++ Edit.openTag t :: es = before ++ [.openTag t] ++ es := fun es => by
    rw [List.append_assoc, List.singleton_append]
  constructor
  · rintro es ⟨fs, rfl⟩
    obtain ⟨g₁, hg₁, -⟩ := build?_append_eq_some_iff.1 h
    obtain ⟨inner, hopen, -⟩ := exists_stillOpen_append (before ++ [.openTag t]) hg₁
    rw [hbefore, hopen, stillOpen_openTag]
    exact List.mem_append_right _ List.mem_cons_self
  · intro e fs hcons
    obtain ⟨name, rfl, hnone⟩ := hafter e fs hcons
    refine ⟨⟨name, rfl⟩, ?_⟩
    obtain ⟨inner, hopen, hinner⟩ := exists_stillOpen_append (before ++ [.openTag t]) h
    have hnames := (closeTag?_eq_none_iff hinner).1 hnone
    have hfresh : (before.length, t) ∉ stillOpen before := fun h =>
      Nat.lt_irrefl _ ((stillOpen_descends before).2 _ h)
    rw [hbefore, ← List.append_assoc, stillOpen_closeTag_append hopen hnames, stillOpen_openTag,
      List.dropWhile_cons]
    split
    · exact fun h => hfresh ((List.dropWhile_sublist _).mem (List.mem_of_mem_tail h))
    · exact hfresh

end StillOpen

/-! ## What a document keeps -/

section Keeps

variable {es before after rest : List Edit} {g : Growth}

/-- Edits fail exactly when one of them is an end tag whose name is not open. -/
theorem build?_eq_none_iff :
    build? es = none ↔ ∃ before name after, es = before ++ .closeTag name :: after ∧
      ∀ p ∈ stillOpen before, p.2.is name = false := by
  constructor
  · intro h
    obtain ⟨before, after, g, rfl, hbefore, hafter⟩ := Growth.exists_edits? {} es
    rcases after with _ | ⟨e, after⟩
    · rw [List.append_nil, build?, hbefore] at h
      cases h
    · obtain ⟨name, rfl, hnone⟩ := hafter e after rfl
      have hpath := path_of_build? hbefore
      exact ⟨before, name, after, rfl, (closeTag?_eq_none_iff hpath.symm).1 hnone⟩
  · rintro ⟨before, name, after, rfl, hnames⟩
    refine Option.eq_none_iff_forall_ne_some.2 fun g h => ?_
    obtain ⟨g₁, hg₁, h⟩ := build?_append_eq_some_iff.1 h
    obtain ⟨g₂, hclose, -⟩ := Growth.edits?_cons_eq_some_iff.1 h
    have hnone := (closeTag?_eq_none_iff (path_of_build? hg₁).symm).2 hnames
    cases hnone.symm.trans hclose

theorem outline_of_build? (h : build? es = some g) : outline g.finish = entries es :=
  Growth.outline_edits? (fun _ ht => by cases ht) h

/-- A node that is added stands in the document unchanged. -/
theorem standsBetween_push {n : Node} {hn : n.isText = false}
    (h : build? (before ++ .push n hn :: after) = some g) :
    StandsBetween n g.finish (entries before) (entries after) := by
  have hlist := outline_of_build? h
  rw [entries_append_cons rfl] at hlist
  obtain ⟨g₁, hg₁, h⟩ := build?_append_eq_some_iff.1 h
  obtain ⟨ys, hys⟩ := Growth.exists_standsBetween hn h
  rw [outline_of_build? hg₁] at hys
  exact hys.congr_after hlist

/-- Below an element that is opened stands what is added while it is open. -/
theorem standsBetween_openTag {t : Tag} (h : build? (before ++ .openTag t :: rest) = some g) :
    ∃ inside after children, rest = inside ++ after ∧ Spans before t inside after ∧
      outline children = entries inside ∧
      StandsBetween (.element t children) g.finish (entries before) (entries after) := by
  have hlist := outline_of_build? h
  rw [entries_append_cons rfl] at hlist
  obtain ⟨g₁, hg₁, h⟩ := build?_append_eq_some_iff.1 h
  obtain ⟨inside, after, inner, rfl, hinside, hafter, es, g₂, hes, hfinish⟩ :=
    Growth.exists_complete h
  obtain ⟨ys, hys⟩ := Growth.exists_standsBetween rfl hes
  rw [outline_of_build? hg₁, hfinish] at hys
  have hinner := outline_of_build? hinside
  have happend : entries (inside ++ after) = entries inside ++ entries after :=
    entries_append_of_head fun e he => by
      obtain ⟨fs, rfl⟩ := List.head?_eq_some_iff.1 he
      obtain ⟨name, rfl, -⟩ := hafter e fs rfl
      rfl
  refine ⟨inside, after, inner.finish, rfl, spans_of_build? t hinside hafter, hinner,
    hys.congr_after ?_⟩
  rw [hlist, happend, outline_element, hinner]
  simp only [Edit.nodes, List.append_assoc, List.cons_append, List.nil_append]

/-- The end tag ends the innermost element of the name, in the document as well. -/
theorem exists_ends_of_closeTag? {g' : Growth} {name : String} (h : build? es = some g)
    (hclose : g.closeTag? name = some g') :
    ∃ p, Ends es name p ∧
      g'.path.map (·.tag) = (stillOpen (es ++ [.closeTag name])).map (·.2) := by
  have hbuild : build? (es ++ [.closeTag name]) = some g' :=
    build?_append_eq_some_iff.2 ⟨g, h, Growth.edits?_cons_eq_some_iff.2 ⟨g', hclose, rfl⟩⟩
  have hsome : ¬∀ p ∈ stillOpen es, p.2.is name = false := fun hnames => by
    rw [(closeTag?_eq_none_iff (path_of_build? h).symm).2 hnames] at hclose
    cases hclose
  simp only [Classical.not_forall] at hsome
  obtain ⟨q, hq, hname⟩ := hsome
  obtain ⟨p, hp⟩ := exists_ends hq (eq_true_of_ne_false hname)
  exact ⟨p, hp, path_of_build? hbuild⟩

/-- Edits fail exactly when one of them is an end tag whose name is not open, and otherwise the
document keeps everything that they add, once and in order. -/
theorem build_keeps_edits (es : List Edit) :
    (build? es = none ↔ ∃ before name after, es = before ++ .closeTag name :: after ∧
      ∀ p ∈ stillOpen before, p.2.is name = false) ∧
    ∀ g, build? es = some g → g.Keeps es :=
  ⟨build?_eq_none_iff, fun _ h =>
    { listed := outline_of_build? h
      pushed := fun _ _ _ _ hes => standsBetween_push (hes ▸ h)
      opened := fun _ _ _ hes => standsBetween_openTag (hes ▸ h)
      path := path_of_build? h
      fails := fun _ => closeTag?_eq_none_iff (path_of_build? h).symm
      closes := fun _ _ => exists_ends_of_closeTag? h }⟩

/-- Text in runs and alone, an end tag that closes two elements, and elements left open. -/
def editsSample : List Edit :=
  [.pushText "a", .pushText "", .pushText " b", .openTag ⟨"div", [("k", "v")], false, none⟩,
    .pushText "x", .openTag ⟨"B", [], false, none⟩, .push (.comment "c") rfl,
    .openTag ⟨"i", [], false, none⟩, .pushText "y", .closeTag "b", .pushText "", .pushText "z",
    .push (.element ⟨"script", [], false, none⟩ [.text "s"]) rfl, .closeTag "DIV", .pushText "w",
    .openTag ⟨"p", [], false, none⟩, .pushText "", .openTag ⟨"u", [], false, none⟩]

/-- What the edits of `editsSample` make. -/
def builtSample : Forest :=
  [.text "a b",
    .element ⟨"div", [("k", "v")], false, none⟩
      [.text "x",
        .element ⟨"B", [], false, none⟩
          [.comment "c", .element ⟨"i", [], false, none⟩ [.text "y"]],
        .text "z", .element ⟨"script", [], false, none⟩ [.text "s"]],
    .text "w",
    .element ⟨"p", [], false, none⟩ [.element ⟨"u", [], false, none⟩ []]]

theorem build_keeps_editsSample :
    ∃ g, build? editsSample = some g ∧ g.finish = builtSample ∧ g.Keeps editsSample := by
  have h : (build? editsSample).map Growth.finish = some builtSample := by decide +kernel
  obtain ⟨g, hg, hfinish⟩ := Option.map_eq_some_iff.1 h
  exact ⟨g, hg, hfinish, (build_keeps_edits editsSample).2 g hg⟩

end Keeps

end StaticSite.Html
