import StaticSite.Proofs.Html.Scanning

/-!
# Reading on

What a reader makes of the rest of a source depends on that rest and on what was read so far, but
not on the source before it: positions only appear in errors. `Reads s g ns` says that the forest
`ns` is made of `g` and the rest `s`, and there is one rule for each way in which reading goes on.

A reader that has dropped a byte order mark is excepted: it looks at the source three bytes too
early.
-/

namespace StaticSite.Html

open StaticSite.Text

/-! ## Text -/

namespace Growth

theorem pushText_empty (g : Growth) : g.pushText "" = g := rfl

theorem pushText_pushText (g : Growth) (s t : String) :
    (g.pushText s).pushText t = g.pushText (s ++ t) := by
  by_cases hs : s = ""
  · rw [hs, pushText_empty, String.empty_append]
  by_cases ht : t = ""
  · rw [ht, pushText_empty, String.append_empty]
  have hst : s ++ t ≠ "" := fun h => hs (String.append_eq_empty_iff.1 h).1
  have hisEmpty : ∀ {u : String}, u ≠ "" → ¬u.isEmpty = true :=
    fun hu h => hu (String.isEmpty_iff.1 h)
  obtain ⟨nodes, path⟩ := g
  unfold pushText
  rw [if_neg (hisEmpty hs), if_neg (hisEmpty ht), if_neg (hisEmpty hst)]
  rcases nodes with _ | ⟨n, ns⟩
  · rfl
  · cases n with
    | text u => simp only [String.append_assoc]
    | _ => rfl

/-- Text behind anything else is a node of its own. -/
theorem pushText_eq_push {g : Growth} {s : String} (hs : s ≠ "")
    (hg : ∀ t, g.nodes.head? ≠ some (.text t)) : g.pushText s = g.push (.text s) := by
  obtain ⟨nodes, path⟩ := g
  unfold pushText push
  rw [if_neg fun h => hs (String.isEmpty_iff.1 h)]
  split
  · rename_i t _ hnodes
    exact absurd (congrArg List.head? hnodes) (hg t)
  · rfl

end Growth

/-- Text that ends here ends where it is written: the source ends, or a `<` follows. -/
def Stops (s : List Char) : Prop := ∀ c ∈ s.head?, c = '<'

theorem span_of_stops {p : Char → Bool} (hp : p '<' = false) {rest : List Char} (h : Stops rest)
    (s : List Char) :
    (s ++ rest).takeWhile p = s.takeWhile p ∧ (s ++ rest).dropWhile p = s.dropWhile p ++ rest := by
  induction s with
  | nil =>
    rcases rest with _ | ⟨c, t⟩
    · exact ⟨rfl, rfl⟩
    · obtain rfl := h c rfl
      rw [List.nil_append, List.takeWhile_cons_of_neg (by simp [hp]),
        List.dropWhile_cons_of_neg (by simp [hp])]
      exact ⟨rfl, rfl⟩
  | cons c s ih =>
    rw [List.cons_append]
    rcases hc : p c with _ | _
    · rw [List.takeWhile_cons_of_neg (by simp [hc]), List.dropWhile_cons_of_neg (by simp [hc]),
        List.takeWhile_cons_of_neg (by simp [hc]), List.dropWhile_cons_of_neg (by simp [hc])]
      exact ⟨rfl, rfl⟩
    · rw [List.takeWhile_cons_of_pos hc, List.dropWhile_cons_of_pos hc,
        List.takeWhile_cons_of_pos hc, List.dropWhile_cons_of_pos hc, ih.1, ih.2]
      exact ⟨rfl, rfl⟩

theorem splitReference_of_stops {rest : List Char} (h : Stops rest) (s : List Char) :
    splitReference (s ++ rest) = ((splitReference s).1, (splitReference s).2 ++ rest) := by
  induction s with
  | nil =>
    rcases rest with _ | ⟨c, t⟩
    · rfl
    · obtain rfl := h c rfl
      rfl
  | cons c s ih =>
    rw [List.cons_append, splitReference, splitReference]
    split
    · rfl
    · split
      · rfl
      · rw [ih]

/-- Text that does not start with `<` is scanned as text, piece by piece. -/
theorem scan_text {c : Char} (hc : c ≠ '<') (s : List Char) {rest : List Char} (h : Stops rest) :
    ∃ u v, c :: s = u ++ v ∧ u ≠ [] ∧
      scan c (s ++ rest) = .ok ⟨.text u, u, v ++ rest⟩ := by
  by_cases hamp : c = '&'
  · subst hamp
    refine ⟨'&' :: (splitReference s).1, (splitReference s).2, ?_, List.cons_ne_nil _ _, ?_⟩
    · rw [List.cons_append, splitReference_append]
    · rw [scan, splitReference_of_stops h]
  · obtain ⟨htake, hdrop⟩ := span_of_stops (p := continuesText) rfl h s
    refine ⟨c :: s.takeWhile continuesText, s.dropWhile continuesText, ?_, List.cons_ne_nil _ _, ?_⟩
    · rw [List.cons_append, List.takeWhile_append_dropWhile]
    · unfold scan
      split
      · exact absurd rfl hc
      · exact absurd rfl hamp
      · rw [htake, hdrop]

/-- Whether a `<` before the character is text, and a run can start with the character. -/
def leavesText (c : Char) : Bool := !opensMarkup c && c != byteOrderMark

/-- Whether every `<` in a text is text when the text is written. -/
def runsOn : List Char → Bool
  | [] => true
  | c :: s => (c != '<' || s.head?.all leavesText) && runsOn s

theorem runsOn_of_append {s t : List Char} (h : runsOn (s ++ t) = true) : runsOn t = true := by
  induction s with
  | nil => exact h
  | cons c s ih =>
    rw [List.cons_append, runsOn, Bool.and_eq_true] at h
    exact ih h.2

/-! ## Readers -/

/-- Whoever has read `g` and still has to read `s` makes `ns` of it. -/
def Reads (s : List Char) (g : Growth) (ns : Forest) : Prop :=
  ∀ (source : List Char) (r : Reader source), r.lagging = false → r.rest = s → r.read g = .ok ns

namespace Reader

variable {source : List Char} {r : Reader source} {g : Growth}

theorem here?_exact (hl : r.lagging = false) : r.here? = some r.rest := by
  rw [here?, if_neg (by simp [hl])]

theorem startAt_exact {position : Nat} {text : List Char}
    (h : position + byteSize text ≤ byteSize source) (ht : text.head? ≠ some byteOrderMark) :
    (startAt position text h).lagging = false ∧ (startAt position text h).rest = text := by
  rcases text with _ | ⟨c, s⟩
  · exact ⟨rfl, rfl⟩
  · rw [startAt, if_neg fun hc => ht (congrArg some hc)]
    exact ⟨rfl, rfl⟩

theorem readToken_of_nil (hr : r.rest = []) : step.readToken r g = .ok (g, none) := by
  unfold step.readToken
  split
  · rfl
  · rename_i hcons
    cases hr.symm.trans hcons

theorem source_append_rest {c : Char} {s : List Char} (hr : r.rest = c :: s) {t : Scan}
    (hs : scan c s = .ok t) : t.source ++ t.rest = r.rest :=
  (scan_eq hs).trans hr.symm

/-- The token that was scanned is taken, and reading goes on behind it. -/
theorem readToken_of_scan {c : Char} {s : List Char} (hr : r.rest = c :: s) {t : Scan}
    (hs : scan c s = .ok t) :
    step.readToken r g =
      r.take g t.token (r.advance t.source t.rest (source_append_rest hr hs))
        (Nat.lt_add_of_pos_right (byteSize_pos (scan_source_ne_nil hs))) := by
  unfold step.readToken
  split
  · rename_i hnil
    cases hr.symm.trans hnil
  · rename_i hcons
    cases hr.symm.trans hcons
    split
    · rename_i he
      cases hs.symm.trans he
    · rename_i ht
      cases hs.symm.trans ht
      rfl

/-- A token that opens at the rest is read, and reading goes on behind it. -/
theorem step_scan (hl : r.lagging = false) {c : Char} {s : List Char} (hr : r.rest = c :: s)
    (hopen : c = '<' → (s.head?.map opensMarkup).getD false = true) {t : Scan}
    (hs : scan c s = .ok t) :
    ∃ (r' : Reader source) (h : r.position < r'.position),
      r.step g = r.take g t.token r' h ∧ r'.lagging = false ∧ r'.rest = t.rest := by
  have htoken : r.step g = step.readToken r g := by
    unfold step
    split
    · rename_i after hh
      rw [here?_exact hl, hr] at hh
      cases hh
      rw [if_pos (hopen rfl)]
    · rfl
  exact ⟨_, _, htoken.trans (readToken_of_scan hr hs), hl, rfl⟩

section Take

variable {r' : Reader source} {l : r.position < r'.position} {t : Tag}

theorem take_childless (h : t.isChildless = true) :
    r.take g (.start t) r' l = .ok (g.push (.element t []), some ⟨r', l⟩) := by
  unfold take
  exact if_pos h

theorem take_open (h : t.isChildless = false) (hraw : isRawText t.name = false) :
    r.take g (.start t) r' l = .ok (g.openTag t, some ⟨r', l⟩) := by
  have hchildren : ¬(t.selfClosing || isVoid t.name) = true := Bool.eq_false_iff.1 h
  unfold take
  dsimp only
  rw [if_neg hchildren, if_neg (by simp [hraw])]

theorem take_of_here?_eq_none (h : t.isChildless = false) (hraw : isRawText t.name = true)
    (hhere : r'.here? = none) :
    r.take g (.start t) r' l = .error (.insideCharacter r'.position) := by
  have hchildren : ¬(t.selfClosing || isVoid t.name) = true := Bool.eq_false_iff.1 h
  unfold take
  dsimp only
  rw [if_neg hchildren, if_pos hraw]
  split
  · rfl
  · rename_i hsome
    cases hhere.symm.trans hsome

/-- The content of a script is read as it stands in front of the reader. -/
theorem take_of_here? (h : t.isChildless = false) (hraw : isRawText t.name = true)
    {text : List Char} (hhere : r'.here? = some text) :
    r.take g (.start t) r' l =
      .ok ((r'.readRaw t text g (r'.fits_here hhere)).1,
        some ⟨(r'.readRaw t text g (r'.fits_here hhere)).2.1,
          Nat.lt_of_lt_of_le l (r'.readRaw t text g (r'.fits_here hhere)).2.2⟩) := by
  have hchildren : ¬(t.selfClosing || isVoid t.name) = true := Bool.eq_false_iff.1 h
  unfold take
  dsimp only
  rw [if_neg hchildren, if_pos hraw]
  split
  · rename_i hnone
    cases hhere.symm.trans hnone
  · rename_i hsome
    cases hhere.symm.trans hsome
    rfl

/-- The content of a script is read as it stands, and a run starts behind the end tag. -/
theorem take_raw (h : t.isChildless = false) (hraw : isRawText t.name = true)
    (hl : r'.lagging = false) {content rest : List Char}
    (hcontent : (splitContent t.name.toList r'.rest).1 = content)
    (hrest : (splitAfter '>' (splitContent t.name.toList r'.rest).2).2 = rest)
    (hstart : rest.head? ≠ some byteOrderMark) :
    ∃ (r'' : Reader source) (hlt' : r.position < r''.position),
      r.take g (.start t) r' l =
        .ok (g.push (.element t (rawText content)), some ⟨r'', hlt'⟩) ∧
      r''.lagging = false ∧ r''.rest = rest := by
  subst hcontent hrest
  exact ⟨_, _, take_of_here? h hraw (here?_exact hl), startAt_exact _ hstart⟩

theorem take_close {name : String} (h : isVoid name = false) {g' : Growth}
    (hclose : g.closeTag? name = some g') :
    r.take g (.close name) r' l = .ok (g', some ⟨r', l⟩) := by
  unfold take
  dsimp only
  rw [if_neg (by simp [h]), hclose]

end Take

end Reader

namespace Reads

open Reader

variable {s rest : List Char} {g g' : Growth} {ns : Forest}

theorem nil (g : Growth) : Reads [] g g.finish := by
  intro source r hl hr
  have hstep : r.step g = .ok (g, none) := by
    unfold step
    split
    · rename_i hh
      rw [here?_exact hl, hr] at hh
      cases hh
    · exact readToken_of_nil hr
  rw [Reader.read, hstep]

/-- Reading goes on after a step. -/
theorem of_step (h : Reads rest g' ns)
    (hstep : ∀ (source : List Char) (r : Reader source), r.lagging = false → r.rest = s →
      ∃ (r' : Reader source) (hlt : r.position < r'.position),
        r.step g = .ok (g', some ⟨r', hlt⟩) ∧ r'.lagging = false ∧ r'.rest = rest) :
    Reads s g ns := by
  intro source r hl hr
  obtain ⟨r', hlt, hok, hl', hr'⟩ := hstep source r hl hr
  rw [Reader.read, hok]
  exact h source r' hl' hr'

/-- A `<` that opens nothing is text. -/
theorem lt (h : Reads s (g.pushText "<") ns) (hs : s.head?.all leavesText = true) :
    Reads ('<' :: s) g ns := by
  have hopen : (s.head?.map opensMarkup).getD false = false ∧ s.head? ≠ some byteOrderMark := by
    rcases s with _ | ⟨c, s⟩
    · exact ⟨rfl, by simp⟩
    · simpa [leavesText] using hs
  refine h.of_step fun source r hl hr => ?_
  unfold step
  split
  · rename_i after hh
    have hafter := hh
    rw [here?_exact hl, hr] at hafter
    cases hafter
    rw [if_neg (by simp [hopen.1])]
    refine ⟨_, ?_, rfl, startAt_exact _ hopen.2⟩
    rw [startAt_position]
    exact Nat.lt_succ_self _
  · rename_i hne
    exact (hne s (by rw [here?_exact hl, hr])).elim

variable {c : Char}

theorem textToken (h : Reads rest (g.pushText (String.ofList s)) ns) (hc : c ≠ '<')
    {t source : List Char} (hs : scan c t = .ok ⟨.text s, source, rest⟩) : Reads (c :: t) g ns := by
  refine h.of_step fun source r hl hr => ?_
  obtain ⟨r', hlt, hstep, hl', hr'⟩ := step_scan hl hr (fun hlt => absurd hlt hc) hs
  exact ⟨r', hlt, hstep, hl', hr'⟩

/-- Text is read up to where it ends, and joins the text before it. -/
theorem text (hs : runsOn s = true) (hrest : Stops rest)
    (h : Reads rest (g.pushText (String.ofList s)) ns) : Reads (s ++ rest) g ns := by
  -- The pieces that text is scanned in are as long as they happen to be.
  induction hn : s.length using Nat.strong_induction_on generalizing s g with
  | _ n ih =>
    subst hn
    rcases s with _ | ⟨c, s⟩
    · exact h
    by_cases hc : c = '<'
    · subst hc
      rw [runsOn, Bool.and_eq_true] at hs
      have hjoin : (g.pushText "<").pushText (String.ofList s) =
          g.pushText (String.ofList ('<' :: s)) := by
        rw [Growth.pushText_pushText, String.ofList_cons]
        rfl
      refine lt (ih s.length (by simp) hs.2 (by rwa [hjoin]) rfl) ?_
      rcases s with _ | ⟨d, s⟩
      · rcases rest with _ | ⟨d, t⟩
        · rfl
        · obtain rfl := hrest d rfl
          rfl
      · simpa using hs.1
    · obtain ⟨u, v, huv, hu, hscan⟩ := scan_text hc s hrest
      have hjoin : (g.pushText (String.ofList u)).pushText (String.ofList v) =
          g.pushText (String.ofList (c :: s)) := by
        rw [Growth.pushText_pushText, ← String.ofList_append, huv]
      have hv : v.length < (c :: s).length := by
        rw [huv, List.length_append]
        have := List.length_pos_iff.2 hu
        omega
      rw [huv] at hs
      exact textToken (ih v.length hv (runsOn_of_append hs) (by rwa [hjoin]) rfl) hc hscan

theorem leaf {n : Node} (h : Reads rest (g.push n) ns) (hn : n.Rescanned) :
    Reads (n.source ++ rest) g ns := by
  obtain ⟨c, s, hsource, hc, hs⟩ := hn
  refine h.of_step fun source r hl hr => ?_
  rw [hsource] at hr
  obtain ⟨r', hlt, hstep, hl', hr'⟩ := step_scan hl hr (fun _ => hc) (hs rest)
  exact ⟨r', hlt, hstep, hl', hr'⟩

/-- The end tag closes the innermost element of its name. -/
theorem endTag {name : String} (hname : ∀ c ∈ name.toList, isSpace c = false)
    (hc : isClosed name.toList = true) (hv : isVoid name = false)
    (hclose : g.closeTag? name = some g') (h : Reads rest g' ns) :
    Reads ('<' :: ('/' :: name.toList ++ '>' :: rest)) g ns := by
  refine h.of_step fun source r hl hr => ?_
  obtain ⟨r', hlt, hstep, hl', hr'⟩ := step_scan hl hr (fun _ => rfl) (scan_endTag hname hc rest)
  exact ⟨r', hlt, hstep.trans (take_close hv hclose), hl', hr'⟩

section Element

variable {t : Tag} (ht : t.Lexical) (hl : t.Legible)

include ht hl

theorem selfClosing (hs : t.selfClosing = true)
    (h : Reads rest (g.push (.element t.requote [])) ns) :
    Reads ('<' :: (t.source ++ ['/'] ++ '>' :: rest)) g ns := by
  refine h.of_step fun source r hlag hr => ?_
  obtain ⟨c, u, hsource, hc⟩ := hl.source
  have hopen : ((t.source ++ ['/'] ++ '>' :: rest).head?.map opensMarkup).getD false = true := by
    simp [hsource, opensMarkup, hc]
  obtain ⟨r', hlt, hstep, hl', hr'⟩ :=
    step_scan hlag hr (fun _ => hopen) (scan_selfClosingTag ht hl hs rest)
  have hchildless : t.requote.isChildless = true := Bool.or_eq_true_iff.2 (.inl hs)
  exact ⟨r', hlt, hstep.trans (take_childless hchildless), hl', hr'⟩

variable (hs : t.selfClosing = false) (hlast : t.source.getLast? ≠ some '/')

include hs hlast

/-- A start tag is read as the tag. -/
theorem step_startTag (g : Growth) {source : List Char} (r : Reader source)
    (hlag : r.lagging = false) (hr : r.rest = '<' :: (t.source ++ '>' :: rest)) :
    ∃ (r' : Reader source) (hlt : r.position < r'.position),
      r.step g = r.take g (.start t.requote) r' hlt ∧ r'.lagging = false ∧ r'.rest = rest := by
  obtain ⟨c, u, hsource, hc⟩ := hl.source
  have hopen : ((t.source ++ '>' :: rest).head?.map opensMarkup).getD false = true := by
    simp [hsource, opensMarkup, hc]
  exact step_scan hlag hr (fun _ => hopen) (scan_startTag ht hl hs hlast rest)

theorem void (hv : isVoid t.name = true) (h : Reads rest (g.push (.element t.requote [])) ns) :
    Reads ('<' :: (t.source ++ '>' :: rest)) g ns := by
  refine h.of_step fun source r hlag hr => ?_
  obtain ⟨r', hlt, hstep, hl', hr'⟩ := step_startTag ht hl hs hlast g r hlag hr
  have hchildless : t.requote.isChildless = true := Bool.or_eq_true_iff.2 (.inr hv)
  exact ⟨r', hlt, hstep.trans (take_childless hchildless), hl', hr'⟩

variable (hv : isVoid t.name = false)

include hv

theorem startTag (hraw : isRawText t.name = false) (h : Reads rest (g.openTag t.requote) ns) :
    Reads ('<' :: (t.source ++ '>' :: rest)) g ns := by
  refine h.of_step fun source r hlag hr => ?_
  obtain ⟨r', hlt, hstep, hl', hr'⟩ := step_startTag ht hl hs hlast g r hlag hr
  have hchildren : t.requote.isChildless = false := Bool.or_eq_false_iff.2 ⟨hs, hv⟩
  exact ⟨r', hlt, hstep.trans (take_open hchildren hraw), hl', hr'⟩

/-- The content of a script is read up to the first end tag of its name. -/
theorem raw (hraw : isRawText t.name = true) {text content ending : List Char}
    (htext : splitContent t.name.toList text = (content, ending))
    (hending : (splitAfter '>' ending).2 = rest) (hrest : rest.head? ≠ some byteOrderMark)
    (h : Reads rest (g.push (.element t.requote (rawText content))) ns) :
    Reads ('<' :: (t.source ++ '>' :: text)) g ns := by
  refine h.of_step fun source r hlag hr => ?_
  obtain ⟨r', hlt, hstep, hl', hr'⟩ := step_startTag ht hl hs hlast g r hlag hr
  have hchildren : t.requote.isChildless = false := Bool.or_eq_false_iff.2 ⟨hs, hv⟩
  have hsplit : splitContent t.requote.name.toList r'.rest = (content, ending) := by
    rw [hr']
    exact htext
  obtain ⟨r'', hlt', htake, hl'', hr''⟩ := take_raw (g := g) (l := hlt) hchildren hraw hl'
    (congrArg Prod.fst hsplit) ((congrArg (fun p => (splitAfter '>' p.2).2) hsplit).trans hending)
    hrest
  exact ⟨r'', hlt', hstep.trans htake, hl'', hr''⟩

end Element

end Reads

theorem parse_of_reads {s : String} {ns : Forest} (hs : s.toList.head? ≠ some byteOrderMark)
    (h : Reads s.toList {} ns) : parse s = .ok ns :=
  h s.toList _ (Reader.startAt_exact _ hs).1 (Reader.startAt_exact _ hs).2

end StaticSite.Html
