import Mathlib.Data.List.Chain
import StaticSite.Proofs.Html.Forest
import StaticSite.Proofs.Html.Reading

/-!
# Where reading cuts the source

A document is read in runs. A run starts at the beginning of the source, behind a `<` that is text,
or behind the end tag of a script or style, and `runs` lists where each run starts and how it ends.
Each run starts further on than the run before it, between two characters of the source, and the
content of a script is cut between two characters (`parse_runs`).

The start of that content is counted without a byte order mark at the start of the run: it lies
right behind the start tag if there is none, and three bytes before that place if there is one. That
is the only place that can lie inside a character, and a document is given up for no other reason
than that and malformed markup.
-/

namespace StaticSite.Html

open StaticSite.Text

/-! ## Places of a text -/

/-- The place, counted in bytes, lies between two characters of the text or at one of its ends. -/
def IsBoundary (s : List Char) (place : Nat) : Prop := ∃ u v, s = u ++ v ∧ byteSize u = place

/-- A byte order mark stands at the place. -/
def MarkAt (s : List Char) (place : Nat) : Prop :=
  ∃ u v, s = u ++ byteOrderMark :: v ∧ byteSize u = place

/-- The place lies right behind the `>` of the start tag. -/
def BehindTag (s : List Char) (tag : Tag) (place : Nat) : Prop :=
  ∃ u content v, s = u ++ ('<' :: content ++ ['>']) ++ v ∧ Tag.ofContent content = tag ∧
    byteSize (u ++ ('<' :: content ++ ['>'])) = place

theorem dropBytes_eq_some_iff {n : Nat} {s v : List Char} :
    dropBytes n s = some v ↔ ∃ u, s = u ++ v ∧ byteSize u = n := by
  constructor
  · intro h
    induction s generalizing n with
    | nil =>
      cases n with
      | zero => exact ⟨[], by simpa [dropBytes] using h, rfl⟩
      | succ n => cases h
    | cons c s ih =>
      cases n with
      | zero => exact ⟨[], by simpa [dropBytes] using h, rfl⟩
      | succ n =>
        rw [dropBytes] at h
        split at h
        · obtain ⟨u, rfl, hu⟩ := ih h
          exact ⟨c :: u, rfl, by rw [byteSize_cons, hu]; omega⟩
        · cases h
  · rintro ⟨u, rfl, rfl⟩
    exact dropBytes_append u v

theorem isBoundary_iff {s : List Char} {place : Nat} :
    IsBoundary s place ↔ ∃ v, dropBytes place s = some v := by
  constructor
  · rintro ⟨u, v, rfl, rfl⟩
    exact ⟨v, dropBytes_append u v⟩
  · rintro ⟨v, h⟩
    obtain ⟨u, hu⟩ := dropBytes_eq_some_iff.1 h
    exact ⟨u, v, hu⟩

theorem markAt_iff {s text : List Char} {place : Nat} (h : dropBytes place s = some text) :
    MarkAt s place ↔ text.head? = some byteOrderMark := by
  constructor
  · rintro ⟨u, v, rfl, rfl⟩
    rw [dropBytes_append] at h
    cases h
    rfl
  · intro hhead
    obtain ⟨v, rfl⟩ := List.head?_eq_some_iff.1 hhead
    obtain ⟨u, hu⟩ := dropBytes_eq_some_iff.1 h
    exact ⟨u, v, hu⟩

/-! ## Runs -/

/-- How a run ends. -/
inductive Stop where
  /-- At the end of the source, or at an error. -/
  | last
  /-- At a `<` that is text. The next run starts behind it. -/
  | less (next : Nat)
  /-- At the start tag of a script or style, which ends at `tagEnd`. The content is taken from
  `start` on, where `cut` says up to which place, and where the next run starts. There is no cut if
  `start` lies inside a character. -/
  | raw (tag : Tag) (tagEnd start : Nat) (cut : Option (Nat × Nat))
deriving DecidableEq

/-- Where the next run starts. -/
def Stop.next? : Stop → Option Nat
  | last => none
  | less next => some next
  | raw _ _ _ cut => cut.map (·.2)

/-- A part of the source that is read from one start of the reader to the next. -/
structure Run where
  /-- Where the run starts. -/
  start : Nat
  /-- How it ends. -/
  stop : Stop
deriving DecidableEq

namespace Reader

variable {source : List Char}

/-- Whether a `<` that is text comes next. -/
def atText (r : Reader source) : Bool :=
  match r.here? with
  | some ('<' :: after) => !(after.head?.map opensMarkup).getD false
  | _ => false

/-- The start tag of a script or style that comes next, and the place behind it. -/
def rawTag? (r : Reader source) : Option (Tag × Reader source) :=
  match hr : r.rest with
  | [] => none
  | c :: s =>
    match hs : scan c s with
    | .error _ => none
    | .ok t =>
      match t.token with
      | .start tag =>
        if !tag.isChildless && isRawText tag.name then
          some (tag, r.advance t.source t.rest (source_append_rest hr hs))
        else none
      | _ => none

/-- The end of the run at the start tag of a script or style, with the reader behind the tag. -/
def rawStop (tag : Tag) (r : Reader source) : Stop :=
  .raw tag (byteSize source - byteSize r.rest) r.position <| r.here?.map fun text =>
    let content := splitContent tag.name.toList text
    let stop := r.position + byteSize content.1
    (stop, stop + byteSize (splitAfter '>' content.2).1)

/-- The end of the run, if it ends with the next step. -/
def stop? (r : Reader source) : Option Stop :=
  if r.atText then some (.less (r.position + 1))
  else r.rawTag?.map fun p => rawStop p.1 p.2

/-- The runs that are left to read, where the first one started at the place `start`. -/
def runs (start : Nat) (r : Reader source) (g : Growth) : List Run :=
  match r.stop?, r.step g with
  | some stop, .ok (g', some ⟨r', _⟩) => ⟨start, stop⟩ :: r'.runs r'.position g'
  | some stop, _ => [⟨start, stop⟩]
  | none, .ok (g', some ⟨r', _⟩) => r'.runs start g'
  | none, _ => [⟨start, .last⟩]
termination_by byteSize source - r.position
decreasing_by all_goals have := r'.fits; omega

/-! ## Steps of a run -/

/-- The bytes that the position leaves out. -/
def lag (r : Reader source) : Nat := if r.lagging then 3 else 0

/-- The reader is in the run that started at the place. -/
structure InRun (r : Reader source) (start : Nat) : Prop where
  /-- The run started between two characters, and the position leaves out a byte order mark if
  there is one. -/
  marked : ∃ text, dropBytes start source = some text ∧
    (r.lagging = true ↔ text.head? = some byteOrderMark)
  /-- The rest stands where the position says, but for the byte order mark. -/
  place : ∃ before, source = before ++ r.rest ∧ byteSize before = r.position + r.lag
  /-- The run goes on. -/
  le : start ≤ r.position

variable {r r' : Reader source} {g : Growth} {start : Nat}

theorem startAt_inRun {text : List Char} (h : start + byteSize text ≤ byteSize source)
    (htext : dropBytes start source = some text) : (startAt start text h).InRun start := by
  obtain ⟨u, hu, hsize⟩ := dropBytes_eq_some_iff.1 htext
  rcases text with _ | ⟨c, s⟩
  · exact ⟨⟨[], htext, by simp [startAt]⟩, ⟨u, hu, hsize⟩, Nat.le_refl _⟩
  rw [startAt]
  split
  · rename_i hc
    subst hc
    refine ⟨⟨_, htext, by simp⟩, ⟨u ++ [byteOrderMark], by simpa using hu, ?_⟩, Nat.le_refl _⟩
    rw [byteSize_append, hsize]
    rfl
  · rename_i hc
    exact ⟨⟨_, htext, by simpa using hc⟩, ⟨u, hu, hsize⟩, Nat.le_refl _⟩

theorem InRun.advance (h : r.InRun start) {lexeme rest : List Char} (hl : lexeme ++ rest = r.rest) :
    (r.advance lexeme rest hl).InRun start := by
  obtain ⟨hmarked, ⟨before, hbefore, hsize⟩, hle⟩ := h
  refine ⟨hmarked, ⟨before ++ lexeme, ?_, ?_⟩, Nat.le_trans hle (Nat.le_add_right _ _)⟩
  · rw [List.append_assoc]
    exact hbefore.trans (congrArg (before ++ ·) hl.symm)
  · rw [byteSize_append, hsize]
    exact Nat.add_right_comm _ _ _

/-- What the reader looks at is what stands at its position. -/
theorem InRun.here?_eq (h : r.InRun start) : r.here? = dropBytes r.position source := by
  obtain ⟨before, hbefore, hsize⟩ := h.place
  rw [here?]
  split
  · rfl
  · rename_i hl
    rw [lag, if_neg hl, Nat.add_zero] at hsize
    exact (dropBytes_eq_some_iff.2 ⟨before, hbefore, hsize⟩).symm

theorem fits_here_lt (r : Reader source) {after : List Char} (h : r.here? = some ('<' :: after)) :
    r.position + 1 + byteSize after ≤ byteSize source := by
  rw [Nat.add_assoc]
  exact r.fits_here h

theorem step_of_atText (h : r.atText = true) (g : Growth) :
    ∃ after hfits hlt, r.here? = some ('<' :: after) ∧
      r.step g = .ok (g.pushText "<", some ⟨startAt (r.position + 1) after hfits, hlt⟩) := by
  unfold atText at h
  split at h
  · rename_i after hhere
    have hfits : r.position + 1 + byteSize after ≤ byteSize source := r.fits_here_lt hhere
    unfold step
    split
    · rename_i after' hh
      obtain rfl : after = after' := by simpa using hhere.symm.trans hh
      rw [if_neg (by simpa using h)]
      exact ⟨after, hfits, by simp, hhere, rfl⟩
    · rename_i hne
      exact (hne after hhere).elim
  · cases h

theorem step_of_not_atText (h : r.atText = false) (g : Growth) :
    r.step g = step.readToken r g := by
  unfold atText at h
  unfold step
  split
  · rename_i after hh
    rw [hh] at h
    rw [if_pos (by simpa using h)]
  · rfl

/-- A token that is no start tag of a script or style is read within the run. -/
theorem take_inRun {t : Token} {hlt : r.position < r'.position} {g : Growth}
    (h : ∀ tag, t = .start tag → (!tag.isChildless && isRawText tag.name) = false) :
    (∃ g', r.take g t r' hlt = .ok (g', some ⟨r', hlt⟩)) ∨
      ∃ name, r.take g t r' hlt = .error (.unmatchedEnd name r'.position) := by
  unfold take
  split
  · exact .inl ⟨_, rfl⟩
  · exact .inl ⟨_, rfl⟩
  · split
    · exact .inl ⟨_, rfl⟩
    · split
      · exact .inr ⟨_, rfl⟩
      · exact .inl ⟨_, rfl⟩
  · rename_i tag
    have htag := h tag rfl
    split
    · exact .inl ⟨_, rfl⟩
    · rename_i hchildless
      split
      · rename_i hraw
        rw [hraw, Bool.and_true, Bool.not_eq_false'] at htag
        exact absurd htag hchildless
      · exact .inl ⟨_, rfl⟩

theorem readToken_of_fault {c : Char} {s : List Char} (hr : r.rest = c :: s) {f : Fault}
    (hs : scan c s = .error f) :
    step.readToken r g = .error (.malformed (r.position + f.offset) f.what) := by
  unfold step.readToken
  split
  · rename_i hnil
    cases hr.symm.trans hnil
  · rename_i hcons
    cases hr.symm.trans hcons
    split
    · rename_i he
      cases hs.symm.trans he
      rfl
    · rename_i ht
      cases hs.symm.trans ht

theorem rawTag?_of_scan {c : Char} {s : List Char} (hr : r.rest = c :: s) {t : Scan}
    (hs : scan c s = .ok t) {tag : Tag} (htoken : t.token = .start tag)
    (hraw : (!tag.isChildless && isRawText tag.name) = true) :
    r.rawTag? = some (tag, r.advance t.source t.rest (source_append_rest hr hs)) := by
  unfold rawTag?
  split
  · rename_i hnil
    cases hr.symm.trans hnil
  · rename_i hcons
    cases hr.symm.trans hcons
    split
    · rename_i he
      cases hs.symm.trans he
    · rename_i ht
      cases hs.symm.trans ht
      rw [htoken]
      exact if_pos hraw

/-- What comes next where a script or style starts. -/
theorem exists_scan_of_rawTag? {tag : Tag} (h : r.rawTag? = some (tag, r')) :
    ∃ c s t, ∃ (hr : r.rest = c :: s) (hs : scan c s = .ok t), t.token = .start tag ∧
      tag.isChildless = false ∧ isRawText tag.name = true ∧
      r' = r.advance t.source t.rest (source_append_rest hr hs) := by
  unfold rawTag? at h
  split at h
  · cases h
  rename_i c s hr
  split at h
  · cases h
  rename_i t hs
  split at h
  · rename_i htoken
    split at h
    · rename_i hraw
      cases h
      obtain ⟨hchildless, hraw⟩ := Bool.and_eq_true_iff.1 hraw
      exact ⟨c, s, t, hr, hs, htoken, by simpa using hchildless, hraw, rfl⟩
    · cases h
  · cases h

/-- If no script or style starts, the next token is read within the run. -/
theorem readToken_of_rawTag?_eq_none (h : r.rawTag? = none) (hin : r.InRun start) (g : Growth) :
    (∃ f, step.readToken r g = .error f ∧ ∀ p, f ≠ .insideCharacter p) ∨
      step.readToken r g = .ok (g, none) ∨
      ∃ g' r' hlt, step.readToken r g = .ok (g', some ⟨r', hlt⟩) ∧ r'.InRun start := by
  rcases hr : r.rest with _ | ⟨c, s⟩
  · exact .inr (.inl (readToken_of_nil hr))
  rcases hs : scan c s with f | t
  · exact .inl ⟨_, readToken_of_fault hr hs, fun p hp => by cases hp⟩
  have hraw : ∀ tag, t.token = .start tag →
      (!tag.isChildless && isRawText tag.name) = false := by
    intro tag htoken
    rw [Bool.eq_false_iff]
    intro hraw
    rw [rawTag?_of_scan hr hs htoken hraw] at h
    cases h
  rw [readToken_of_scan hr hs]
  rcases take_inRun (g := g) hraw with ⟨g', htake⟩ | ⟨name, htake⟩
  · exact .inr (.inr ⟨g', _, _, htake, hin.advance _⟩)
  · exact .inl ⟨_, htake, fun p hp => by cases hp⟩

/-! ## The places of a run -/

theorem InRun.markAt_iff (h : r.InRun start) : MarkAt source start ↔ r.lagging = true := by
  obtain ⟨text, htext, hlag⟩ := h.marked
  exact (Html.markAt_iff htext).trans hlag.symm

/-- The reader stands where its position says, but for a byte order mark. -/
theorem InRun.size_sub (h : r.InRun start) :
    byteSize source - byteSize r.rest = r.position + r.lag := by
  obtain ⟨before, hbefore, hsize⟩ := h.place
  have := congrArg byteSize hbefore
  rw [byteSize_append, hsize] at this
  omega

end Reader

/-- A start tag is scanned from its `<` to its `>`. -/
theorem scan_start {c : Char} {s : List Char} {t : Scan} {tag : Tag} (h : scan c s = .ok t)
    (htoken : t.token = .start tag) :
    ∃ content, t.source = '<' :: content ++ ['>'] ∧ Tag.ofContent content = tag := by
  have hsource := scan_eq h
  unfold scan at h
  split at h
  · obtain ⟨m, content, -, hcut, ht⟩ := Markup.scanMarkup_ok h
    rw [htoken] at ht
    refine ⟨content, ?_, (Markup.token_start ht).symm⟩
    have hcut := Markup.cut?_eq_some hcut
    rw [List.reverse_nil, List.nil_append] at hcut
    rw [hcut] at hsource
    refine List.append_cancel_right (hsource.trans ?_)
    simp
  · cases h
    cases htoken
  · cases h
    cases htoken

/-- The places where a script or style is cut out of a run. -/
structure RawSound (s : List Char) (start : Nat) (tag : Tag) (tagEnd content : Nat)
    (cut : Option (Nat × Nat)) : Prop where
  isRawText : isRawText tag.name = true
  /-- The start tag ends at `tagEnd`. -/
  behind : BehindTag s tag tagEnd
  /-- The content is looked for in the source and further on than the start of the run. -/
  le : start < content ∧ content ≤ byteSize s
  /-- The content starts behind the tag, in a run without byte order mark. -/
  exact : ¬MarkAt s start → content = tagEnd
  /-- The content starts three bytes before the end of the tag behind a byte order mark. -/
  early : MarkAt s start → content + 3 = tagEnd
  /-- The content is not cut if it starts inside a character. -/
  inside : cut = none ↔ ¬IsBoundary s content
  /-- The content is cut between characters, and so is what follows. -/
  cuts : ∀ stop next, cut = some (stop, next) →
    content ≤ stop ∧ stop ≤ next ∧ IsBoundary s stop ∧ IsBoundary s next

/-- The places of a run. -/
structure Run.Sound (s : List Char) (run : Run) : Prop where
  /-- The run starts between two characters. -/
  start : IsBoundary s run.start
  /-- A script or style at its end is cut out of the run. -/
  raw : ∀ tag tagEnd content cut, run.stop = .raw tag tagEnd content cut →
    RawSound s run.start tag tagEnd content cut

theorem IsBoundary.le {s : List Char} {place : Nat} (h : IsBoundary s place) :
    place ≤ byteSize s := by
  obtain ⟨u, v, rfl, rfl⟩ := h
  rw [byteSize_append]
  exact Nat.le_add_right _ _

theorem dropBytes_add {n : Nat} {s u v : List Char} (h : dropBytes n s = some (u ++ v)) :
    dropBytes (n + byteSize u) s = some v := by
  obtain ⟨w, rfl, rfl⟩ := dropBytes_eq_some_iff.1 h
  rw [← byteSize_append, ← List.append_assoc]
  exact dropBytes_append _ _

/-- The end tag of a script stands behind its content, and the rest behind the end tag. -/
theorem dropBytes_splitContent {n : Nat} {s text : List Char} (h : dropBytes n s = some text)
    (name : List Char) :
    dropBytes (n + byteSize (splitContent name text).1) s = some (splitContent name text).2 ∧
      dropBytes (n + byteSize (splitContent name text).1 +
          byteSize (splitAfter '>' (splitContent name text).2).1) s =
        some (splitAfter '>' (splitContent name text).2).2 := by
  have hstop : dropBytes (n + byteSize (splitContent name text).1) s =
      some (splitContent name text).2 := dropBytes_add (by rwa [splitContent_append])
  exact ⟨hstop, dropBytes_add (by rwa [splitAfter_append])⟩

namespace Reader

variable {source : List Char} {r r' : Reader source} {g : Growth} {start : Nat} {tag : Tag}

/-- The run goes on behind the start tag of a script or style, up to its content. -/
theorem InRun.of_rawTag? (h : r.rawTag? = some (tag, r')) (hin : r.InRun start) :
    r'.InRun start ∧ r.position < r'.position ∧ isRawText tag.name = true ∧
      BehindTag source tag (byteSize source - byteSize r'.rest) := by
  obtain ⟨c, s, t, hr, hs, htoken, -, hraw, rfl⟩ := exists_scan_of_rawTag? h
  obtain ⟨content, hlexeme, htag⟩ := scan_start hs htoken
  have hin' : (r.advance t.source t.rest (source_append_rest hr hs)).InRun start := hin.advance _
  refine ⟨hin', Nat.lt_add_of_pos_right (byteSize_pos (scan_source_ne_nil hs)), hraw, ?_⟩
  obtain ⟨before, hbefore, hsize⟩ := hin.place
  have hsplit : source = (before ++ t.source) ++ t.rest := by
    rw [List.append_assoc, scan_eq hs, ← hr]
    exact hbefore
  have hsum := congrArg byteSize hsplit
  rw [byteSize_append] at hsum
  rw [hlexeme] at hsplit hsum
  exact ⟨before, content, t.rest, hsplit, htag, Nat.eq_sub_of_add_eq hsum.symm⟩

theorem rawSound (h : r.rawTag? = some (tag, r')) (hin : r.InRun start) :
    ∃ tagEnd content cut, rawStop tag r' = .raw tag tagEnd content cut ∧
      RawSound source start tag tagEnd content cut := by
  obtain ⟨hin', hlt, hraw, hbehind⟩ := hin.of_rawTag? h
  have hsize := hin'.size_sub
  refine ⟨_, _, _, rfl, hraw, hbehind, ⟨Nat.lt_of_le_of_lt hin.le hlt, ?_⟩, fun hm => ?_,
    fun hm => ?_, ?_, fun stop next hcut => ?_⟩
  · have := r'.fits
    omega
  · rw [hin'.markAt_iff] at hm
    rw [hsize, lag, if_neg hm]
    rfl
  · rw [hin'.markAt_iff] at hm
    rw [hsize, lag, if_pos hm]
  · rw [Option.map_eq_none_iff, hin'.here?_eq, isBoundary_iff, ← Option.isSome_iff_exists,
      Option.not_isSome_iff_eq_none]
  · obtain ⟨text, htext, hpair⟩ := Option.map_eq_some_iff.1 hcut
    obtain ⟨rfl, rfl⟩ := Prod.mk.inj hpair
    obtain ⟨hstop, hnext⟩ :=
      dropBytes_splitContent (hin'.here?_eq.symm.trans htext) tag.name.toList
    exact ⟨Nat.le_add_right _ _, Nat.le_add_right _ _, isBoundary_iff.2 ⟨_, hstop⟩,
      isBoundary_iff.2 ⟨_, hnext⟩⟩

/-- Behind the content of a script or style a new run starts, unless the content starts inside a
character. -/
theorem take_rawStop (h : r.rawTag? = some (tag, r')) (hin : r.InRun start) (g : Growth) :
    (∃ g' r'' hlt, step.readToken r g = .ok (g', some ⟨r'', hlt⟩) ∧
        (rawStop tag r').next? = some r''.position ∧ r''.InRun r''.position) ∨
      ∃ tagEnd content, rawStop tag r' = .raw tag tagEnd content none ∧
        step.readToken r g = .error (.insideCharacter content) := by
  obtain ⟨hin', -⟩ := hin.of_rawTag? h
  obtain ⟨c, s, t, hr, hs, htoken, hchildless, hraw, rfl⟩ := exists_scan_of_rawTag? h
  rw [readToken_of_scan hr hs, htoken]
  rcases hhere : (r.advance t.source t.rest (source_append_rest hr hs)).here? with _ | text
  · exact .inr ⟨_, _, by rw [rawStop, hhere]; rfl, take_of_here?_eq_none hchildless hraw hhere⟩
  · refine .inl ⟨_, _, _, take_of_here? hchildless hraw hhere, ?_, ?_⟩
    · rw [rawStop, hhere]
      simp [readRaw, Stop.next?]
    · obtain ⟨-, hnext⟩ :=
        dropBytes_splitContent (hin'.here?_eq.symm.trans hhere) tag.name.toList
      rw [readRaw]
      dsimp only
      rw [startAt_position]
      exact startAt_inRun _ hnext

/-- A step that ends no run stays within the run. -/
theorem step_of_stop?_eq_none (h : r.stop? = none) (hin : r.InRun start) (g : Growth) :
    (∃ f, r.step g = .error f ∧ ∀ p, f ≠ .insideCharacter p) ∨ r.step g = .ok (g, none) ∨
      ∃ g' r' hlt, r.step g = .ok (g', some ⟨r', hlt⟩) ∧ r'.InRun start := by
  rw [stop?] at h
  split at h
  · cases h
  · rename_i htext
    rw [step_of_not_atText (Bool.eq_false_iff.2 htext)]
    exact readToken_of_rawTag?_eq_none (Option.map_eq_none_iff.1 h) hin g

/-- Behind a step that ends the run a new run starts, unless the content of a script would start
inside a character. -/
theorem step_of_stop? {stop : Stop} (h : r.stop? = some stop) (hin : r.InRun start) (g : Growth) :
    (∃ g' r' hlt, r.step g = .ok (g', some ⟨r', hlt⟩) ∧ stop.next? = some r'.position ∧
        r'.InRun r'.position) ∨
      ∃ tag tagEnd content, stop = .raw tag tagEnd content none ∧
        r.step g = .error (.insideCharacter content) := by
  rw [stop?] at h
  split at h
  · rename_i htext
    cases h
    obtain ⟨after, hfits, _, hhere, hstep⟩ := step_of_atText htext g
    refine .inl ⟨_, _, _, hstep, by rw [startAt_position]; rfl, ?_⟩
    rw [startAt_position]
    refine startAt_inRun hfits ?_
    rw [hin.here?_eq] at hhere
    exact dropBytes_add (u := ['<']) hhere
  · rename_i htext
    rw [step_of_not_atText (Bool.eq_false_iff.2 htext)]
    obtain ⟨⟨tag, r'⟩, hraw, rfl⟩ := Option.map_eq_some_iff.1 h
    rcases take_rawStop hraw hin g with hok | ⟨tagEnd, content, hstop, herror⟩
    · exact .inl hok
    · exact .inr ⟨tag, tagEnd, content, hstop, herror⟩

theorem sound_of_stop? {stop : Stop} (h : r.stop? = some stop) (hin : r.InRun start) :
    Run.Sound source ⟨start, stop⟩ := by
  obtain ⟨text, htext, -⟩ := hin.marked
  refine ⟨isBoundary_iff.2 ⟨text, htext⟩, fun tag tagEnd content cut heq => ?_⟩
  rw [stop?] at h
  split at h
  · cases h
    cases heq
  · obtain ⟨⟨tag', r'⟩, hraw, rfl⟩ := Option.map_eq_some_iff.1 h
    obtain ⟨tagEnd', content', cut', hstop, hsound⟩ := rawSound hraw hin
    cases hstop.symm.trans heq
    exact hsound

end Reader

/-- The runs in which a document is read. -/
def runs (source : String) : List Run := (Reader.start source.toList).runs 0 {}

/-- What the list of runs from a place on says, where reading has the given result. -/
structure RunsSound (s : List Char) (start : Nat) (rs : List Run)
    (result : Except ParseError Forest) : Prop where
  /-- The first run starts at the place. -/
  head : rs.head?.map Run.start = some start
  /-- Each run starts where the one before it says, which is further on. -/
  chain : rs.IsChain fun a b => a.start < b.start ∧ a.stop.next? = some b.start
  /-- The places of each run are as they should be. -/
  sound : ∀ run ∈ rs, run.Sound s
  /-- Reading fails inside a character where the content of a script or style starts in one. -/
  inside : ∀ p, result = .error (.insideCharacter p) ↔
    ∃ run ∈ rs, ∃ tag tagEnd, run.stop = .raw tag tagEnd p none

theorem RunsSound.cons {s : List Char} {start next : Nat} {stop : Stop} {rs : List Run}
    {result : Except ParseError Forest} (h : RunsSound s next rs result)
    (hsound : Run.Sound s ⟨start, stop⟩) (hlt : start < next) (hnext : stop.next? = some next) :
    RunsSound s start (⟨start, stop⟩ :: rs) result where
  head := rfl
  chain := by
    refine List.isChain_cons.2 ⟨fun b hb => ?_, h.chain⟩
    have hhead := h.head
    rw [hb] at hhead
    obtain rfl : b.start = next := by simpa using hhead
    exact ⟨hlt, hnext⟩
  sound := List.forall_mem_cons.2 ⟨hsound, h.sound⟩
  inside := by
    intro p
    rw [h.inside, List.exists_mem_cons_iff]
    refine ⟨.inr, fun hrun => hrun.resolve_left ?_⟩
    rintro ⟨tag, tagEnd, hraw⟩
    dsimp only at hraw
    rw [hraw] at hnext
    cases hnext

theorem RunsSound.singleton {s : List Char} {start : Nat} {stop : Stop}
    {result : Except ParseError Forest} (hsound : Run.Sound s ⟨start, stop⟩)
    (hinside : ∀ p, result = .error (.insideCharacter p) ↔
      ∃ tag tagEnd, stop = .raw tag tagEnd p none) :
    RunsSound s start [⟨start, stop⟩] result where
  head := rfl
  chain := .singleton _
  sound := List.forall_mem_singleton.2 hsound
  inside := by
    intro p
    rw [hinside]
    simp

theorem Reader.runs_sound {source : List Char} {r : Reader source} {g : Growth} {start : Nat}
    (hin : r.InRun start) : RunsSound source start (r.runs start g) (r.read g) := by
  induction start, r, g using Reader.runs.induct with
  | case1 start r g stop g' r' hlt hstep hstop ih =>
    rw [runs, read, hstop, hstep]
    rcases step_of_stop? hstop hin g with ⟨g₁, r₁, hlt₁, hok, hnext, hin'⟩ | ⟨_, _, _, -, herror⟩
    · cases hstep.symm.trans hok
      exact (ih hin').cons (sound_of_stop? hstop hin) (Nat.lt_of_le_of_lt hin.le hlt) hnext
    · cases hstep.symm.trans herror
  | case2 start r g stop hstop hno =>
    rcases step_of_stop? hstop hin g with ⟨g', r', hlt, hok, -⟩ | ⟨tag, tagEnd, p, hraw, herror⟩
    · exact (hno g' r' hlt hok).elim
    · rw [runs, read, hstop, herror]
      refine .singleton (sound_of_stop? hstop hin) fun q => ?_
      rw [hraw]
      simp
  | case3 start r g g' r' hlt hstep hstop ih =>
    rw [runs, read, hstop, hstep]
    rcases step_of_stop?_eq_none hstop hin g with ⟨f, herror, -⟩ | hend | ⟨g₁, r₁, _, hok, hin'⟩
    · cases hstep.symm.trans herror
    · cases hstep.symm.trans hend
    · cases hstep.symm.trans hok
      exact ih hin'
  | case4 start r g hstop hno =>
    have hsound : Run.Sound source ⟨start, .last⟩ := by
      obtain ⟨text, htext, -⟩ := hin.marked
      exact ⟨isBoundary_iff.2 ⟨text, htext⟩, fun _ _ _ _ h => by cases h⟩
    rw [runs, read, hstop]
    rcases step_of_stop?_eq_none hstop hin g with ⟨f, herror, hf⟩ | hend | ⟨g', r', hlt, hok, -⟩
    · rw [herror]
      exact .singleton hsound fun p => by simp [hf p]
    · rw [hend]
      exact .singleton hsound fun p => by simp
    · exact (hno g' r' hlt hok).elim

/-- A script or style ends the run, which started with a byte order mark. -/
def Run.Skewed (s : List Char) (run : Run) : Prop :=
  MarkAt s run.start ∧ ∃ tag tagEnd content cut, run.stop = .raw tag tagEnd content cut

/-- Without a byte order mark at the start of the run, the content of a script or style starts right
behind its start tag, and so between two characters. -/
theorem RawSound.of_not_markAt {s : List Char} {start tagEnd content : Nat} {tag : Tag}
    {cut : Option (Nat × Nat)} (h : RawSound s start tag tagEnd content cut)
    (hmark : ¬MarkAt s start) : content = tagEnd ∧ IsBoundary s content ∧ cut ≠ none := by
  have hexact := h.exact hmark
  obtain ⟨u, inner, v, hs, -, hsize⟩ := h.behind
  have hboundary : IsBoundary s content := ⟨_, v, hs, hsize.trans hexact.symm⟩
  exact ⟨hexact, hboundary, fun hcut => h.inside.1 hcut hboundary⟩

/-- A document is read in runs, of which the first starts at the beginning of the source and each
other one further on than the one before it. Runs start, and scripts and styles are cut, between two
characters. The content of a script or style starts right behind its start tag unless a byte order
mark stands at the start of the run; then it starts three bytes earlier, and reading fails if that
place lies inside a character. If there is no such run, reading never fails for that reason. -/
theorem parse_runs (source : String) :
    RunsSound source.toList 0 (runs source) (parse source) ∧
      ((∀ run ∈ runs source, ¬run.Skewed source.toList) →
        (∀ run ∈ runs source, ∀ tag tagEnd content cut, run.stop = .raw tag tagEnd content cut →
          content = tagEnd ∧ IsBoundary source.toList content) ∧
        ∀ p, parse source ≠ .error (.insideCharacter p)) := by
  have hsound : RunsSound source.toList 0 (runs source) (parse source) :=
    Reader.runs_sound (Reader.startAt_inRun _ (by rw [dropBytes]))
  have hraw : (∀ run ∈ runs source, ¬run.Skewed source.toList) →
      ∀ run ∈ runs source, ∀ tag tagEnd content cut, run.stop = .raw tag tagEnd content cut →
        content = tagEnd ∧ IsBoundary source.toList content ∧ cut ≠ none :=
    fun h run hrun tag tagEnd content cut hstop =>
      ((hsound.sound run hrun).raw tag tagEnd content cut hstop).of_not_markAt
        fun hmark => h run hrun ⟨hmark, tag, tagEnd, content, cut, hstop⟩
  refine ⟨hsound, fun h => ⟨fun run hrun tag tagEnd content cut hstop => ?_, fun p hp => ?_⟩⟩
  · obtain ⟨hexact, hboundary, -⟩ := hraw h run hrun tag tagEnd content cut hstop
    exact ⟨hexact, hboundary⟩
  · obtain ⟨run, hrun, tag, tagEnd, hstop⟩ := (hsound.inside p).1 hp
    exact (hraw h run hrun tag tagEnd p none hstop).2.2 rfl

/-- Behind a byte order mark, the end of a start tag is read again as content, and a character
across the place where that would start makes reading fail. -/
theorem runs_of_byteOrderMark :
    runs "\uFEFF<script>x</script>" =
        [⟨0, .raw ⟨"script", [], false, none⟩ 11 8 (some (12, 21))⟩, ⟨21, .last⟩] ∧
      parse "\uFEFF<script>x</script>" =
        .ok [.element ⟨"script", [], false, none⟩ [.text "pt>x"]] ∧
      parse "\uFEFF<script \u00E9a>x</script>" = .error (.insideCharacter 12) := by
  decide +kernel

end StaticSite.Html
