import StaticSite.Proofs.Markdown.Tiling

/-!
# What emphasis covers

The pieces of a text are matched to each other, and what stands between two runs that match is put
into a container. The trees that come of it cover what the pieces covered: an open run keeps its
place before what is collected behind it, whether it is matched or is found to be text.
-/

namespace StaticSite.Markdown

variable {src : List Char} {P i j p q m : Nat}

/-! ## Stacks -/

/-- A stack of things that are open, each with what was collected before it, and what was collected
behind the last one. All of it covers the source between two places, and what is open starts behind
the place `P`. Lists are given from the last to the first. -/
inductive StackTiles {α β : Type} (src : List Char) (P : Nat) (tiles : Nat → List α → Nat → Prop)
    (before : β → List α) (span : β → Span) (m : Nat) : List β → List α → Nat → Prop where
  | nil {out : List α} {p : Nat} (hout : tiles m out.reverse p) :
      StackTiles src P tiles before span m [] out p
  | cons {b : β} {bs : List β} {out : List α} {j p : Nat}
      (hbefore : StackTiles src P tiles before span m bs (before b) j)
      (hgap : Gap src j (span b).start) (hlt : (span b).start < (span b).stop)
      (hP : P ≤ (span b).start) (hout : tiles (span b).stop out.reverse p) :
      StackTiles src P tiles before span m (b :: bs) out p

namespace StackTiles

variable {α β : Type} {spanOf : α → Span} {ok : α → Prop} {before : β → List α} {span : β → Span}
  {bs : List β} {out xs : List α}

theorem empty : StackTiles src P (Tiles src spanOf ok) before span m [] [] m :=
  .nil (.nil (.refl m))

/-- What covers the source from where the stack ends is collected behind it. -/
theorem extend (h : StackTiles src P (Tiles src spanOf ok) before span m bs out p)
    (hxs : Tiles src spanOf ok p xs q) :
    StackTiles src P (Tiles src spanOf ok) before span m bs (xs.reverse ++ out) q := by
  cases h with
  | nil hout =>
    refine .nil ?_
    rw [List.reverse_append, List.reverse_reverse]
    exact hout.append hxs
  | cons hbefore hgap hlt hP hout =>
    refine .cons hbefore hgap hlt hP ?_
    rw [List.reverse_append, List.reverse_reverse]
    exact hout.append hxs

theorem push {x : α} (h : StackTiles src P (Tiles src spanOf ok) before span m bs out p)
    (hgap : Gap src p (spanOf x).start) (hlt : (spanOf x).start < (spanOf x).stop) (hx : ok x) :
    StackTiles src P (Tiles src spanOf ok) before span m bs (x :: out) (spanOf x).stop :=
  h.extend (.single hgap hlt hx)

/-- What is open on top of the stack is closed: it becomes pieces of its own. -/
theorem pop {b : β} (texts : List α)
    (h : StackTiles src P (Tiles src spanOf ok) before span m (b :: bs) out p)
    (htexts : P ≤ (span b).start → Tiles src spanOf ok (span b).start texts.reverse (span b).stop) :
    StackTiles src P (Tiles src spanOf ok) before span m bs (out ++ texts ++ before b) p := by
  cases h with
  | cons hbefore hgap hlt hP hout =>
    have h := hbefore.extend (((htexts hP).behind hgap).append hout)
    rwa [List.reverse_append, List.reverse_reverse, List.reverse_reverse] at h

end StackTiles

/-! ## Trees -/

/-- The stretch of the source that a tree was read from. -/
def Tree.span : Tree → Span
  | .node _ span _ | .leaf _ span => span

/-- Whether the event is neither the start nor the end of a container. -/
def Event.isSingle : Event → Bool
  | .enter _ | .leave _ => false
  | _ => true

/-- The tree is made of what stands within a line of text. -/
inductive Tree.Inner : Tree → Prop where
  | leaf {e : Event} {span : Span} (he : e.isSingle = true) : Tree.Inner (.leaf e span)
  | node {c : Container} {span : Span} {ts : List Tree} (hc : c.isInline = true)
      (hts : ∀ t ∈ ts, Tree.Inner t) : Tree.Inner (.node c span ts)

/-- A tree of what stands within a line, which ends behind the place `P`. -/
def Tree.Fits (P : Nat) (t : Tree) : Prop := P ≤ t.span.stop ∧ t.Inner

/-- The trees cover the source between two places. -/
abbrev TreeTiles (src : List Char) (P : Nat) : Nat → List Tree → Nat → Prop :=
  Tiles src Tree.span (Tree.Fits P)

/-- The stretch of the source that a piece was read from. -/
def Inline.span : Inline → Span
  | .tree t => t.span
  | .run r => ⟨r.start, r.start + r.count⟩
  | .slashBreak span => span

/-- A piece of a single line: a tree, or a run behind the place `P`. -/
def Inline.Fits (P : Nat) : Inline → Prop
  | .tree t => t.Fits P
  | .run r => P ≤ r.start
  | .slashBreak _ => False

/-- The pieces cover the source between two places. -/
abbrev InlineTiles (src : List Char) (P : Nat) : Nat → List Inline → Nat → Prop :=
  Tiles src Inline.span (Inline.Fits P)

/-! ## Runs -/

/-- The characters of a run that are taken for text cover it. -/
theorem tiles_texts (r : Run) (hP : P ≤ r.start) :
    TreeTiles src P r.start r.texts.reverse (r.start + r.count) := by
  rw [Run.texts, List.map_reverse, List.reverse_reverse]
  induction r.count with
  | zero => exact .nil (.refl _)
  | succ n ih =>
    rw [List.range_succ, List.map_append]
    refine ih.append (.single (.refl _) (Nat.lt_succ_self _) ⟨?_, .leaf rfl⟩)
    show P ≤ r.start + n + 1
    omega

/-- The stretch of the source that an open run was read from. -/
def OpenRun.span (o : OpenRun) : Span := ⟨o.run.start, o.run.start + o.run.count⟩

/-- The open runs, and the trees before and behind them, cover the source between two places. -/
abbrev OpenTiles (src : List Char) (P m : Nat) : List OpenRun → List Tree → Nat → Prop :=
  StackTiles src P (TreeTiles src P) OpenRun.before OpenRun.span m

variable {opened : List OpenRun} {out : List Tree} {r : Run}

theorem tiles_closeAll (h : OpenTiles src P m opened out p) :
    TreeTiles src P m (closeAll out opened).reverse p := by
  induction opened generalizing out with
  | nil =>
    cases h with
    | nil hout => exact hout
  | cons o os ih => exact ih (h.pop _ (tiles_texts o.run))

/-- The runs inside of the one that is found are closed. -/
theorem tiles_findOpen {o : OpenRun} {os : List OpenRun} {inner : List Tree}
    (h : OpenTiles src P m opened out p) (hfound : findOpen r out opened = some (o, os, inner)) :
    OpenTiles src P m (o :: os) inner p := by
  induction opened generalizing out with
  | nil => cases hfound
  | cons o' os' ih =>
    rw [findOpen] at hfound
    split at hfound
    · cases hfound
      exact h
    · exact ih (h.pop _ (tiles_texts o'.run)) hfound

theorem isInline_containerOf (c : Char) (width : Nat) : (containerOf c width).isInline = true := by
  unfold containerOf
  split
  · rfl
  · split
    · rfl
    · rfl

/-- The containers around what is emphasized are one tree, which covers the characters used. -/
theorem nest_eq (c : Char) (openStop closeStart : Nat) {count : Nat} (h : 0 < count)
    (ts : List Tree) (hts : ∀ t ∈ ts, t.Inner) :
    ∃ t, nest c openStop closeStart count ts = [t] ∧ t.Inner ∧
      t.span = ⟨openStop - count, closeStart + count⟩ := by
  fun_induction nest c openStop closeStart count ts with
  | case1 => exact absurd h (Nat.lt_irrefl 0)
  | case2 openStop closeStart ts => exact ⟨_, rfl, .node (isInline_containerOf _ _) hts, rfl⟩
  | case3 openStop closeStart count ts ih =>
    have hnode : (Tree.node (containerOf c 2) ⟨openStop - 2, closeStart + 2⟩ ts).Inner :=
      .node (isInline_containerOf _ _) hts
    rcases Nat.eq_zero_or_pos count with rfl | hcount
    · exact ⟨_, rfl, hnode, rfl⟩
    · obtain ⟨t, ht, hinner, hspan⟩ := ih hcount (by simpa using hnode)
      have hstart : openStop - 2 - count = openStop - (count + 2) := by omega
      have hstop : closeStart + 2 + count = closeStart + (count + 2) := by omega
      rw [hstart, hstop] at hspan
      exact ⟨t, ht, hinner, hspan⟩

/-- A run uses up some characters of an open run, and itself as many: one tree covers both, and what
stands between them. If characters of the open run are left, it stays open. -/
theorem tiles_nest {o : OpenRun} {os : List OpenRun} {used : Nat}
    (h : OpenTiles src P m (o :: os) out p) (hgap : Gap src p r.start) (hP : P ≤ r.start)
    (hused : 0 < used) (hle : used ≤ o.run.count) :
    ∃ t, nest r.char (o.run.start + o.run.count) r.start used out.reverse = [t] ∧
      (o.run.count = used → OpenTiles src P m os (t :: o.before) (r.start + used)) ∧
      (o.run.count ≠ used → OpenTiles src P m
        ({ o with run := { o.run with count := o.run.count - used } } :: os) [t]
        (r.start + used)) := by
  cases h with
  | @cons _ _ _ j _ hbefore hgapo hlto hPo hout =>
    obtain ⟨t, ht, hinner, hspan⟩ := nest_eq r.char (o.run.start + o.run.count) r.start hused
      out.reverse fun t ht => (hout.forall_mem t ht).2
    have hstart : t.span.start = o.run.start + (o.run.count - used) := by
      rw [hspan]
      show o.run.start + o.run.count - used = _
      omega
    have hstop : t.span.stop = r.start + used := by rw [hspan]
    have hlt : t.span.start < t.span.stop := by
      have hout := hout.le
      have hgap := hgap.le
      change o.run.start + o.run.count ≤ p at hout
      omega
    have hfits : t.Fits P := ⟨by omega, hinner⟩
    refine ⟨t, ht, fun hall => ?_, fun hsome => ?_⟩
    · have hall : t.span.start = o.run.start := by omega
      have hpushed := hbefore.push (x := t) (by rwa [hall]) hlt hfits
      rwa [hstop] at hpushed
    · rw [← hstop]
      refine .cons hbefore hgapo ?_ hPo (.single ?_ hlt hfits)
      · show o.run.start < o.run.start + (o.run.count - used)
        omega
      · rw [hstart]
        exact .refl _

/-- What is left of a run that was matched with open runs stands behind what was made of it. -/
theorem tiles_closeRun {fuel : Nat} (h : OpenTiles src P m opened out p) (hgap : Gap src p r.start)
    (hP : P ≤ r.start) :
    ∃ r' opened' out' p', closeRun fuel r opened out = (r', opened', out') ∧
      OpenTiles src P m opened' out' p' ∧ Gap src p' r'.start ∧ P ≤ r'.start ∧
      r'.start + r'.count = r.start + r.count := by
  induction fuel generalizing r opened out p with
  | zero => exact ⟨r, opened, out, p, rfl, h, hgap, hP, rfl⟩
  | succ fuel ih =>
    rw [closeRun]
    split
    · exact ⟨r, opened, out, p, rfl, h, hgap, hP, rfl⟩
    · rename_i hcount
      split
      · exact ⟨r, opened, out, p, rfl, h, hgap, hP, rfl⟩
      · rename_i o os inner hfound
        have hopen := tiles_findOpen h hfound
        have hcounto : 0 < o.run.count := by
          cases hopen with
          | cons _ _ hlto _ _ => exact Nat.lt_add_right_iff_pos.1 hlto
        have hused : 0 < min r.count o.run.count := by omega
        have huser : min r.count o.run.count ≤ r.count := Nat.min_le_left _ _
        obtain ⟨t, ht, hall, hsome⟩ := tiles_nest hopen hgap hP hused (Nat.min_le_right _ _)
        dsimp only
        generalize min r.count o.run.count = used at *
        have hplace : r.start + used + (r.count - used) = r.start + r.count := by omega
        have hrest : ∀ {opened : List OpenRun} {out : List Tree},
            OpenTiles src P m opened out (r.start + used) → ∃ r' opened' out' p',
              closeRun fuel { r with count := r.count - used, start := r.start + used } opened out =
                (r', opened', out') ∧ OpenTiles src P m opened' out' p' ∧ Gap src p' r'.start ∧
              P ≤ r'.start ∧ r'.start + r'.count = r.start + r.count := by
          intro opened out h
          rw [← hplace]
          exact ih h (.refl _) (Nat.le_add_right_of_le hP)
        rw [ht]
        split
        · rename_i heq
          exact hrest (hall heq)
        · rename_i hne
          exact hrest (hsome hne)

/-! ## Pieces -/

variable {items : List Inline}

/-- The trees that emphasis makes of pieces cover what the pieces cover. -/
theorem tiles_emphasize (h : OpenTiles src P m opened out p)
    (hitems : InlineTiles src P p items q) :
    TreeTiles src P m (emphasize opened out items) q := by
  induction items generalizing opened out p with
  | nil =>
    cases hitems with
    | nil hgap =>
      have hclosed := (tiles_closeAll h).append (.nil hgap)
      rwa [List.append_nil] at hclosed
  | cons x items ih =>
    cases hitems with
    | cons hgap hlt hx hitems =>
      cases x with
      | tree t => exact ih (h.push hgap hlt hx) hitems
      | slashBreak => exact hx.elim
      | run r =>
        have hclosed : ∃ r' opened' out' p',
            (if r.closes then closeRun r.count r opened out else (r, opened, out)) =
              (r', opened', out') ∧ OpenTiles src P m opened' out' p' ∧ Gap src p' r'.start ∧
              P ≤ r'.start ∧ r'.start + r'.count = r.start + r.count := by
          split
          · exact tiles_closeRun h hgap hx
          · exact ⟨r, opened, out, p, rfl, h, hgap, hx, rfl⟩
        obtain ⟨r', opened', out', p', hr', h', hgap', hP', hstop⟩ := hclosed
        change InlineTiles src P (r.start + r.count) items q at hitems
        rw [emphasize, hr', ← hstop] at *
        dsimp only
        split
        · rename_i hzero
          rw [hzero] at hitems
          exact ih h' (hitems.behind hgap')
        · rename_i hcount
          split
          · refine ih (.cons h' hgap' ?_ hP' (.nil (.refl _))) hitems
            show r'.start < r'.start + r'.count
            omega
          · have htexts := h'.extend ((tiles_texts r' hP').behind hgap')
            rw [List.reverse_reverse] at htexts
            exact ih htexts hitems

/-- A tree that stands last is last among the trees that emphasis makes. -/
theorem emphasize_append (t : Tree) (hitems : ∀ x ∈ items, x.Fits P) :
    emphasize opened out (items ++ [.tree t]) = emphasize opened out items ++ [t] := by
  have hclose : ∀ (out : List Tree) (opened : List OpenRun),
      closeAll (t :: out) opened = t :: closeAll out opened := by
    intro out opened
    induction opened generalizing out with
    | nil => rfl
    | cons o os ih => exact ih (o.close out)
  induction items generalizing opened out with
  | nil => rw [List.nil_append, emphasize, emphasize, emphasize, hclose, List.reverse_cons]
  | cons x items ih =>
    have hrest := fun opened out => @ih opened out fun x hx => hitems x (List.mem_cons_of_mem _ hx)
    cases x with
    | tree t' => exact hrest opened (t' :: out)
    | slashBreak => exact (hitems _ List.mem_cons_self).elim
    | run r =>
      rw [List.cons_append, emphasize, emphasize]
      rcases (if r.closes then closeRun r.count r opened out else (r, opened, out)) with
        ⟨r', opened', out'⟩
      dsimp only
      split
      · exact hrest opened' out'
      · split
        · exact hrest _ _
        · exact hrest opened' _

end StaticSite.Markdown
