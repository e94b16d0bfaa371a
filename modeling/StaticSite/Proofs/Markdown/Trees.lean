import StaticSite.Proofs.Markdown.Nesting

/-!
# The events of a text are nested

A container is read as a tree, so events are nested unless a leaf of a tree is the start or the end
of a container. The trees of a text are collected on two stacks, that of open brackets and that of
open runs, and no step spoils what was collected (`Collected`).
-/

namespace StaticSite.Markdown

/-! ## Trees -/

/-- The events of the tree are nested. -/
def Tree.Nests (t : Tree) : Prop := Nested (t.events.map (·.1))

theorem nested_eventsOf {ts : List Tree} (h : ∀ t ∈ ts, t.Nests) :
    Nested ((eventsOf ts).map (·.1)) := by
  induction ts with
  | nil => exact .nil
  | cons t ts ih =>
    obtain ⟨ht, hts⟩ := List.forall_mem_cons.1 h
    rw [eventsOf, List.map_append]
    exact ht.append (ih hts)

theorem Tree.nests_leaf {e : Event} (he : e.isSingle = true) (span : Span) :
    (Tree.leaf e span).Nests := .single he .nil

theorem Tree.nests_node (c : Container) (span : Span) {ts : List Tree} (h : ∀ t ∈ ts, t.Nests) :
    (Tree.node c span ts).Nests := by
  rw [Tree.Nests, Tree.events, List.map_cons, List.map_append]
  exact .container c (nested_eventsOf h) .nil

/-! ## Stacks -/

/-- What was collected is right: what stands before each thing that is open, and what stands behind
the innermost one. -/
structure Collected {α β : Type} (right : α → Prop) (before : β → List α) (opened : List β)
    (out : List α) : Prop where
  before : ∀ b ∈ opened, ∀ x ∈ before b, right x
  out : ∀ x ∈ out, right x

namespace Collected

variable {α β : Type} {right : α → Prop} {before : β → List α} {opened : List β} {out xs : List α}

theorem empty : Collected right before [] [] := ⟨List.forall_mem_nil _, List.forall_mem_nil _⟩

theorem extend (h : Collected right before opened out) (hxs : ∀ x ∈ xs, right x) :
    Collected right before opened (xs ++ out) :=
  ⟨h.before, List.forall_mem_append.2 ⟨hxs, h.out⟩⟩

theorem push {x : α} (h : Collected right before opened out) (hx : right x) :
    Collected right before opened (x :: out) :=
  ⟨h.before, List.forall_mem_cons.2 ⟨hx, h.out⟩⟩

/-- Something is opened behind what was collected. -/
theorem enter (b : β) (h : Collected right before opened (before b))
    (hout : ∀ x ∈ out, right x) : Collected right before (b :: opened) out :=
  ⟨List.forall_mem_cons.2 ⟨h.out, h.before⟩, hout⟩

/-- What was collected when the innermost thing was opened. -/
theorem top {b : β} (h : Collected right before (b :: opened) out) :
    Collected right before opened (before b) :=
  have h := List.forall_mem_cons.1 h.before
  ⟨h.2, h.1⟩

/-- The innermost thing that is open is taken for something else. -/
theorem pop {b : β} (h : Collected right before (b :: opened) out) (hxs : ∀ x ∈ xs, right x) :
    Collected right before opened (out ++ xs ++ before b) := by
  rw [List.append_assoc]
  exact (h.top.extend hxs).extend h.out

end Collected

/-! ## Emphasis -/

section Emphasis

variable {opened : List OpenRun} {out : List Tree} {r : Run}

/-- The trees between open runs nest. -/
abbrev RunsNest : List OpenRun → List Tree → Prop := Collected Tree.Nests OpenRun.before

theorem nests_texts (r : Run) : ∀ t ∈ r.texts, t.Nests := by
  intro t ht
  obtain ⟨i, -, rfl⟩ := List.mem_map.1 ht
  exact Tree.nests_leaf rfl _

theorem nests_closeAll (h : RunsNest opened out) : ∀ t ∈ closeAll out opened, t.Nests := by
  induction opened generalizing out with
  | nil => exact h.out
  | cons o os ih => exact ih (h.pop (nests_texts o.run))

theorem nests_findOpen {o : OpenRun} {os : List OpenRun} {inner : List Tree}
    (h : RunsNest opened out) (hfound : findOpen r out opened = some (o, os, inner)) :
    RunsNest (o :: os) inner := by
  induction opened generalizing out with
  | nil => cases hfound
  | cons o' os' ih =>
    rw [findOpen] at hfound
    split at hfound
    · cases hfound
      exact h
    · exact ih (h.pop (nests_texts o'.run)) hfound

theorem nests_nest (c : Char) (openStop closeStart count : Nat) (ts : List Tree)
    (h : ∀ t ∈ ts, t.Nests) : ∀ t ∈ nest c openStop closeStart count ts, t.Nests := by
  fun_induction nest c openStop closeStart count ts with
  | case1 => exact h
  | case2 => exact List.forall_mem_singleton.2 (Tree.nests_node _ _ h)
  | case3 _ _ _ _ ih => exact ih (List.forall_mem_singleton.2 (Tree.nests_node _ _ h))

theorem nests_closeRun {fuel : Nat} (h : RunsNest opened out) :
    RunsNest (closeRun fuel r opened out).2.1 (closeRun fuel r opened out).2.2 := by
  induction fuel generalizing r opened out with
  | zero => exact h
  | succ fuel ih =>
    rw [closeRun]
    split
    · exact h
    · split
      · exact h
      · rename_i o os inner hfound
        have hopen := nests_findOpen h hfound
        have hmade := nests_nest r.char (o.run.start + o.run.count) r.start
          (min r.count o.run.count) inner.reverse fun t ht => hopen.out t (List.mem_reverse.1 ht)
        dsimp only
        split
        · exact ih (hopen.top.extend hmade)
        · exact ih (.enter _ hopen.top hmade)

/-- What a piece was read as nests. -/
def Inline.Nests : Inline → Prop
  | .tree t => t.Nests
  | .run _ | .slashBreak _ => True

theorem nests_emphasize {items : List Inline} (h : RunsNest opened out)
    (hitems : ∀ x ∈ items, x.Nests) : ∀ t ∈ emphasize opened out items, t.Nests := by
  induction items generalizing opened out with
  | nil =>
    intro t ht
    exact nests_closeAll h t (List.mem_reverse.1 ht)
  | cons x items ih =>
    obtain ⟨hx, hrest⟩ := List.forall_mem_cons.1 hitems
    cases x with
    | tree t => exact ih (h.push hx) hrest
    | slashBreak span =>
      refine ih (h.push (Tree.nests_leaf ?_ span)) hrest
      split
      · rfl
      · rfl
    | run r =>
      rw [emphasize]
      have hclosed : RunsNest
          (if r.closes then closeRun r.count r opened out else (r, opened, out)).2.1
          (if r.closes then closeRun r.count r opened out else (r, opened, out)).2.2 := by
        split
        · exact nests_closeRun h
        · exact h
      generalize (if r.closes then closeRun r.count r opened out else (r, opened, out)) = closed
        at hclosed ⊢
      obtain ⟨r, opened, out⟩ := closed
      dsimp only
      split
      · exact ih hclosed hrest
      · split
        · exact ih (Collected.enter (OpenRun.mk r out) hclosed (List.forall_mem_nil _)) hrest
        · exact ih (hclosed.extend (nests_texts r)) hrest

end Emphasis

/-! ## Texts -/

section Texts

variable {brackets : List Bracket} {out : List Inline}

theorem nests_textAt (s : List Char) (span : Span) : (textAt s span).Nests :=
  Tree.nests_leaf rfl span

/-- The pieces between open brackets nest. -/
abbrev BracketsNest : List Bracket → List Inline → Prop := Collected Inline.Nests Bracket.before

/-- An open bracket is taken for text. -/
theorem nests_close {b : Bracket} (h : BracketsNest (b :: brackets) out) :
    BracketsNest brackets (b.close out) := by
  have := h.pop (List.forall_mem_singleton.2
    (nests_textAt (if b.isImage then ['!', '['] else ['[']) b.span))
  rwa [List.append_assoc] at this

theorem nests_closeBrackets (h : BracketsNest brackets out) :
    ∀ x ∈ closeBrackets out brackets, x.Nests := by
  induction brackets generalizing out with
  | nil => exact h.out
  | cons b bs ih => exact ih (nests_close h)

theorem nests_deactivate (h : BracketsNest brackets out) :
    BracketsNest (deactivate brackets) out := by
  refine ⟨fun b hb => ?_, h.out⟩
  obtain ⟨b', hb', rfl⟩ := List.mem_map.1 hb
  split
  · exact h.before b' hb'
  · exact h.before b' hb'

theorem nests_readAngle {ctx : Context} {span : Span} {after : List Glyph} {found : Found}
    (h : readAngle ctx span after = some found) : found.item.Nests := by
  have hlink : ∀ (c : Container) (span span' : Span) (s : String),
      (Tree.node c span [.leaf (.text s) span']).Nests := fun c span span' s =>
    Tree.nests_node _ _ (List.forall_mem_singleton.2 (Tree.nests_leaf rfl _))
  rw [readAngle] at h
  split at h
  · cases h
    exact hlink _ _ _ _
  · split at h
    · cases h
      exact hlink _ _ _ _
    · split at h
      · cases h
        exact Tree.nests_leaf rfl _
      · split at h
        · cases h
          exact Tree.nests_leaf rfl _
        · cases h

/-- Every token adds a piece behind the innermost open bracket, or opens or closes brackets. -/
theorem nests_resolve (ctx : Context) (ts : List Token) (h : BracketsNest brackets out) :
    ∀ x ∈ resolve ctx brackets out ts, x.Nests := by
  fun_induction resolve ctx brackets out ts with
  | case1 =>
    intro x hx
    exact nests_closeBrackets h x (List.mem_reverse.1 hx)
  | case2 _ _ _ gs span ih =>
    -- In this case and the last one the hypothesis speaks of a list with its members attached.
    have := ih (h.push (nests_textAt _ span))
    simpa only [List.map_subtype, List.unattach_attach] using this
  | case3 _ _ _ s span ih => exact ih (h.push (nests_textAt s span))
  | case4 _ _ _ r ih => exact ih (h.push trivial)
  | case5 _ _ _ hard backslash span item ih =>
    refine ih (h.push ?_)
    cases backslash with
    | true => trivial
    | false =>
      cases hard with
      | true | false => exact Tree.nests_leaf rfl span
  | case6 _ _ _ _ _ _ _ _ _ ih => exact ih (h.push (nests_textAt _ _))
  | case7 _ _ _ _ escaped _ _ _ _ _ _ _ _ _ ih =>
    have hcode {s : String} {span : Span} : (Inline.tree (.leaf (.code s) span)).Nests :=
      Tree.nests_leaf rfl span
    cases escaped with
    | true => exact ih ((h.push (nests_textAt _ _)).push hcode)
    | false => exact ih (h.push hcode)
  | case8 _ _ _ span _ _ ih => exact ih (h.push (nests_textAt _ span))
  | case9 _ _ _ _ _ _ hfound ih => exact ih (h.push (nests_readAngle hfound))
  | case10 _ _ _ _ _ _ ih => exact ih (.enter _ h (List.forall_mem_nil _))
  | case11 _ _ _ span _ _ ih => exact ih (h.push (nests_textAt _ span))
  | case12 _ _ _ span _ _ _ _ _ ih => exact ih ((nests_close h).push (nests_textAt _ span))
  | case13 _ _ _ span _ _ _ _ _ _ ih => exact ih ((nests_close h).push (nests_textAt _ span))
  | case14 _ _ _ span _ _ _ _ _ _ _ ih => exact ih ((nests_close h).push (nests_textAt _ span))
  | case15 _ _ _ span _ b bs _ label _ mark pieces ih =>
    have hmark (start : Nat) : (mark start).Nests := Tree.nests_leaf rfl _
    refine ih ⟨List.forall_mem_nil _, nests_closeBrackets ?_⟩
    unfold pieces
    split
    · exact (h.top.push (nests_textAt _ _)).push (hmark _)
    · exact h.top.push (hmark _)
  | case16 out _ _ _ _ b bs _ t stop _ container node ih =>
    have hreverse : out.attach.reverse.unattach = out.reverse := by simp
    unfold node at ih
    rw [hreverse] at ih
    have hlink := nests_emphasize .empty fun x hx => h.out x (List.mem_reverse.1 hx)
    have hnode : BracketsNest bs (.tree (.node container ⟨b.span.start, stop⟩ _) :: b.before) :=
      h.top.push (Tree.nests_node _ _ hlink)
    refine ih ?_
    split
    · exact hnode
    · exact nests_deactivate hnode

/-- The trees of a text nest. -/
theorem nests_inlineTrees (ctx : Context) (glyphs : List Glyph) :
    ∀ t ∈ inlineTrees ctx glyphs, t.Nests :=
  nests_emphasize .empty (nests_resolve ctx _ .empty)

end Texts

end StaticSite.Markdown
