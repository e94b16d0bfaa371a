import StaticSite.Proofs.Markdown.Trees

/-!
# The events of a document are nested

The lines of a document are read into blocks, and no line spoils the blocks that were read before
(`Reading.Plain`). So the events of every document are nested, and so are those that it is written
from (`nested_shield_events`).
-/

namespace StaticSite.Markdown

/-! ## Blocks -/

/-- The block is made of containers, texts and single events. -/
inductive Block.Plain : Block → Prop where
  | group (c : Container) (span : Span) {children : List Block}
      (h : ∀ b ∈ children, Block.Plain b) : Block.Plain (.group c span children)
  | texts (c : Option Container) (span : Span) (box : Option (Bool × Span))
      (glyphs : List Glyph) : Block.Plain (.texts c span box glyphs)
  | leaf {e : Event} (he : e.isSingle = true) (span : Span) : Block.Plain (.leaf e span)

theorem nests_treesOf {ctx : Context} {bs : List Block} (h : ∀ b ∈ bs, ∀ t ∈ b.trees ctx, t.Nests) :
    ∀ t ∈ treesOf ctx bs, t.Nests := by
  induction bs with
  | nil => exact List.forall_mem_nil _
  | cons b bs ih =>
    obtain ⟨hb, hbs⟩ := List.forall_mem_cons.1 h
    rw [treesOf]
    exact List.forall_mem_append.2 ⟨hb, ih hbs⟩

theorem Block.Plain.nests_trees (ctx : Context) {b : Block} (h : b.Plain) :
    ∀ t ∈ b.trees ctx, t.Nests := by
  induction h with
  | group c span _ ih =>
    rw [Block.trees]
    exact List.forall_mem_singleton.2 (Tree.nests_node c span (nests_treesOf ih))
  | texts c span box glyphs =>
    have hcontent : ∀ t ∈ (box.map fun b => Tree.leaf (.task b.1) b.2).toList ++
        inlineTrees ctx glyphs, t.Nests := by
      refine List.forall_mem_append.2 ⟨?_, nests_inlineTrees ctx glyphs⟩
      cases box with
      | none => exact List.forall_mem_nil _
      | some box => exact List.forall_mem_singleton.2 (Tree.nests_leaf rfl _)
    cases c with
    | none => exact hcontent
    | some c => exact List.forall_mem_singleton.2 (Tree.nests_node c span hcontent)
  | leaf he span =>
    rw [Block.trees]
    exact List.forall_mem_singleton.2 (Tree.nests_leaf he span)

section Content

variable {content : List Block}

theorem plain_addText (h : ∀ b ∈ content, b.Plain) (s : List Char) (start : Nat) :
    ∀ b ∈ Reading.addText content s start, b.Plain := by
  have hpush (bs : List Block) (hbs : ∀ b ∈ bs, b.Plain) (s : String) (span : Span) :
      ∀ b ∈ Block.leaf (.text s) span :: bs, b.Plain :=
    List.forall_mem_cons.2 ⟨.leaf rfl span, hbs⟩
  unfold Reading.addText
  dsimp only
  split
  · exact h
  · split
    · split
      · exact hpush _ (List.forall_mem_cons.1 h).2 _ _
      · exact hpush _ h _ _
    · exact hpush _ h _ _

theorem plain_addSpaces (h : ∀ b ∈ content, b.Plain) (n place : Nat) :
    ∀ b ∈ Reading.addSpaces content n place, b.Plain := by
  rw [Reading.addSpaces]
  split
  · exact h
  · exact List.forall_mem_cons.2 ⟨.leaf rfl _, h⟩

theorem plain_addCode (h : ∀ b ∈ content, b.Plain) (spaces : Nat) (c : Cursor) (l : Line) :
    ∀ b ∈ Reading.addCode content spaces c l, b.Plain := by
  have hspaces := plain_addSpaces h spaces c.pos
  rw [Reading.addCode]
  split
  · exact plain_addText (plain_addText hspaces _ _) _ _
  · exact plain_addText hspaces _ _

theorem plain_addHtml (h : ∀ b ∈ content, b.Plain) (spaces : Nat) (c : Cursor) (l : Line) :
    ∀ b ∈ Reading.addHtml content spaces c l, b.Plain := by
  have hspaces := plain_addSpaces h spaces c.pos
  rw [Reading.addHtml]
  split
  · exact List.forall_mem_cons.2
      ⟨.leaf rfl _, List.forall_mem_cons.2 ⟨.leaf rfl _, hspaces⟩⟩
  · exact List.forall_mem_cons.2 ⟨.leaf rfl _, hspaces⟩

theorem plain_rowBlock? {c : Container} {columns start stop : Nat} {s : List Glyph} {row : Block}
    (h : row ∈ Reading.rowBlock? c columns start stop s) : row.Plain := by
  rw [Reading.rowBlock?] at h
  split at h
  · cases h
  · cases h
    refine .group _ _ (List.forall_mem_append.2 ⟨fun b hb => ?_, fun b hb => ?_⟩)
    · obtain ⟨cell, -, rfl⟩ := List.mem_map.1 hb
      exact .texts _ _ _ _
    · obtain ⟨-, rfl⟩ := List.mem_replicate.1 hb
      exact .texts _ _ _ _

end Content

theorem Block.Plain.tighten {b : Block} (h : b.Plain) : b.tighten.Plain := by
  unfold Block.tighten
  split
  · exact .texts _ _ _ _
  · exact h

theorem Block.Plain.tightenItem {b : Block} (h : b.Plain) : b.tightenItem.Plain := by
  cases h with
  | group c span h =>
    refine .group c span fun b hb => ?_
    obtain ⟨child, hchild, rfl⟩ := List.mem_map.1 hb
    exact (h child hchild).tighten
  | texts c span box glyphs => exact .texts c span box glyphs
  | leaf he span => exact .leaf he span

theorem OpenBlock.plain_close {o : OpenBlock} (h : ∀ b ∈ o.children, b.Plain) (stop : Nat) :
    (o.close stop).Plain := by
  have hchildren : ∀ b ∈ o.children.reverse, b.Plain := fun b hb => h b (List.mem_reverse.1 hb)
  rw [OpenBlock.close]
  split
  · exact .group _ _ hchildren
  · exact .group _ _ hchildren
  · exact .group _ _ hchildren
  · refine .group _ _ ?_
    split
    · intro b hb
      obtain ⟨item, hitem, rfl⟩ := List.mem_map.1 hb
      exact (hchildren item hitem).tightenItem
    · exact hchildren

/-! ## Lines -/

/-- The blocks that were read inside the innermost block so far are plain. -/
def Leaf.Plain : Leaf → Prop
  | .paragraph .. => True
  | .fenced _ _ _ _ content | .html _ _ content | .table _ _ content => ∀ b ∈ content, b.Plain
  | .indented _ content kept _ => (∀ b ∈ content, b.Plain) ∧ ∀ b ∈ kept, b.Plain

namespace Reading

/-- All blocks that were read so far are plain. The other fields play no part, so the three parts
are proofs for a reading that differs in those as well. -/
structure Plain (r : Reading) : Prop where
  opened : ∀ o ∈ r.opened, ∀ b ∈ o.children, b.Plain
  blocks : ∀ b ∈ r.blocks, b.Plain
  leaf : ∀ l ∈ r.leaf, l.Plain

namespace Plain

variable {r : Reading}

theorem of_opened (h : r.Plain) {o : OpenBlock} {os : List OpenBlock} (ho : r.opened = o :: os) :
    (∀ b ∈ o.children, b.Plain) ∧ ∀ o ∈ os, ∀ b ∈ o.children, b.Plain := by
  have hopened := h.opened
  rw [ho] at hopened
  exact List.forall_mem_cons.1 hopened

theorem add (h : r.Plain) {b : Block} (hb : b.Plain) : (r.add b).Plain := by
  rw [Reading.add]
  split
  · exact ⟨h.opened, List.forall_mem_cons.2 ⟨hb, h.blocks⟩, h.leaf⟩
  · rename_i o os hopened
    obtain ⟨ho, hos⟩ := h.of_opened hopened
    exact ⟨List.forall_mem_cons.2 ⟨List.forall_mem_cons.2 ⟨hb, ho⟩, hos⟩, h.blocks, h.leaf⟩

theorem closeBlock (h : r.Plain) (stop : Nat) : (r.closeBlock stop).Plain := by
  rw [Reading.closeBlock]
  split
  · exact h
  · rename_i o os hopened
    obtain ⟨ho, hos⟩ := h.of_opened hopened
    have hrest : Plain { r with opened := os } := ⟨hos, h.blocks, h.leaf⟩
    have hclosed := hrest.add (OpenBlock.plain_close ho stop)
    dsimp only
    split
    · exact ⟨hclosed.opened, hclosed.blocks, hclosed.leaf⟩
    · exact hclosed

theorem closeBlocks (h : r.Plain) (stop n : Nat) : (r.closeBlocks stop n).Plain := by
  induction n generalizing r with
  | zero => exact h
  | succ n ih => exact ih (h.closeBlock stop)

theorem openBlock (h : r.Plain) (kind : Nesting) (start : Nat) :
    (r.openBlock kind start).Plain :=
  ⟨List.forall_mem_cons.2 ⟨List.forall_mem_nil _, h.opened⟩, h.blocks, h.leaf⟩

theorem closeEmptyItem (h : r.Plain) : r.closeEmptyItem.Plain := by
  have hclosed : ∀ r' : Reading, r'.Plain → Plain { r' with emptyItem := none } :=
    fun r' h => ⟨h.opened, h.blocks, h.leaf⟩
  rw [Reading.closeEmptyItem]
  refine hclosed _ ?_
  split
  · split
    · exact h.closeBlock _
    · exact h
  · exact h

theorem loosen {o : OpenBlock} (h : ∀ b ∈ o.children, b.Plain) :
    ∀ b ∈ (loosen o).children, b.Plain := by
  rw [Reading.loosen]
  split
  · exact h
  · exact h

theorem closeList (h : r.Plain) (stop : Nat) : (r.closeList stop).Plain := by
  unfold Reading.closeList
  extract_lets hold closed
  have hclosed : closed.Plain := by
    unfold closed
    split
    · exact h.closeEmptyItem.closeBlock stop
    · exact h.closeEmptyItem
  split
  · split
    · rename_i o p os hopened
      obtain ⟨ho, hrest⟩ := hclosed.of_opened hopened
      obtain ⟨hp, hos⟩ := List.forall_mem_cons.1 hrest
      exact ⟨List.forall_mem_cons.2 ⟨ho, List.forall_mem_cons.2 ⟨loosen hp, hos⟩⟩,
        hclosed.blocks, hclosed.leaf⟩
    · exact ⟨hclosed.opened, hclosed.blocks, hclosed.leaf⟩
  · exact hclosed

theorem continueList (h : r.Plain) (start : Nat) (marker : Char) (number : Nat) :
    (r.continueList start marker number).Plain := by
  unfold Reading.continueList
  extract_lets held fresh
  have hfresh (r : Reading) (h : r.Plain) : (fresh r).Plain :=
    have hopen := h.openBlock (.list true marker number) start
    ⟨hopen.opened, hopen.blocks, hopen.leaf⟩
  have hheld : held.Plain := h.closeEmptyItem
  split
  · exact hfresh held hheld
  · rename_i o os hopened
    split
    · split
      · split
        · obtain ⟨ho, hos⟩ := hheld.of_opened hopened
          exact ⟨List.forall_mem_cons.2 ⟨loosen ho, hos⟩, hheld.blocks, hheld.leaf⟩
        · exact hheld
      · exact hfresh _ (hheld.closeList start)
    · exact hfresh _ (hheld.closeList start)

/-- Something is read inside the innermost block from now on. -/
theorem enterLeaf (h : r.Plain) (leaf : Leaf) (hleaf : leaf.Plain) :
    Plain { r with leaf := some leaf } :=
  ⟨h.opened, h.blocks, fun l hl => by cases hl; exact hleaf⟩

/-- What was read inside the innermost block is taken out. -/
theorem leaveLeaf (h : r.Plain) : Plain { r with leaf := none } :=
  ⟨h.opened, h.blocks, fun _ hl => by cases hl⟩

theorem closeLeaf (h : r.Plain) (stop : Nat) : (r.closeLeaf stop).Plain := by
  rw [Reading.closeLeaf]
  split
  · exact h
  · rename_i leaf hleaf
    have hcontent := h.leaf leaf hleaf
    have hgroup (c : Container) (span : Span) (content : List Block)
        (hcontent : ∀ b ∈ content, b.Plain) :
        (Reading.add { r with leaf := none } (.group c span content.reverse)).Plain :=
      h.leaveLeaf.add (.group c span fun b hb => hcontent b (List.mem_reverse.1 hb))
    cases leaf with
    | paragraph start box lines => exact h.leaveLeaf.add (.texts _ _ _ _)
    | fenced | html | table => exact hgroup _ _ _ hcontent
    | indented => exact hgroup _ _ _ hcontent.2

theorem readDefinition? (h : r.Plain) {l : Line} {c : Cursor} {next : List Line} {r' : Reading}
    (hr : r.readDefinition? l c next = some r') : r'.Plain := by
  rw [Reading.readDefinition?] at hr
  split at hr
  · cases hr
  · dsimp only at hr
    split at hr
    · cases hr
    · cases hr
      exact ⟨h.opened, h.blocks, h.leaf⟩

theorem startText (h : r.Plain) (l : Line) (c : Cursor) (next : List Line) :
    (r.startText l c next).Plain := by
  rw [Reading.startText]
  split
  · rename_i columns hcolumns
    have hhead : ∀ b ∈ (rowBlock? .tableHead columns.length c.pos l.stop
        (glyphsAt c.pos c.rest)).toList, b.Plain :=
      fun b hb => plain_rowBlock? (Option.mem_toList.1 hb)
    have htable := h.enterLeaf (.table c.pos columns _) hhead
    exact ⟨htable.opened, htable.blocks, htable.leaf⟩
  · have hparagraph := h.enterLeaf (.paragraph c.pos r.box [lineGlyphs l c]) trivial
    exact ⟨hparagraph.opened, hparagraph.blocks, hparagraph.leaf⟩

theorem startLeaf (h : r.Plain) (l : Line) (c : Cursor) (indent spaces : Nat) (next : List Line) :
    (r.startLeaf l c indent spaces next).Plain := by
  rw [Reading.startLeaf]
  split
  · rename_i ending hending
    have hhtml : Plain
        { r with leaf := some (.html c.pos ending (addHtml [] (max spaces indent) c l)) } :=
      h.enterLeaf (.html ..) (plain_addHtml (List.forall_mem_nil _) _ _ _)
    dsimp only
    split
    · split
      · exact hhtml.closeLeaf l.stop
      · exact hhtml
    · exact hhtml
  · split
    · exact h.add (.leaf rfl _)
    · split
      · exact h.add (.texts _ _ _ _)
      · split
        · exact h.enterLeaf (.fenced ..) (List.forall_mem_nil _)
        · rcases hdefinition : r.readDefinition? l c next with _ | r'
          · exact h.startText l c next
          · exact h.readDefinition? hdefinition

theorem openBlocks (h : r.Plain) (l : Line) (fuel : Nat) (c : Cursor) (start : Nat) :
    (Reading.openBlocks l fuel r c start).1.Plain := by
  fun_induction Reading.openBlocks l fuel r c start with
  | case1 | case2 | case9 => exact h
  | case3 _ r _ _ _ _ inner label _ _ listless footless noted _ _ ih =>
    have hfootless : footless.Plain := by
      unfold footless
      split
      · exact (h.closeList _).closeBlock _
      · exact h.closeList _
    have hnoted : noted.Plain := ⟨hfootless.opened, hfootless.blocks, hfootless.leaf⟩
    exact ih (hnoted.openBlock _ _)
  | case4 _ r _ _ _ _ _ _ _ indent _ _ place item _ =>
    have hitem : item.Plain := (h.continueList _ _ _).openBlock _ _
    exact ⟨hitem.opened, hitem.blocks, hitem.leaf⟩
  | case5 _ _ _ _ _ _ _ _ _ _ _ _ _ _ _ _ ih => exact ih ((h.continueList _ _ _).openBlock _ _)
  | case6 => exact ((h.continueList _ _ _).openBlock _ _).add (.texts _ _ _ _)
  | case7 _ _ _ _ _ _ _ _ _ _ _ _ _ item _ _ _ _ _ _ ih =>
    have hitem : item.Plain := (h.continueList _ _ _).openBlock _ _
    exact ih ⟨hitem.opened, hitem.blocks, hitem.leaf⟩
  | case8 _ _ _ _ _ _ _ _ _ _ _ ih => exact ih ((h.closeList _).openBlock _ _)

theorem noteBlank (h : r.Plain) : r.noteBlank.Plain := by
  rw [Reading.noteBlank]
  split
  · exact h
  · exact h
  · rename_i indent start children os hopened
    obtain ⟨ho, hos⟩ := h.of_opened hopened
    exact ⟨List.forall_mem_cons.2 ⟨ho, hos⟩, h.blocks, h.leaf⟩
  · exact ⟨h.opened, h.blocks, h.leaf⟩

theorem readFresh (h : r.Plain) (l : Line) (next : List Line) : (r.readFresh l next).Plain := by
  unfold Reading.readFresh
  extract_lets p closed
  have hopened := (h.closeBlocks l.start (r.opened.length - p.1)).openBlocks l (l.text.length + 1)
    p.2 l.start
  split
  · rename_i r' hr
    rw [hr] at hopened
    exact hopened
  · rename_i r' c start hr
    rw [hr] at hopened
    split
    · exact hopened.noteBlank
    · have hlist := hopened.closeList start
      dsimp only
      split
      · have hcode := plain_addCode (List.forall_mem_nil _) (c.skipUpTo 4).2.pending
          (c.skipUpTo 4).2 l
        have hleaf := hlist.enterLeaf (.indented (c.skipUpTo 4).2.pos _ _ l.stop) ⟨hcode, hcode⟩
        exact ⟨hleaf.opened, hleaf.blocks, hleaf.leaf⟩
      · exact hlist.startLeaf _ _ _ _ _

theorem readInLeaf (h : r.Plain) {leaf : Leaf} (hleaf : leaf.Plain) (l : Line)
    (next : List Line) : (r.readInLeaf leaf l next).Plain := by
  have hfresh := (h.closeLeaf l.start).readFresh l next
  unfold Reading.readInLeaf
  extract_lets p continued c otherwise
  cases leaf with
  | paragraph start box lines =>
    dsimp only
    split
    · exact h.leaveLeaf.add (.texts _ _ _ _)
    · split
      · exact hfresh
      · exact h.enterLeaf (.paragraph ..) trivial
  | fenced start f indent info content =>
    dsimp only
    split
    · exact hfresh
    · split
      · exact h.closeLeaf _
      · exact h.enterLeaf (.fenced ..) (plain_addCode hleaf _ _ _)
  | indented start content kept keptStop =>
    dsimp only
    split
    · exact hfresh
    · rename_i c hc
      have hcode := plain_addCode hleaf.1 c.pending c l
      split
      · have hkept := h.enterLeaf (.indented start _ kept keptStop) ⟨hcode, hleaf.2⟩
        exact ⟨hkept.opened, hkept.blocks, hkept.leaf⟩
      · have hgrown := h.enterLeaf (.indented start _ _ l.stop) ⟨hcode, hcode⟩
        exact ⟨hgrown.opened, hgrown.blocks, hgrown.leaf⟩
  | html start ending content =>
    have hhtml := h.enterLeaf (.html start ending _) (plain_addHtml hleaf c.pending c l)
    cases ending with
    | text t =>
      dsimp only
      split
      · exact hfresh
      · split
        · exact hhtml.closeLeaf l.stop
        · exact hhtml
    | blank =>
      dsimp only
      split
      · exact hfresh
      · exact hhtml
  | table start columns rows =>
    dsimp only
    split
    · exact hfresh
    · split
      · exact hfresh
      · rename_i row hrow
        exact h.enterLeaf (.table start columns _)
          (List.forall_mem_cons.2 ⟨plain_rowBlock? hrow, hleaf⟩)

theorem readLine (h : r.Plain) (l : Line) (next : List Line) : (r.readLine l next).Plain := by
  rw [Reading.readLine]
  split
  · exact ⟨h.opened, h.blocks, h.leaf⟩
  · split
    · rename_i leaf hleaf
      exact h.readInLeaf (h.leaf leaf hleaf) l next
    · exact h.readFresh l next

theorem readLines (h : r.Plain) (ls : List Line) : (r.readLines ls).Plain := by
  induction ls generalizing r with
  | nil => exact h
  | cons l ls ih => exact ih (h.readLine l ls)

theorem finish (h : r.Plain) (stop : Nat) : (r.finish stop).Plain :=
  (h.closeLeaf stop).closeBlocks stop _

end Plain

end Reading

/-! ## Documents -/

theorem nested_events (source : List Char) : Nested ((events source).map (·.1)) := by
  have hstart : Reading.Plain {} :=
    ⟨List.forall_mem_nil _, List.forall_mem_nil _, fun _ hl => by cases hl⟩
  have hread := (hstart.readLines (linesOf source)).finish source.length
  rw [events, List.map_map]
  refine nested_eventsOf (nests_treesOf fun b hb => Block.Plain.nests_trees _ ?_)
  exact hread.blocks b (List.mem_reverse.1 hb)

/-- Whatever the source of a document and the expressions in it, the events that it is written from
are nested. -/
theorem nested_shield_events (source : List Char) : Nested (shield 0 0 (events source)) := by
  obtain ⟨opened, out, hp⟩ := (nested_events source).passage 0
  rw [hp.shield_eq]
  exact hp.nested

end StaticSite.Markdown
