import StaticSite.Proofs.Markdown.Emphasis
import StaticSite.Proofs.Markdown.Tokens

/-!
# What links, code and raw HTML cover

The pieces that the tokens of a framed line are resolved to cover the line as well. A link to an
address, raw HTML and the parentheses behind a link end behind a `>` or `)`. No token has one of
these before its last character, so reading goes on with a whole token, or within text.
-/

namespace StaticSite.Markdown

open Text Reading

variable {src : List Char} {P E a q : Nat} {ts : List Token}

/-! ## Going on behind a place -/

/-- A place up to `E` at which a link or raw HTML that starts before it can end. -/
structure Cut (src : List Char) (E a q : Nat) : Prop where
  lt : a < q
  le : q ≤ E
  ends : src[q - 1]? = some '>' ∨ src[q - 1]? = some ')'

/-- A construct ends where the rest that it leaves starts. -/
theorem Framed.cut (F : Framed src P E) {c : Char} {rest : List Char}
    (h : (c :: rest) <:+ src.drop a) (hc : c = '>' ∨ c = ')') (place : Nat) :
    Cut src E a (placeAfter place ((src.drop a).length - rest.length)
      (glyphsAt a (src.drop a))) := by
  obtain ⟨t, ht⟩ := h
  have hlength : (src.drop a).length - rest.length = t.length + 1 := by
    rw [← ht, List.length_append, List.length_cons]
    omega
  have htake : (src.drop a).take (t.length + 1) = t ++ [c] := by
    rw [← ht, List.append_cons, List.take_left' (by simp)]
  have hplace : placeAfter place ((src.drop a).length - rest.length) (glyphsAt a (src.drop a)) =
      a + t.length + 1 := by
    rw [hlength, placeAfter, take_glyphsAt, htake, stopOf_glyphsAt (.inl (by simp))]
    simp [Nat.add_assoc]
  have hget : src[a + t.length]? = some c := by
    rw [← List.getElem?_drop, ← ht]
    simp
  have hplain : isPlain c = false := by
    rcases hc with rfl | rfl
    · rfl
    · rfl
  rw [hplace]
  refine ⟨by omega, (F.special hget hplain).2, ?_⟩
  rw [Nat.add_sub_cancel, hget]
  rcases hc with rfl | rfl
  · exact .inl rfl
  · exact .inr rfl

/-- A cut does not lie within a solid stretch. -/
theorem Cut.not_within (h : Cut src E a q) {span : Span} (hsolid : Solid src span)
    (hstop : q < span.stop) : q ≤ span.start := by
  refine Nat.le_of_not_lt fun hlt => ?_
  obtain ⟨hangle, hparenthesis⟩ := hsolid (q - 1) (by omega) (by have := h.lt; omega)
  exact h.ends.elim hangle hparenthesis

/-- A token behind a cut starts there or later, or is cut to start there. -/
theorem Token.reads_from {t : Token} (hcut : Cut src E a q) (ht : t.Reads src P)
    (hlt : t.span.start < t.span.stop) (hq : q < t.span.stop) :
    (t.from q).Reads src P ∧ (t.from q).span = ⟨max t.span.start q, t.span.stop⟩ := by
  have hwhole : Solid src t.span → max t.span.start q = t.span.start := fun hsolid =>
    Nat.max_eq_left (hcut.not_within hsolid hq)
  cases t with
  | text gs =>
    obtain ⟨i, j, hij, hP, hj, rfl⟩ := ht
    rw [span_text hij hj] at hq ⊢
    change q < j at hq
    have hglyphs : (glyphsAt i (between src i j)).dropWhile (·.start < q) =
        glyphsAt (max i q) (between src (max i q) j) := by
      have hdrop : i + (q - i) = max i q := by omega
      have htake : j - i - (q - i) = j - max i q := by omega
      rw [dropWhile_glyphsAt, between, List.drop_take, List.drop_drop, hdrop, htake, between]
    rw [Token.from, hglyphs]
    exact ⟨⟨_, j, by omega, hP, hj, rfl⟩, span_text (by omega) hj⟩
  | run r =>
    have hrun : r.start < r.start + r.count := hlt
    change q < r.start + r.count at hq
    refine ⟨Nat.le_trans ht (Nat.le_max_left _ _), ?_⟩
    have hstop : max r.start q + (r.count - (q - r.start)) = r.start + r.count := by omega
    rw [Token.from, Token.span, hstop]
    rfl
  | other | opener => exact ⟨ht, by rw [hwhole ht.2]; rfl⟩
  | ticks | less | closer => exact ⟨ht, by rw [hwhole ht.2.1]; rfl⟩
  | lineBreak => exact ht.elim

theorem Token.stop_eq {t : Token} (ht : t.Reads src P) : t.stop = t.span.stop := by
  cases t with
  | lineBreak => exact ht.elim
  | _ => rfl

/-- What is left of a gap behind a place. -/
theorem Gap.max {i j : Nat} (h : Gap src i j) (hi : i ≤ q) : Gap src q (max j q) := by
  rcases Nat.le_total q j with hq | hq
  · rw [Nat.max_eq_left hq]
    exact h.from hi hq
  · rw [Nat.max_eq_right hq]
    exact .refl q

/-- The tokens behind a cut cover the rest of the line. -/
theorem Laid.tokensFrom (h : Laid src P E a ts) (hE : E < src.length) {b : Nat}
    (hcut : Cut src E b q) (haq : a ≤ q) : Laid src P E q (tokensFrom q ts) := by
  have hq := hcut.le
  induction h with
  | @last a s hgap hle =>
    have hdrop : s + (q - s) = Max.max s q := by omega
    have hstop : (Token.text (glyphsAt s (src.drop s))).stop = src.length := by
      exact congrArg Span.stop (span_last (by omega))
    rw [Markdown.tokensFrom, List.dropWhile_cons_of_neg (by rw [hstop]; simp; omega)]
    dsimp only
    rw [Token.from, dropWhile_glyphsAt, List.drop_drop, hdrop]
    exact .last (hgap.max haq) (by omega)
  | @cons a t ts hgap hlt ht hts ih =>
    by_cases hstop : t.span.stop ≤ q
    · have hskip : Markdown.tokensFrom q (t :: ts) = Markdown.tokensFrom q ts := by
        rw [Markdown.tokensFrom, List.dropWhile_cons_of_pos (by simpa [t.stop_eq ht] using hstop),
          Markdown.tokensFrom]
      rw [hskip]
      exact ih hstop
    · obtain ⟨hreads, hspan⟩ := Token.reads_from hcut ht hlt (Nat.lt_of_not_le hstop)
      rw [Markdown.tokensFrom, List.dropWhile_cons_of_neg (by simpa [t.stop_eq ht] using hstop)]
      refine .cons (by rw [hspan]; exact hgap.max haq) ?_ hreads (by rwa [hspan])
      rw [hspan]
      show Max.max t.span.start q < t.span.stop
      omega

/-! ## What tokens start and end -/

/-- Back quotes that end code are followed by the rest of the line. -/
theorem Laid.findTicks (h : Laid src P E a ts) {count : Nat} {p : Nat × List Token}
    (hfound : findTicks count ts = some p) :
    a ≤ p.1 ∧ P ≤ p.1 ∧ Laid src P E (p.1 + count) p.2 := by
  induction h with
  | last => cases hfound
  | @cons a t ts hgap hlt ht hts ih =>
    have hle : a ≤ t.span.stop := Nat.le_trans hgap.le (Nat.le_of_lt hlt)
    have hrest : Markdown.findTicks count ts = some p →
        a ≤ p.1 ∧ P ≤ p.1 ∧ Laid src P E (p.1 + count) p.2 := fun h =>
      ⟨Nat.le_trans hle (ih h).1, (ih h).2⟩
    cases t with
    | ticks n escaped start after =>
      rw [Markdown.findTicks] at hfound
      split at hfound
      · rename_i hn
        cases hfound
        subst hn
        exact ⟨hgap.le, ht.1, hts⟩
      · exact hrest hfound
    | _ => exact hrest hfound

/-- A `<` starts one tree, which ends at a cut. -/
theorem Framed.readAngle (F : Framed src P E) {ctx : Context} {span : Span} {found : Found}
    (h : readAngle ctx span (glyphsAt span.stop (src.drop span.stop)) = some found) :
    ∃ t, found.item = .tree t ∧ t.Inner ∧ t.span = ⟨span.start, found.stop⟩ ∧
      Cut src E span.stop found.stop := by
  unfold Markdown.readAngle at h
  have htext : ∀ {s : String} {span : Span}, ∀ t ∈ [Tree.leaf (.text s) span], t.Inner :=
    fun t ht => List.mem_singleton.1 ht ▸ .leaf rfl
  rw [map_char_glyphsAt] at h
  dsimp only at h
  split at h
  · rename_i haddress
    cases h
    exact ⟨_, rfl, .node rfl htext, rfl,
      F.cut (scanAddress?_suffix haddress) (.inl rfl) _⟩
  · split at h
    · rename_i hmail
      cases h
      exact ⟨_, rfl, .node rfl htext, rfl, F.cut (scanMail?_suffix hmail) (.inl rfl) _⟩
    · split at h
      · rename_i hdeclaration
        cases h
        exact ⟨_, rfl, .leaf rfl, rfl, F.cut (scanDeclaration?_suffix hdeclaration) (.inl rfl) _⟩
      · split at h
        · rename_i htag
          cases h
          exact ⟨_, rfl, .leaf rfl, rfl, F.cut (scanTag?_suffix htag) (.inl rfl) _⟩
        · cases h

/-- Without definitions, only an address between parentheses makes a link. -/
theorem Framed.closing (F : Framed src P E) {ctx : Context} (htargets : ctx.targets = [])
    (hfootnotes : ctx.footnotes = []) (b : Bracket) (alone : Bool) (span : Span) :
    (∃ used, b.closing ctx alone span (glyphsAt span.stop (src.drop span.stop)) = .text used) ∨
      ∃ t stop, b.closing ctx alone span (glyphsAt span.stop (src.drop span.stop)) =
        .target t stop ∧ Cut src E span.stop stop := by
  have htarget : ∀ s, ctx.target? s = none := fun s => by
    rw [Context.target?, htargets]
    rfl
  unfold Bracket.closing
  rw [map_char_glyphsAt, length_glyphsAt]
  split
  · rename_i t rest hread
    exact .inr ⟨t, _, rfl, F.cut (readTarget?_suffix hread) (.inr rfl) _⟩
  · left
    split
    · rw [htarget]
      exact ⟨_, rfl⟩
    · simp only [htarget, hfootnotes]
      split
      · exact ⟨_, rfl⟩
      · split
        · exact ⟨_, rfl⟩
        · exact ⟨_, rfl⟩
        · exact ⟨_, rfl⟩

theorem Laid.settle (h : Laid src P E a ts) (stop : Nat) : Laid src P E a (settle stop ts) := by
  induction h with
  | last hgap hle => exact .last hgap hle
  | @cons a t ts hgap hlt ht hts ih =>
    cases t with
    | closer => exact .cons hgap hlt ht ih
    | _ => exact .cons hgap hlt ht ih

/-! ## Open brackets -/

/-- The open brackets, and the pieces before and behind them, cover the source from its start. -/
abbrev BracketTiles (src : List Char) (P : Nat) : List Bracket → List Inline → Nat → Prop :=
  StackTiles src P (InlineTiles src P) Bracket.before Bracket.span 0

variable {bs : List Bracket} {out : List Inline}

theorem BracketTiles.close {b : Bracket} (h : BracketTiles src P (b :: bs) out a) :
    BracketTiles src P bs (b.close out) a := by
  have hlt : b.span.start < b.span.stop := by
    cases h with
    | cons _ _ hlt _ _ => exact hlt
  have hclosed := h.pop [textAt (if b.isImage then ['!', '['] else ['[']) b.span]
    fun hP => .single (.refl _) hlt ⟨Nat.le_trans hP (Nat.le_of_lt hlt), .leaf rfl⟩
  rwa [List.append_assoc] at hclosed

theorem closeBrackets_cons (x : Inline) (out : List Inline) (bs : List Bracket) :
    closeBrackets (x :: out) bs = x :: closeBrackets out bs := by
  induction bs generalizing out with
  | nil => rfl
  | cons b bs ih => exact ih (b.close out)

theorem tiles_closeBrackets (h : BracketTiles src P bs out a) :
    InlineTiles src P 0 (closeBrackets out bs).reverse a := by
  induction bs generalizing out with
  | nil =>
    cases h with
    | nil hout => exact hout
  | cons b bs ih => exact ih h.close

theorem BracketTiles.deactivate (h : BracketTiles src P bs out a) :
    BracketTiles src P (deactivate bs) out a := by
  induction h with
  | nil hout => exact .nil hout
  | @cons b bs out j p hbefore hgap hlt hP hout ih =>
    rw [Markdown.deactivate, List.map_cons]
    split
    · exact .cons ih hgap hlt hP hout
    · exact .cons ih hgap hlt hP hout

theorem BracketTiles.tree {t : Tree} (h : BracketTiles src P bs out a)
    (hgap : Gap src a t.span.start) (hlt : t.span.start < t.span.stop) (ht : t.Fits P) :
    BracketTiles src P bs (.tree t :: out) t.span.stop :=
  h.push (x := Inline.tree t) hgap hlt ht

/-- What stands between the brackets of a link is made of what stands within a line. -/
theorem inner_emphasize (h : InlineTiles src P a out q) :
    ∀ t ∈ emphasize [] [] out, t.Inner := fun t ht =>
  ((tiles_emphasize .empty h).forall_mem t ht).2

/-- A link or image covers its brackets, what stands between them and what makes it one. -/
theorem BracketTiles.link {b : Bracket} {stop : Nat} (h : BracketTiles src P (b :: bs) out a)
    (hstop : a < stop) {container : Container} (hc : container.isInline = true) :
    BracketTiles src P (if b.isImage then bs else Markdown.deactivate bs)
      (.tree (.node container ⟨b.span.start, stop⟩ (emphasize [] [] out.reverse)) :: b.before)
      stop := by
  cases h with
  | @cons _ _ _ j _ hbefore hgap hlt hP hout =>
    have hlt' : b.span.start < stop :=
      Nat.lt_of_lt_of_le hlt (Nat.le_trans hout.le (Nat.le_of_lt hstop))
    have hmade := BracketTiles.tree hbefore (t := .node container ⟨b.span.start, stop⟩ _) hgap hlt'
      ⟨Nat.le_trans hP (Nat.le_of_lt hlt'), .node hc (inner_emphasize hout)⟩
    split
    · exact hmade
    · exact hmade.deactivate

/-! ## Steps -/

/-- The pieces come from at most `n` tokens, and what was collected before covers the source up to
those. -/
inductive Resumes (src : List Char) (P E : Nat) (ctx : Context) (n : Nat) : List Inline → Prop where
  | intro {bs : List Bracket} {out : List Inline} {a : Nat} {ts : List Token}
      (h : BracketTiles src P bs out a) (hts : Laid src P E a ts) (hle : ts.length ≤ n) :
      Resumes src P E ctx n (resolve ctx bs out ts)

section Step

variable {ctx : Context} (h : BracketTiles src P bs out a)

include h

/-- A token becomes text. -/
theorem BracketTiles.text {span : Span} (hgap : Gap src a span.start) (hlt : span.start < span.stop)
    (hP : P ≤ span.stop) (s : List Char) : BracketTiles src P bs (textAt s span :: out) span.stop :=
  h.tree hgap hlt ⟨hP, .leaf rfl⟩

/-- Back quotes start code that ends with as many, or are text. -/
theorem resumes_ticks {count start : Nat} {escaped : Bool} {after : List Glyph}
    (hgap : Gap src a start) (hcount : 0 < count) (hP : P ≤ start)
    (hts : Laid src P E (start + count) ts) :
    Resumes src P E ctx ts.length
      (resolve ctx bs out (.ticks count escaped start after :: ts)) := by
  rw [resolve]
  split
  · exact .intro (h.text hgap (Nat.lt_add_of_pos_right hcount) (Nat.le_add_right_of_le hP) _) hts
      (Nat.le_refl _)
  · rename_i stop rest hfound
    have hwidth : (if escaped then count - 1 else count) ≠ 0 := by
      intro hzero
      rw [if_pos hzero] at hfound
      cases hfound
    rw [if_neg hwidth] at hfound
    obtain ⟨hle, hPstop, hrest⟩ := hts.findTicks hfound
    change start + count ≤ stop at hle
    have hlength := length_findTicks hfound
    dsimp only
    cases escaped with
    | false =>
      rw [if_neg Bool.false_ne_true] at hwidth hrest ⊢
      refine .intro (h.tree hgap ?_ ⟨?_, .leaf rfl⟩) hrest hlength
      · show start < stop + count
        omega
      · show P ≤ stop + count
        omega
    | true =>
      rw [if_pos rfl] at hwidth hrest ⊢
      have htick : BracketTiles src P bs (textAt ['`'] ⟨start, start + 1⟩ :: out) (start + 1) :=
        h.text hgap (Nat.lt_succ_self start) (Nat.le_succ_of_le hP) _
      refine .intro (htick.tree (.refl _) ?_ ⟨?_, .leaf rfl⟩) hrest hlength
      · show start + 1 < stop + (count - 1)
        omega
      · show P ≤ stop + (count - 1)
        omega

/-- A `<` starts a tree, or is text. -/
theorem resumes_less (F : Framed src P E) {span : Span} (hgap : Gap src a span.start)
    (hlt : span.start < span.stop) (hP : P ≤ span.start) (hts : Laid src P E span.stop ts) :
    Resumes src P E ctx ts.length
      (resolve ctx bs out (.less span (glyphsAt span.stop (src.drop span.stop)) :: ts)) := by
  rw [resolve]
  split
  · exact .intro (h.text hgap hlt (Nat.le_trans hP (Nat.le_of_lt hlt)) _) hts (Nat.le_refl _)
  · rename_i found hfound
    obtain ⟨t, hitem, hinner, hspan, hcut⟩ := F.readAngle hfound
    have hlt' : span.start < found.stop := Nat.lt_trans hlt hcut.lt
    have hmade := h.tree (t := t) (by rwa [hspan]) (by rwa [hspan])
      ⟨by rw [hspan]; exact Nat.le_trans hP (Nat.le_of_lt hlt'), hinner⟩
    rw [hspan] at hmade
    rw [hitem]
    exact .intro hmade (hts.tokensFrom F.lt_length hcut (Nat.le_of_lt hcut.lt))
      (length_tokensFrom_le _ _)

/-- A bracket that closes another one makes a link, or both are text. -/
theorem resumes_closer (F : Framed src P E) (htargets : ctx.targets = [])
    (hfootnotes : ctx.footnotes = []) {alone : Bool} {span : Span} (hgap : Gap src a span.start)
    (hlt : span.start < span.stop) (hP : P ≤ span.start) (hts : Laid src P E span.stop ts) :
    Resumes src P E ctx ts.length (resolve ctx bs out
      (.closer alone span (glyphsAt span.stop (src.drop span.stop)) :: ts)) := by
  have hPstop := Nat.le_trans hP (Nat.le_of_lt hlt)
  cases bs with
  | nil =>
    rw [resolve]
    exact .intro (h.text hgap hlt hPstop _) hts (Nat.le_refl _)
  | cons b bs =>
    have hclose := h.close.text hgap hlt hPstop [']']
    rw [resolve]
    split
    · exact .intro hclose hts (Nat.le_refl _)
    · rcases F.closing htargets hfootnotes b alone span with
        ⟨_ | stop, hclosing⟩ | ⟨target, stop, hclosing, hcut⟩
      · rw [hclosing]
        exact .intro hclose hts (Nat.le_refl _)
      · rw [hclosing]
        exact .intro hclose (hts.settle stop) (Nat.le_of_eq (length_settle _ _))
      · rw [hclosing]
        have hstop : a < stop := Nat.lt_of_le_of_lt hgap.le (Nat.lt_trans hlt hcut.lt)
        refine .intro (h.link hstop ?_) (hts.tokensFrom F.lt_length hcut (Nat.le_of_lt hcut.lt))
          (length_tokensFrom_le _ _)
        split
        · rfl
        · rfl

/-- What one token is resolved to covers its source. -/
theorem resumes_token (F : Framed src P E) (htargets : ctx.targets = [])
    (hfootnotes : ctx.footnotes = []) {t : Token} (hgap : Gap src a t.span.start)
    (hlt : t.span.start < t.span.stop) (ht : t.Reads src P) (hts : Laid src P E t.span.stop ts) :
    Resumes src P E ctx ts.length (resolve ctx bs out (t :: ts)) := by
  cases t with
  | text gs =>
    have hP : P ≤ (Token.text gs).span.stop := by
      obtain ⟨i, j, hij, hP, hj, rfl⟩ := ht
      rwa [span_text hij hj]
    rw [resolve]
    exact .intro (h.text hgap hlt hP _) hts (Nat.le_refl _)
  | other s span =>
    rw [resolve]
    exact .intro (h.text hgap hlt (Nat.le_trans ht.1 (Nat.le_of_lt hlt)) _) hts (Nat.le_refl _)
  | run r =>
    rw [resolve]
    exact .intro (h.push (x := Inline.run r) hgap hlt ht) hts (Nat.le_refl _)
  | ticks count escaped start after =>
    exact resumes_ticks h hgap (Nat.lt_add_right_iff_pos.1 hlt) ht.1 hts
  | less span after =>
    obtain ⟨hP, -, rfl⟩ := ht
    exact resumes_less h F hgap hlt hP hts
  | opener isImage span after =>
    rw [resolve]
    exact .intro (.cons h hgap hlt ht.1 (.nil (.refl _))) hts (Nat.le_refl _)
  | closer alone span after =>
    obtain ⟨hP, -, rfl⟩ := ht
    exact resumes_closer h F htargets hfootnotes hgap hlt hP hts
  | lineBreak => exact ht.elim

end Step

/-! ## All pieces -/

/-- The pieces of a framed line cover it, and the last one is text from before `E` to the end. The
induction is on the number of tokens, since some are passed at a time. -/
theorem Framed.resolve (F : Framed src P E) {ctx : Context} (htargets : ctx.targets = [])
    (hfootnotes : ctx.footnotes = []) (h : BracketTiles src P bs out a) (hts : Laid src P E a ts) :
    ∃ ys s, resolve ctx bs out ts = ys ++ [textAt (src.drop s) ⟨s, src.length⟩] ∧
      InlineTiles src P 0 ys s ∧ s ≤ E := by
  induction hn : ts.length using Nat.strongRecOn generalizing bs out a ts with
  | ind n ih =>
    subst hn
    cases hts with
    | @last _ s hgap hle =>
      have hspan := span_last (Nat.lt_of_le_of_lt hle F.lt_length)
      refine ⟨(closeBrackets out bs).reverse, s, ?_, ?_, hle⟩
      · rw [Markdown.resolve, Markdown.resolve, map_char_glyphsAt]
        change (closeBrackets (textAt (src.drop s)
          (Token.text (glyphsAt s (src.drop s))).span :: out) bs).reverse = _
        rw [hspan, closeBrackets_cons, List.reverse_cons]
      · have hclosed := (tiles_closeBrackets h).append (.nil hgap)
        rwa [List.append_nil] at hclosed
    | @cons _ t ts hgap hlt ht hts =>
      have hstep := resumes_token h F htargets hfootnotes hgap hlt ht hts
      generalize Markdown.resolve ctx bs out (t :: ts) = xs at hstep ⊢
      cases hstep with
      | intro h hts hle => exact ih _ (Nat.lt_succ_of_le hle) h hts rfl

/-- The trees of a framed line cover it, and the last one is text from before `E` to the end. -/
theorem Framed.inlineTrees (F : Framed src P E) (ctx : Context) (htargets : ctx.targets = [])
    (hfootnotes : ctx.footnotes = []) :
    ∃ ys s, inlineTrees ctx (glyphsAt 0 src) =
        ys ++ [.leaf (.text (String.ofList (src.drop s))) ⟨s, src.length⟩] ∧
      TreeTiles src P 0 ys s ∧ s ≤ E := by
  have hlaid := tokenize_laid F ctx.source (.refl 0) (Nat.le_refl 0) (Nat.zero_le _)
    (Nat.zero_le _) 0
  rw [between_self, List.drop_zero] at hlaid
  obtain ⟨ys, s, hresolve, hys, hs⟩ := F.resolve htargets hfootnotes .empty hlaid
  refine ⟨emphasize [] [] ys, s, ?_, tiles_emphasize .empty hys, hs⟩
  rw [Markdown.inlineTrees]
  change emphasize [] [] (Markdown.resolve ctx [] [] (tokenize ctx.source
    (glyphsAt 0 []).reverse 0 (glyphsAt 0 src))) = _
  rw [hresolve, textAt]
  exact emphasize_append _ hys.forall_mem

end StaticSite.Markdown
