import StaticSite.Proofs.Markdown.Closing
import StaticSite.Proofs.Markdown.Tiling

/-!
# Tokens of a framed line

A line is framed by characters that are only text. Between them stands what can be anything. The
tokens of the line cover it from left to right but for backslashes, and the last one is text, which
reaches from before the closing frame to the end.
-/

namespace StaticSite.Markdown

open Reading Text

variable {src : List Char} {P E a : Nat}

/-- Characters that neither start, nor end anything but text. -/
def isPlain (c : Char) : Bool := !"\\`<![]&*_~>);\x00".toList.contains c

/-- The source is one line, in which characters other than plain ones stand only between two
places. -/
structure Framed (src : List Char) (P E : Nat) : Prop where
  oneLine : '\n' ∉ src
  plain_before : ∀ n c, n < P → src[n]? = some c → isPlain c = true
  plain_behind : ∀ n c, E ≤ n → src[n]? = some c → isPlain c = true
  blank : src[E]? = some ' '
  last : ∃ c, src.getLast? = some c ∧ isLineSpace c = false

/-- The stretch of the source that a token was read from. -/
def Token.span : Token → Span
  | .text gs => ⟨(gs.head?.map Glyph.start).getD 0, stopOf 0 gs⟩
  | .other _ span | .less span _ | .opener _ span _ | .closer _ span _ | .lineBreak _ _ span => span
  | .run r => ⟨r.start, r.start + r.count⟩
  | .ticks count _ start _ => ⟨start, start + count⟩

/-- No link and no raw HTML ends within the stretch. -/
def Solid (src : List Char) (span : Span) : Prop :=
  ∀ n, span.start ≤ n → n + 1 < span.stop → src[n]? ≠ some '>' ∧ src[n]? ≠ some ')'

/-- The token holds what stands in the source, and the characters before `P` are within one text. -/
def Token.Reads (src : List Char) (P : Nat) : Token → Prop
  | .text gs => ∃ i j, i < j ∧ P ≤ j ∧ j ≤ src.length ∧ gs = glyphsAt i (between src i j)
  | .other _ span | .opener _ span _ => P ≤ span.start ∧ Solid src span
  | .run r => P ≤ r.start
  | .ticks count _ start after =>
    P ≤ start ∧ Solid src ⟨start, start + count⟩ ∧
      after = glyphsAt (start + count) (src.drop (start + count))
  | .less span after | .closer _ span after =>
    P ≤ span.start ∧ Solid src span ∧ after = glyphsAt span.stop (src.drop span.stop)
  | .lineBreak .. => False

/-- A stretch of one character is solid. -/
theorem solid_one (a : Nat) : Solid src ⟨a, a + 1⟩ := fun n h h' => by
  dsimp only at h h'
  omega

namespace Framed

variable {c : Char}

/-- Special characters stand only between the two places. -/
theorem special (F : Framed src P E) (hc : src[a]? = some c) (h : isPlain c = false) :
    P ≤ a ∧ a < E := by
  constructor
  · refine Nat.le_of_not_lt fun hlt => ?_
    rw [F.plain_before a c hlt hc] at h
    cases h
  · refine Nat.lt_of_not_le fun hle => ?_
    rw [F.plain_behind a c hle hc] at h
    cases h

theorem lt_length (F : Framed src P E) : E < src.length := (List.getElem?_eq_some_iff.1 F.blank).1

end Framed

theorem glyphsAt_single {c : Char} (hc : src[a]? = some c) :
    glyphsAt a (between src a (a + 1)) = [⟨c, a, a + 1⟩] := by
  rw [between_succ (Nat.le_refl a) hc]
  simp [between, glyphsAt_cons, glyphsAt_nil]

theorem drop_eq_cons {c : Char} (hc : src[a]? = some c) : src.drop a = c :: src.drop (a + 1) := by
  obtain ⟨ha, rfl⟩ := List.getElem?_eq_some_iff.1 hc
  exact List.drop_eq_getElem_cons ha

/-- If glyphs follow a place, the first one stands there. -/
theorem glyphsAt_eq_cons {g : Glyph} {gs : List Glyph}
    (h : glyphsAt a (src.drop a) = g :: gs) :
    ∃ c, src[a]? = some c ∧ g = ⟨c, a, a + 1⟩ ∧ gs = glyphsAt (a + 1) (src.drop (a + 1)) := by
  rcases hc : src[a]? with _ | c
  · rw [List.drop_eq_nil_of_le (List.getElem?_eq_none_iff.1 hc)] at h
    cases h
  · rw [drop_eq_cons hc, glyphsAt_cons] at h
    cases h
    exact ⟨c, rfl, rfl, rfl⟩

/-- The run of a character that a text starts with, and what follows it. -/
theorem glyphs_run (src : List Char) (c : Char) (p : Nat) :
    ∃ n, ((glyphsAt p (src.drop p)).takeWhile fun g => g.char == c).length = n ∧
      (glyphsAt p (src.drop p)).drop n = glyphsAt (p + n) (src.drop (p + n)) ∧
      ∀ k, p ≤ k → k < p + n → src[k]? = some c := by
  refine ⟨_, rfl, ?_, fun k hk hlt => ?_⟩
  · rw [drop_glyphsAt, List.drop_drop]
  · rw [takeWhile_glyphsAt p (· == c), length_glyphsAt] at hlt
    have hk' : k - p < ((src.drop p).takeWhile (· == c)).length := by omega
    have hmem := List.getElem_mem hk'
    have hget := List.IsPrefix.getElem (List.takeWhile_prefix (· == c) (l := src.drop p)) hk'
    have hchar := List.all_eq_true.1 List.all_takeWhile _ hmem
    have hplace : p + (k - p) = k := by omega
    rw [List.getElem_drop] at hget
    rw [hget, beq_iff_eq] at hchar
    rw [← hplace, List.getElem?_eq_some_iff]
    exact ⟨_, hchar⟩

/-- What the first character of a text can be taken for: more text, a token of its own, or a
backslash that takes the meaning from the next one. -/
inductive Stepped (src : List Char) (P E a : Nat) (source : Array Char) (pending : List Glyph) :
    List Token → Prop where
  | more (n slashes : Nat) (hn : 0 < n) (hle : a + n ≤ src.length) :
      Stepped src P E a source pending
        (tokenize source ((glyphsAt a (between src a (a + n))).reverse ++ pending) slashes
          (glyphsAt (a + n) (src.drop (a + n))))
  | token (t : Token) (hgap : Gap src a t.span.start) (hlt : t.span.start < t.span.stop)
      (hstop : t.span.stop ≤ E) (ht : t.Reads src P) (hP : P ≤ a) :
      Stepped src P E a source pending
        (textToken pending ++ t ::
          tokenize source [] 0 (glyphsAt t.span.stop (src.drop t.span.stop)))
  | escaped (slashes : Nat) (h : src[a]? = some '\\') (hlt : a + 1 < E) (hP : P ≤ a) :
      Stepped src P E a source pending
        (textToken pending ++
          tokenize source (glyphsAt (a + 1) (between src (a + 1) (a + 2))).reverse slashes
            (glyphsAt (a + 2) (src.drop (a + 2))))

/-- A run of special characters ends before the second place. -/
theorem Framed.run_le (F : Framed src P E) {c : Char} {n : Nat} (hc : src[a]? = some c)
    (h : isPlain c = false) (hrun : ∀ k, a + 1 ≤ k → k < a + 1 + n → src[k]? = some c) :
    a + 1 + n ≤ E := by
  rcases n with _ | n
  · exact (F.special hc h).2
  · exact (F.special (hrun (a + 1 + n) (by omega) (by omega)) h).2

section Step

variable (F : Framed src P E) {source : Array Char} {pending : List Glyph}

include F

theorem stepped_ticks (escaped : Bool) {n p : Nat} (hgap : Gap src a p) (hn : 0 < n)
    (hrun : ∀ k, p ≤ k → k < p + n → src[k]? = some '`')
    (hP : P ≤ a) :
    Stepped src P E a source pending (textToken pending ++
      .ticks n escaped p (glyphsAt (p + n) (src.drop (p + n))) ::
        tokenize source [] 0 (glyphsAt (p + n) (src.drop (p + n)))) := by
  obtain ⟨m, rfl⟩ : ∃ m, n = m + 1 := ⟨n - 1, by omega⟩
  have hstop : p + 1 + m ≤ E :=
    F.run_le (hrun p (Nat.le_refl p) (by omega)) rfl fun k hk hlt => hrun k (by omega) (by omega)
  refine .token (.ticks (m + 1) escaped p _) hgap (by show p < p + (m + 1); omega)
    (by show p + (m + 1) ≤ E; omega) ⟨Nat.le_trans hP hgap.le, fun k hk hlt => ?_, rfl⟩ hP
  dsimp only at hk hlt
  rw [hrun k hk (by omega)]
  exact ⟨by decide, by decide⟩

theorem stepped_reference {s rest : List Char} (hc : src[a]? = some '&')
    (h : readReference? (((glyphsAt (a + 1) (src.drop (a + 1))).take referenceLimit).map
      Glyph.char) = some (s, rest)) :
    let gs := glyphsAt (a + 1) (src.drop (a + 1))
    let n := ((gs.take referenceLimit).map Glyph.char).length - rest.length
    Stepped src P E a source pending (textToken pending ++
      .other s ⟨a, stopOf (a + 1) (gs.take n)⟩ :: tokenize source [] 0 (gs.drop n)) := by
  intro gs n
  have hprefix : (src.drop (a + 1)).take referenceLimit <+: src.drop (a + 1) :=
    List.take_prefix _ _
  obtain ⟨name, hname, hends⟩ := readReference?_eq h
  dsimp only at hname
  have hn : n = name.length + 1 := by
    show ((gs.take referenceLimit).map Glyph.char).length - rest.length = _
    rw [hname, List.length_append, List.length_cons]
    omega
  rw [take_glyphsAt, map_char_glyphsAt] at hname
  rw [hname, List.append_cons] at hprefix
  obtain ⟨u, hu⟩ := (List.prefix_append _ rest).trans hprefix
  have hchar : ∀ k, k < name.length + 1 → src[a + 1 + k]? = (name ++ [';'])[k]? := by
    intro k hk
    rw [← List.getElem?_drop, ← hu, List.getElem?_append_left (by simpa using hk)]
  have hsemicolon : a + 1 + name.length < E :=
    (F.special (c := ';') (by rw [hchar _ (Nat.lt_succ_self _)]; simp) rfl).2
  have hlength := F.lt_length
  have htake : (src.drop (a + 1)).take n = name ++ [';'] := by
    rw [← hu, hn, List.take_left' (by simp)]
  have hplace : a + 1 + n = a + 1 + name.length + 1 := by omega
  have hstop : stopOf (a + 1) (gs.take n) = a + 1 + n := by
    rw [take_glyphsAt, htake, stopOf_glyphsAt (.inl (by simp)), List.length_append,
      List.length_singleton, hn]
  have hafter : gs.drop n = glyphsAt (a + 1 + n) (src.drop (a + 1 + n)) := by
    rw [drop_glyphsAt, List.drop_drop]
  rw [hstop, hafter]
  refine .token (.other s ⟨a, a + 1 + n⟩) (.refl a) (by show a < a + 1 + n; omega)
    (by show a + 1 + n ≤ E; omega) ⟨(F.special hc rfl).1, fun k hk hlt => ?_⟩ (F.special hc rfl).1
  dsimp only at hk hlt
  rcases Nat.eq_or_lt_of_le hk with rfl | hk
  · rw [hc]
    exact ⟨by decide, by decide⟩
  · have hk' : k - (a + 1) < name.length := by omega
    have hplace : k = a + 1 + (k - (a + 1)) := by omega
    have hget := hchar (k - (a + 1)) (by omega)
    rw [List.getElem?_append_left hk', ← hplace, List.getElem?_eq_getElem hk'] at hget
    obtain ⟨hangle, hparenthesis⟩ := hends _ (List.getElem_mem hk')
    rw [hget]
    exact ⟨by simpa using hangle, by simpa using hparenthesis⟩

/-- A run is a token if it can mark emphasis, and more text if not. -/
theorem stepped_run {c : Char} {n : Nat} (hc : src[a]? = some c) (hplain : isPlain c = false)
    (hrun : ∀ k, a + 1 ≤ k → k < a + 1 + n → src[k]? = some c) (marks opens closes : Bool) :
    Stepped src P E a source pending
      (if marks then
        textToken pending ++ .run ⟨c, n + 1, n + 1, opens, closes, a⟩ ::
          tokenize source [] 0 (glyphsAt (a + 1 + n) (src.drop (a + 1 + n)))
      else
        tokenize source ((⟨c, a, a + 1⟩ :: (glyphsAt (a + 1) (src.drop (a + 1))).take n).reverse ++
          pending) 0 (glyphsAt (a + 1 + n) (src.drop (a + 1 + n)))) := by
  have hplace : a + 1 + n = a + (n + 1) := by omega
  have hstop := F.run_le hc hplain hrun
  rw [hplace]
  split
  · have hP := (F.special hc hplain).1
    exact .token (.run ⟨c, n + 1, n + 1, opens, closes, a⟩) (.refl a)
      (by show a < a + (n + 1); omega) (by show a + (n + 1) ≤ E; omega) hP hP
  · have hle : a + (n + 1) ≤ src.length := by
      have := F.lt_length
      omega
    have hglyphs : glyphsAt a (between src a (a + (n + 1))) =
        ⟨c, a, a + 1⟩ :: (glyphsAt (a + 1) (src.drop (a + 1))).take n := by
      rw [between, Nat.add_sub_cancel_left, drop_eq_cons hc, List.take_succ_cons, glyphsAt_cons,
        take_glyphsAt]
    have h : Stepped src P E a source pending _ := .more (n + 1) 0 (Nat.succ_pos n) hle
    rwa [hglyphs] at h

end Step

theorem tokenize_stepped (F : Framed src P E) (ha : a < src.length) (source : Array Char)
    {pending : List Glyph} (hp : ∀ g ∈ pending.head?, g.stop = a) (slashes : Nat) :
    Stepped src P E a source pending
      (tokenize source pending slashes (glyphsAt a (src.drop a))) := by
  obtain ⟨c, hc⟩ : ∃ c, src[a]? = some c := ⟨src[a], List.getElem?_eq_getElem ha⟩
  have hmore : ∀ k, Stepped src P E a source pending
      (tokenize source (⟨c, a, a + 1⟩ :: pending) k (glyphsAt (a + 1) (src.drop (a + 1)))) := by
    intro k
    have h : Stepped src P E a source pending _ := .more 1 k Nat.zero_lt_one ha
    rwa [glyphsAt_single hc] at h
  have hapart : (pending.head?.map fun p => p.stop != a).getD false = false := by
    rcases pending with _ | ⟨g, pending⟩
    · rfl
    · simpa using hp
  have hfrom : isPlain c = false → P ≤ a := fun hplain => (F.special hc hplain).1
  have hsingle : ∀ t : Token, t.span = ⟨a, a + 1⟩ → t.Reads src P → isPlain c = false →
      Stepped src P E a source pending
        (textToken pending ++ t :: tokenize source [] 0 (glyphsAt (a + 1) (src.drop (a + 1)))) := by
    intro t hspan ht hplain
    have h : Stepped src P E a source pending _ :=
      .token t (by rw [hspan]; exact .refl a) (by rw [hspan]; exact Nat.lt_succ_self a)
        (by rw [hspan]; exact (F.special hc hplain).2) ht (hfrom hplain)
    rwa [hspan] at h
  rw [drop_eq_cons hc, glyphsAt_cons, tokenize.eq_def]
  dsimp only
  rw [hapart]
  simp only [Bool.false_eq_true, if_false, List.nil_append]
  generalize (if a = 0 then none else source[a - 1]?) = before
  split
  · exact absurd (List.mem_of_getElem? hc) F.oneLine
  · split
    · rename_i g gs hgs
      obtain ⟨d, hd, rfl, rfl⟩ := glyphsAt_eq_cons hgs
      have hgap : Gap src a (a + 1) := .slash hc
      dsimp only
      split
      · rename_i htick
        obtain ⟨n, hn, hafter, hrun⟩ := glyphs_run src '`' (a + 1)
        rw [hn, hafter]
        refine stepped_ticks F true hgap ?_ hrun (hfrom rfl)
        rw [← hn, hgs, List.takeWhile_cons, if_pos (by simp [htick])]
        exact Nat.succ_pos _
      · split
        · rename_i hpunctuation
          have hlt : a + 1 < E := by
            have hle : a + 1 ≤ E := (F.special hc rfl).2
            refine Nat.lt_of_le_of_ne hle fun he => ?_
            rw [he, F.blank] at hd
            cases hd
            cases hpunctuation
          have h : Stepped src P E a source pending _ :=
            .escaped (if d = '\\' then slashes + 2 else 0) hc hlt (hfrom rfl)
          rwa [glyphsAt_single hd] at h
        · exact hmore _
    · exact hmore _
  · obtain ⟨n, hn, hafter, hrun⟩ := glyphs_run src '`' (a + 1)
    have hplace : a + 1 + n = a + (n + 1) := by omega
    rw [hn, hafter, hplace]
    refine stepped_ticks F false (.refl a) (Nat.succ_pos n) (fun k hk hlt => ?_) (hfrom rfl)
    rcases Nat.eq_or_lt_of_le hk with rfl | hk
    · exact hc
    · exact hrun k hk (by omega)
  · split
    · exact hmore 0
    · exact hsingle (.less ⟨a, a + 1⟩ _) rfl ⟨hfrom rfl, solid_one a, rfl⟩ rfl
  · split
    · rename_i g gs hgs
      obtain ⟨d, hd, rfl, rfl⟩ := glyphsAt_eq_cons hgs
      dsimp only
      split
      · rename_i hbracket
        rw [hbracket] at hd
        refine .token (.opener true ⟨a, a + 2⟩ _) (.refl a) (by show a < a + 2; omega)
          (F.special hd rfl).2 ⟨hfrom rfl, fun k hk hlt => ?_⟩ (hfrom rfl)
        dsimp only at hk hlt
        obtain rfl : k = a := by omega
        rw [hc]
        exact ⟨by decide, by decide⟩
      · exact hmore 0
    · exact hmore 0
  · exact hsingle (.opener false ⟨a, a + 1⟩ _) rfl ⟨hfrom rfl, solid_one a⟩ rfl
  · exact hsingle (.closer true ⟨a, a + 1⟩ _) rfl ⟨hfrom rfl, solid_one a, rfl⟩ rfl
  · exact hsingle (.other _ ⟨a, a + 1⟩) rfl ⟨hfrom rfl, solid_one a⟩ rfl
  · split
    · rename_i s rest href
      exact stepped_reference F hc href
    · exact hmore 0
  · split
    · rename_i hmark
      have hplain : isPlain c = false := by
        rcases hmark with rfl | rfl | rfl
        · rfl
        · rfl
        · rfl
      obtain ⟨n, hn, hafter, hrun⟩ := glyphs_run src c (a + 1)
      rw [hn, hafter]
      exact stepped_run F hc hplain hrun _ _ _
    · exact hmore 0

/-! ## All tokens -/

/-- The tokens cover the source from a place on but for backslashes, and the last one is text from
before the second place to the end. -/
inductive Laid (src : List Char) (P E : Nat) : Nat → List Token → Prop where
  | last {a s : Nat} (hgap : Gap src a s) (hle : s ≤ E) :
      Laid src P E a [.text (glyphsAt s (src.drop s))]
  | cons {a : Nat} {t : Token} {ts : List Token} (hgap : Gap src a t.span.start)
      (hlt : t.span.start < t.span.stop) (ht : t.Reads src P)
      (hts : Laid src P E t.span.stop ts) : Laid src P E a (t :: ts)

theorem Laid.behind {b : Nat} {ts : List Token} (hgap : Gap src a b) (h : Laid src P E b ts) :
    Laid src P E a ts := by
  cases h with
  | last h hle => exact .last (hgap.trans h) hle
  | cons h hlt ht hts => exact .cons (hgap.trans h) hlt ht hts

theorem Laid.le {ts : List Token} (h : Laid src P E a ts) : a ≤ E := by
  induction h with
  | last hgap hle => exact Nat.le_trans hgap.le hle
  | cons hgap hlt _ _ ih => exact Nat.le_trans hgap.le (Nat.le_trans (Nat.le_of_lt hlt) ih)

theorem span_text {i j : Nat} (hij : i < j) (hj : j ≤ src.length) :
    (Token.text (glyphsAt i (between src i j))).span = ⟨i, j⟩ := by
  have hlength : (between src i j).length = j - i := length_between hj
  have hne : between src i j ≠ [] := List.ne_nil_of_length_pos (by omega)
  have hstop : i + (j - i) = j := by omega
  rw [Token.span, stopOf_glyphsAt (.inl hne), hlength, hstop]
  rcases h : between src i j with _ | ⟨c, s⟩
  · exact absurd h hne
  · rfl

/-- The last token covers the line from where it starts. -/
theorem span_last {s : Nat} (hs : s < src.length) :
    (Token.text (glyphsAt s (src.drop s))).span = ⟨s, src.length⟩ := by
  have hspan := span_text hs (Nat.le_refl src.length)
  rwa [between_eq_drop (Nat.le_refl _)] at hspan

/-- The text that was read before a place is a token of its own, unless it is empty. -/
theorem Laid.textToken {o b : Nat} {ts : List Token} (hgap : Gap src o b) (hb : b ≤ a)
    (hP : P ≤ a) (ha : a ≤ src.length) (h : Laid src P E a ts) :
    Laid src P E o (textToken (glyphsAt b (between src b a)).reverse ++ ts) := by
  rcases Nat.eq_or_lt_of_le hb with rfl | hb
  · rw [between_self]
    exact h.behind hgap
  · have hspan := span_text hb ha
    have hne : (glyphsAt b (between src b a)).reverse.isEmpty = false := by
      have hlength : (between src b a).length = a - b := length_between ha
      rw [List.isEmpty_eq_false_iff, Ne, List.reverse_eq_nil_iff, ← List.length_eq_zero_iff,
        length_glyphsAt]
      omega
    rw [Markdown.textToken, hne, List.reverse_reverse]
    exact .cons (by rwa [hspan]) (by rwa [hspan]) ⟨b, a, hb, hP, ha, rfl⟩ (by rwa [hspan])

/-- The tokens of a framed line cover it. The induction is on what is left of the line; the text
that is kept back was read from `b` on. -/
theorem tokenize_laid (F : Framed src P E) (source : Array Char) {o b : Nat} (hgap : Gap src o b)
    (hb : b ≤ a) (ha : a ≤ src.length) (hbE : b ≤ E) (slashes : Nat) :
    Laid src P E o (tokenize source (glyphsAt b (between src b a)).reverse slashes
      (glyphsAt a (src.drop a))) := by
  induction hn : src.length - a using Nat.strongRecOn generalizing o a b slashes with
  | ind n ih =>
    subst hn
    have hEl := F.lt_length
    rcases Nat.eq_or_lt_of_le ha with rfl | hlt
    · obtain ⟨c, hc, hspace⟩ := F.last
      obtain ⟨s, hs⟩ : ∃ s, src.drop b = s ++ [c] := by
        refine List.getLast?_eq_some_iff.1 ?_
        rwa [List.getLast?_drop, if_neg (by omega)]
      have htext : tokenize source (glyphsAt b (src.drop b)).reverse slashes [] =
          [.text (glyphsAt b (src.drop b))] := by
        rw [tokenize, hs, glyphsAt_append, List.reverse_append, glyphsAt_cons, glyphsAt_nil,
          List.reverse_singleton, List.singleton_append,
          List.dropWhile_cons_of_neg (by simpa using hspace), Markdown.textToken]
        simp
      rw [List.drop_length, glyphsAt_nil, between_eq_drop (Nat.le_refl _), htext]
      exact .last hgap hbE
    · have hhead : ∀ g ∈ (glyphsAt b (between src b a)).reverse.head?, g.stop = a := by
        intro g hg
        have hstop : stopOf b (glyphsAt b (between src b a)) = _ := stopOf_glyphsAt (.inr rfl)
        rw [List.head?_reverse] at hg
        rw [stopOf, Option.mem_def.1 hg, length_between ha] at hstop
        dsimp only [Option.map_some, Option.getD_some] at hstop
        omega
      have hfresh : ∀ {o p : Nat}, Gap src o p → a < p → p ≤ E →
          Laid src P E o (tokenize source [] 0 (glyphsAt p (src.drop p))) := by
        intro o p hgap hap hpE
        have h := ih (src.length - p) (by omega) hgap (Nat.le_refl p) (by omega) hpE 0 rfl
        rwa [between_self] at h
      have hstep := tokenize_stepped F hlt source hhead slashes
      generalize tokenize source (glyphsAt b (between src b a)).reverse slashes
        (glyphsAt a (src.drop a)) = ts at hstep ⊢
      cases hstep with
      | more n k hn hle =>
        have hglyphs : (glyphsAt a (between src a (a + n))).reverse ++
            (glyphsAt b (between src b a)).reverse =
              (glyphsAt b (between src b (a + n))).reverse := by
          have hplace : b + (a - b) = a := by omega
          rw [← List.reverse_append, ← between_append hb (Nat.le_add_right a n), glyphsAt_append,
            length_between ha, hplace]
        rw [hglyphs]
        exact ih _ (by omega) hgap (by omega) hle hbE k rfl
      | token t hgapt hltt hstop ht hP =>
        have hat := hgapt.le
        exact .textToken hgap hb hP ha (.cons hgapt hltt ht (hfresh (.refl _) (by omega) hstop))
      | escaped k hslash hltE hP =>
        exact .textToken hgap hb hP ha (ih (src.length - (a + 2)) (by omega) (.slash hslash)
          (Nat.le_succ _) (by omega) (by omega) k rfl)

end StaticSite.Markdown
