import StaticSite.Proofs.Component.Checked
import StaticSite.Proofs.Component.Session
import StaticSite.Proofs.Html.Scripts

/-!
# How many copies of a script a page has

An instance gives all that comes from its component the same number, and numbers go up. What is made
while the count of instances goes from `a` to `b` has scripts with numbers in between, and no more
scripts of a component with one number than the component has (`Within`). Of all numbers of a
component the page keeps one, so it has no more scripts of a component than the component has.

A component can have more scripts than were written in it: as long as they belong to no component,
those inside an instance are copied into all of its slots (`compilePage_copies_script`). Where that
does not happen a page has one copy of each script (`compilePage_scripts_le`).
-/

namespace StaticSite

open StaticSite.Html

/-- A forest that was made while the count of instances went from `a` to `b`, and that has at most
`n` scripts of an instance of the component. -/
structure Within (k : Path) (n a b : Nat) (ns : Forest) : Prop where
  flat : Flat ns
  count_eq_zero : ∀ m, (∀ i, a < i → i ≤ b → m ≠ UInt32.ofNat i) → count (·.isNumbered k m) ns = 0
  count_le : ∀ m, count (·.isNumbered k m) ns ≤ n

namespace Within

variable {k : Path} {n a b m : Nat} {ns xs ks : Forest}

theorem nil : Within k n a b [] := ⟨.nil, fun _ _ => rfl, fun _ => Nat.zero_le _⟩

theorem leaves (h : ∀ x ∈ ns, x.isLeaf = true) : Within k n a b ns := by
  refine ⟨.leaves h, fun _ _ => count_leaves h, fun _ => ?_⟩
  rw [count_leaves h]
  exact Nat.zero_le _

theorem mono (h : Within k n a b ns) {a' b' : Nat} (ha : a' ≤ a) (hb : b ≤ b') :
    Within k n a' b' ns := by
  refine ⟨h.flat, fun m hm => h.count_eq_zero m fun i hi hi' => ?_, h.count_le⟩
  exact hm i (Nat.lt_of_le_of_lt ha hi) (Nat.le_trans hi' hb)

/-- What was made first and what was made next share no numbers, as long as these do not start again
from zero. -/
theorem of_count_le (h : Within k n a m ns) (h' : Within k n m b xs) (ha : a ≤ m) (hm : m ≤ b)
    (hb : b < UInt32.size) (hks : Flat ks)
    (hle : ∀ i, count (·.isNumbered k i) ks ≤
      count (·.isNumbered k i) ns + count (·.isNumbered k i) xs) :
    Within k n a b ks := by
  refine ⟨hks, fun i hi => ?_, fun i => ?_⟩
  · have hns := h.count_eq_zero i fun j hj hj' => hi j hj (Nat.le_trans hj' hm)
    have hxs := h'.count_eq_zero i fun j hj hj' => hi j (Nat.lt_of_le_of_lt ha hj) hj'
    have := hle i
    omega
  · have hi := hle i
    by_cases hfirst : ∃ j, a < j ∧ j ≤ m ∧ i = UInt32.ofNat j
    · obtain ⟨j, -, hj, rfl⟩ := hfirst
      have hxs := h'.count_eq_zero (UInt32.ofNat j) fun j' hmj hj' heq => by
        rw [Pairing.ofNat_inj (by omega) (by omega)] at heq
        omega
      have := h.count_le (UInt32.ofNat j)
      omega
    · have hns := h.count_eq_zero i fun j hj hj' heq => hfirst ⟨j, hj, hj', heq⟩
      have := h'.count_le i
      omega

theorem append (h : Within k n a m ns) (h' : Within k n m b xs) (ha : a ≤ m) (hm : m ≤ b)
    (hb : b < UInt32.size) : Within k n a b (ns ++ xs) :=
  h.of_count_le h' ha hm hb (h.flat.append h'.flat) fun _ => Nat.le_of_eq (count_append ns xs)

theorem element {t : Tag} (ht : t.is "script" = false) (h : Within k n a b ns) :
    Within k n a b [.element t ns] := by
  have hcount : ∀ i, count (·.isNumbered k i) [.element t ns] = count (·.isNumbered k i) ns := by
    intro i
    rw [count_element, Tag.isNumbered, ht, count_nil]
    simp
  refine ⟨.element ht h.flat .nil, fun i hi => ?_, fun i => ?_⟩
  · rw [hcount]
    exact h.count_eq_zero i hi
  · rw [hcount]
    exact h.count_le i

/-- Scripts of a source belong to no component. -/
theorem script {t : Tag} (ht : t.is "script" = true) (ho : t.origin = none)
    (h : ∀ x ∈ ns, x.isLeaf = true) : Within k n a b [.element t ns] := by
  have hcount : ∀ i, count (·.isNumbered k i) [.element t ns] = 0 := by
    intro i
    rw [count_element, Tag.isNumbered, ho, count_nil, count_leaves h]
    simp
  refine ⟨.script ht h .nil, fun i _ => hcount i, fun i => ?_⟩
  rw [hcount]
  exact Nat.zero_le _

/-- A component that is spliced in has one number. -/
theorem spliced {f : Fragment} (hf : Flat f.nodes) (hn : count (·.isScriptOf k) f.nodes ≤ n)
    (tag : Tag) : Within k n a (a + 1) (f.spliced tag (UInt32.ofNat (a + 1))) := by
  have hcount : ∀ i, count (·.isNumbered k i) (f.spliced tag (UInt32.ofNat (a + 1))) =
      if UInt32.ofNat (a + 1) = i then count (·.isScriptOf k) f.nodes else 0 := by
    intro i
    unfold Fragment.spliced
    rw [count_applyProperties, count_stamp]
    intro t ps
    rw [Tag.isNumbered, Tag.isNumbered, Tag.setProperties_is, Tag.setProperties_origin]
  have hflat : Flat (stampInstance (UInt32.ofNat (a + 1)) f.nodes) := hf.mapTags fun _ => rfl
  refine ⟨hflat.applyProperties _ _, fun i hi => ?_, fun i => ?_⟩
  · rw [hcount, if_neg (hi _ (Nat.lt_succ_self a) (Nat.le_refl _)).symm]
  · rw [hcount]
    split
    · exact hn
    · exact Nat.zero_le _

/-- Slots are filled with content that was made later. -/
theorem fill {c : Compiler} (hc : c.dedupe = true) (h : Within k n a m ns) (h' : Within k n m b xs)
    (ha : a ≤ m) (hm : m ≤ b) (hb : b < UInt32.size) :
    Within k n a b (fillSlots (c.filling? xs) true ns).1 := by
  unfold Compiler.filling?
  rw [hc]
  split
  · refine h.of_count_le h' ha hm hb (h.flat.fillSlots (by simp) true) fun i => ?_
    have := count_fill_none_le (P := (·.isNumbered k i)) true ns
    omega
  · rw [if_pos rfl]
    have hflat : ∀ f ∈ some (Filling.ofContent xs), Flat f.first ∧ Flat f.later := by
      intro f hf
      cases hf
      exact ⟨h'.flat, h'.flat.stripScripts⟩
    refine h.of_count_le h' ha hm hb (h.flat.fillSlots hflat true) fun i => ?_
    have hlater : count (·.isNumbered k i) (Filling.ofContent xs).later = 0 := by
      refine h'.flat.count_stripScripts fun t ht => ?_
      obtain ⟨hs, o, ho, -⟩ := Tag.isScriptOf_iff.1 (Tag.isNumbered_le ht)
      exact ⟨hs, by rw [ho]; rfl⟩
    exact Nat.le_trans (Nat.le_add_right ..) (count_fill_some_le hlater true ns)

end Within

namespace Compiler

open Compile

/-- What a step makes has at most `n` scripts of an instance of the component. -/
def Makes (k : Path) (n : Nat) (x : Compile Forest) : Prop :=
  ∀ s ns t, outcome x s = (.ok ns, t) → t.scope.instances < UInt32.size →
    Within k n s.scope.instances t.scope.instances ns

/-- Visits find fragments with at most `n` scripts of the component. -/
structure Finds (k : Path) (n : Nat) (v : Visit) : Prop where
  extending : ∀ p, (v p).Extending
  fragment : ∀ p s f t, outcome (v p) s = (.ok (some f), t) → t.scope.instances < UInt32.size →
    Flat f.nodes ∧ count (·.isScriptOf k) f.nodes ≤ n

variable {c : Compiler} {k : Path} {n : Nat} {v : Visit}

theorem splice_makes (hc : c.dedupe = true) {f : Fragment} (hf : Flat f.nodes)
    (hn : count (·.isScriptOf k) f.nodes ≤ n) (target : Path) (tag : Tag) (children : Forest)
    {content : Compile Forest} (hext : content.Extending) (hcontent : Makes k n content) :
    Makes k n (c.splice target f tag children content) := by
  intro s ns t h ht
  have hnodes := Within.spliced (a := s.scope.instances) hf hn tag
  rcases splice_ok h with ⟨xs, hxs, rfl⟩ | ⟨rfl, hscope⟩
  · have hle := (hext (counted s)).instances_le
    rw [hxs] at hle
    exact hnodes.fill hc (hcontent _ _ _ hxs ht) (Nat.le_succ _) hle ht
  · rw [hscope]
    exact hnodes

theorem instantiate_makes (hc : c.dedupe = true) (hv : Finds k n v) (folder target : Path)
    {tag : Tag} (hs : tag.is "script" = false) (children : Forest) {content : Compile Forest}
    (hext : content.Extending) (hcontent : Makes k n content) :
    Makes k n (c.instantiate v folder target tag children content) := by
  intro s ns t h ht
  have hvisit := (hv.extending target s).instances_le
  have hall := (extends_instantiate (c := c) v folder target tag children hext s).instances_le
  rcases instantiate_ok h with rfl | ⟨f, s', hf, hns⟩ | ⟨l, xs, hxs, rfl⟩
  · exact .nil
  · rw [hf, h] at hall
    rw [hf] at hvisit
    have hs' : s'.scope.instances < UInt32.size := Nat.lt_of_le_of_lt hall ht
    obtain ⟨hflat, hn⟩ := hv.fragment target s f s' hf hs'
    have hmade := splice_makes hc hflat hn target tag children hext hcontent s' ns t hns ht
    exact hmade.mono hvisit (Nat.le_refl _)
  · exact .element hs ((hcontent _ _ _ hxs ht).mono hvisit (Nat.le_refl _))

variable {folder : Path}

mutual

theorem expandNode_makes (hc : c.dedupe = true) (hv : Finds k n v) :
    ∀ {x : Node}, x.Written → Makes k n (c.expandNode v folder x)
  | .element tag children, hx => by
    obtain ⟨ho, hscript, hchildren⟩ : tag.origin = none ∧
        (tag.is "script" = true → ∀ x ∈ children, x.isLeaf = true) ∧ Written children := by
      cases hx with
      | element ho hs hcs => exact ⟨ho, hs, hcs⟩
      | leaf h => cases h
    have hext := expand_extending (c := c) hv.extending folder children
    have hmakes := expand_makes hc hv hchildren
    unfold expandNode
    split
    · rename_i target h
      exact instantiate_makes hc hv folder target (not_script_of_targetIn h) children hext hmakes
    · intro s ns t h ht
      obtain ⟨_, s₁, hwarn, h⟩ := bind_ok h
      obtain ⟨xs, s₂, hxs, h⟩ := bind_ok h
      cases h
      obtain ⟨l, hl⟩ := outcome_warn ((c.targetIn folder tag).warning? folder) s
      rw [hl] at hwarn
      cases hwarn
      rcases hs : tag.is "script" with _ | _
      · exact .element hs (hmakes { s with log := l } xs t hxs ht)
      · rw [expand_leaves v folder (hscript hs)] at hxs
        cases hxs
        exact .script hs ho (hscript hs)
  | .text _, _ | .comment _, _ | .doctype _, _ | .instruction _, _ | .cdata _, _ => by
    intro s ns t h _
    cases h
    exact .leaves (List.forall_mem_singleton.2 rfl)

/-- What an expansion makes has no more scripts of an instance than visits find. -/
theorem expand_makes (hc : c.dedupe = true) (hv : Finds k n v) :
    ∀ {xs : Forest}, Written xs → Makes k n (c.expand v folder xs)
  | [], _ => by
    intro s ns t h _
    cases h
    exact .nil
  | x :: xs, hxs => by
    obtain ⟨hx, hxs⟩ := List.forall_mem_cons.1 hxs
    intro s ns t h ht
    rw [expand] at h
    obtain ⟨as, s₁, has, h⟩ := bind_ok h
    obtain ⟨bs, s₂, hbs, h⟩ := bind_ok h
    cases h
    have hle := (expandNode_extending (c := c) hv.extending folder x s).instances_le
    have hle' := (expand_extending (c := c) hv.extending folder xs s₁).instances_le
    rw [has] at hle
    rw [hbs] at hle'
    have hs₁ : s₁.scope.instances < UInt32.size := Nat.lt_of_le_of_lt hle' ht
    exact (expandNode_makes hc hv hx s as s₁ has hs₁).append (expand_makes hc hv hxs s₁ bs t hbs ht)
      hle hle' ht

end

/-- How many scripts of the component an instance has inside the documents `around`. There are none
inside the component itself. -/
def limit (k : Path) (n : Nat) (around : List Path) : Nat :=
  if around.any (·.same k) then 0 else n

theorem any_same_congr {p q : Path} (h : p.same q = true) (around : List Path) :
    around.any (·.same p) = around.any (·.same q) := by
  induction around with
  | nil => rfl
  | cons r around ih => rw [List.any_cons, List.any_cons, Path.same_congr h, ih]

/-- A component has the scripts that it was given, and those that are its own. -/
theorem toFragment_le (hc : c.dedupe = true) {p : Path} {around : List Path}
    (hp : around.any (·.same p) = false) (d : Document) {a b : Nat} {ns : Forest}
    (h : Within k (limit k n (p :: around)) a b ns)
    (hown : p.same k = true → count Tag.isOwnScript ns ≤ n) :
    Flat (c.toFragment p d ns).nodes ∧
      count (·.isScriptOf k) (c.toFragment p d ns).nodes ≤ limit k n around := by
  unfold toFragment
  rw [hc, if_pos rfl]
  refine ⟨(h.flat.retainFirst _).mapTags fun t => Tag.tagScript_is p t "script", ?_⟩
  have hgiven := h.flat.count_retainFirst_le (r := PathMap.empty) h.count_le
  rw [limit, List.any_cons] at hgiven
  rw [count_tagScripts, h.flat.count_retainFirst_own, limit]
  rcases hpk : p.same k with _ | _
  · rw [hpk, Bool.false_or] at hgiven
    exact hgiven
  · rw [hpk, Bool.true_or, if_pos rfl] at hgiven
    have := hown hpk
    rw [any_same_congr hpk] at hp
    rw [hp, if_pos rfl, if_neg Bool.false_ne_true]
    omega

variable {ok : Path → Forest → Bool}
  (hok : ∀ q ns, ok q ns = true → q.same k = true → count Tag.isOwnScript ns ≤ n)

include hok

theorem visit_finds (hc : c.dedupe = true) (hr : c.reuse = false) {depth : Nat}
    (ih : ∀ around d, Makes k (limit k n around) (c.expandChecked ok depth around d))
    (around : List Path) :
    Finds k (limit k n around) (c.visit (check ok (c.expandChecked ok depth)) around) := by
  refine ⟨visit_extending (check_extending (expandChecked_extending depth)) around, ?_⟩
  intro p s f t h ht
  by_cases hp : around.any (·.same p) = true
  · rw [outcome_visit_around hp] at h
    cases h
  · have hnot : around.any (·.same p) = false := by simpa using hp
    rw [outcome_visit_busy hr hnot, map_eq_pure_bind] at h
    obtain ⟨g, s', hg, h⟩ := bind_ok h
    cases h
    obtain ⟨d, ns, hd, hns, rfl⟩ := compileFragment_ok hg
    obtain ⟨hmade, hallowed⟩ := outcome_check_ok hns
    rw [Sources.document_path hd] at hallowed
    exact toFragment_le hc hnot d (ih _ d _ ns t hmade ht) (hok p ns hallowed)

/-- Documents whose components pass the check have no more scripts of an instance than are written
in its component. -/
theorem expandChecked_makes (hc : c.dedupe = true) (hr : c.reuse = false) (depth : Nat) :
    ∀ around d, Makes k (limit k n around) (c.expandChecked ok depth around d) := by
  induction depth with
  | zero =>
    intro around d s ns t h _
    cases h
  | succ depth ih =>
    intro around d s ns t h ht
    rw [expandChecked, outcome_expandSource] at h
    rcases hparse : parse d.html with e | xs
    · rw [hparse] at h
      cases h
    · rw [hparse] at h
      exact expand_makes hc (visit_finds hok hc hr ih around) (parse_written hparse) s ns t h ht

omit hok

/-- How many scripts are written in the component. -/
def scriptsWritten (c : Compiler) (k : Path) : Nat :=
  match c.sources.document k with
  | .ok d =>
    match parse d.html with
    | .ok ns => count (·.is "script") ns
    | .error _ => 0
  | .error _ => 0

/-- Whether the document at `q`, expanded to `ns`, is another one than the component, or has no more
scripts of its own than are written in it. -/
def copiesNoScript (c : Compiler) (k q : Path) (ns : Forest) : Bool :=
  !q.same k || decide (count Tag.isOwnScript ns ≤ c.scriptsWritten k)

/-- A component has more scripts than are written in it exactly if its expansion copies some. -/
theorem copiesNoScript_iff (hc : c.dedupe = true) (d : Document) {ns : Forest} (h : Flat ns)
    (hk : count (·.isScriptOf k) ns = 0) :
    c.copiesNoScript k k ns = true ↔
      count (·.isScriptOf k) (c.toFragment k d ns).nodes ≤ c.scriptsWritten k := by
  have hgiven := count_retainFirst_le (P := (·.isScriptOf k)) PathMap.empty ns
  unfold copiesNoScript toFragment
  rw [hc, if_pos rfl, count_tagScripts, h.count_retainFirst_own, Path.same_refl, if_pos rfl,
    Bool.not_true, Bool.false_or, decide_eq_true_iff]
  omega

/-- A page has no more scripts of a component than are written in it, if no expansion of the
component copies them. -/
theorem exists_single (hc : c.dedupe = true) (hr : c.reuse = false) {p : Path}
    (hpk : p.same k = false) (h : c.checks (c.copiesNoScript k) p = true)
    (hlt : (c.pageAfter [] p).2.scope.instances < UInt32.size) :
    ∃ ms, (c.pageAfter [] p).1 = .ok ms ∧
      count (·.isScriptOf k) ms ≤ c.scriptsWritten k := by
  have hok : ∀ q ns, c.copiesNoScript k q ns = true → q.same k = true →
      count Tag.isOwnScript ns ≤ c.scriptsWritten k := by
    intro q ns h hqk
    rw [copiesNoScript, hqk] at h
    exact of_decide_eq_true h
  obtain ⟨d, ns, t, hd, hchecked⟩ := exists_of_checks h
  obtain ⟨t', hexpanded, hscope⟩ := expandChecked_eq hchecked
  obtain ⟨hpage, hinstances⟩ := compilePage_ok hd hexpanded
  change (outcome (c.compilePage p) {}).2.scope.instances < UInt32.size at hlt
  rw [hinstances, hscope] at hlt
  have hwithin := expandChecked_makes hok hc hr c.depth [p] d {} ns t hchecked hlt
  have hlimit : limit k (c.scriptsWritten k) [p] = c.scriptsWritten k := by
    rw [limit, List.any_cons, hpk]
    rfl
  rw [hc, if_pos rfl] at hpage
  refine ⟨_, hpage, hwithin.flat.count_retainFirst_le fun m => ?_⟩
  rw [← hlimit]
  exact hwithin.count_le m

/-- A page has no more scripts of a component than are written in it, after every session, if no
expansion of the component copies them: if its own scripts do not stand in the content of an
instance that several slots receive. -/
theorem compilePage_scripts_le (r : References) (files : PathMap (Except String String))
    (events : List Event) (p k : Path) (hpk : p.same k = false)
    (hlt : ∀ q ∈ p :: pages events,
      (pageAfter ⟨r, .ofFiles files, false, true⟩ [] q).2.scope.instances < UInt32.size)
    (hok : checks ⟨r, .ofFiles files, false, true⟩
      (copiesNoScript ⟨r, .ofFiles files, false, true⟩ k) p = true) :
    (∃ ms, (pageAfter ⟨r, .ofFiles files, true, true⟩ events p).1 = .ok ms ∧
      count (·.isScriptOf k) ms ≤ scriptsWritten ⟨r, .ofFiles files, true, true⟩ k) ∧
    ∀ d ns, Flat ns → count (·.isScriptOf k) ns = 0 →
      (copiesNoScript ⟨r, .ofFiles files, true, true⟩ k k ns = true ↔
        count (·.isScriptOf k) (toFragment ⟨r, .ofFiles files, true, true⟩ k d ns).nodes ≤
          scriptsWritten ⟨r, .ofFiles files, true, true⟩ k) := by
  refine ⟨?_, fun d ns => copiesNoScript_iff rfl d⟩
  obtain ⟨hp, -⟩ := List.forall_mem_cons.1 hlt
  obtain ⟨ms, hms, hle⟩ := exists_single (c := ⟨r, .ofFiles files, false, true⟩) rfl rfl hpk hok hp
  obtain ⟨ms', hms', halike⟩ := (pageAfter_resembles r files true hlt).exists_ok hms
  refine ⟨ms', hms', ?_⟩
  rw [halike.count_isScriptOf]
  exact hle

theorem compilePage_scripts_le_sample :
    (∀ q ∈ ⟨"/s/index.html"⟩ :: pages sampleSession,
      ((siteCompiler sampleSite false true).pageAfter [] q).2.scope.instances < UInt32.size) ∧
    (siteCompiler sampleSite false true).checks
      ((siteCompiler sampleSite false true).copiesNoScript ⟨"/s/c/card.html"⟩)
      ⟨"/s/index.html"⟩ = true ∧
    ∃ ms, ((siteCompiler sampleSite true true).pageAfter sampleSession
        ⟨"/s/index.html"⟩).1 = .ok ms ∧
      count (·.isScriptOf ⟨"/s/c/card.html"⟩) ms ≤
        (siteCompiler sampleSite true true).scriptsWritten ⟨"/s/c/card.html"⟩ := by
  have hlt : ∀ q ∈ ⟨"/s/index.html"⟩ :: pages sampleSession,
      ((siteCompiler sampleSite false true).pageAfter [] q).2.scope.instances < UInt32.size := by
    decide +kernel
  have hok : (siteCompiler sampleSite false true).checks
      ((siteCompiler sampleSite false true).copiesNoScript ⟨"/s/c/card.html"⟩)
      ⟨"/s/index.html"⟩ = true := by decide +kernel
  exact ⟨hlt, hok,
    (compilePage_scripts_le _ _ sampleSession _ ⟨"/s/c/card.html"⟩ (by decide) hlt hok).1⟩

/-- A component with a script in the content of an instance that has two slots. -/
def copyingSite : PathMap (Except String String) :=
  ⟨[(⟨"/s/index.html"⟩, .ok "<x-card></x-card>"),
    (⟨"/s/c/card.html"⟩, .ok "<x-two><script>a()</script></x-two>"),
    (⟨"/s/c/two.html"⟩, .ok "<p><slot></slot></p><b><slot></slot></b>")]⟩

/-- A page can have two copies of the only script that is written in a component. -/
theorem compilePage_copies_script :
    (siteCompiler copyingSite true true).scriptsWritten ⟨"/s/c/card.html"⟩ = 1 ∧
      ((siteCompiler copyingSite true true).pageAfter [] ⟨"/s/index.html"⟩).1.toOption.map
        (count (·.isScriptOf ⟨"/s/c/card.html"⟩)) = some 2 := by
  decide +kernel

end Compiler

end StaticSite
