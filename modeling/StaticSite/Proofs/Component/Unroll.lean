import StaticSite.Proofs.Component.Numbering

/-!
# Components without the documents around them

`Compiler.unroll` compiles a component as if it were not inside any document, and the components in
it likewise, down to a given depth. A component that contains itself uses up every depth. The others
are settled from some depth on: they unroll to the same fragment at every greater depth
(`Compiler.Settled.unroll_eq`), and at every path of the same place
(`Compiler.exists_unroll_of_same`).
-/

namespace StaticSite

open StaticSite.Html

/-- For each component its fragment, or why there is none, and how many instances it takes to make
the fragment. -/
abbrev Known := Path → Except CompileError Fragment × Nat

namespace Compile

/-- What is left behind when `n` more instances were counted. -/
def advanced (n : Nat) (s : Progress) : Progress :=
  { s with scope := { s.scope with instances := s.scope.instances + n } }

/-- Takes a component that is known. -/
def retrieve (known : Known) (p : Path) : Compile Fragment := do
  modify (advanced (known p).2)
  ((known p).1 : Except CompileError Fragment)

theorem outcome_retrieve (known : Known) (p : Path) (s : Progress) :
    outcome (retrieve known p) s = ((known p).1, advanced (known p).2 s) := by
  unfold retrieve
  rcases known p with ⟨_ | _, _⟩ <;> rfl

/-- Visits components that are known. -/
def revisit (known : Known) : Compiler.Visit := fun p => some <$> retrieve known p

theorem revisit_extending (known : Known) (p : Path) : (revisit known p).Extending := by
  intro s
  rw [revisit, outcome_map, outcome_retrieve]
  exact ⟨Nat.le_add_right .., Nat.le_refl _, rfl⟩

end Compile

namespace Compiler

open Compile Link

/-- Expands a document whose components are known. -/
def expandKnown (c : Compiler) (known : Known) (d : Document) : Compile Forest :=
  c.expandSource (revisit known) d.path d.folder d.html

/-- Compiles components that are nested at most `depth` levels deep. -/
def unroll (c : Compiler) : (depth : Nat) → Known
  | 0, p => (.error (.tooDeep p), 0)
  | depth + 1, p =>
    let o := outcome (c.compileFragment (c.expandKnown (c.unroll depth)) p) {}
    (o.1, o.2.scope.instances)

/-- The component does not use up the depth. -/
def Settled (c : Compiler) (depth : Nat) (p : Path) : Prop :=
  ∀ q, (c.unroll depth p).1 ≠ .error (.tooDeep q)

variable {c : Compiler}

theorem not_settled_iff {depth : Nat} {p : Path} :
    ¬c.Settled depth p ↔ ∃ q, (c.unroll depth p).1 = .error (.tooDeep q) := by
  rw [Settled, not_forall]
  simp only [ne_eq, not_not]

theorem not_settled_zero (p : Path) : ¬c.Settled 0 p := fun h => h p rfl

end Compiler

/-- Links a compiler to itself by equality, whatever is logged, where the left compile may be given
less depth. -/
def Link.equal (c : Compiler) (shallow : Prop) : Link c c Link.Fixed where
  Together _ s t := s.scope = t.scope
  Alike _ := Eq
  Fragments := Eq
  Lost _ _ := False
  excuseLeft := shallow
  excuseRight := False
  lost_extends h _ _ := h
  log _ _ h := h
  mono _ h := h
  nil _ := rfl
  append h h' := by rw [h, h']
  leaf _ _ _ := rfl
  element _ _ h := by rw [h]
  stamp {w _ _ _ _} tag h hfg :=
    ⟨w, le_refl w, by rw [Compile.counted, Compile.counted, h], by rw [h, hfg]⟩
  hasSlot h := by rw [h]
  fill h h' := by rw [h, h']

namespace Compiler

open Compile Link

variable {c : Compiler}

theorem revisit_equal {shallow : Prop} {known known' : Known}
    (h : ∀ p, shallow ∧ (∃ q, (known p).1 = .error (.tooDeep q)) ∨ known p = known' p) :
    (Link.equal c shallow).Visits (revisit known) (revisit known') := by
  refine ⟨fun w p s t hst => ?_, revisit_extending known, revisit_extending known'⟩
  rw [revisit, revisit, outcome_map, outcome_map, outcome_retrieve, outcome_retrieve]
  rcases h p with ⟨hs, q, hq⟩ | hp
  · rw [hq]
    exact .left hs
  · have hst' : (advanced (known p).2 s).scope = (advanced (known' p).2 t).scope := by
      simp only [advanced, hp, show s.scope = t.scope from hst]
    rw [hp] at hst' ⊢
    rcases (known' p).1 with e | f
    · exact .error (le_refl w) hst'
    · exact .ok (le_refl w) hst' (.some rfl)

/-- A settled component unrolls to the same at the next depth. -/
theorem unroll_succ {depth : Nat} :
    ∀ {p : Path}, c.Settled depth p → c.unroll (depth + 1) p = c.unroll depth p := by
  induction depth with
  | zero => exact fun h => absurd h (not_settled_zero _)
  | succ depth ih =>
    intro p hp
    have hv : (Link.equal c True).Visits (revisit (c.unroll depth))
        (revisit (c.unroll (depth + 1))) := by
      refine revisit_equal fun q => ?_
      by_cases hq : c.Settled depth q
      · exact .inr (ih hq).symm
      · exact .inl ⟨trivial, not_settled_iff.1 hq⟩
    have h : (Link.equal c True).Agree .fixed (fun _ => Eq)
        (outcome (c.compileFragment (c.expandKnown (c.unroll depth)) p) {})
        (outcome (c.compileFragment (c.expandKnown (c.unroll (depth + 1))) p) {}) := by
      refine compileFragment_follows (A := fun _ _ => Eq) rfl (fun d _ => ?_)
        (fun d _ _ _ h => ?_) _ _ rfl
      · exact expandSource_follows hv (fun _ => rfl) _ _
      · rw [show _ = _ from h]
        rfl
    rw [Settled, unroll] at hp
    rw [unroll, unroll]
    generalize outcome (c.compileFragment (c.expandKnown (c.unroll depth)) p) {} = o at h hp ⊢
    generalize outcome (c.compileFragment (c.expandKnown (c.unroll (depth + 1))) p) {} = o' at h ⊢
    cases h with
    | ok _ hst hab =>
      cases hab
      exact Prod.ext rfl (congrArg PageScope.instances hst.symm)
    | error _ hst => exact Prod.ext rfl (congrArg PageScope.instances hst.symm)
    | lost hlost => exact hlost.elim
    | left _ => exact absurd rfl (hp _)
    | right he => exact he.elim

theorem Settled.unroll_eq {depth depth' : Nat} {p : Path} (hp : c.Settled depth p)
    (h : depth ≤ depth') : c.unroll depth' p = c.unroll depth p := by
  induction h with
  | refl => rfl
  | @step depth' _ ih =>
    have hp' : c.Settled depth' p := by
      rw [Settled, ih]
      exact hp
    rw [unroll_succ hp', ih]

theorem Settled.mono {depth depth' : Nat} {p : Path} (hp : c.Settled depth p)
    (h : depth ≤ depth') : c.Settled depth' p := by
  rw [Settled, hp.unroll_eq h]
  exact hp

/-- A component has one fragment at all depths at which it is settled. -/
theorem Settled.unique {depth depth' : Nat} {p : Path} (hp : c.Settled depth p)
    (hp' : c.Settled depth' p) : c.unroll depth p = c.unroll depth' p := by
  rcases Nat.le_total depth depth' with h | h
  · exact (hp.unroll_eq h).symm
  · exact hp'.unroll_eq h

theorem settled_of_ok {depth : Nat} {p : Path} {f : Fragment}
    (h : (c.unroll depth p).1 = .ok f) : c.Settled depth p := by
  intro q hq
  rw [h] at hq
  cases hq

theorem targetIn_congr {folder folder' : Path} (h : folder.same folder' = true) (tag : Tag) :
    c.targetIn folder tag = c.targetIn folder' tag :=
  c.toReferences.target_congr _ h tag

/-- Two results for components of the same place: fragments that cannot be told apart, or errors
of which none or both say that the depth was used up. -/
inductive SameResult : Except CompileError Fragment → Except CompileError Fragment → Prop where
  | ok {f g : Fragment} (h : f.Alike g) : SameResult (.ok f) (.ok g)
  | error {e e' : CompileError} (h : e.IsOfDocument ↔ e'.IsOfDocument) :
      SameResult (.error e) (.error e')

theorem unroll_same {files : PathMap (Except String String)} (hc : c.sources = .ofFiles files)
    {p q : Path} (h : p.same q = true) (depth : Nat) :
    SameResult (c.unroll depth p).1 (c.unroll depth q).1 := by
  rcases depth with _ | depth
  · exact .error Iff.rfl
  rw [unroll, unroll, outcome_compileFragment, outcome_compileFragment]
  rcases hd : c.sources.document p with e | d
  · rcases hq : c.sources.document q with e' | d'
    · exact .error (iff_of_true (Sources.document_error hd) (Sources.document_error hq))
    · rw [hc] at hd hq
      rw [(Sources.document_congr ((Path.same_comm q p).trans h) hq).1] at hd
      cases hd
  obtain ⟨hq, hpath⟩ : c.sources.document q = .ok { d with path := q } ∧ d.path = p := by
    rw [hc] at hd ⊢
    exact Sources.document_congr h hd
  rw [hq]
  dsimp only
  rw [outcome_map, outcome_map, expandKnown, expandKnown, outcome_expandSource,
    outcome_expandSource]
  rcases hparse : parse d.html with e | ns
  · exact .error Iff.rfl
  have hfolder : d.folder.same ({ d with path := q } : Document).folder = true := by
    refine Document.folder_congr ?_
    rw [hpath]
    exact h
  have hv : (Link.equal c False).Visits (revisit (c.unroll depth)) (revisit (c.unroll depth)) :=
    revisit_equal fun _ => .inr rfl
  have hagree := expand_follows hv (targetIn_congr hfolder) (parse_written hparse) .fixed
    (noted p {}) (noted q {}) rfl
  dsimp only
  generalize outcome (c.expand _ d.folder ns) _ = o at hagree ⊢
  generalize outcome (c.expand _ _ ns) _ = o' at hagree ⊢
  cases hagree with
  | @ok _ kept _ _ _ _ _ hab =>
    cases hab
    have hsame : ∀ o o' : Origin, o = o' → o.component.same o'.component = true := by
      rintro o _ rfl
      exact Path.same_refl _
    have hrefl := Html.Alike.refl (R := Eq) (fun _ => rfl)
    exact .ok ⟨rfl, Pairing.tagScripts_alike hsame h (hrefl _)⟩
  | error _ _ => exact .error Iff.rfl
  | lost hlost => exact hlost.elim
  | left he => exact he.elim
  | right he => exact he.elim

/-- Paths of the same place unroll to fragments that cannot be told apart. -/
theorem exists_unroll_of_same {files : PathMap (Except String String)}
    (hc : c.sources = .ofFiles files) {p q : Path} (h : p.same q = true) {depth : Nat}
    {f : Fragment} (hf : (c.unroll depth p).1 = .ok f) :
    ∃ g, (c.unroll depth q).1 = .ok g ∧ f.Alike g := by
  have hr := unroll_same hc h depth
  generalize (c.unroll depth q).1 = r at hr ⊢
  rw [hf] at hr
  cases hr with
  | ok hfg => exact ⟨_, rfl, hfg⟩

theorem Settled.congr {files : PathMap (Except String String)} (hc : c.sources = .ofFiles files)
    {p q : Path} (h : p.same q = true) {depth : Nat} (hp : c.Settled depth p) :
    c.Settled depth q := by
  intro r hr
  have hs := unroll_same hc h depth
  rw [hr] at hs
  rw [Settled] at hp
  generalize (c.unroll depth p).1 = x at hs hp
  cases hs with
  | @error e _ he =>
    cases e with
    | tooDeep r => exact hp r rfl
    | _ => exact he.1 trivial

end Compiler

end StaticSite
