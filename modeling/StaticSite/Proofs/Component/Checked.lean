import StaticSite.Proofs.Component.Lockstep
import StaticSite.Proofs.Component.Unroll

/-!
# Compiles that check components

`Compiler.expandChecked` expands a document as long as the documents inside it expand to what a
check allows, and gives up where one does not. `Compiler.checks` says that a page is compiled
without giving up, so that the check holds of every component of the page.

A checked compile is followed by a compile that checks nothing, if the link needs the check for
fragments only (`Compiler.expandChecked_follows`). In particular it makes the same page.
-/

namespace StaticSite

open StaticSite.Html

namespace Compiler

open Compile Link

/-- Gives up where a document expands to something that the check does not allow. -/
def check (ok : Path → Forest → Bool) (enter : List Path → Document → Compile Forest)
    (around : List Path) (d : Document) : Compile Forest := do
  let ns ← enter around d
  if ok d.path ns then return ns else throw (.tooDeep d.path)

/-- Expands a document, and checks the documents inside it. -/
def expandChecked (c : Compiler) (ok : Path → Forest → Bool) :
    (depth : Nat) → (around : List Path) → Document → Compile Forest
  | 0, _, d => throw (.tooDeep d.path)
  | depth + 1, around, d =>
    c.expandSource (c.visit (check ok (c.expandChecked ok depth)) around) d.path d.folder d.html

/-- Whether the page has nothing but components that the check allows. -/
def checks (c : Compiler) (ok : Path → Forest → Bool) (p : Path) : Bool :=
  (outcome (c.compilePageBy (c.expandChecked ok c.depth) p) {}).1.isOk

variable {c c' : Compiler} {ok : Path → Forest → Bool}

theorem check_extending {enter : List Path → Document → Compile Forest}
    (h : ∀ around d, (enter around d).Extending) (around : List Path) (d : Document) :
    (check ok enter around d).Extending := by
  refine (h around d).bind fun ns => ?_
  split
  · exact .pure _
  · exact fun s => .refl s

theorem expandChecked_extending (depth : Nat) :
    ∀ around d, (c.expandChecked ok depth around d).Extending := by
  induction depth with
  | zero => exact fun _ _ s => .refl s
  | succ depth ih =>
    exact fun around d => expandSource_extending (visit_extending (check_extending ih) around) _ _ _

/-- What passes a check is what was made, and is allowed. -/
theorem outcome_check_ok {enter : List Path → Document → Compile Forest} {around : List Path}
    {d : Document} {s t : Progress} {ns : Forest}
    (h : outcome (check ok enter around d) s = (.ok ns, t)) :
    outcome (enter around d) s = (.ok ns, t) ∧ ok d.path ns = true := by
  unfold check at h
  rw [outcome_bind] at h
  generalize outcome (enter around d) s = o at h ⊢
  obtain ⟨e | ms, s'⟩ := o
  · cases h
  · dsimp only at h
    split at h
    · rename_i hok
      cases h
      exact ⟨rfl, hok⟩
    · cases h

section Follow

variable {W : Type} [Preorder W] {L : Link c c' W} (hleft : L.excuseLeft)

include hleft

theorem check_follows {enter enter' : List Path → Document → Compile Forest} {around : List Path}
    {d : Document} {w : W}
    (h : L.Follows w L.Alike (enter around d) (enter' around d)) :
    L.Follows w (fun w ns ms => L.Alike w ns ms ∧ ok d.path ns = true) (check ok enter around d)
      (enter' around d) := by
  intro s t hst
  have h' := h s t hst
  unfold check
  rw [outcome_bind]
  generalize outcome (enter around d) s = o at h' ⊢
  generalize outcome (enter' around d) t = o' at h' ⊢
  cases h' with
  | @ok _ ns _ _ _ hw hst' ha =>
    dsimp only
    rcases hok : ok d.path ns with _ | _
    · exact .left hleft
    · exact .ok hw hst' ⟨ha, hok⟩
  | error hw hst' => exact .error hw hst'
  | lost hl =>
    obtain ⟨e | ns, s'⟩ := o
    · exact .lost hl
    · dsimp only
      split
      · exact .lost hl
      · exact .left hleft
  | left he => exact .left he
  | right he => exact .right he

variable (hs : c.sources = c'.sources)
  (htarget : ∀ folder tag, c.targetIn folder tag = c'.targetIn folder tag)
  (hr : c.reuse = c'.reuse) (hL : L.Scoped)
  (hfragment : ∀ {w : W} {ns ms : Forest} (d : Document), L.Alike w ns ms →
    ok d.path ns = true → L.Fragments (c.toFragment d.path d ns) (c'.toFragment d.path d ms))

include hs htarget hr hL hfragment

/-- A compile follows one that checks its components, if checked forests make fragments that
correspond. -/
theorem expandChecked_follows (depth : Nat) (around : List Path) (d : Document) (w : W) :
    L.caching.Follows w L.Alike (c.expandChecked ok depth around d)
      (c'.expandDocument depth around d) := by
  induction depth generalizing around d w with
  | zero => exact fun _ _ hst => .error (le_refl w) hst
  | succ depth ih =>
    refine expandSource_follows (visits_caching hL hr
      (check_extending (expandChecked_extending depth)) (expandDocument_extending depth)
      fun w p => ?_) (htarget _) _ _
    refine compileFragment_follows hs
      (fun d _ => check_follows (L := L.caching) hleft (ih _ d w)) (fun d hd _ _ h => ?_)
    have hpath : d.path = p := Sources.document_path hd
    rw [← hpath]
    exact hfragment d h.1 h.2

end Follow

/-- A compile that gives up nowhere makes the same page as one that checks nothing. -/
theorem expandChecked_agree (c : Compiler) (ok : Path → Forest → Bool) (depth : Nat)
    (around : List Path) (d : Document) (s : Progress) :
    (Link.equal c True).caching.Agree .fixed (fun _ => Eq)
      (outcome (c.expandChecked ok depth around d) s)
      (outcome (c.expandDocument depth around d) s) := by
  have hscoped : (Link.equal c True).Scoped := by
    refine ⟨fun _ _ h => h, fun {_ s t} h => ?_⟩
    have hscope : s.scope = t.scope := h
    show { s.scope with cuts := s.scope.cuts + 1 } = { t.scope with cuts := t.scope.cuts + 1 }
    rw [hscope]
  refine expandChecked_follows (L := Link.equal c True) trivial rfl (fun _ _ => rfl) rfl hscoped
    (fun d hnm _ => ?_) depth around d Fixed.fixed s s
    ⟨rfl, rfl, Cache.Alike.refl (fun _ => rfl) s.cache⟩
  rw [show _ = _ from hnm]
  rfl

theorem expandChecked_eq {depth : Nat} {around : List Path} {d : Document} {s t : Progress}
    {ns : Forest} (h : outcome (c.expandChecked ok depth around d) s = (.ok ns, t)) :
    ∃ t', outcome (c.expandDocument depth around d) s = (.ok ns, t') ∧ t'.scope = t.scope := by
  have hagree := expandChecked_agree c ok depth around d s
  rw [h] at hagree
  rcases hagree.cases (fun _ _ h => h) (fun h => h) (fun _ h => by cases h) with
    ⟨_, _, _, _, t', hok, hexpanded, hst, rfl⟩ | ⟨_, _, _, he, -⟩
  · cases hok
    exact ⟨t', hexpanded, Eq.symm hst.1⟩
  · cases he

/-- The documents of a page that passes its check. -/
theorem exists_of_checks {p : Path} (h : c.checks ok p = true) :
    ∃ d ns t, c.sources.document p = .ok d ∧
      outcome (c.expandChecked ok c.depth [p] d) {} = (.ok ns, t) := by
  unfold checks compilePageBy at h
  rw [outcome_bind, outcome_except] at h
  rcases hd : c.sources.document p with e | d
  · rw [hd] at h
    cases h
  · rw [hd] at h
    dsimp only at h
    rw [outcome_bind] at h
    rcases ho : outcome (c.expandChecked ok c.depth [p] d) {} with ⟨e | ns, t⟩
    · rw [ho] at h
      cases h
    · exact ⟨d, ns, t, rfl, ho⟩

end Compiler

end StaticSite
