import StaticSite.Proofs.Component.Outcome
import StaticSite.Proofs.Sources

/-!
# Nested documents

A compile expands a document inside the documents around it. No document is ever expanded inside
itself, and only documents that were read are expanded, so they are nested no deeper than there are
documents, and the depth of a compile is never used up. This holds for every cache, as what a cache
serves is not expanded again.

To say that something never happens, `Compiler.expandWhile` does anything else as soon as it
happens, and `Compiler.expandWhile_eq` says that nobody can tell the difference.
-/

namespace StaticSite

open StaticSite.Html

namespace Compile

variable {α : Type}

theorem ext_outcome {x y : Compile α} (h : ∀ s, outcome x s = outcome y s) : x = y := funext h

end Compile

namespace Compiler

open Compile

/-- Expands a document as `expandDocument` does while the documents nested in each other are as `ok`
says. Where they are not, and where the depth is used up, it does something else. -/
def expandWhile (c : Compiler) (ok : List Path → Bool)
    (other : List Path → Document → Compile Forest) :
    (depth : Nat) → (around : List Path) → Document → Compile Forest
  | 0, around, d => other around d
  | depth + 1, around, d =>
    if ok around then
      c.expandSource (c.visit (c.expandWhile ok other depth) around) d.path d.folder d.html
    else other around d

variable {c : Compiler}

theorem compileFragment_congr {enter enter' : Document → Compile Forest} {p : Path}
    (h : ∀ d, c.sources.document p = .ok d → enter d = enter' d) :
    c.compileFragment enter p = c.compileFragment enter' p := by
  refine ext_outcome fun s => ?_
  rw [outcome_compileFragment, outcome_compileFragment]
  rcases hd : c.sources.document p with e | d
  · rfl
  · dsimp only
    rw [h d hd]

/-- A visit expands nothing but the document that it visits, and that only if it is not one of the
documents around. -/
theorem visit_congr {enter enter' : List Path → Document → Compile Forest} {around : List Path}
    {p : Path} (h : around.any (·.same p) = false → ∀ d, c.sources.document p = .ok d →
      enter (p :: around) d = enter' (p :: around) d) :
    c.visit enter around p = c.visit enter' around p := by
  unfold visit
  by_cases hp : around.any (·.same p) = true
  · rw [if_pos hp, if_pos hp]
  · rw [if_neg hp, if_neg hp]
    have := compileFragment_congr (h (by simpa using hp))
    simp only [compileClaimed, this]

/-- A document nested in different documents that were read is expanded in the same way whatever is
done elsewhere, if the depth suffices for all documents. -/
theorem expandWhile_eq {files : PathMap (Except String String)} (hc : c.sources = .ofFiles files)
    (other : List Path → Document → Compile Forest) {depth : Nat} :
    ∀ {depth' : Nat} {around : List Path} (d : Document), c.sources.nests around = true →
      c.sources.bound < depth + around.length → c.sources.bound < depth' + around.length →
      c.expandWhile c.sources.nests other depth around d = c.expandDocument depth' around d := by
  have hle : ∀ {around : List Path}, c.sources.nests around = true →
      around.length ≤ c.sources.bound := by
    intro around h
    obtain ⟨hd, hr⟩ := Sources.nests_iff.1 h
    rw [hc] at hr ⊢
    exact Sources.length_le_bound hd hr
  induction depth with
  | zero =>
    intro depth' around d hn hb _
    have := hle hn
    omega
  | succ depth ih =>
    intro depth' around d hn hb hb'
    obtain ⟨k, rfl⟩ : ∃ k, depth' = k + 1 := ⟨depth' - 1, by have := hle hn; omega⟩
    have hv : c.visit (c.expandWhile c.sources.nests other depth) around =
        c.visit (c.expandDocument k) around := by
      funext p
      refine visit_congr fun hp d hd => ?_
      refine ih d (Sources.nests_cons.2 ⟨hp, ⟨d, hd⟩, hn⟩) ?_ ?_
      · rw [List.length_cons]; omega
      · rw [List.length_cons]; omega
    rw [expandWhile, if_pos hn, expandDocument, hv]

/-- Nothing but documents that cannot be read or parsed makes an expansion fail, if nothing else
does. -/
theorem expandWhile_safe {ok : List Path → Bool} {other : List Path → Document → Compile Forest}
    (ho : ∀ around d, Safe (fun _ => True) CompileError.IsOfDocument (other around d))
    (depth : Nat) : ∀ around d,
      Safe (fun _ => True) CompileError.IsOfDocument (c.expandWhile ok other depth around d) := by
  have hI : Lasting fun _ => True := ⟨⟨fun _ h => h, fun h => h⟩, fun _ h => h, fun h => h⟩
  induction depth with
  | zero => exact ho
  | succ depth ih =>
    intro around d
    unfold expandWhile
    split
    · refine expandSource_safe hI.toSteady (fun p => ?_) _ _ _ fun e => parseAt_error
      exact (visit_safe hI (fun _ d _ => ih _ d) fun e => Sources.document_error).uncaught
    · exact ho around d

theorem outcome_compilePageBy (enter : List Path → Document → Compile Forest) (p : Path)
    (s : Progress) :
    outcome (c.compilePageBy enter p) s =
      match c.sources.document p with
      | .ok d => outcome (enter [p] d >>= c.finishPage) s
      | .error e => (.error e, s) := by
  unfold compilePageBy
  rw [outcome_bind, outcome_except]
  rcases c.sources.document p with e | d
  · rfl
  · rfl

/-- A page is what its document expands to, less the scripts of later instances. -/
theorem compilePage_ok {p : Path} {d : Document} (hd : c.sources.document p = .ok d) {ns : Forest}
    {t : Progress} (h : outcome (c.expandDocument c.depth [p] d) {} = (.ok ns, t)) :
    (outcome (c.compilePage p) {}).1 =
        .ok (if c.dedupe then (retainFirst PathMap.empty ns).1 else ns) ∧
      (outcome (c.compilePage p) {}).2.scope.instances = t.scope.instances := by
  have hext := expandDocument_extending (c := c) c.depth [p] d {}
  rw [h] at hext
  have hscripts : t.scope.scripts = PathMap.empty := hext.scripts_eq
  unfold compilePage
  rw [outcome_compilePageBy, hd]
  dsimp only
  rw [outcome_bind, h]
  dsimp only
  rw [outcome_finishPage, hscripts]
  split
  · exact ⟨rfl, rfl⟩
  · exact ⟨rfl, rfl⟩

theorem isOfDocument_of_ne {e : CompileError}
    (h : ∀ q, e ≠ .tooDeep q) : e.IsOfDocument := by
  cases e with
  | tooDeep q => exact absurd rfl (h q)
  | _ => trivial

/-- The depth of a compile suffices for its page. -/
theorem expandDocument_error {files : PathMap (Except String String)}
    (hc : c.sources = .ofFiles files) {p : Path} {d : Document}
    (hd : c.sources.document p = .ok d) {s : Progress} {e : CompileError}
    (he : (outcome (c.expandDocument c.depth [p] d) s).1 = .error e) : e.IsOfDocument := by
  have hn : c.sources.nests [p] = true := Sources.nests_cons.2 ⟨rfl, ⟨d, hd⟩, rfl⟩
  have hb : c.sources.bound < c.depth + [p].length := Nat.lt_succ_self _
  rw [← expandWhile_eq hc (fun _ _ => pure []) d hn hb hb] at he
  exact (expandWhile_safe (fun _ _ => Safe.pure _) c.depth [p] d s trivial).2 e he

theorem compilePageBy_congr {enter enter' : List Path → Document → Compile Forest} {p : Path}
    (h : ∀ d, c.sources.document p = .ok d → enter [p] d = enter' [p] d) :
    c.compilePageBy enter p = c.compilePageBy enter' p := by
  refine ext_outcome fun s => ?_
  rw [outcome_compilePageBy, outcome_compilePageBy]
  rcases hd : c.sources.document p with e | d
  · rfl
  · dsimp only
    rw [h d hd]

/-- A compile ends on every graph of references, whatever the cache holds: at every moment the
documents nested in each other are different documents that were read, so they are no more than
there are documents, and no depth beyond that number changes anything or is used up. -/
theorem compilePage_nests (r : References) (files : PathMap (Except String String))
    (reuse dedupe : Bool) (p : Path) :
    let c : Compiler := ⟨r, .ofFiles files, reuse, dedupe⟩
    (∀ other depth, files.entries.length ≤ depth →
      c.compilePageBy (c.expandWhile c.sources.nests other depth) p = c.compilePage p ∧
        c.compilePageBy (c.expandDocument depth) p = c.compilePage p) ∧
    (∀ s q, (outcome (c.compilePage p) s).1 ≠ .error (.tooDeep q)) ∧
    ∀ around, c.sources.nests around = true →
      Path.Distinct around ∧ (∀ q ∈ around, c.sources.Readable q) ∧
        around.length ≤ files.entries.length := by
  intro c
  have hpage : ∀ d, c.sources.document p = .ok d → c.sources.nests [p] = true :=
    fun d hd => Sources.nests_cons.2 ⟨rfl, ⟨d, hd⟩, rfl⟩
  refine ⟨fun other depth hdepth => ?_, fun s q hq => ?_, fun around hn => ?_⟩
  · have hb : c.sources.bound < depth + [p].length := Nat.lt_succ_of_le hdepth
    have hb' : c.sources.bound < c.depth + [p].length := Nat.lt_succ_self _
    constructor
    · exact compilePageBy_congr fun d hd => expandWhile_eq rfl other d (hpage d hd) hb hb'
    · refine compilePageBy_congr fun d hd => ?_
      rw [← expandWhile_eq rfl other d (hpage d hd) hb hb]
      exact expandWhile_eq rfl other d (hpage d hd) hb hb'
  · unfold compilePage at hq
    rw [outcome_compilePageBy] at hq
    rcases hd : c.sources.document p with e | d
    · rw [hd] at hq
      cases hq
      exact Sources.document_error hd
    · rw [hd] at hq
      dsimp only at hq
      rw [outcome_bind] at hq
      have he := fun e => expandDocument_error (e := e) rfl hd (s := s)
      generalize outcome (c.expandDocument c.depth [p] d) s = o at hq he
      obtain ⟨e | ns, t⟩ := o
      · cases hq
        exact he _ rfl
      · dsimp only at hq
        rw [outcome_finishPage] at hq
        split at hq
        · cases hq
        · cases hq
  · obtain ⟨hd, hr⟩ := Sources.nests_iff.1 hn
    exact ⟨hd, hr, Sources.length_le_bound hd hr⟩

/-- A compiler of a site in `/s` with the components in `/s/c`. -/
def siteCompiler (files : PathMap (Except String String)) (reuse dedupe : Bool) : Compiler :=
  ⟨⟨⟨⟨"/s"⟩⟩, ⟨"/s/c"⟩⟩, .ofFiles files, reuse, dedupe⟩

/-- A page that includes itself. -/
def loopingSite : PathMap (Except String String) :=
  ⟨[(⟨"/s/loop.html"⟩, .ok "<p><include src=\"loop.html\"></include></p>")]⟩

theorem compilePage_nests_looping :
    let c := siteCompiler loopingSite true true
    c.compilePageBy (c.expandWhile c.sources.nests (fun _ _ => pure []) 1) ⟨"/s/loop.html"⟩ =
        c.compilePage ⟨"/s/loop.html"⟩ ∧
      Path.Distinct [⟨"/s/loop.html"⟩] := by
  have h := compilePage_nests ⟨⟨⟨"/s"⟩⟩, ⟨"/s/c"⟩⟩ loopingSite true true ⟨"/s/loop.html"⟩
  exact ⟨(h.1 _ 1 (by decide)).1, (h.2.2 [⟨"/s/loop.html"⟩] (by decide)).1⟩

end Compiler

end StaticSite
