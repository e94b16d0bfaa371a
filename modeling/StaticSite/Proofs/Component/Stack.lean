import StaticSite.Proofs.Component.Session

/-!
# Compiles with a stack

Here a compile keeps the documents around on a stack, which is a part of its state: a document is
pushed before it is expanded and popped whether its expansion succeeds or fails. The components
whose claims were refused, as somebody else was compiling them, are noted.

`Stacked.Mirrors` says that such a compile does what a compile does that is told the documents
around, and what both leave of the claims of components. It is proved along the definitions, from
what it says about visits.
-/

namespace StaticSite

open StaticSite.Html

/-- What a compile with a stack changes, also where it fails. -/
structure Machine where
  /-- The documents around, the innermost first. -/
  stack : List Path := []
  /-- The components whose claims were refused, in order. -/
  refused : List Path := []
  /-- What is changed by a compile that is told the documents around. -/
  progress : Progress := {}

/-- A step of a compile with a stack. -/
abbrev Stacked := ExceptT CompileError (StateM Machine)

namespace Stacked

open Compile

variable {α β : Type}

/-- The result of a step that starts from `m`, and what the step leaves behind. -/
def run (step : Stacked α) (m : Machine) : Except CompileError α × Machine := ExceptT.run step m

/-- A step that leaves the stack alone. -/
def ofCompile (step : Compile α) : Stacked α := fun m =>
  ((outcome step m.progress).1, { m with progress := (outcome step m.progress).2 })

/-- Takes a step that may fail, and returns its outcome. -/
def attempt (step : Stacked α) : Stacked (Except CompileError α) := ExceptT.lift (ExceptT.run step)

/-- Starts to expand the document at a path. -/
def push (p : Path) : Stacked Unit := modify fun m => { m with stack := p :: m.stack }

/-- Ends the expansion of the innermost document. -/
def pop : Stacked Unit := modify fun m => { m with stack := m.stack.tail }

/-- Notes a claim that was refused. -/
def refuse (p : Path) : Stacked Unit := modify fun m => { m with refused := m.refused ++ [p] }

@[simp] theorem run_pure (a : α) (m : Machine) : (pure a : Stacked α).run m = (.ok a, m) := rfl

@[simp] theorem run_throw (e : CompileError) (m : Machine) :
    (throw e : Stacked α).run m = (.error e, m) := rfl

theorem run_bind (x : Stacked α) (f : α → Stacked β) (m : Machine) :
    (x >>= f).run m =
      match x.run m with
      | (.ok a, m') => (f a).run m'
      | (.error e, m') => (.error e, m') := by
  show (ExceptT.bindCont f (x m).1) (x m).2 = _
  unfold run ExceptT.run
  rcases x m with ⟨_ | _, _⟩ <;> rfl

@[simp] theorem run_map (f : α → β) (x : Stacked α) (m : Machine) :
    (f <$> x).run m = ((x.run m).1.map f, (x.run m).2) := by
  rw [map_eq_pure_bind, run_bind]
  rcases x.run m with ⟨_ | _, _⟩ <;> rfl

@[simp] theorem run_attempt (x : Stacked α) (m : Machine) :
    (attempt x).run m = (.ok (x.run m).1, (x.run m).2) := rfl

@[simp] theorem run_ofCompile (x : Compile α) (m : Machine) :
    (ofCompile x).run m =
      ((outcome x m.progress).1, { m with progress := (outcome x m.progress).2 }) := rfl

@[simp] theorem run_push (p : Path) (m : Machine) :
    (push p).run m = (.ok (), { m with stack := p :: m.stack }) := rfl

@[simp] theorem run_pop (m : Machine) : pop.run m = (.ok (), { m with stack := m.stack.tail }) :=
  rfl

@[simp] theorem run_refuse (p : Path) (m : Machine) :
    (refuse p).run m = (.ok (), { m with refused := m.refused ++ [p] }) := rfl

@[simp] theorem run_get (m : Machine) : (get : Stacked Machine).run m = (.ok m, m) := rfl

/-! ## The compile -/

/-- Visits a component. -/
abbrev Visit := Path → Stacked (Option Fragment)

/-- Splices an instance of a fragment in. -/
def splice (c : Compiler) (target : Path) (f : Fragment) (tag : Tag) (children : Forest)
    (content : Stacked Forest) : Stacked Forest := do
  let number ← ofCompile countInstance
  let nodes := f.spliced tag number
  if hasSlot nodes then
    let content ← content
    return (fillSlots (c.filling? content) true nodes).1
  else
    if !children.all Node.isBlank then
      ofCompile (detail "compile" s!"`{target}` has no <slot>, instance content dropped")
    return nodes

/-- Replaces an element that stands for a document. -/
def instantiate (c : Compiler) (visit : Visit) (folder target : Path) (tag : Tag)
    (children : Forest) (content : Stacked Forest) : Stacked Forest := do
  match ← attempt (visit target) with
  | .ok none => return []
  | .ok (some f) => splice c target f tag children content
  | .error e =>
    if e.isMissing then
      ofCompile (report
        (Log.warning s!"missing `{target}` referenced in `{folder}`, left unresolved"))
      return [.element tag (← content)]
    else throw e

mutual

/-- Replaces the references in a node. -/
def expandNode (c : Compiler) (visit : Visit) (folder : Path) : Node → Stacked Forest
  | .element tag children =>
    match c.targetIn folder tag with
    | .document target =>
      instantiate c visit folder target tag children (expand c visit folder children)
    | other => do
      ofCompile ((other.warning? folder).forM report)
      return [.element tag (← expand c visit folder children)]
  | n => return [n]

/-- Replaces the references in a forest. -/
def expand (c : Compiler) (visit : Visit) (folder : Path) : Forest → Stacked Forest
  | [] => return []
  | n :: ns => do
    let found ← expandNode c visit folder n
    return found ++ (← expand c visit folder ns)

end

/-- Compiles a component, given a way to expand its document. -/
def compileFragment (c : Compiler) (enter : Document → Stacked Forest) (p : Path) :
    Stacked Fragment := do
  ofCompile (detail "compile" p.text)
  let d ← ofCompile (c.sources.document p : Except CompileError Document)
  return c.toFragment p d (← enter d)

/-- Compiles a component that was claimed. -/
def compileClaimed (c : Compiler) (enter : Document → Stacked Forest) (p : Path) :
    Stacked Fragment := do
  let before ← ofCompile cuts
  match ← attempt (compileFragment c enter p) with
  | .ok f =>
    if (← ofCompile cuts) = before then ofCompile (modifyCache (·.finish p f))
    else ofCompile (modifyCache (·.abandon p))
    return f
  | .error e =>
    ofCompile (modifyCache (·.abandon p))
    throw e

/-- Visits a component, given a way to expand documents. -/
def visit (c : Compiler) (enter : Document → Stacked Forest) : Visit := fun p => do
  if (← get).stack.any (·.same p) then
    ofCompile (detail "cycle" s!"`{p}` includes itself, substituted nothing")
    ofCompile countCut
    return none
  match ← ofCompile (c.claim p) with
  | .cached f =>
    ofCompile (detail "cache" s!"reusing {p}")
    return some f
  | .busy =>
    refuse p
    some <$> compileFragment c enter p
  | .claimed => some <$> compileClaimed c enter p

/-- Replaces the references in an HTML text. -/
def expandSource (c : Compiler) (visit : Visit) (path folder : Path) (html : String) :
    Stacked Forest := do
  let nodes ← ofCompile (parseAt path html : Except CompileError Forest)
  expand c visit folder nodes

/-- Expands a document, which is on the stack for as long as that takes. -/
def expandDocument (c : Compiler) : (depth : Nat) → Document → Stacked Forest
  | 0, d => throw (.tooDeep d.path)
  | depth + 1, d => do
    push d.path
    let result ← attempt (expandSource c (visit c (expandDocument c depth)) d.path d.folder d.html)
    pop
    ofCompile (result : Except CompileError Forest)

/-- Compiles the page at a path. -/
def compilePage (c : Compiler) (p : Path) : Stacked Forest := do
  let d ← ofCompile (c.sources.document p : Except CompileError Document)
  let ns ← expandDocument c c.depth d
  ofCompile (c.finishPage ns)

end Stacked

end StaticSite
