import StaticSite.Component.Cache
import StaticSite.Component.Property
import StaticSite.Component.Slot
import StaticSite.Component.Target
import StaticSite.Document

/-!
# Compiling pages

A page is compiled by replacing every element that stands for a component by the content of that
component, compiled in the same way. Components are compiled once and kept in a cache. A component
that is met again while it is being compiled is left out, which makes every compile end; what was
compiled above such a cut depends on where it was met, and is not kept.

`Compiler.expand` walks over a forest, given a way to visit components. `Compiler.visit` visits a
component inside the documents around it, given a way to expand documents, and
`Compiler.expandDocument` expands a document by visiting its components, whose documents are nested
one level deeper. The documents around a component are pairwise different and readable, so they are
never nested deeper than there are documents.
-/

namespace StaticSite

open StaticSite.Html

/-- What the compile of a page keeps until the next page. -/
structure PageScope where
  /-- The components whose scripts the page emits. -/
  scripts : ScriptRegistry := PathMap.empty
  /-- The number of instances that were spliced in. -/
  instances : Nat := 0
  /-- The number of components that were left out because they contain themselves. -/
  cuts : Nat := 0
deriving Inhabited

/-- Clears what was kept for a page. -/
def PageScope.reset (s : PageScope) : PageScope :=
  { s with scripts := PathMap.empty, instances := 0, cuts := 0 }

/-- What a compile changes, also where it fails. -/
structure Progress where
  /-- The components of all pages. -/
  cache : Cache := Cache.empty
  /-- The page. -/
  scope : PageScope := {}
  /-- What was logged, in order. -/
  log : List Log.Entry := []
deriving Inhabited

/-- A step of a compile. -/
abbrev Compile := ExceptT CompileError (StateM Progress)

namespace Compile

variable {α : Type}

/-- Takes a step that may fail, and returns its outcome. -/
def attempt (step : Compile α) : Compile (Except CompileError α) := ExceptT.lift step.run

/-- Logs an entry. -/
def report (e : Log.Entry) : Compile Unit := modify fun s => { s with log := s.log ++ [e] }

/-- Logs an entry that is shown only where details are asked for. -/
def detail (source message : String) : Compile Unit := report { source, message, detail := true }

/-- Changes the cache. -/
def modifyCache (f : Cache → Cache) : Compile Unit := modify fun s => { s with cache := f s.cache }

/-- Claims a component. -/
def claim (p : Path) : Compile Claim :=
  modifyGet fun s => ((s.cache.claim p).1, { s with cache := (s.cache.claim p).2 })

/-- Counts an instance, and returns its number. Numbers have 32 bits and start again from zero. -/
def countInstance : Compile UInt32 :=
  modifyGet fun s =>
    let n := s.scope.instances + 1
    (UInt32.ofNat n, { s with scope := { s.scope with instances := n } })

/-- Counts a component that was left out. -/
def countCut : Compile Unit :=
  modify fun s => { s with scope := { s.scope with cuts := s.scope.cuts + 1 } }

/-- The number of components that were left out so far. -/
def cuts : Compile Nat := return (← get).scope.cuts

/-- Keeps the scripts of the first instance of each component, for the whole page. -/
def retainFirst (ns : Forest) : Compile Forest :=
  modifyGet fun s =>
    let p := Html.retainFirst s.scope.scripts ns
    (p.1, { s with scope := { s.scope with scripts := p.2 } })

end Compile

/-- Compiles pages. -/
structure Compiler extends References where
  /-- The documents. -/
  sources : Sources
  /-- Whether components that were compiled before are served from the cache. -/
  reuse : Bool := true
  /-- Whether a page keeps the scripts of the first instance of a component alone. -/
  dedupe : Bool := true

namespace Compiler

/-- Visits the component at a path: its fragment, or none if it contains itself. -/
abbrev Visit := Path → Compile (Option Fragment)

/-- What an element stands for in a document of the folder. -/
def targetIn (c : Compiler) (folder : Path) (tag : Tag) : Target :=
  c.toReferences.target c.sources.contains folder tag

/-- The content that the slots of an instance receive; there is none if it is blank. -/
def filling? (c : Compiler) (content : Forest) : Option Filling :=
  if content.all Node.isBlank then none
  else if c.dedupe then some (.ofContent content)
  else some { first := content, later := content }

/-- Splices an instance of a fragment in. The content of the instance is compiled if a slot receives
it. -/
def splice (c : Compiler) (target : Path) (f : Fragment) (tag : Tag) (children : Forest)
    (content : Compile Forest) : Compile Forest := do
  let number ← Compile.countInstance
  let nodes := applyProperties f.metadata tag (stampInstance number f.nodes)
  if hasSlot nodes then
    let content ← content
    return (fillSlots (c.filling? content) true nodes).1
  else
    if !children.all Node.isBlank then
      Compile.detail "compile" s!"`{target}` has no <slot>, instance content dropped"
    return nodes

/-- Replaces an element that stands for a document. If there is no such document the element stays,
with its content compiled. -/
def instantiate (c : Compiler) (visit : Visit) (folder target : Path) (tag : Tag)
    (children : Forest) (content : Compile Forest) : Compile Forest := do
  match ← Compile.attempt (visit target) with
  | .ok none => return []
  | .ok (some f) => c.splice target f tag children content
  | .error e =>
    if e.isMissing then
      Compile.report (Log.warning s!"missing `{target}` referenced in `{folder}`, left unresolved")
      return [.element tag (← content)]
    else throw e

mutual

/-- Replaces the references in a node. -/
def expandNode (c : Compiler) (visit : Visit) (folder : Path) : Node → Compile Forest
  | .element tag children =>
    match c.targetIn folder tag with
    | .document target =>
      c.instantiate visit folder target tag children (expand c visit folder children)
    | other => do
      (other.warning? folder).forM Compile.report
      return [.element tag (← expand c visit folder children)]
  | n => return [n]

/-- Replaces the references in a forest, which is part of a document in the folder. -/
def expand (c : Compiler) (visit : Visit) (folder : Path) : Forest → Compile Forest
  | [] => return []
  | n :: ns => do
    let found ← expandNode c visit folder n
    return found ++ (← expand c visit folder ns)

end

/-- Makes a fragment of the expanded content of a component: its scripts now belong to it, and those
of components inside it were dropped but for the first instances. -/
def toFragment (c : Compiler) (p : Path) (d : Document) (ns : Forest) : Fragment :=
  { nodes := tagScripts p (if c.dedupe then (retainFirst PathMap.empty ns).1 else ns)
    metadata := d.metadata }

/-- Compiles a component, given a way to expand its document. -/
def compileFragment (c : Compiler) (enter : Document → Compile Forest) (p : Path) :
    Compile Fragment := do
  Compile.detail "compile" p.text
  let d ← (c.sources.document p : Except CompileError Document)
  return c.toFragment p d (← enter d)

/-- Compiles a component that was claimed. It is handed in unless a component was left out, and the
claim is given up otherwise. -/
def compileClaimed (c : Compiler) (enter : Document → Compile Forest) (p : Path) :
    Compile Fragment := do
  let before ← Compile.cuts
  match ← Compile.attempt (c.compileFragment enter p) with
  | .ok f =>
    if (← Compile.cuts) = before then Compile.modifyCache (·.finish p f)
    else Compile.modifyCache (·.abandon p)
    return f
  | .error e =>
    Compile.modifyCache (·.abandon p)
    throw e

/-- Claims a component, if components are reused. -/
def claim (c : Compiler) (p : Path) : Compile Claim :=
  if c.reuse then Compile.claim p else return .busy

/-- Visits a component inside the documents `around`, the innermost first, given a way to expand a
document that lies inside others or is the first of them. -/
def visit (c : Compiler) (enter : List Path → Document → Compile Forest) (around : List Path) :
    Visit := fun p => do
  if around.any (·.same p) then
    Compile.detail "cycle" s!"`{p}` includes itself, substituted nothing"
    Compile.countCut
    return none
  match ← c.claim p with
  | .cached f =>
    Compile.detail "cache" s!"reusing {p}"
    return some f
  | .busy => some <$> c.compileFragment (enter (p :: around)) p
  | .claimed => some <$> c.compileClaimed (enter (p :: around)) p

/-- Replaces the references in an HTML text, which stands in the document `path` of the folder. -/
def expandSource (c : Compiler) (visit : Visit) (path folder : Path) (html : String) :
    Compile Forest := do
  let nodes ← (parseAt path html : Except CompileError Forest)
  c.expand visit folder nodes

/-- Expands a document. The list `around` starts with the path of the document, and goes on with
those of the documents around it. Documents inside it may be nested `depth` levels deep. -/
def expandDocument (c : Compiler) : (depth : Nat) → (around : List Path) → Document → Compile Forest
  | 0, _, d => throw (.tooDeep d.path)
  | depth + 1, around, d =>
    c.expandSource (c.visit (c.expandDocument depth) around) d.path d.folder d.html

/-- The depth to which documents are expanded. -/
def depth (c : Compiler) : Nat := c.sources.bound

/-- Drops the scripts of later instances, if the page does so. -/
def finishPage (c : Compiler) (ns : Forest) : Compile Forest :=
  if c.dedupe then Compile.retainFirst ns else return ns

/-- Compiles the page at a path, given a way to expand documents. -/
def compilePageBy (c : Compiler) (enter : List Path → Document → Compile Forest) (p : Path) :
    Compile Forest := do
  let d ← (c.sources.document p : Except CompileError Document)
  c.finishPage (← enter [p] d)

/-- Compiles the page at a path. -/
def compilePage (c : Compiler) (p : Path) : Compile Forest :=
  c.compilePageBy (c.expandDocument c.depth) p

/-- Compiles an HTML text whose references start from the folder. -/
def compileText (c : Compiler) (html : String) (folder : Path) : Compile Forest := do
  c.finishPage (← c.expandSource (c.visit (c.expandDocument c.depth) []) folder folder html)

end Compiler

end StaticSite
