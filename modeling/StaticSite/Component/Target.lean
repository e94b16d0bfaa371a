import StaticSite.Html.Node
import StaticSite.Log
import StaticSite.Reference

/-!
# References to components

Two kinds of element stand for another document: `<include src="…">` names it by a reference, and
`<x-name>` by the name of a component, which is kept in the folder of components as `name.html` or
`name.md`.
-/

namespace StaticSite

open StaticSite.Html

/-- What an element stands for. -/
inductive Target where
  /-- The element stands for itself. -/
  | plain
  /-- The element stands for the document at a path. -/
  | document (path : Path)
  /-- An `include` without a source. -/
  | noSource
  /-- An `include` of a document outside the site. -/
  | outside (src : String)
deriving DecidableEq, Repr

/-- The name of the component that an element of this name stands for. -/
def componentName? (name : String) : Option String :=
  match name.toList with
  | x :: '-' :: c :: s => if x.toLower = 'x' then some (String.ofList (c :: s)) else none
  | _ => none

/-- What is logged about an element of a document in `folder` that stands for no document. -/
def Target.warning? (folder : Path) : Target → Option Log.Entry
  | noSource => some (Log.warning s!"<include> without `src` in `{folder}`")
  | outside src => some (Log.warning s!"cannot include external `{src}`, left unresolved")
  | _ => none

/-- The folders that references start from. -/
structure References where
  /-- Resolves the sources of `include` elements. -/
  resolver : Resolver
  /-- The folder of components. -/
  components : Path
deriving Repr

namespace References

/-- The document of a component, where `found` says which documents there are: the one in HTML,
unless only the other one is there. -/
def componentPath (r : References) (found : Path → Bool) (name : String) : Path :=
  let html := r.components.join ⟨name ++ ".html"⟩
  let markdown := r.components.join ⟨name ++ ".md"⟩
  if !found html && found markdown then markdown else html

/-- What an element of a document in `folder` stands for, where `found` says which documents there
are. -/
def target (r : References) (found : Path → Bool) (folder : Path) (tag : Tag) : Target :=
  if tag.is "include" then
    match tag.attr? "src" with
    | none => .noSource
    | some src =>
      match r.resolver.resolve folder src with
      | .external => .outside src
      | .local p => .document p
  else
    match componentName? tag.name with
    | none => .plain
    | some name => .document (r.componentPath found name)

end References

end StaticSite
