import StaticSite.Html.Node

/-!
# Trees under construction

A document is built in source order: elements are opened and closed, and other nodes are added to
the element that was opened last. The nodes of the place that is being built are kept from the last
to the first, and each open element remembers what stands before it among its siblings.

An end tag closes the innermost open element of its name, and with it everything opened later.
-/

namespace StaticSite.Html

/-- An element whose end has not been reached. -/
structure OpenElement where
  /-- The start tag. -/
  tag : Tag
  /-- The siblings before the element, the nearest first. -/
  before : List Node

/-- A document under construction. -/
structure Growth where
  /-- The children so far of the innermost open element, the last one first. -/
  nodes : List Node := []
  /-- The open elements, the innermost first. -/
  path : List OpenElement := []

namespace Growth

/-- Adds a node at the end of the innermost open element. -/
def push (g : Growth) (n : Node) : Growth := { g with nodes := n :: g.nodes }

/-- Adds text, which joins the text before it. -/
def pushText (g : Growth) (s : String) : Growth :=
  if s.isEmpty then g
  else match g.nodes with
    | .text t :: ns => { g with nodes := .text (t ++ s) :: ns }
    | ns => { g with nodes := .text s :: ns }

/-- Opens an element. -/
def openTag (g : Growth) (tag : Tag) : Growth := ⟨[], ⟨tag, g.nodes⟩ :: g.path⟩

/-- The siblings of an element that is closed now, together with the element. -/
def closeOne (e : OpenElement) (children : List Node) : List Node :=
  .element e.tag children.reverse :: e.before

/-- Closes the innermost open element of the given name and all elements inside it. -/
def closeIn (name : String) : List Node → List OpenElement → Option Growth
  | _, [] => none
  | nodes, e :: path =>
    if e.tag.is name then some ⟨closeOne e nodes, path⟩
    else closeIn name (closeOne e nodes) path

/-- Closes the innermost open element of the given name, or gives `none` if there is none. -/
def closeTag? (g : Growth) (name : String) : Option Growth := closeIn name g.nodes g.path

/-- Closes all open elements. -/
def finish (g : Growth) : Forest :=
  (g.path.foldl (fun nodes e => closeOne e nodes) g.nodes).reverse

end Growth

end StaticSite.Html
