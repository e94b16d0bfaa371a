import StaticSite.FrontMatter
import StaticSite.Html.Node
import StaticSite.Text.Escape

/-!
# Properties of instances

The attributes of an instance, and the front matter of its component, become attributes
`data-prop-…` of the top-level elements of the component. An attribute of the instance wins over an
entry of the front matter. Front matter is plain text and is escaped; attributes are markup already.
-/

namespace StaticSite.Html

open StaticSite.Text

/-- A character of an attribute name. -/
def isAttrChar (c : Char) : Bool :=
  c.isAlphanum || c == '-' || c == '_' || c == '.' || c == ':'

/-- Whether a key can be written as the name of an attribute. -/
def isAttrName (key : String) : Bool := !key.isEmpty && key.toList.all isAttrChar

/-- The attribute that carries a property. -/
def propertyName (key : String) : String := "data-prop-" ++ key

/-- The properties in front matter. -/
def metadataProperties (m : Metadata) : List (String × String) :=
  (m.filter fun e => isAttrName e.1).map fun e => (propertyName e.1, escape e.2)

/-- The properties of an instance. The source of an `include` is none. -/
def instanceProperties (tag : Tag) : List (String × String) :=
  (tag.attrs.filter fun a => !(tag.is "include" && sameName a.1 "src")).map fun a =>
    (propertyName a.1, a.2)

/-- Sets properties one after the other. -/
def Tag.setProperties (tag : Tag) (ps : List (String × String)) : Tag :=
  ps.foldl (fun t p => t.setAttr p.1 p.2) tag

/-- Sets properties of a node, if it is an element. -/
def Node.setProperties (ps : List (String × String)) : Node → Node
  | .element tag children => .element (tag.setProperties ps) children
  | n => n

/-- Gives the top-level elements of a component the properties of an instance. -/
def applyProperties (m : Metadata) (tag : Tag) (ns : Forest) : Forest :=
  ns.map (Node.setProperties (metadataProperties m ++ instanceProperties tag))

end StaticSite.Html
