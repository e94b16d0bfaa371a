import StaticSite.Text.Basic
import StaticSite.Text.Blank
import StaticSite.Path.Basic

/-!
# Forests of HTML nodes

A document is a list of nodes. Text, attribute values and the contents of comments are kept as they
stand in the source, with their character references unread, so that an unchanged forest is written
back as it was read.

An element that was spliced in from a component carries its *origin*: the component and the number
of the instance. Origins are never written out.

`Node.mapElements` changes every element of a forest, and `elements` lists them in document order.
-/

namespace StaticSite.Html

open StaticSite.Text

/-- The component, and the instance of it, that an element was spliced in from. -/
structure Origin where
  /-- The source of the component. -/
  component : Path
  /-- The number of the instance within its page. -/
  number : UInt32
deriving DecidableEq, Repr

/-- What a start tag says: the name, the attributes in source order, whether it was written as
`<name/>`, and where the element comes from. -/
structure Tag where
  /-- The name as written. -/
  name : String
  /-- Attribute names with their raw values, in source order. -/
  attrs : List (String × String) := []
  /-- Written as `<name/>`. -/
  selfClosing : Bool := false
  /-- The component instance the element belongs to, if any. -/
  origin : Option Origin := none
deriving DecidableEq, Repr

/-- A node of a document. -/
inductive Node where
  /-- An element with its children. -/
  | element (tag : Tag) (children : List Node)
  /-- Text. -/
  | text (s : String)
  /-- A comment, without its delimiters. -/
  | comment (s : String)
  /-- A document type, without `<!DOCTYPE` and `>`. -/
  | doctype (s : String)
  /-- A processing instruction or declaration, without its delimiters. -/
  | instruction (s : String)
  /-- A character data section, without its delimiters. -/
  | cdata (s : String)
deriving Repr

instance : Inhabited Node := ⟨.text ""⟩

/-- A document, or any list of siblings. -/
abbrev Forest := List Node

/-- Elements that have neither children nor an end tag. -/
def voidNames : List String :=
  ["area", "base", "br", "col", "embed", "hr", "img", "input", "link", "meta", "param", "source",
   "track", "wbr"]

/-- Elements whose content is raw text. -/
def rawTextNames : List String := ["script", "style"]

/-- Whether elements of this name have neither children nor an end tag. -/
def isVoid (name : String) : Bool := voidNames.any (sameName · name)

/-- Whether the content of elements of this name is raw text. -/
def isRawText (name : String) : Bool := rawTextNames.any (sameName · name)

namespace Tag

/-- Whether the element has this name, in any case of ASCII letters. -/
def is (tag : Tag) (name : String) : Bool := sameName tag.name name

/-- The raw value of the first attribute of this name, in any case of ASCII letters. -/
def attr? (tag : Tag) (key : String) : Option String :=
  (tag.attrs.find? fun a => sameName a.1 key).map (·.2)

/-- Gives the first attribute named `key` the value `value`, or adds one at the end. -/
def setAttrIn (key value : String) : List (String × String) → List (String × String)
  | [] => [(key, value)]
  | a :: attrs => if sameName a.1 key then (a.1, value) :: attrs else a :: setAttrIn key value attrs

/-- Sets a raw attribute value in place, or adds the attribute at the end. -/
def setAttr (tag : Tag) (key value : String) : Tag :=
  { tag with attrs := setAttrIn key value tag.attrs }

end Tag

/-- Whether the node is text made of blanks only. -/
def Node.isBlank : Node → Bool
  | .text s => (trim s.toList).isEmpty
  | _ => false

mutual

/-- Equality of nodes, by recursion on the trees. -/
def Node.same : Node → Node → Bool
  | .element t cs, .element u ds => t == u && Node.sameAll cs ds
  | .text s, .text t => s == t
  | .comment s, .comment t => s == t
  | .doctype s, .doctype t => s == t
  | .instruction s, .instruction t => s == t
  | .cdata s, .cdata t => s == t
  | _, _ => false

/-- Equality of forests. -/
def Node.sameAll : Forest → Forest → Bool
  | [], [] => true
  | n :: ns, m :: ms => Node.same n m && Node.sameAll ns ms
  | _, _ => false

end

mutual

/-- Changes the tag of the element and of every element below it. -/
def Node.mapTags (f : Tag → Tag) : Node → Node
  | .element tag children => .element (f tag) (mapTags f children)
  | n => n

/-- Changes the tag of every element of the forest. -/
def mapTags (f : Tag → Tag) : Forest → Forest
  | [] => []
  | n :: ns => Node.mapTags f n :: mapTags f ns

end

mutual

/-- The tags of the elements of a node in document order, parents before children. -/
def Node.tags : Node → List Tag
  | .element tag children => tag :: tags children
  | _ => []

/-- The tags of all elements of the forest in document order, parents before children. -/
def tags : Forest → List Tag
  | [] => []
  | n :: ns => Node.tags n ++ tags ns

end

end StaticSite.Html
