import StaticSite.Html.Node

/-!
# Writing documents

Text, comments and attribute values are written as they are kept, except that a `"` in an attribute
value becomes `&quot;`. Origins are not written.
-/

namespace StaticSite.Html

/-- How a character of an attribute value is written. -/
def attrChar (c : Char) : List Char := if c = '"' then "&quot;".toList else [c]

/-- The source of an attribute, with the space before it. -/
def attrSource (a : String × String) : List Char :=
  ' ' :: a.1.toList ++ "=\"".toList ++ a.2.toList.flatMap attrChar ++ ['"']

/-- The name and the attributes of a tag. -/
def Tag.source (tag : Tag) : List Char := tag.name.toList ++ tag.attrs.flatMap attrSource

mutual

/-- The source of a node. -/
def Node.source : Node → List Char
  | .element tag children =>
    if tag.selfClosing && children.isEmpty then '<' :: tag.source ++ "/>".toList
    else if isVoid tag.name then '<' :: tag.source ++ ['>']
    else '<' :: tag.source ++ '>' :: source children ++ "</".toList ++ tag.name.toList ++ ['>']
  | .text s => s.toList
  | .comment s => "<!--".toList ++ s.toList ++ "-->".toList
  | .doctype s => "<!DOCTYPE ".toList ++ s.toList ++ ['>']
  | .instruction s => "<?".toList ++ s.toList ++ "?>".toList
  | .cdata s => "<![CDATA[".toList ++ s.toList ++ "]]>".toList

/-- The source of a forest. -/
def source : Forest → List Char
  | [] => []
  | n :: ns => Node.source n ++ source ns

end

/-- Writes a document. -/
def serialize (nodes : Forest) : String := String.ofList (source nodes)

end StaticSite.Html
