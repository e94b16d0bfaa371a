import StaticSite.Html.Node
import StaticSite.Text.Escape

/-!
# Live reload

While a site is being written, its pages load a script that reloads them. The script is added at
the end of the last `body` of a page, or of the page if it has no `body`, and only once.

The place of an element is the list of the numbers that lead to it: that of the outermost element
around it among the nodes of the page, that of the next one among the children of the first, and so
on down to its own.
-/

namespace StaticSite.Html

/-- The script element with the given raw source address. -/
def reloadScript (address : String) : Node :=
  .element { name := "script", attrs := [("src", address)] } []

/-- Whether the element is a script with the given raw source address. -/
def Tag.isScriptFrom (address : String) (tag : Tag) : Bool :=
  tag.is "script" && tag.attr? "src" == some address

mutual

/-- The place of the last `body` of a node below it, which is empty if that is the node itself. -/
def Node.lastBody? : Node → Option (List Nat)
  | .element tag children =>
    match lastBody? children with
    | some place => some place
    | none => if tag.is "body" then some [] else none
  | _ => none

/-- The place of the `body` that comes last in document order, if there is one. -/
def lastBody? : Forest → Option (List Nat)
  | [] => none
  | n :: ns =>
    match lastBody? ns with
    | some place => some (place.modifyHead (· + 1))
    | none => (Node.lastBody? n).map (0 :: ·)

end

/-- Adds a node at the end of the element at a place, if there is one. -/
def appendAt? (new : Node) : List Nat → Forest → Option Forest
  | [], _ => none
  | i :: place, ns =>
    match ns[i]? with
    | some (.element tag children) =>
      (if place.isEmpty then some (children ++ [new]) else appendAt? new place children).map
        fun children => ns.set i (.element tag children)
    | _ => none

/-- Adds the script with the given source address, unless the page has it. -/
def injectReload (address : String) (page : Forest) : Option Forest :=
  let raw := Text.escape address
  let script := reloadScript raw
  if (tags page).any (Tag.isScriptFrom raw) then none
  else some (((lastBody? page).bind (appendAt? script · page)).getD (page ++ [script]))

end StaticSite.Html
