import StaticSite.Html.Node
import StaticSite.Path.Map

/-!
# Scripts of components

A page that uses a component several times needs the scripts of the component once. Scripts carry
the component and the instance that they come from; scripts without origin belong to the page, and
are always kept.

A registry remembers for each component whose scripts the page emits: those of the first instance
in document order. `retainFirst` drops the scripts of all other instances.
-/

namespace StaticSite

open StaticSite.Html

/-- For each component, the instance whose scripts the page emits. -/
abbrev ScriptRegistry := PathMap UInt32

namespace ScriptRegistry

/-- Whether the page emits scripts of the component. -/
def hasEmitted (r : ScriptRegistry) (component : Path) : Bool := PathMap.contains r component

/-- Records the instance, unless one of the component is recorded. -/
def mark (r : ScriptRegistry) (o : Origin) : ScriptRegistry :=
  if r.hasEmitted o.component then r else PathMap.insert r o.component o.number

/-- Whether the page emits the scripts of the instance. -/
def emits (r : ScriptRegistry) (o : Origin) : Bool := PathMap.get? r o.component == some o.number

end ScriptRegistry

namespace Html

mutual

/-- Drops the scripts of a node as `retainFirst` does. -/
def Node.retainFirst (r : ScriptRegistry) : Node → Option Node × ScriptRegistry
  | .element tag children =>
    if tag.is "script" then
      match tag.origin with
      | none => (some (.element tag children), r)
      | some o =>
        let r := r.mark o
        (if r.emits o then some (.element tag children) else none, r)
    else
      let p := retainFirst r children
      (some (.element tag p.1), p.2)
  | n => (some n, r)

/-- Drops the scripts of every instance of a component but the first, in document order. -/
def retainFirst (r : ScriptRegistry) : Forest → Forest × ScriptRegistry
  | [] => ([], r)
  | n :: ns =>
    let p := Node.retainFirst r n
    let q := retainFirst p.2 ns
    (p.1.toList ++ q.1, q.2)

end

/-- Gives a script without origin the component as its origin. -/
def Tag.tagScript (component : Path) (tag : Tag) : Tag :=
  if tag.is "script" && tag.origin.isNone then { tag with origin := some ⟨component, 0⟩ } else tag

/-- Makes the scripts without origin belong to the component. -/
def tagScripts (component : Path) (ns : Forest) : Forest := mapTags (Tag.tagScript component) ns

/-- Gives an element with an origin the number of an instance. -/
def Tag.stamp (number : UInt32) (tag : Tag) : Tag :=
  { tag with origin := tag.origin.map fun o => { o with number } }

/-- Gives everything that comes from a component the number of an instance. -/
def stampInstance (number : UInt32) (ns : Forest) : Forest := mapTags (Tag.stamp number) ns

mutual

/-- Removes the component scripts of a node. -/
def Node.stripScripts : Node → Option Node
  | .element tag children =>
    if tag.is "script" then
      if tag.origin.isNone then some (.element tag children) else none
    else some (.element tag (stripScripts children))
  | n => some n

/-- Removes every script that comes from a component. -/
def stripScripts : Forest → Forest
  | [] => []
  | n :: ns => (Node.stripScripts n).toList ++ stripScripts ns

end

end Html

end StaticSite
