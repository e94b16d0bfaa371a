import StaticSite.Script

/-!
# Slots

A component holds the place of the content of its instances with `slot` elements. Each slot is
replaced by a copy of the content. An instance without content leaves the children of each slot in
its place.
-/

namespace StaticSite.Html

/-- The content of an instance, as the first slot and the later ones receive it. -/
structure Filling where
  /-- What stands in the first slot. -/
  first : Forest
  /-- What stands in each later slot. -/
  later : Forest
deriving Repr

/-- Content whose component scripts go to the first slot alone. -/
def Filling.ofContent (content : Forest) : Filling :=
  { first := content, later := stripScripts content }

/-- Whether there is a slot in a forest. -/
def hasSlot (ns : Forest) : Bool := (tags ns).any (·.is "slot")

mutual

/-- Fills the slots of a node. The result says whether the first slot is still to come. -/
def Node.fillSlots (content : Option Filling) (first : Bool) : Node → Forest × Bool
  | .element tag children =>
    if tag.is "slot" then
      match content with
      | none => (children, first)
      | some f => (if first then f.first else f.later, false)
    else
      let p := fillSlots content first children
      ([.element tag p.1], p.2)
  | n => ([n], first)

/-- Replaces the slots of a forest by the content, or by their own children if there is none. The
flag says whether the first slot is still to come, before and behind the forest. -/
def fillSlots (content : Option Filling) (first : Bool) : Forest → Forest × Bool
  | [] => ([], first)
  | n :: ns =>
    let p := Node.fillSlots content first n
    let q := fillSlots content p.2 ns
    (p.1 ++ q.1, q.2)

end

end StaticSite.Html
