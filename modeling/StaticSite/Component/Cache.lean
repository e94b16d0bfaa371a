import StaticSite.FrontMatter
import StaticSite.Html.Node
import StaticSite.Path.Map

/-!
# The cache of compiled components

A component is compiled once and spliced in many times. Whoever wants a component *claims* it: a
component that was compiled is served, one that nobody holds is claimed and must then be finished or
abandoned, and one that somebody else holds is busy.
-/

namespace StaticSite

/-- A component with its references resolved, as it is spliced into documents. -/
structure Fragment where
  /-- The content. -/
  nodes : Html.Forest
  /-- The front matter of the component. -/
  metadata : Metadata
deriving Repr

/-- The state of a component in the cache. -/
inductive CacheEntry where
  /-- Somebody is compiling it. -/
  | inProgress
  /-- It was compiled. -/
  | compiled (f : Fragment)

/-- The compiled component of an entry. -/
def CacheEntry.fragment? : CacheEntry → Option Fragment
  | inProgress => none
  | compiled f => some f

/-- The answer to a claim. -/
inductive Claim where
  /-- The component was compiled before. -/
  | cached (f : Fragment)
  /-- Somebody else is compiling the component. -/
  | busy
  /-- The component now belongs to the claimant. -/
  | claimed

/-- The components that were compiled or are being compiled. -/
abbrev Cache := PathMap CacheEntry

namespace Cache

/-- The cache without components. -/
def empty : Cache := PathMap.empty

/-- Claims the component. -/
def claim (c : Cache) (p : Path) : Claim × Cache :=
  match PathMap.get? c p with
  | some (.compiled f) => (.cached f, c)
  | some .inProgress => (.busy, c)
  | none => (.claimed, PathMap.insert c p .inProgress)

/-- Hands in a compiled component. -/
def finish (c : Cache) (p : Path) (f : Fragment) : Cache := PathMap.insert c p (.compiled f)

/-- Gives up a claim, so that the component can be claimed again. -/
def abandon (c : Cache) (p : Path) : Cache :=
  match PathMap.get? c p with
  | some .inProgress => PathMap.erase c p
  | _ => c

/-- The number of compiled components. -/
def size (c : Cache) : Nat := (c.entries.filterMap (·.2.fragment?)).length

end Cache

end StaticSite
