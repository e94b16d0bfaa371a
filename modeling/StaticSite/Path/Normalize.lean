import StaticSite.Path.Basic

/-!
# Normal paths

A path is normal if it has no step `.` and steps `..` only at the start of a relative path.
`Path.normalize` folds every other step `..` into the name before it, looking at the text alone.
-/

namespace StaticSite

/-- Adds a step to normal steps, of which the last comes first. -/
def Component.push : List Component → Component → List Component
  | cs, .current => cs
  | .name _ :: cs, .parent => cs
  | .root :: cs, .parent => .root :: cs
  | cs, c => c :: cs

/-- The normal form of a list of steps. -/
def normalSteps (cs : List Component) : List Component := (cs.foldl Component.push []).reverse

namespace Path

/-- The path with the given components. -/
def ofComponents : List Component → Path
  | .root :: cs => ofChars ('/' :: joinPieces (cs.map Component.text))
  | cs => ofChars (joinPieces (cs.map Component.text))

/-- Drops `.` and folds each `..` into its parent folder. -/
def normalize (p : Path) : Path := ofComponents (normalSteps p.components)

end Path

end StaticSite
