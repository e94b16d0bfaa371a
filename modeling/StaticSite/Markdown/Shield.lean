import StaticSite.Markdown.Event
import StaticSite.Text.Basic

/-!
# Template expressions

A template expression stands between two opening and two closing braces, and must reach the page as
it was written. The events of a document are read from left to right with a count of the expressions
that are open: a stretch of source with two opening braces opens one, and a stretch with two closing
braces closes one. While an expression is open, an event is replaced by its source. A container that
is replaced covers what it contains, which is left out.

Only what has source of its own is looked at, so the end of a container is passed on as it is.
-/

namespace StaticSite.Markdown

open StaticSite.Text

/-- What opens an expression. -/
def openMarker : List Char := ['\x7b', '\x7b']

/-- What closes an expression. -/
def closeMarker : List Char := ['\x7d', '\x7d']

/-- The number of open expressions behind a stretch of source. -/
def countExpressions (opened : Nat) (source : List Char) : Nat :=
  let opened := if occursIn openMarker source then opened + 1 else opened
  if occursIn closeMarker source then opened - 1 else opened

/-- A block of source, ended by a line feed. -/
def asBlock (source : List Char) : String :=
  String.ofList (if source.getLast? = some '\n' then source else source ++ ['\n'])

/-- The event that stands for a container which is replaced by its source. -/
def verbatim (c : Container) (source : List Char) : Event :=
  if c.isInline then .inlineHtml (String.ofList source) else .html (asBlock source)

/-- Replaces events by their source while an expression is open. Here `opened` is the number of open
expressions, and `depth` that of the containers around an event that is left out. -/
def shield (opened depth : Nat) : List (Event × List Char) → List Event
  | [] => []
  | (e, source) :: es =>
    if 0 < depth then
      match e with
      | .enter _ => shield opened (depth + 1) es
      | .leave _ => shield opened (depth - 1) es
      | _ => shield opened depth es
    else
      match e with
      | .leave c => .leave c :: shield opened 0 es
      | .enter c =>
        let opened := countExpressions opened source
        if opened = 0 then .enter c :: shield 0 0 es
        else verbatim c source :: shield opened 1 es
      | e =>
        let opened := countExpressions opened source
        if opened = 0 then e :: shield 0 0 es
        else .inlineHtml (String.ofList source) :: shield opened 0 es

end StaticSite.Markdown
