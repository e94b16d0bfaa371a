import StaticSite.Text.Basic

/-!
# Log lines

A message comes from a *module*, a short name that is shown in brackets before it. A message of one
line is cut so that the line fits the terminal; one of several lines is shown in full.
-/

namespace StaticSite.Log

open StaticSite.Text

/-- A message with the module it comes from. -/
structure Entry where
  /-- The module. -/
  source : String
  /-- The message. -/
  message : String
  /-- Shown only where details are asked for. -/
  detail : Bool := false
deriving DecidableEq, Repr

/-- A warning. -/
def warning (message : String) : Entry := { source := "warn", message }

/-- The number of columns of the terminal. -/
def width : Nat := 120

/-- The message, cut to what is left of the line behind the module in brackets and a space. -/
def Entry.fitted (e : Entry) : List Char :=
  let message := e.message.toList
  if '\n' ∈ message then message else takeBytes (width - (byteSize e.source.toList + 3)) message

/-- The module in brackets. -/
def Entry.label (e : Entry) : List Char := '[' :: e.source.toList ++ [']']

/-- The line without colours. -/
def Entry.line (e : Entry) : String := String.ofList (e.label ++ ' ' :: e.fitted)

/-- The numbers of the terminal style of a module, whose name is read in lower case. -/
def style (source : String) : List Char :=
  let name := lower source.toList
  if name = "error".toList then "1;91".toList
  else if name = "warn".toList then "1;95".toList
  else if name = "build".toList then "1;92".toList
  else if name = "debug".toList ∨ name = "cache".toList then ['2']
  else "1;93".toList

/-- The start of a terminal control sequence. -/
def escape : List Char := ['\x1b', '[']

/-- What is sent to the terminal: the line is cleared first. -/
def Entry.render (e : Entry) (colored : Bool) : String :=
  let label :=
    if colored then escape ++ style e.source ++ 'm' :: e.label ++ escape ++ ['0', 'm'] else e.label
  String.ofList (escape ++ 'K' :: label ++ ' ' :: e.fitted ++ ['\n'])

/-- The entries that are shown. -/
def shown (details : Bool) (entries : List Entry) : List Entry :=
  entries.filter fun e => details || !e.detail

end StaticSite.Log
