import StaticSite.Text.Basic

/-!
# Escaping text for attribute values

The five characters that have a meaning in markup are written as character references, so that
escaped text can stand between quotes of either kind.
-/

namespace StaticSite.Text

/-- How one character is written inside a quoted attribute value. -/
def escapeChar : Char → List Char
  | '<' => "&lt;".toList
  | '>' => "&gt;".toList
  | '\'' => "&apos;".toList
  | '&' => "&amp;".toList
  | '"' => "&quot;".toList
  | c => [c]

/-- The text with the five markup characters written as references. -/
def escape (s : String) : String := mapChars escapeChar s

end StaticSite.Text
