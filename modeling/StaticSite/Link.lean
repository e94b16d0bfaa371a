import StaticSite.Html.Node
import StaticSite.Log
import StaticSite.Path.Map
import StaticSite.Reference
import StaticSite.Text.Percent

/-!
# Links between pages

Pages are written below the output folder without the folder that holds their sources, so a link to
a source becomes a link below the root of the site. Fragments, links that leave the site, links that
start with `/` and links with template expressions are kept as they are. So a link that was changed
once is not changed again.
-/

namespace StaticSite

open StaticSite.Html StaticSite.Text

/-- The folders that links are resolved against. -/
structure Relinker where
  /-- The base folder of the site. -/
  base : Path
  /-- The folder of the pages, relative to the base folder. -/
  pages : Path
deriving Repr

/-- What becomes of a link. -/
inductive LinkOutcome where
  /-- The link stays as it is. -/
  | kept
  /-- The link stays as it is, although it leads out of the base folder. -/
  | outside (href : String)
  /-- The link gets a new address; the source that it leads to is given. -/
  | moved (url : String) (target : Path)
deriving DecidableEq, Repr

/-- Whether a trimmed link is kept whatever the folders are. -/
def isFixedLink (href : List Char) : Bool :=
  href.isEmpty || href.head? == some '#' || href.head? == some '/' ||
    occursIn ['\x7b', '\x7b'] href || isExternalLink href

/-- Whether the character starts the query or the fragment of a link. -/
def startsSuffix (c : Char) : Bool := c == '?' || c == '#'

namespace Relinker

/-- The place of a source file in the output, as it stands in addresses. -/
def relativeText (relative : Path) : List Char :=
  relative.chars.map fun c => if c = '\\' then '/' else c

/-- What becomes of a link of a page. -/
def outcome (r : Relinker) (href : List Char) : LinkOutcome :=
  let href := trim href
  if isFixedLink href then .kept
  else
    let path := href.takeWhile (!startsSuffix ·)
    let suffix := href.dropWhile (!startsSuffix ·)
    match (r.base.join (.ofChars path)).normalize.stripPrefix? r.base with
    | none => .outside (String.ofList href)
    | some relative =>
      let relative := (relative.stripPrefix? r.pages).getD relative
      let decoded := (percentDecode? path).getD (String.ofList path)
      .moved (String.ofList ('/' :: relativeText relative ++ suffix))
        (r.base.join ⟨decoded⟩).normalize

/-- Turns each run of blanks of a list of classes into one space. -/
def normalizeClass (value : String) : String := String.ofList (collapse value.toList)

/-- What becomes of the link of an anchor, or `none` for an element whose attributes stay: one that
is no anchor, or is an anchor with a fragment or an external link or without link. -/
def anchor? (r : Relinker) (tag : Tag) : Option LinkOutcome :=
  if tag.is "a" then
    match tag.attr? "href" with
    | none => none
    | some href =>
      let href := trim href.toList
      if href.head? == some '#' || isExternalLink href then none else some (r.outcome href)
  else none

/-- Changes the link of an anchor, and normalizes its classes. -/
def relinkTag (r : Relinker) (tag : Tag) : Tag :=
  match r.anchor? tag with
  | none => tag
  | some link =>
    let tag := match link with
      | .moved url _ => tag.setAttr "href" url
      | _ => tag
    match tag.attr? "class" with
    | some value => tag.setAttr "class" (normalizeClass value)
    | none => tag

/-- Changes the links of a page. -/
def relink (r : Relinker) (page : Forest) : Forest := mapTags r.relinkTag page

/-- The links of a page that are looked at, in document order. -/
def links (r : Relinker) (page : Forest) : List LinkOutcome :=
  (tags page).filterMap r.anchor?

/-- The warning about a link that leads out of the base folder. -/
def warning? (r : Relinker) : LinkOutcome → Option Log.Entry
  | .outside href =>
    some (Log.warning ("link `" ++ href ++ "` points outside `" ++ r.base.text ++
      "`, left unchanged"))
  | _ => none

/-- The source that a changed link leads to. -/
def target? : LinkOutcome → Option Path
  | .moved _ target => some target
  | _ => none

/-- The sources that the changed links of a page lead to, each once. -/
def inventory (r : Relinker) (page : Forest) : List Path :=
  (((r.links page).filterMap target?).foldl (fun m p => m.insert p ()) PathMap.empty).keys

end Relinker

end StaticSite
