import StaticSite.Path.Normalize
import StaticSite.Text.Blank

/-!
# References between documents

A document names another by a relative path, by a path below the base folder of the site, which
starts with `/`, or by an address outside the site. Resolving a reference looks at the text alone.
-/

namespace StaticSite

/-- Where a reference leads. -/
inductive Reference where
  /-- An address with a scheme or a host. -/
  | external
  /-- A document of the site. -/
  | local (path : Path)
deriving DecidableEq, Repr

/-- The characters of a scheme such as `https`. -/
def isSchemeChar (c : Char) : Bool := c.isAlphanum || c == '+' || c == '-' || c == '.'

/-- Whether a link leaves the site: it starts with `//`, or with a scheme and a colon. -/
def isExternalLink (link : List Char) : Bool :=
  match link with
  | '/' :: '/' :: _ => true
  | _ =>
    let scheme := link.takeWhile (· != ':')
    scheme.length < link.length && !scheme.isEmpty && scheme.all isSchemeChar

/-- Resolves references against a folder, or against the base folder `root` of the site. -/
structure Resolver where
  /-- The base folder. -/
  root : Path
deriving Repr

/-- A resolver for the site with the given base folder. -/
def Resolver.ofRoot (root : Path) : Resolver := ⟨root.normalize⟩

/-- The document that a reference in a document of the folder `dir` names. -/
def Resolver.resolve (r : Resolver) (dir : Path) (reference : String) : Reference :=
  let raw := Text.trim reference.toList
  if isExternalLink raw then .external
  else
    let joined := match raw with
      | '/' :: rooted => r.root.join (Path.ofChars rooted)
      | _ => dir.join (Path.ofChars raw)
    .local joined.normalize

end StaticSite
