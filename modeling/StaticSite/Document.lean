import StaticSite.FrontMatter
import StaticSite.Html.Reader
import StaticSite.Markdown.Render
import StaticSite.Path.Map

/-!
# Documents

A document is HTML, or Markdown with front matter, which is turned into HTML when it is read; the
extension of its path decides. Documents are read from `Sources`, and `parseAt` parses what was
read. A `CompileError` says which document failed, and why.
-/

namespace StaticSite

/-- The language of a document. -/
inductive Language where
  /-- HTML. -/
  | html
  /-- Markdown. -/
  | markdown
deriving DecidableEq, Repr

/-- The language that the extension of a path stands for. -/
def Language.ofPath (p : Path) : Language :=
  match p.extension? with
  | some e => if Text.sameName e "md" || Text.sameName e "markdown" then .markdown else .html
  | none => .html

/-- Why a page cannot be compiled. -/
inductive CompileError where
  /-- There is no such document. -/
  | missing (path : Path)
  /-- The document cannot be read. -/
  | unreadable (path : Path) (reason : String)
  /-- The markup of the document is malformed. -/
  | malformed (path : Path) (reason : Html.ParseError)
  /-- The front matter of the document is refused. -/
  | frontMatter (path : Path) (reason : FrontMatter.Error)
  /-- Documents are nested deeper than there are documents. -/
  | tooDeep (path : Path)
deriving DecidableEq, Repr

namespace CompileError

/-- The document that failed. -/
def path : CompileError → Path
  | missing p => p
  | unreadable p _ => p
  | malformed p _ => p
  | frontMatter p _ => p
  | tooDeep p => p

/-- Whether the document does not exist. -/
def isMissing : CompileError → Bool
  | missing _ => true
  | _ => false

/-- What is said about the error. -/
def message : CompileError → String
  | missing p => s!"no such document `{p}`"
  | unreadable p _ => s!"failed to read `{p}`"
  | malformed p _ => s!"failed to parse `{p}`"
  | frontMatter p _ => s!"invalid front matter in `{p}`"
  | tooDeep p => s!"documents nested too deep at `{p}`"

/-- What is said about the reason of the error. -/
def reason? : CompileError → Option String
  | missing _ => none
  | unreadable _ reason => some reason
  | malformed _ reason => some reason.message
  | frontMatter _ reason => some reason.message
  | tooDeep _ => none

end CompileError

/-- A document whose content is HTML. -/
structure Document where
  /-- Where the document was read. -/
  path : Path
  /-- The language it was written in. -/
  language : Language
  /-- The front matter; none in HTML. -/
  metadata : Metadata := []
  /-- The content. -/
  html : String
deriving Repr

namespace Document

/-- The document with the text `raw`. -/
def ofText (path : Path) (raw : String) : Except CompileError Document :=
  match Language.ofPath path with
  | .html => .ok { path, language := .html, html := raw }
  | .markdown =>
    match FrontMatter.read raw.toList with
    | .error e => .error (.frontMatter path e)
    | .ok (metadata, body) =>
      .ok { path, language := .markdown, metadata, html := Markdown.render (String.ofList body) }

/-- The folder that references in the document start from. -/
def folder (d : Document) : Path := d.path.parent?.getD ⟨""⟩

end Document

/-- The forest that an HTML text of the document `path` stands for. -/
def parseAt (path : Path) (html : String) : Except CompileError Html.Forest :=
  match Html.parse html with
  | .ok ns => .ok ns
  | .error e => .error (.malformed path e)

/-- Why a text cannot be read. -/
inductive ReadError where
  /-- There is no text at the path. -/
  | missing
  /-- The text cannot be read. -/
  | failed (reason : String)
deriving DecidableEq, Repr

/-- Where documents are read. -/
structure Sources where
  /-- Reads the text at a path. -/
  read : Path → Except ReadError String
  /-- Whether there is a document at a path. -/
  contains : Path → Bool
  /-- A number that no list of different readable paths exceeds, as far as documents name them. -/
  bound : Nat

namespace Sources

/-- The texts of finitely many paths, some of which fail to be read. -/
def ofFiles (files : PathMap (Except String String)) : Sources where
  read p :=
    match files.get? p with
    | none => .error .missing
    | some (.ok s) => .ok s
    | some (.error e) => .error (.failed e)
  contains p := files.contains p
  bound := files.entries.length

/-- Reads the document at a path. -/
def document (s : Sources) (p : Path) : Except CompileError Document :=
  match s.read p with
  | .ok raw => Document.ofText p raw
  | .error .missing => .error (.missing p)
  | .error (.failed e) => .error (.unreadable p e)

end Sources

end StaticSite
