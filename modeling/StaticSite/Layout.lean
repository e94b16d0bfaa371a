import StaticSite.Path.Basic

/-!
# The layout of a site

A layout says where the sources of a site lie and where its pages are written. The pages, static
files and components have folders relative to the base folder. A page is written below the output
folder at its place below the folder of the pages, with the extension `html`.
-/

namespace StaticSite

/-- The folders of a site. -/
structure Layout where
  /-- The document that the site starts with. -/
  input : Path
  /-- The folder of the sources. -/
  base : Path
  /-- The folder of the pages, relative to the base folder. -/
  pages : Path
  /-- The folder that pages are written to. -/
  output : Path
  /-- The folder of the static files, relative to the base folder and to the output folder. -/
  static : Path
  /-- The folder of the components, relative to the base folder. -/
  components : Path
deriving DecidableEq, Repr

namespace Layout

variable (l : Layout)

/-- Where the pages lie. -/
def pagesDir : Path := l.base.join l.pages

/-- Where the static files lie. -/
def staticDir : Path := l.base.join l.static

/-- Where the components lie. -/
def componentsDir : Path := l.base.join l.components

/-- Where the static files are copied to. -/
def staticOutputDir : Path := l.output.join l.static

/-- A source seen from the base folder, or from the folder of the pages if it lies there. -/
def pageRelative (source : Path) : Path :=
  let relative := (source.stripPrefix? l.base).getD source
  (relative.stripPrefix? l.pages).getD relative

/-- The file that a page is written to. Of a source outside the base folder only the file name
counts. -/
def outputPath (source : Path) : Path :=
  let relative := l.pageRelative source
  let place := if relative.isAbsolute then .ofChars (relative.fileName?.getD []) else relative
  (l.output.join place).withExtension "html"

end Layout

/-- Whether a file is the source of a page. -/
def isPageSource (p : Path) : Bool := p.extension? == some "html" || p.extension? == some "md"

end StaticSite
