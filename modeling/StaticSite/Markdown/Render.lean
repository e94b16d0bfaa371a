import StaticSite.Markdown.Block
import StaticSite.Markdown.Shield
import StaticSite.Markdown.Writer

/-!
# Rendering

A Markdown document becomes HTML with its template expressions as they were written.
-/

namespace StaticSite.Markdown

/-- Renders a document as HTML. -/
def render (body : String) : String := toHtml (shield 0 0 (events body.toList))

end StaticSite.Markdown
