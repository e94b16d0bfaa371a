import StaticSite.Build
import StaticSite.CommandLine
import StaticSite.Component.Cache
import StaticSite.Component.Compile
import StaticSite.Component.Property
import StaticSite.Component.Slot
import StaticSite.Component.Target
import StaticSite.Config
import StaticSite.Decimal.Shortest
import StaticSite.Document
import StaticSite.Entry
import StaticSite.FileTree
import StaticSite.FrontMatter
import StaticSite.Html.Attribute
import StaticSite.Html.Growth
import StaticSite.Html.Node
import StaticSite.Html.Reader
import StaticSite.Html.Token
import StaticSite.Html.Writer
import StaticSite.Layout
import StaticSite.Link
import StaticSite.LiveReload
import StaticSite.Log
import StaticSite.Main
import StaticSite.Markdown.Block
import StaticSite.Markdown.Definition
import StaticSite.Markdown.Emphasis
import StaticSite.Markdown.Event
import StaticSite.Markdown.Inline
import StaticSite.Markdown.Line
import StaticSite.Markdown.LineForm
import StaticSite.Markdown.RawTag
import StaticSite.Markdown.Reference
import StaticSite.Markdown.Render
import StaticSite.Markdown.Shield
import StaticSite.Markdown.Token
import StaticSite.Markdown.Writer
import StaticSite.Path.Basic
import StaticSite.Path.Map
import StaticSite.Path.Normalize
import StaticSite.Proofs.Component.Checked
import StaticSite.Proofs.Component.Completeness
import StaticSite.Proofs.Component.Custody
import StaticSite.Proofs.Component.Failure
import StaticSite.Proofs.Component.Follow
import StaticSite.Proofs.Component.Invisibility
import StaticSite.Proofs.Component.KeptScripts
import StaticSite.Proofs.Component.Lockstep
import StaticSite.Proofs.Component.Nesting
import StaticSite.Proofs.Component.Numbering
import StaticSite.Proofs.Component.Outcome
import StaticSite.Proofs.Component.Pruning
import StaticSite.Proofs.Component.Release
import StaticSite.Proofs.Component.Serving
import StaticSite.Proofs.Component.Session
import StaticSite.Proofs.Component.SingleScripts
import StaticSite.Proofs.Component.SlotFree
import StaticSite.Proofs.Component.Transparency
import StaticSite.Proofs.Component.Unroll
import StaticSite.Proofs.Config
import StaticSite.Proofs.Entry
import StaticSite.Proofs.FileTree
import StaticSite.Proofs.FrontMatter
import StaticSite.Proofs.Html.Alike
import StaticSite.Proofs.Html.Attribute
import StaticSite.Proofs.Html.Canonical
import StaticSite.Proofs.Html.Edits
import StaticSite.Proofs.Html.Exposure
import StaticSite.Proofs.Html.FirstInstance
import StaticSite.Proofs.Html.Growth
import StaticSite.Proofs.Html.Outline
import StaticSite.Proofs.Html.Property
import StaticSite.Proofs.Html.Pruned
import StaticSite.Proofs.Html.Reading
import StaticSite.Proofs.Html.RoundTrip
import StaticSite.Proofs.Html.Runs
import StaticSite.Proofs.Html.Scanning
import StaticSite.Proofs.Html.Scripts
import StaticSite.Proofs.Html.Shape
import StaticSite.Proofs.Html.Sight
import StaticSite.Proofs.Html.SlotFilling
import StaticSite.Proofs.Html.SlotNesting
import StaticSite.Proofs.Html.TagText
import StaticSite.Proofs.Html.WellFormed
import StaticSite.Proofs.Layout
import StaticSite.Proofs.Link.Agreement
import StaticSite.Proofs.Link.Containment
import StaticSite.Proofs.Link.Idempotence
import StaticSite.Proofs.Link.Place
import StaticSite.Proofs.LiveReload
import StaticSite.Proofs.Markdown.Closing
import StaticSite.Proofs.Markdown.Document
import StaticSite.Proofs.Markdown.Emphasis
import StaticSite.Proofs.Markdown.Expression
import StaticSite.Proofs.Markdown.Links
import StaticSite.Proofs.Markdown.Nesting
import StaticSite.Proofs.Markdown.Paragraph
import StaticSite.Proofs.Markdown.Tiling
import StaticSite.Proofs.Markdown.Tokens
import StaticSite.Proofs.Markdown.Trees
import StaticSite.Proofs.Path.Canonical
import StaticSite.Proofs.Path.Decoding
import StaticSite.Proofs.Path.Extension
import StaticSite.Proofs.Path.Normal
import StaticSite.Proofs.Path.Pieces
import StaticSite.Proofs.Path.Rest
import StaticSite.Proofs.Preparation
import StaticSite.Proofs.Text.Percent
import StaticSite.Reference
import StaticSite.Script
import StaticSite.Text.Basic
import StaticSite.Text.Blank
import StaticSite.Text.CaseFold
import StaticSite.Text.Escape
import StaticSite.Text.Percent
import StaticSite.Text.Punctuation
import StaticSite.Toml.Number
import StaticSite.Toml.Text
import StaticSite.Toml.Value
import StaticSite.Yaml.Cursor
import StaticSite.Yaml.Node
import StaticSite.Yaml.Scalar
import StaticSite.Yaml.Token
import StaticSite.Yaml.Value
