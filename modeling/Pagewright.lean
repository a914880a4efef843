import Pagewright.Main
import Pagewright.Markdown.Render
import Pagewright.Page.Compiler
import Pagewright.Proofs.Html.Mirror
import Pagewright.Proofs.Html.Nodes
import Pagewright.Proofs.Html.Tags
import Pagewright.Proofs.Html.Verbatim
import Pagewright.Proofs.Markdown.Paragraph
import Pagewright.Proofs.Outline.Balance
import Pagewright.Proofs.Outline.BlockDepth
import Pagewright.Proofs.Outline.Deeper
import Pagewright.Proofs.Outline.LaidOut
import Pagewright.Proofs.Outline.Line
import Pagewright.Proofs.Outline.LineReturn
import Pagewright.Proofs.Outline.Origin
import Pagewright.Proofs.Outline.Packing
import Pagewright.Proofs.Outline.Passage
import Pagewright.Proofs.Outline.Sections
import Pagewright.Proofs.Outline.Splitting
import Pagewright.Proofs.Outline.Sweep
import Pagewright.Proofs.Outline.TextBlock
import Pagewright.Proofs.Outline.Unclosed
import Pagewright.Proofs.Page.Compilation
import Pagewright.Proofs.Page.Conservation
import Pagewright.Proofs.Page.Copies
import Pagewright.Proofs.Page.Expansion
import Pagewright.Proofs.Page.LevelBound
import Pagewright.Proofs.Page.NormalForm
import Pagewright.Proofs.Page.Passes
import Pagewright.Proofs.Page.Plain
import Pagewright.Proofs.Page.Resolves
import Pagewright.Proofs.Page.Rewrite
import Pagewright.Proofs.Page.Skeleton
import Pagewright.Proofs.Page.Spelling
import Pagewright.Proofs.Page.Stable
import Pagewright.Proofs.Page.Termination
import Pagewright.Proofs.Script.Lookup
import Pagewright.Proofs.Site.Config
import Pagewright.Proofs.Site.FileTree
import Pagewright.Proofs.Site.History
import Pagewright.Proofs.Site.Observation
import Pagewright.Proofs.Site.Pages
import Pagewright.Proofs.Site.Place
import Pagewright.Proofs.Site.Reports
import Pagewright.Proofs.Site.Retry
import Pagewright.Proofs.Site.ScriptLink
import Pagewright.Proofs.Site.Watching
import Pagewright.Proofs.Text.Position
import Pagewright.Script.Bench
import Pagewright.Site.Session
import Pagewright.Proofs.Site.Watching
