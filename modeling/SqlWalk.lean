import SqlWalk.Main
import SqlWalk.Proofs.Catalog.Attribution
import SqlWalk.Proofs.Catalog.Lookup
import SqlWalk.Proofs.Catalog.Mention
import SqlWalk.Proofs.Highlight.Cell
import SqlWalk.Proofs.Highlight.Plan
import SqlWalk.Proofs.Highlight.Spacing
import SqlWalk.Proofs.Layout.Grid
import SqlWalk.Proofs.Lexing.Comment
import SqlWalk.Proofs.Lexing.Coverage
import SqlWalk.Proofs.Lexing.Fragment
import SqlWalk.Proofs.Lexing.Maximal
import SqlWalk.Proofs.Lexing.Placement
import SqlWalk.Proofs.Number.Interval
import SqlWalk.Proofs.Number.Shortest
import SqlWalk.Proofs.Player.Clock
import SqlWalk.Proofs.Player.Progress
import SqlWalk.Proofs.Player.Refusal
import SqlWalk.Proofs.Player.Status
import SqlWalk.Proofs.Player.Timeline
import SqlWalk.Proofs.Preferences.RoundTrip
import SqlWalk.Proofs.Preferences.Usable
import SqlWalk.Proofs.Query.Capitals
import SqlWalk.Proofs.Query.CellText
import SqlWalk.Proofs.Query.Consistency
import SqlWalk.Proofs.Query.Counting
import SqlWalk.Proofs.Query.Equation
import SqlWalk.Proofs.Query.FirstStatement
import SqlWalk.Proofs.Query.Invariance
import SqlWalk.Proofs.Query.Quotation
import SqlWalk.Proofs.Query.Rejoining
import SqlWalk.Proofs.Query.RoundTrip
import SqlWalk.Proofs.Query.Tiling
import SqlWalk.Proofs.Session.Coherence
import SqlWalk.Proofs.Session.Columns
import SqlWalk.Proofs.Session.Renewal
import SqlWalk.Proofs.Session.Speed
