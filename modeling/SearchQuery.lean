import SearchQuery.Document.Decode
import SearchQuery.Json.Reader
import SearchQuery.Main
import SearchQuery.Proofs.Grammar
import SearchQuery.Proofs.Lookahead
import SearchQuery.Proofs.Outcome
import SearchQuery.Session
import SearchQuery.Scanner
import SearchQuery.Trace
import SearchQuery.Proofs.Sequence
import SearchQuery.Proofs.Acceptance
import SearchQuery.Proofs.Rejection
import SearchQuery.Proofs.Rendering
import SearchQuery.Proofs.Clause
import SearchQuery.Proofs.Parts
import SearchQuery.Proofs.Composition
import SearchQuery.Proofs.Continuation
import SearchQuery.Proofs.Completion
import SearchQuery.Proofs.Balance
import SearchQuery.Proofs.Location
import SearchQuery.Proofs.JsonText
import SearchQuery.Proofs.RoundTrip
import SearchQuery.Proofs.Nesting
import SearchQuery.Proofs.Threshold
import SearchQuery.Proofs.Contents
import SearchQuery.Proofs.Collapse
import SearchQuery.Proofs.Spacing
import SearchQuery.Proofs.Commands
import SearchQuery.Proofs.Agreement
import SearchQuery.Proofs.Files
import SearchQuery.Proofs.Initialisation
import SearchQuery.Proofs.Calls
import SearchQuery.Proofs.Glyphs
import SearchQuery.Proofs.Quotation
import SearchQuery.Proofs.Listing
import SearchQuery.Proofs.Preservation
import SearchQuery.Proofs.Inertness
import SearchQuery.Proofs.FileErrors
import SearchQuery.Proofs.Color
import SearchQuery.Proofs.Runs
import SearchQuery.Proofs.Tokens
import SearchQuery.Proofs.DocumentType
import SearchQuery.Proofs.Slice
import SearchQuery.Proofs.Refinement
import SearchQuery.Proofs.Safety
import SearchQuery.Proofs.Pieces
import SearchQuery.Proofs.Accounting
import SearchQuery.Proofs.Bookkeeping
import SearchQuery.Proofs.Progress
import SearchQuery.Proofs.Levels
