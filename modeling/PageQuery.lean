import PageQuery.Assembler
import PageQuery.Proofs.Paging.Pages
import PageQuery.Proofs.Predicate.Meaning
import PageQuery.Proofs.Request.Taxonomy
import PageQuery.Request.QueryString
import PageQuery.Schema.Bundled
import PageQuery.Proofs.Calendar.Chronology
import PageQuery.Proofs.Ordering.Merging
import PageQuery.Proofs.Ordering.Sorting
import PageQuery.Proofs.Paging.Backends
import PageQuery.Proofs.Paging.Validation
import PageQuery.Proofs.Predicate.Acceptance
import PageQuery.Proofs.Request.Rendering
import PageQuery.Proofs.Predicate.Shape
import PageQuery.Proofs.Store.Telling
import PageQuery.Proofs.Request.History
import PageQuery.Proofs.Ordering.Renaming
import PageQuery.Proofs.Schema.Privacy
import PageQuery.Proofs.Paging.Privacy
import PageQuery.Proofs.Calendar.Reading
import PageQuery.Proofs.Number.Written
import PageQuery.Proofs.Predicate.Echo
import PageQuery.Proofs.Ordering.Canonical
import PageQuery.Proofs.Ordering.Lexicographic
import PageQuery.Proofs.Request.Snapshot
import PageQuery.Proofs.Calendar.Alignment
import PageQuery.Proofs.Paging.Precision
import PageQuery.Proofs.Predicate.Addressing
import PageQuery.Proofs.Response.Nesting
import PageQuery.Proofs.Request.Clauses
import PageQuery.Proofs.Response.Paths
import PageQuery.Proofs.Response.Jsonable
import PageQuery.Proofs.Schema.Displayed
import PageQuery.Proofs.Schema.Sessions
import PageQuery.Proofs.Predicate.Joining
import PageQuery.Proofs.Ordering.Tokens
import PageQuery.Proofs.Calendar.Days
import PageQuery.Proofs.Schema.Elements
import PageQuery.Proofs.Schema.Lineage
import PageQuery.Proofs.Schema.Classification
