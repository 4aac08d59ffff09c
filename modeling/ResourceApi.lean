import ResourceApi.Json.Reader
import ResourceApi.Json.Writer
import ResourceApi.Write.Payload
import ResourceApi.Settings.Basic
import ResourceApi.Store.Session
import ResourceApi.Sql.Render
import ResourceApi.Query.Canonical
import ResourceApi.Service.Dispatch
import ResourceApi.Store.Script
import ResourceApi.Proofs.Engine.Atomicity
import ResourceApi.Proofs.Engine.Finding
import ResourceApi.Proofs.Sql.Rendering
import ResourceApi.Proofs.Schema.ForeignKeys
import ResourceApi.Proofs.Schema.Fitting
import ResourceApi.Proofs.Schema.Names
import ResourceApi.Proofs.Query.Inclusion
import ResourceApi.Proofs.Query.Acceptance
import ResourceApi.Proofs.Sql.Faithful
import ResourceApi.Proofs.Sql.Related
import ResourceApi.Proofs.Store.Including
import ResourceApi.Proofs.Engine.Records
import ResourceApi.Proofs.Sql.Soundness
import ResourceApi.Proofs.Sql.Creation
import ResourceApi.Proofs.Store.Reachable
import ResourceApi.Proofs.Sql.Addressed
import ResourceApi.Proofs.Engine.Addressing
import ResourceApi.Proofs.Engine.Agreement
import ResourceApi.Proofs.Sql.JoinTables
import ResourceApi.Proofs.Sql.Rows
import ResourceApi.Proofs.Sql.Kept
import ResourceApi.Proofs.Sql.Distinct
import ResourceApi.Proofs.Store.Proper
import ResourceApi.Proofs.Sql.References
import ResourceApi.Proofs.Engine.Served
import ResourceApi.Proofs.Sql.Tallies
import ResourceApi.Proofs.Sql.Identity
import ResourceApi.Proofs.Sql.Links
import ResourceApi.Proofs.Sql.Linking
import ResourceApi.Proofs.Sql.Joining
import ResourceApi.Proofs.Store.Success
import ResourceApi.Proofs.Store.Created
import ResourceApi.Proofs.Engine.Linkage
import ResourceApi.Proofs.Engine.Noted
import ResourceApi.Proofs.Engine.Telling
import ResourceApi.Proofs.Engine.Idle
import ResourceApi.Proofs.Engine.Single
import ResourceApi.Proofs.Engine.Documents
import ResourceApi.Proofs.Engine.Mirroring
import ResourceApi.Proofs.Text.Percent
import ResourceApi.Proofs.Grouping
import ResourceApi.Proofs.Query.Entries
import ResourceApi.Proofs.Query.Gathering
import ResourceApi.Proofs.Query.Written
import ResourceApi.Proofs.Query.Membership
import ResourceApi.Proofs.Query.Pages
import ResourceApi.Proofs.Engine.Member
import ResourceApi.Proofs.Sql.Oblivious
import ResourceApi.Proofs.Sql.Paging
import ResourceApi.Proofs.Store.Failures
import ResourceApi.Proofs.Text.Utf8
import ResourceApi.Proofs.Service.Paths
import ResourceApi.Proofs.Store.Moves
import ResourceApi.Proofs.Engine.ReadBack
import ResourceApi.Proofs.Engine.Redone
import ResourceApi.Proofs.Engine.Repeated
import ResourceApi.Proofs.Engine.Refusals
import ResourceApi.Proofs.Service.Calls
import ResourceApi.Proofs.Engine.Steps
import ResourceApi.Proofs.Query.Selection
import ResourceApi.Proofs.Sql.Nesting
import ResourceApi.Proofs.Store.Selecting
import ResourceApi.Proofs.Sql.Relating
import ResourceApi.Proofs.Sql.Reordering
import ResourceApi.Proofs.Store.Relating
import ResourceApi.Proofs.Query.Faults
import ResourceApi.Proofs.Query.Alternatives
import ResourceApi.Proofs.Query.Tree
import ResourceApi.Proofs.Query.Fields
import ResourceApi.Proofs.Sql.Listing
import ResourceApi.Proofs.Store.Listing
import ResourceApi.Proofs.Sql.Windows
import ResourceApi.Proofs.Write.Faults
import ResourceApi.Proofs.Engine.Identifiers
import ResourceApi.Proofs.Write.Pointers
import ResourceApi.Proofs.Write.Settled
import ResourceApi.Proofs.Sql.Columns
import ResourceApi.Proofs.Double.Monotone
import ResourceApi.Proofs.Write.Bounds
import ResourceApi.Proofs.Sql.Deletion
import ResourceApi.Proofs.Engine.Destroyed
import ResourceApi.Proofs.Store.Counting
import ResourceApi.Proofs.Sql.WellScoped
