import RealmAccess.Config.Basic
import RealmAccess.Config.Json
import RealmAccess.Decimal
import RealmAccess.Expansion
import RealmAccess.Expansion.Numbering
import RealmAccess.Error
import RealmAccess.Expansion.Walker
import RealmAccess.Expansion.Roles
import RealmAccess.Json.Decoder
import RealmAccess.Json.Error
import RealmAccess.Json.Format
import RealmAccess.Json.Input
import RealmAccess.Json.Number
import RealmAccess.Json.Skip
import RealmAccess.Proofs.Acyclic
import RealmAccess.Proofs.Acceptance
import RealmAccess.Proofs.Graph
import RealmAccess.Proofs.Memo
import RealmAccess.Proofs.NameTable
import RealmAccess.Proofs.Order
import RealmAccess.Proofs.Resolution
import RealmAccess.Validation
import RealmAccess.Text
import RealmAccess.Proofs.ConditionTable
import RealmAccess.Proofs.Walk
import RealmAccess.Proofs.Services
import RealmAccess.Proofs.Expand
import RealmAccess.Proofs.Grouping
import RealmAccess.Proofs.Compaction
import RealmAccess.Proofs.Output
import RealmAccess.Proofs.Granted
import RealmAccess.Proofs.Ancestry
import RealmAccess.Proofs.GrantPreservation
import RealmAccess.Proofs.Tables
import RealmAccess.Proofs.Records
import RealmAccess.Proofs.Reordering
import RealmAccess.Proofs.DeclarationOrder
import RealmAccess.Proofs.Resolvable
import RealmAccess.Proofs.Completion
import RealmAccess.Proofs.ValidExpansion
import RealmAccess.Proofs.InternalScope
import RealmAccess.Proofs.CycleDetection
import RealmAccess.Proofs.StackWalk
import RealmAccess.Proofs.ResolutionHistory
import RealmAccess.Proofs.ServicesHistory
import RealmAccess.Proofs.StreamCompaction
import RealmAccess.Proofs.ConditionNumbering
import RealmAccess.Proofs.CycleSearch
import RealmAccess.Proofs.WellFormed
import RealmAccess.Proofs.JsonReadBack
import RealmAccess.Proofs.JsonRoundTrip
