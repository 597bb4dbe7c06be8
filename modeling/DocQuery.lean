import DocQuery.Query.Step
import DocQuery.Proofs.CacheKey.Soundness
import DocQuery.Proofs.Query.Narrowing
import DocQuery.Proofs.Predicate.Preorder
import DocQuery.Proofs.Predicate.Arrays
import DocQuery.Proofs.Predicate.Malformed
import DocQuery.Proofs.Plan.Paging
import DocQuery.Proofs.Plan.Rows
import DocQuery.Proofs.Query.Totals
import DocQuery.Proofs.Connection.Clients
import DocQuery.Proofs.Predicate.Growth
import DocQuery.Proofs.Query.Frame
import DocQuery.Proofs.Query.Dispatch
import DocQuery.Proofs.Plan.Identity
import DocQuery.Proofs.Plan.Survival
import DocQuery.Proofs.Query.WellFormed
import DocQuery.Proofs.Filter.Merged
import DocQuery.Proofs.Plan.Accumulators
import DocQuery.Proofs.Query.Restoring
import DocQuery.Proofs.Predicate.Redundant
import DocQuery.Proofs.Pattern.Matching
import DocQuery.Proofs.Predicate.Instants
import DocQuery.Proofs.Predicate.Ranges
import DocQuery.Proofs.Predicate.Respelling
import DocQuery.Proofs.Pattern.Delimited
import DocQuery.Proofs.Plan.Wildcards
import DocQuery.Proofs.Plan.Unwinding
import DocQuery.Proofs.Query.AnyRow
import DocQuery.Proofs.Query.Pages
import DocQuery.Proofs.CacheKey.Existence
import DocQuery.Proofs.Query.Gathered
import DocQuery.Proofs.Query.Writes
import DocQuery.Proofs.Value.Identifiers
import DocQuery.Proofs.Update
import DocQuery.Proofs.CacheKey.Shown
import DocQuery.Proofs.Query.Plucked
