import Sintr.Phase1.Digests
import Sintr.Phase1.Endorsers
import Sintr.Phase1.Async
import Sintr.Phase1.Prepared
import Sintr.Fallback.Views
import Sintr.Fallback.Decisions
import Sintr.Fallback.Logged
import Sintr.Writeback.Transfer
import Sintr.Mvtso.LockSafety
import Sintr.Mvtso.LockOrder
import Sintr.Mvtso.Entries
import Sintr.Cert.Membership
import Sintr.Cert.ViewJobs
import Sintr.Verifier.Batch
import Sintr.Client.Completeness
import Sintr.Mvtso.Serializable
import Sintr.Shard.Coordinator
import Sintr.Semantic.TableWrites
import Sintr.Query.Wake
import Sintr.Query.Complete
import Sintr.Verifier.Batching
import Sintr.Query.Accepted
import Sintr.Phase1.Verdicts
import Sintr.Fallback.MoveView
import Sintr.Client.Checks
import Sintr.Shard.Invoke
import Sintr.Fallback.Leader
import Sintr.Data.Order
import Sintr.Policy.Leak
import Sintr.Shard.Forged
import Sintr.Policy.Contacts
import Sintr.Client.Endorsements
import Sintr.Client.Sessions
import Sintr.Fallback.Organizer
import Sintr.Hotstuff.Decisions
import Sintr.Query.LocalSnapshots
import Sintr.Data.VersionStore
import Sintr.Sql.TableRow
import Sintr.Verifier.Signing
