import Pypiron.BucketHealth.Runs
import Pypiron.Counters.Immutable
import Pypiron.Counters.Overlap
import Pypiron.Counters.Totals
import Pypiron.Cutoff
import Pypiron.DeleteVisibility
import Pypiron.Deps.Least
import Pypiron.DiffPair.Visits
import Pypiron.ExcludeReconcile.Restarts
import Pypiron.GlobalIndex.Agreement
import Pypiron.IndexCache.Isolation
import Pypiron.LeaseSafety
import Pypiron.MalwareProbe.Runs
import Pypiron.Markdown.Faithful
import Pypiron.ObjectKeys.Paging
import Pypiron.Origin.Lattice
import Pypiron.Osv.FailClosed
import Pypiron.PrivateNames
import Pypiron.ProjectCache.Tokens
import Pypiron.Publish.Immutable
import Pypiron.Quarantine.StatusAgreement
import Pypiron.Removal.Exact
import Pypiron.Render.Urls
import Pypiron.Replicate.Confluence
import Pypiron.Replicate.CopyExact
import Pypiron.Replicate.MergeOrder
import Pypiron.Replicate.NoteDebt
import Pypiron.Replicate.SettleRace
import Pypiron.SidecarCache.Exact
import Pypiron.StatusConvergence
import Pypiron.StatusRelay
import Pypiron.StreamingFill.Integrity
import Pypiron.SyncCursor.Reconcile
import Pypiron.SyncRounds.Complete
import Pypiron.Throttle.Failures
import Pypiron.Throttle.Oracle
import Pypiron.TopologyAgreement
import Pypiron.Transparency.CatchUp
import Pypiron.Transparency.NoFork
import Pypiron.Transparency.TamperEvidence
import Pypiron.UsedBy.Inverse
import Pypiron.VerifyIndex.Agreement
import Pypiron.Worker.EventConvergence
import Pypiron.Worker.Fingerprint
