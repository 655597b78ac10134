import SlidingCache.Log.Line
import SlidingCache.Log.Setup
import SlidingCache.Metrics.Counters
import SlidingCache.Metrics.Page
import SlidingCache.Proofs.Expiration.Exact
import SlidingCache.Proofs.Expiration.Offsets
import SlidingCache.Proofs.Key.Segments
import SlidingCache.Proofs.Log.Line
import SlidingCache.Proofs.Metrics.Balance
import SlidingCache.Proofs.Sequence.Containment
import SlidingCache.Proofs.Sequence.KeepAlive
import SlidingCache.Proofs.Sequence.Refinement
import SlidingCache.Proofs.Sequence.Reopening
import SlidingCache.Proofs.Shared.Alike
import SlidingCache.Proofs.Shared.Bounds
import SlidingCache.Proofs.Shared.Environment
import SlidingCache.Proofs.Shared.History
import SlidingCache.Proofs.Shared.LenientReads
import SlidingCache.Proofs.Shared.Lifetimes
import SlidingCache.Proofs.Shared.Prefixes
import SlidingCache.Proofs.Shared.Punctual
import SlidingCache.Proofs.Shared.Readers
import SlidingCache.Proofs.Shared.Reading
import SlidingCache.Proofs.Store.Archive
import SlidingCache.Proofs.Store.Buckets
import SlidingCache.Scenario
import SlidingCache.Service
