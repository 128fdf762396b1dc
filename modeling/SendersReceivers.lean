import SendersReceivers.Chain.Affinity
import SendersReceivers.Chain.SyncWaitSend
import SendersReceivers.Chain.Workers
import SendersReceivers.Chain.Exclusion
import SendersReceivers.Chain.Direct
import SendersReceivers.Chain.Chains
import SendersReceivers.Chain.Calling
import SendersReceivers.Refs.Counts
import SendersReceivers.Split.Panics
import SendersReceivers.Split.SharedChain
import SendersReceivers.EnsureStarted.Stranded
import SendersReceivers.EnsureStarted.EarlyChain
import SendersReceivers.Scope.Delivery
import SendersReceivers.Scope.RootSafety
import SendersReceivers.Scope.Counters
import SendersReceivers.Scope.SameThread
import SendersReceivers.WhenAll.EarlyStop
import SendersReceivers.WhenAll.Chains
import SendersReceivers.WhenAll.Abandoned
import SendersReceivers.WhenAll.FirstError
import SendersReceivers.Pool.Join
import SendersReceivers.Pool.Audit
import SendersReceivers.Pool.Failing
import SendersReceivers.Pool.Poison
import SendersReceivers.Pool.Shutdown
import SendersReceivers.Pool.Broadcast
import SendersReceivers.Detached.Panics
import SendersReceivers.Worker.Calls
import SendersReceivers.Worker.Stranded
import SendersReceivers.StopToken.Propagation
import SendersReceivers.Sync.Channels
