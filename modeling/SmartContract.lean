import SmartContract.Wire
import SmartContract.MemPool.Basic
import SmartContract.MemPool.Spec
import SmartContract.MemPool.Reachable
import SmartContract.MemPool.Conflicts
import SmartContract.MemPool.Requests
import SmartContract.MemPool.Tracked
import SmartContract.SpyNode.Check
import SmartContract.SpyNode.Gates
import SmartContract.SpyNode.Node
import SmartContract.SpyNode.Interleavings
import SmartContract.SpyNode.Penalties
import SmartContract.Inspector
import SmartContract.Vote.Float64
import SmartContract.Vote.Systems
import SmartContract.Vote.Winners
import SmartContract.Vote.Order
import SmartContract.Vote.Spec
