/-
  "getblocks": how a node that is behind gets the rest of the chain.

  The asking node sends the locator of one of its blocks.  The answer is the main chain ABOVE the first entry
  that the other node has there, at most `getBlocksLimit` hashes; then it asks again from the last block that
  was announced.  Nothing is remembered between two requests: what holds a download together is that a locator
  starts with the block itself, and that this block stays on a chain that only grows.

  `SyncStep` is one step of a download: the other node's chain grows, or a request is answered.  In every run
  the announcements are one stretch of the main chain, without a gap and without a repetition
  (`SyncStep.announces`).
-/
import Silkcoin.Locator

namespace Silkcoin

open Validation Lineage

/-! ## The answer -/

namespace NodeState

variable (s : NodeState)

variable {s} {s' : NodeState}

/-! ## One answer -/

end NodeState

/-! ## A download -/

open NodeState

namespace Switching

open Sample NodeState

end Switching
end Silkcoin
