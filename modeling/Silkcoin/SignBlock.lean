/-
  `CBlock::SignBlock`: a template becomes a proof-of-stake block.

  The coinstake comes in when the template is finished: its transactions, and with them the fees, are
  fixed.  The time of the block is then set twice.  First it is the coinstake's, which is what
  `CheckCoinStakeTimestamp` wants; then it is RAISED to the latest time in the block, before the
  transactions later than the block are erased.  So none is ever erased, and a template with a
  transaction later than the coinstake makes a block with another time than its coinstake.
-/
import Silkcoin.StakeReward

namespace Silkcoin

open Validation BatchStore SpendLedger

/-- `CheckBlockSignature`, for a proof-of-stake block. -/
def checkBlockSignature (P : Primitives) (C : KeyPrimitives) (E : Signatures) (b : CBlock) : Bool :=
  match b.vtx with
  | _ :: coinStake :: _ =>
    match coinStake.vout with
    | _ :: txout :: _ =>
      match solver txout.scriptPubKey with
      | some (.TX_PUBKEY, vchPubKey) =>
        C.validPubKey vchPubKey && !b.vchBlockSig.isEmpty &&
          E.verify (CKey.reset.setPubKey C vchPubKey) (b.getHash P) b.vchBlockSig
      | _ => false
    | _ => false
  | _ => false

namespace NodeState

variable (P : Primitives) (C : KeyPrimitives) (H : KernelHashes) (E : Signatures) (s : NodeState)
  (W : StakeWallet)

/-- What `SignBlock` returns and leaves behind. -/
structure SignResult where
  fSigned : Bool
  block : CBlock
  nLastCoinStakeSearchTime : Int

/-- The earliest time of a block on `pindexBest`. -/
def earliestTime (pindexBest : BlockPtr) : Int :=
  max (BlockPtr.getMedianTimePast pindexBest + 1)
    ((pindexBest.head?.map CBlockIndex.getBlockTime).getD 0 - 10 * 60)

/-- The block with the coinstake in it, before it is signed. -/
def stakeBlock (b : CBlock) (coinBase : CTransaction) (rest : List CTransaction)
    (txCoinStake : CTransaction) : CBlock :=
  let vtx := { coinBase with nTime := txCoinStake.nTime } :: rest
  let nTime := unsigned (max (BlockPtr.getMedianTimePast s.pindexBest + 1) (getMaxTransactionTime vtx))
  let nTime := unsigned (max nTime.toNat
    ((s.pindexBest.head?.map CBlockIndex.getBlockTime).getD 0 - 10 * 60))
  let vtx := vtx.filter fun tx => !decide (tx.nTime > nTime)
  let vtx := vtx.take 1 ++ txCoinStake :: vtx.drop 1
  { b with
    nTime := nTime
    vtx := vtx
    hashMerkleRoot := CBlock.buildMerkleTree { b with vtx := vtx } P }

def signBlock (nLastCoinStakeSearchTime nFees : Int) (b : CBlock) : Check SignResult :=
  match b.vtx with
  | [] => .error (.throw "vtx[0]")
  | coinBase :: rest =>
    match coinBase.vout with
    | [] => .error (.throw "vout[0]")
    | txout :: _ =>
      if txout.isEmpty = false then .ok ⟨false, b, nLastCoinStakeSearchTime⟩
      else if b.isProofOfStake then .ok ⟨true, b, nLastCoinStakeSearchTime⟩
      else
        let nSearchTime : Int := (unsigned s.nAdjustedTime).toNat
        if nSearchTime > nLastCoinStakeSearchTime then do
          match ← createCoinStake P s C H E W b.nBits (nSearchTime - nLastCoinStakeSearchTime) nFees with
          | none => return ⟨false, b, nSearchTime⟩
          | some (txCoinStake, key) =>
            if (txCoinStake.nTime.toNat : Int) ≥ earliestTime s.pindexBest then
              let b := stakeBlock P s b coinBase rest txCoinStake
              match E.sign key (b.getHash P) with
              | none => return ⟨false, b, nLastCoinStakeSearchTime⟩
              | some vchBlockSig =>
                return ⟨true, { b with vchBlockSig := vchBlockSig }, nLastCoinStakeSearchTime⟩
            else return ⟨false, b, nSearchTime⟩
        else .ok ⟨false, b, nLastCoinStakeSearchTime⟩

end NodeState
end Silkcoin
