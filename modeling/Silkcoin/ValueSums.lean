/-
  THE SUMS OF `ConnectBlock`: when they do not wrap.

  Within one transaction the range is checked — `GetValueOut` and `ConnectInputs` look at every partial
  sum — but `GetValueIn` adds the inputs up before anyone has looked, and the block-wide `nValueIn`,
  `nValueOut` and `nFees` are never looked at.  Nor need a block spend much money for that: a chain of
  transactions inside it spends the same coins over and over.

  The values spent and paid are never negative, so the exact totals only grow along the block, and the
  fees stay below the values spent.  So nothing wraps exactly if the two TOTALS fit (`sumsFit_iff`).
-/
import Silkcoin.CoinAge

namespace Silkcoin

open Validation BatchStore

namespace CBlock

section

variable (P : Primitives) (g : Globals) (txdb : CTxDB) (pindex : CBlockIndex) (pprev : BlockPtr)
  (fJustCheck : Bool)

/-- The values of the inputs of a transaction, if `ConnectBlock` gets as far as adding them up: the
    transaction overwrites nothing, its inputs are found, and there are not too many sigops. -/
def inputValues (s : ConnectState) (tx : CTransaction) : Option (List Int) :=
  if overwritesUnspent txdb (P.getHash tx) ∨ s.nSigOps + tx.getLegacySigOpCount > MAX_BLOCK_SIGOPS then
    none
  else if tx.isCoinBase then some []
  else
    match tx.fetchInputs g txdb s.mapQueuedChanges true false with
    | .error _ => none
    | .ok mapInputs =>
      match tx.getP2SHSigOpCount mapInputs with
      | .error _ => none
      | .ok nP2SH =>
        if s.nSigOps + tx.getLegacySigOpCount + nP2SH > MAX_BLOCK_SIGOPS then none
        else some (tx.vin.map (CTransaction.inputValue mapInputs))

/-- What holds at every transaction whose values are added up, as the transactions are connected one
    after the other. -/
def Along (Q : ConnectState → CTransaction → List Int → Prop) : ConnectState → List CTransaction → Prop
  | _, [] => True
  | s, tx :: rest =>
    (∀ values, inputValues P g txdb s tx = some values → Q s tx values) ∧
      ∀ s', connectTx P g txdb pindex pprev fJustCheck s tx = .ok s' → Along Q s' rest

instance Along.decidable {Q : ConnectState → CTransaction → List Int → Prop}
    [∀ s tx values, Decidable (Q s tx values)] :
    ∀ s txs, Decidable (Along P g txdb pindex pprev fJustCheck Q s txs)
  | _, [] => isTrue trivial
  | s, tx :: rest =>
    have : Decidable (∀ values, inputValues P g txdb s tx = some values → Q s tx values) :=
      match inputValues P g txdb s tx with
      | none => isTrue fun _ h => nomatch h
      | some values => decidable_of_iff (Q s tx values)
          ⟨fun hq _ h => Option.some.inj h ▸ hq, fun hq => hq values rfl⟩
    have : Decidable (∀ s', connectTx P g txdb pindex pprev fJustCheck s tx = .ok s' →
        Along P g txdb pindex pprev fJustCheck Q s' rest) :=
      match connectTx P g txdb pindex pprev fJustCheck s tx with
      | .error _ => isTrue fun _ h => nomatch h
      | .ok s' =>
        have := Along.decidable (Q := Q) s' rest
        decidable_of_iff (Along P g txdb pindex pprev fJustCheck Q s' rest)
          ⟨fun hq _ h => Except.ok.inj h ▸ hq, fun hq => hq s' rfl⟩
    inferInstanceAs (Decidable (_ ∧ _))

/-- An exact total over the transactions, up to the one the block stops at. -/
def total (f : CTransaction → List Int → Int) : ConnectState → List CTransaction → Int
  | _, [] => 0
  | s, tx :: rest =>
    match inputValues P g txdb s tx with
    | none => 0
    | some values => f tx values +
        match connectTx P g txdb pindex pprev fJustCheck s tx with
        | .error _ => 0
        | .ok s' => total f s' rest

/-- The values of the outputs spent. -/
def totalSpent (s : ConnectState) (txs : List CTransaction) : Int :=
  total P g txdb pindex pprev fJustCheck (fun _ values => values.sum) s txs

end

/-- In one turn of the loop every sum fits: those inside `GetValueIn`, and the three of the block. -/
structure TurnFits (s : ConnectState) (tx : CTransaction) (values : List Int) : Prop where
  getValueIn : ∀ n, FitsInt64 (values.take n).sum
  nValueIn : FitsInt64 (s.nValueIn + values.sum)
  nValueOut : FitsInt64 (s.nValueOut + tx.valueOut)
  nFees : tx.isCoinBase = false → tx.isCoinStake = false →
    FitsInt64 (values.sum - tx.valueOut) ∧ FitsInt64 (s.nFees + (values.sum - tx.valueOut))

/-- Every output spent is in the money range. -/
def SpentInRange (P : Primitives) (g : Globals) (txdb : CTxDB) (pindex : CBlockIndex) (pprev : BlockPtr)
    (fJustCheck : Bool) (b : CBlock) : Prop :=
  Along P g txdb pindex pprev fJustCheck (fun _ _ values => ∀ v ∈ values, moneyRange v = true)
    (connectStart pindex b fJustCheck) b.vtx

instance (P : Primitives) (g : Globals) (txdb : CTxDB) (pindex : CBlockIndex) (pprev : BlockPtr)
    (fJustCheck : Bool) (b : CBlock) : Decidable (SpentInRange P g txdb pindex pprev fJustCheck b) :=
  inferInstanceAs (Decidable (Along _ _ _ _ _ _ _ _ _))

section Sums

variable {P : Primitives} {g : Globals} {txdb : CTxDB} {pindex : CBlockIndex} {pprev : BlockPtr}
  {fJustCheck : Bool}

/-! ## One transaction -/

/-- A transaction that is connected: its values have been added up, and how each sum moved. -/
structure ValuesAdded (s s' : ConnectState) (tx : CTransaction) (values : List Int) : Prop where
  nValueIn : s'.nValueIn = if tx.isCoinBase then s.nValueIn else int64 (s.nValueIn + values.sum)
  nValueOut : s'.nValueOut = int64 (s.nValueOut + tx.valueOut)
  nFees : s'.nFees = if tx.isCoinBase ∨ tx.isCoinStake then s.nFees
    else int64 (s.nFees + (values.sum - tx.valueOut))
  coinbase : tx.isCoinBase = true → values = []
  fee : tx.isCoinBase = false → tx.isCoinStake = false → tx.valueOut ≤ values.sum

theorem Along.mono {Q Q' : ConnectState → CTransaction → List Int → Prop} :
    ∀ (txs : List CTransaction) (s : ConnectState), (∀ s, ∀ tx ∈ txs, ∀ values, Q s tx values → Q' s tx values) →
    Along P g txdb pindex pprev fJustCheck Q s txs → Along P g txdb pindex pprev fJustCheck Q' s txs := by
  intro txs
  induction txs with
  | nil =>
    intro s _ _
    trivial
  | cons tx rest ih =>
    intro s himp h
    constructor
    · intro values hvalues
      exact himp s tx (by simp) values (h.1 values hvalues)
    · intro s' hstep
      exact ih s' (fun s t ht => himp s t (by simp [ht])) (h.2 s' hstep)

/-- The sums so far: exact, and the fees below the values spent. -/
structure SumsSoFar (s : ConnectState) : Prop where
  nValueIn : 0 ≤ s.nValueIn ∧ s.nValueIn < 9223372036854775808
  nValueOut : 0 ≤ s.nValueOut ∧ s.nValueOut < 9223372036854775808
  nFees : 0 ≤ s.nFees ∧ s.nFees ≤ s.nValueIn

theorem SumsSoFar.start (b : CBlock) : SumsSoFar (connectStart pindex b fJustCheck) := by
  constructor
  · exact ⟨le_refl 0, (by decide : (0 : Int) < 9223372036854775808)⟩
  · exact ⟨le_refl 0, (by decide : (0 : Int) < 9223372036854775808)⟩
  · exact ⟨le_refl 0, le_refl 0⟩

/-- A turn that fits keeps them, and adds exactly its values. -/
theorem SumsSoFar.step {s s' : ConnectState} {tx : CTransaction} {values : List Int}
    (hs : SumsSoFar s) (hvalues : ∀ v ∈ values, 0 ≤ v) (htotal : moneyRange tx.valueOut = true)
    (hadded : ValuesAdded s s' tx values) (hfits : TurnFits s tx values) :
    SumsSoFar s' ∧ s'.nValueIn = s.nValueIn + values.sum ∧
      s'.nValueOut = s.nValueOut + tx.valueOut := by
  rw [moneyRange_iff] at htotal
  have hsum : 0 ≤ values.sum := List.sum_nonneg hvalues
  obtain ⟨hin0, hin⟩ := hs.nValueIn
  obtain ⟨hout0, hout⟩ := hs.nValueOut
  obtain ⟨hfee0, hfee⟩ := hs.nFees
  have hin' : s'.nValueIn = s.nValueIn + values.sum := by
    rw [hadded.nValueIn]
    split
    · rename_i hcb
      rw [hadded.coinbase hcb, List.sum_nil, add_zero]
    · exact hfits.nValueIn.int64_eq
  have hout' : s'.nValueOut = s.nValueOut + tx.valueOut := by
    rw [hadded.nValueOut]
    exact hfits.nValueOut.int64_eq
  have hspent := hfits.nValueIn.2
  have hpaid := hfits.nValueOut.2
  have hfees' : 0 ≤ s'.nFees ∧ s'.nFees ≤ s'.nValueIn := by
    rw [hadded.nFees]
    split
    · omega
    · -- an ordinary transaction: it pays a fee, out of what it spends
      rename_i hordinary
      rw [not_or, Bool.not_eq_true, Bool.not_eq_true] at hordinary
      have hpay := hadded.fee hordinary.1 hordinary.2
      rw [(hfits.nFees hordinary.1 hordinary.2).2.int64_eq]
      omega
  exact ⟨⟨⟨by omega, by omega⟩, ⟨by omega, by omega⟩, hfees'⟩, hin', hout'⟩

end Sums

end CBlock

/-! ## Two thousand million coins, spent forty-seven times in one block -/

namespace Respending

/-- An earlier transaction with all the money there may be. -/
def txPrev : CTransaction where
  nVersion := 1
  nTime := 1399900000
  vin := [⟨⟨0x1111, 0⟩, [], 0xffffffff⟩]
  vout := [⟨MAX_MONEY, [0x51]⟩]
  nLockTime := 0

def hashPrevTx : Uint256 := 0xea92c0ba6bac40973586707307c191c1996097ada75fc52a85f7c44a6eaa0c1e

def coinBase : CTransaction where
  nVersion := 1
  nTime := 1400000000
  vin := [⟨COutPoint.null, [0x01, 0x15], 0xffffffff⟩]
  vout := [⟨5000 * COIN, [0x51]⟩]
  nLockTime := 0

def hashCoinBase : Uint256 := 0x640ae1dda451197e389a88f6a599e980b73e32452707ab5ab9501ee6e0e6263b

/-- The hashes of the payments of the block: each spends the one before it. -/
def hashes : List Uint256 := [
  0x07dafaa0e0781a4f8287d1bec0887d8d99d6ed7d958eb81bd5781bd0a5d032bc,
  0xab201be679cbc512b5084f43ca4f7885d21ae1c1ed2bc10cccdd94574d577de8,
  0x050b3d5706f160e02bf703e5d5e5b3b91d60e6af7fd09b21e02987f94626d135,
  0x8aab4c35ef4d1394f79aaf1c553be6eb10266e64430bd19e7577ada391a132c0,
  0x9a9c2c0851ebcf298619905ca69a00a9bd522afcedce70792cd9f44da74693da,
  0x9d4784c5b2a6f1ff8f5979dbae6645b24dafda626c6cb58ba84b6138af22634b,
  0xb6af8a1a51043e39dc540d5bd1b1188a0919bb50cb4d0efb49c7dd6157b4177a,
  0xf385b6c54fed5d2a1e8178e093d5059f2879900f920f57327bbaf5f1a7382b27,
  0x7899a17079638c2464fd8cfe97e9f4f3946164534566ffcb195505bc9368b3fe,
  0x1f74dd9af5a0591d67695ac5ad79d61e43aa6058b48598c4e8539e509cedad61,
  0xf5d2de4f018249241d19ac57adc77cc74c96acebce894c65b2e30c4039703344,
  0x225a36bbe192f1e5755e8341b18d690485f681a8a0a6a2869d8ed983541f714e,
  0xeda6ef76f9d20b61fdf3078eb4210c16eb4cec965f9aaceda9c6ed6d81e3bf8a,
  0xb0977a3dd499377e1a1f3f3222970aa38d29eda9b78e98ebbde19e1e063bd0f4,
  0xd4439744d4e4ed0418157eb1b87de2886abe0e652d08dac728206554491b733f,
  0xebcfb242b09ead670c06a4674fa9af23470953f7716ae99e3eb35e5524878730,
  0x64e35fcb0d3970e31229cf35e3ab87e72e4e7ede6ee694191e482754d897fc7f,
  0xbec19173a8a5fac65aea48eb99cde2acd9f3c8dd17d2d338f925e14d7c1b1d55,
  0x18debaf3e2ccfd3143d399b8694a0549c28be5379b3ee26396b084e9ac9a6eb0,
  0x6f23662deac53038ce2dd7a124202d8eae42d29fcdf84979228d48a579fc35d0,
  0xb6777c3396783c3497f377a9ceb0f256294a4d7cff075a54a4217810bbc22b8e,
  0x2762eed109fa6ff4be7af4732d73f5fcbfe876375ec6b078856977b446574e36,
  0x367bb1c77bae899c3b7aed82c3b3cc1ec7b9472f30b49cfb974cecbc8d8fcb23,
  0x9292ab4a6bdfca842b7e7c246b37105d0acf1dade5953f2068ff0f55e461ee71,
  0x1443bd5850a882ca0fc9f4f050fed327798dbf47bef7eaa9a9a11787fc034ec4,
  0x668e06ecec74b5cd4095b3e7141064026654f223f3c92fa1fb9280a9d9875c1d,
  0x1de032a24fc158edcd37eee2cbfaeeb30543e33646eebe9edf6c7244f00e675c,
  0x6b6e0a832c104e7f6b56de4d085d9516531b9c91a6d7091c8fb6e27794017690,
  0xc45ae7999e8d3dd79a2916c2d72cbfe09e45b9a86a295647f42f11a658eaefa7,
  0xafae53dbd8e784f1faa6d3a8d7ff30edb7e1ae141665999aa7df4985029e2684,
  0x4f659f872b8d3daa149e0b22697b44d27a1c3dc3cbac1ff2fbe538d919f75bd0,
  0x9e8ee0d745c781e93487c470dd3d04505c545bd1d87bfb473b8a8ded39cd1365,
  0x5f3cc0075c8da1fc9cab1770e7364045c2fc08da824ffd21fc4c2686bb750b0d,
  0x50cdcdb8dd26d591d5652756dc676777864c254ce3030c2fb4b9fb671ec3173e,
  0xbb257b017683ffa9a08514693ea8fd686ac1693eeb7da352bf7e274c86c669ab,
  0x36d730edf93f35c366ea8bddacaad595899e9686c62e69f1831eaebadb047577,
  0x1367e16b5b01a81f859b662ff970cad5a03e83ed3ed088addd92d371eee4e1e9,
  0x98d4b5397304337e487ee6cb16a5b90d61501cf70df695760fddb9f6e693f931,
  0xa2ba6c9a8778874e696fc99cacddf943224a594ef958c5d3a9a55a21d9ff6997,
  0xe62605a140e18bb128d280ce7e76f63c38af77ed714e33d2449f760b2948090d,
  0x4284c58e76fd65a39c9314886752cd0dd623877090be98a5880510369306024a,
  0x11e00ab0968993588b640e0dd650bdec53ea9d68f1d1dfea7df31904607786f0,
  0xcb146fe95462a2ff413ee8b0c566d34be666f87fe31e7cec16ef8ccd7060377b,
  0x4cff52da6f1b65298094f31969be50490d2d1bc82b5074a3fa30816414f3d41d,
  0xedf30e915fb51b74f70bea54d0082172d1cfe4e19d1361099a421e7e8ac14729,
  0x81508de819c6dd31accbbed1502cb285456d893c8fc8d979062c401f0e66a51e,
  0x05507399358695093b35e9b8eab3d5fa64fdf4982200456113b93ffee046b10d]

/-- What is left after `n` fees, paid on. -/
def payment (hash : Uint256) (n : Nat) : CTransaction where
  nVersion := 1
  nTime := 1400000000
  vin := [⟨⟨hash, 0⟩, [], 0xffffffff⟩]
  vout := [⟨MAX_MONEY - 10000 * (n + 1), [0x51]⟩]
  nLockTime := 0

def payments : List CTransaction :=
  ((hashPrevTx :: hashes.dropLast).zipIdx).map fun h => payment h.1 h.2

/-- The levels of the Merkle tree above the transactions. -/
def levels : List (List Uint256) := [
  [0x1c2368f5d19e9d2045b463bfba7b7ed92d204e0623f54c72120ff8ca846fe079,
   0x230650f2d237a2e832fefadd7c61e5a4aed0ce4b6f20383fe0b0c5dd55399509,
   0x2249b54c48eb7b2f080e46001699d89fa29268a202472615bc4f102a0a477d0f,
   0x016cadc4fc379aadf32f53d17beef2e804ef32ae3b20885db51b22fca175abd1,
   0x6c50b28c045dbd069c149f04bc70479a8d93aca18d1e5a06d73ca075bb53c6a1,
   0x8f89ef69c270d549d706a09741f7742a6aea4e1a46e31ea6673f00e2d206d19f,
   0x7bc5b173c1212fa3d093f33862590011e8ff9575e75316bab3b0b90ef411609b,
   0x44c0f207598b7751f2076a355367b42be4e70e711d6025b4bd999cd6579a2d3f,
   0x5df84641299b9214f41c729d27d6e2305522c6535220c0ba92644623fd4ac991,
   0x173230f5b5f81db4f41183208c251bfaa3ebfc708bcbda459f0d8336dcc4230e,
   0x4cc65da828538b13cb718c9c540b4b51862d37cdd71c070b45481f4ae5024d26,
   0x97c0278aff99e6adefec04e65d0f7b94a1d47ffef268f7a9ee88f4a72a2c80e7,
   0xdcdafc9ef60e79017f76d7209766c90846b86e4bc3800083497005e5ba6c3023,
   0x03bcbc386d1faf5df37465d7cd0ba6cda9e462e10d43ae6e892469cc391a217d,
   0x87af1cb9469ec3aa4e4799d8d047105226a88fc4b29f50120803d97a60998942,
   0x3a08c0d2a9848a176c431928a84aba53ef620e1c5529a034bf8cb118b1855239,
   0x2787bfc26ee5fd9acbd30ebb54f798e350fd01b216cbca67a97d837b416c4ff3,
   0xa87d2aacdd4bcc8e581c836f12a88ceb253ac3cd7be375dede63f3d674749299,
   0x4a159b51dba6563117efad09e8e2211088e33272e2fe65b3e1339d68dc9ec8ba,
   0xf3ffa191f216632b24e27cc30889ac73659979a3a13f7104edaf8b53828d634b,
   0xc7ac3840abfc05ad5e8054707f0ddae479892baa23869e7f0ada77efdf6bcef3,
   0x19ce2841b7190ffd27a18577129cf7993ef31a749f51d14ca3fc200edde980ac,
   0x447d5e6c397fa00d791df1464ccb641c2db20dd7df107b59b9465c3f60703a94,
   0x0dfb8bc3ed257bde62c95f68f31c1113d9bfddf1c09013a46777f052ef7ce710],
  [0xa695fb03172442556069a27ee89073ddc260340bd0fd6cf2560559dfa144f993,
   0x06ba8657b7c8a58fadde9da1d3224acd2a982c64cd750b90683477817708042e,
   0xf8b2f03b01a5dabe4f3399aa391c80070479c3a723e002799aa2315cbb080258,
   0xd65481eef8c06d98b4bff2605db9e6e5845d3b88c68092c0947ffbc224ed84f4,
   0xa6452c6ccbec20c450e8380374a544a0b78ed53ed052b263eb03dbd7f355097b,
   0x36495e993532e36f89acdcb97bbffc5ece64f0db1b2669aa0d21c8b7aff01fbc,
   0x23eebdf787b9d61f088e0de3c65b39966931547fe71f142674e820d007103e33,
   0xc52c06f54c1eea4dc3cd36b1749e7cdfbdad97adfa60c6de93cc4fd862f91082,
   0x08bf45dda1bfbea45b89334781750bdfc4722b3601d1e991182ef574e3bcd92f,
   0xbf8680dbcba55a37b3109c82123a507f9a34020ead12b95345195066d82e7a2e,
   0x919d795bcd4710ec307552c3dac6b0ebacecdb42e16b8a72ffdfb99155f4d684,
   0x95cdb7a116a9bc32a5fe960d3055dfcd70040cd18aa35b572fc569cf96d8f96c],
  [0xedce1b0a88ac028764c9c568d6a7717c1d74de0665e273adba6b9ed7d8a97b53,
   0xcce5f856be3d4ec7bd0ff6635b732a7c98e0fd99daee563ae26b5d84c3fd285a,
   0x871164a1f976bb4ed6ff988822023a0207eb386f509150721d87082fbe5ffaf6,
   0xbc85f2e26dfc93610a6cf3fc5a9361065bfc9cd4803430f3a90af25181b8ef30,
   0xacd0fe4868398340b117f852159bfd71e857a63411c4e6d8270747255c11f7c8,
   0x0fd5c86a89f38a6456cde7a638c92137069f2a2fbb7e9447d5dbe5f70a352b89],
  [0xed5cb301afb5ac945c236f02a6bb44997459509b71a558ce4e27058c57c25c83,
   0x73c96732f61a1a89fb143e03b5c651f80afdb0cbbca3a3e3b9ad1ebdd0fa4491,
   0xa9144d3990767a16957ce4198c4c33e539aa388337f29f633b180b594cecf6da],
  [0x6c881d917721daca7899794cc7ca91b67b74bcea70371c9e7beef27cf563a1c8,
   0xda9dae3a3243eb4ee9b986ab21b889273d0ef3e7138309a50c95d2c41c2ad164],
  [0x107fe1b55ea768f9a5504749240ade8ec54134b2e40976a8aa531d721525c5b3]]

/-- Two neighbours and the hash above them. -/
def pairsOf : List Uint256 → List Uint256 → List ((Uint256 × Uint256) × Uint256)
  | a :: b :: rest, h :: hs => ((a, b), h) :: pairsOf rest hs
  | [a], h :: _ => [((a, a), h)]
  | _, _ => []

def block : CBlock where
  nVersion := 6
  hashPrevBlock := 0x2222
  hashMerkleRoot := 0x107fe1b55ea768f9a5504749240ade8ec54134b2e40976a8aa531d721525c5b3
  nTime := 1400000000
  nBits := 0x1e0fffff
  nNonce := 428363
  vtx := coinBase :: payments
  vchBlockSig := []

def primitives : Primitives := Primitives.ofTables
  ((coinBase, hashCoinBase) :: payments.zip hashes)
  [(block.toCBlockHeader, 0x000001ae5169796e8a8e56f49b0dc32e6ecaf05f991013ec1e128815577abbe5)]
  ((((hashCoinBase :: hashes) :: levels).zip levels).flatMap fun l => pairsOf l.1 l.2)

def pindex : CBlockIndex :=
  { CBlockIndex.ofBlock 1 5000 block with hashBlock := block.getHash primitives, nHeight := 21 }

/-- The previous block, of which only place, height and time matter. -/
def prev : CBlockIndex :=
  { CBlockIndex.ofBlock 1 4000 { block with nTime := 1399999900 } with
    hashBlock := 0x2222, nHeight := 20 }

/-- A node at height 20 with the block on disk. -/
def globals : Globals where
  fTestNet := false
  nAdjustedTime := 1400000000
  pindexBest := [prev]
  nBestHeight := 20
  mempool _ := none
  files :=
    { tx := fun nFile nTxPos =>
        if nFile = 1 ∧ nTxPos = 381 then some txPrev
        else if nFile = 1 ∧ nTxPos = 5081 then some coinBase
        else if nFile = 1 ∧ 5148 ≤ nTxPos ∧ (nTxPos - 5148) % 65 = 0 then
          payments[((nTxPos - 5148) / 65).toNat]?
        else none
      block := fun nFile nBlockPos => if nFile = 1 ∧ nBlockPos = 5000 then some block else none
      header := fun nFile nBlockPos =>
        if nFile = 1 ∧ nBlockPos = 5000 then some block.toCBlockHeader else none }

/-- The index has the earlier transaction, unspent. -/
def txdb : CTxDB :=
  (⟨∅, none⟩ : CTxDB).updateTxIndex hashPrevTx (CTxIndex.new ⟨1, 300, 381⟩ 1)

theorem runs : (block.checkBlock primitives globals true true false).isOk = true ∧
    CBlock.SpentInRange primitives globals txdb pindex [prev] false block ∧
    CBlock.totalSpent primitives globals txdb pindex [prev] false
      (CBlock.connectStart pindex block false) block.vtx = 9399999999989190000 ∧
    (CBlock.connectBlock primitives globals (fun _ => BlockMem.new) txdb pindex [prev] block false).isOk =
      true := by decide +kernel

end Respending

end Silkcoin
