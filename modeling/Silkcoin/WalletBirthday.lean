/-
  The birthday of a wallet: `nTimeFirstKey`, before which blocks need not be scanned.

  Every key has a creation time in `mapKeyMetadata`, and 0 stands for UNKNOWN.  `nTimeFirstKey` should be
  the least of them; but there 0 stands for NOT SET, and the next key that comes with a time sets it.
  The two readings meet in three places:

  * a key is generated when `nTimeFirstKey` is 0 though the wallet has keys;
  * `importprivkey` adds a key of unknown age and leaves `nTimeFirstKey` alone;
  * the wallet file is read with the record of an unknown time BEFORE one of a known time.

  `Clear` says that a step is none of these.  `birthday_sound`: in every run of clear steps the cut-off of
  `ScanForWalletTransactions` is before the creation time of every key.  `importPrivKey_hidden` is a run
  that is not clear.

  A key is its id.  The wallet file is the list of its records; it is read back in ANY order.  The
  constructor of `CWallet` does not set `nTimeFirstKey`: what it is when the reading begins comes from
  outside.
-/
import Silkcoin.KeyStore

namespace Silkcoin

open BatchStore

/-- The records of a wallet file that have to do with keys. -/
inductive KeyRecord where
  | key (id : Uint160)
  | wkey (id : Uint160)
  | ckey (id : Uint160)
  | keymeta (id : Uint160) (nCreateTime : Int)
  | pool (nIndex : Int) (id : Uint160) (nTime : Int)
deriving DecidableEq, Repr

def KeyRecord.isMetaOf (id : Uint160) : KeyRecord → Bool
  | .keymeta id' _ => decide (id' = id)
  | _ => false

/-- `key` and `wkey`, which go when the encrypted key is written. -/
def KeyRecord.isPlainOf (id : Uint160) : KeyRecord → Bool
  | .key id' => decide (id' = id)
  | .wkey id' => decide (id' = id)
  | _ => false

def KeyRecord.isPool : KeyRecord → Bool
  | .pool _ _ _ => true
  | _ => false

/-- What `LoadWallet` counts. -/
structure CWalletScanState where
  nKeys : Nat
  nCKeys : Nat
  nKeyMeta : Nat

/-- The wallet, as far as its keys and their ages go. -/
structure WalletKeys where
  keys : List Uint160
  mapKeyMetadata : StdMap Uint160 Int
  nTimeFirstKey : Int
  fUseCrypto : Bool
  fLocked : Bool
  file : List KeyRecord

namespace WalletKeys

variable (w : WalletKeys)

/-- `mapKeyMetadata[id].nCreateTime`. -/
def nCreateTime (id : Uint160) : Int := (w.mapKeyMetadata.lookup id).getD 0

/-- `if (!nTimeFirstKey || nTime < nTimeFirstKey) nTimeFirstKey = nTime`. -/
def lowered (nTimeFirstKey nTime : Int) : Int :=
  if nTimeFirstKey = 0 ∨ nTime < nTimeFirstKey then nTime else nTimeFirstKey

/-- `mapKeyMetadata[id]` in a place where it is made if it is not there. -/
def touchMetadata (id : Uint160) : WalletKeys :=
  { w with mapKeyMetadata := w.mapKeyMetadata.insert id (w.nCreateTime id) }

def writeKeyMeta (id : Uint160) : WalletKeys :=
  { w with file := .keymeta id (w.nCreateTime id) :: w.file.filter fun r => !r.isMetaOf id }

/-- A `key` record that is there is not written again. -/
def writeKey (id : Uint160) : Bool × WalletKeys :=
  let w := (w.touchMetadata id).writeKeyMeta id
  if .key id ∈ w.file then (false, w) else (true, { w with file := .key id :: w.file })

def writeCryptedKey (id : Uint160) : Bool × WalletKeys :=
  let w := (w.touchMetadata id).writeKeyMeta id
  if .ckey id ∈ w.file then (false, w)
  else (true, { w with file := .ckey id :: w.file.filter fun r => !r.isPlainOf id })

/-- `CWallet::AddKey`: into the keystore, which refuses when it is locked, and into the file. -/
def addKey (id : Uint160) : Bool × WalletKeys :=
  if w.fUseCrypto ∧ w.fLocked then (false, w)
  else
    let w := { w with keys := id :: w.keys }
    if w.fUseCrypto then w.writeCryptedKey id else w.writeKey id

/-- `false` if it throws. -/
def generateNewKey (id : Uint160) (nCreationTime : Int) : Bool × WalletKeys :=
  { w with
    mapKeyMetadata := w.mapKeyMetadata.insert id nCreationTime
    nTimeFirstKey := lowered w.nTimeFirstKey nCreationTime }.addKey id

/-- `importprivkey`, but for the scan. -/
def importPrivKey (id : Uint160) : Bool × WalletKeys := w.addKey id

/-- One line of the file of `importwallet`. -/
def importLine (r : WalletKeys × Int) (line : Uint160 × Int) : WalletKeys × Int :=
  if line.1 ∈ r.1.keys then r
  else match r.1.addKey line.1 with
    | (false, w) => (w, r.2)
    | (true, w) =>
      ({ w with mapKeyMetadata := w.mapKeyMetadata.insert line.1 line.2 }, min r.2 line.2)

/-- `importwallet`: it starts from the time of the best block. -/
def importWallet (lines : List (Uint160 × Int)) (nBestTime : UInt32) : WalletKeys :=
  if w.fUseCrypto ∧ w.fLocked then w
  else
    let r := lines.foldl importLine (w, nBestTime.toNat)
    { r.1 with nTimeFirstKey := lowered r.1.nTimeFirstKey r.2 }

/-- `EncryptKeys` of a wallet with a file: every key is written encrypted.  `none` where the program
    exits. -/
def encryptKeys : Option WalletKeys :=
  if w.fUseCrypto then some w
  else w.keys.dedup.foldlM (fun w id => match w.writeCryptedKey id with
    | (false, _) => none
    | (true, w) => some w) { w with fUseCrypto := true, fLocked := true }

/-! ## Reading the file -/

/-- `none` where a key cannot be put into the keystore, which is a corrupt wallet. -/
def readKeyValue (r : WalletKeys × CWalletScanState) : KeyRecord → Option (WalletKeys × CWalletScanState)
  | .key id =>
    if r.1.fUseCrypto then none
    else some ({ r.1 with keys := id :: r.1.keys }, { r.2 with nKeys := r.2.nKeys + 1 })
  | .wkey id =>
    if r.1.fUseCrypto then none else some ({ r.1 with keys := id :: r.1.keys }, r.2)
  | .ckey id =>
    if r.1.fUseCrypto = false ∧ r.1.keys ≠ [] then none
    else some ({ r.1 with keys := id :: r.1.keys, fUseCrypto := true, fLocked := true },
      { r.2 with nCKeys := r.2.nCKeys + 1 })
  | .keymeta id nCreateTime =>
    -- once in `LoadKeyMetadata`, which leaves an unknown time out, and once after it, for all times
    let nTimeFirstKey := if nCreateTime ≠ 0 then lowered r.1.nTimeFirstKey nCreateTime
      else r.1.nTimeFirstKey
    some ({ r.1 with
      mapKeyMetadata := r.1.mapKeyMetadata.insert id nCreateTime
      nTimeFirstKey := lowered nTimeFirstKey nCreateTime },
      { r.2 with nKeyMeta := r.2.nKeyMeta + 1 })
  | .pool _ id nTime =>
    if r.1.mapKeyMetadata.lookup id = none then
      some ({ r.1 with mapKeyMetadata := r.1.mapKeyMetadata.insert id nTime }, r.2)
    else some r

/-- A new process reads the records in this order; `nTimeFirstKey` is what the constructor left. -/
def loadWallet (order : List KeyRecord) (nTimeFirstKey : Int) : Option WalletKeys :=
  let new : WalletKeys := ⟨[], ∅, nTimeFirstKey, false, false, order⟩
  match order.foldlM readKeyValue (new, ⟨0, 0, 0⟩) with
  | none => none
  | some (w, wss) =>
    if wss.nKeys + wss.nCKeys ≠ wss.nKeyMeta then some { w with nTimeFirstKey := 1 } else some w

/-! ## Scanning -/

/-- The test of `ScanForWalletTransactions` on a block's time. -/
def skips (nTime : UInt32) : Bool :=
  decide (w.nTimeFirstKey ≠ 0 ∧ (nTime.toNat : Int) < w.nTimeFirstKey - 7200)

/-- The cut-off is not after the creation time; where that is unknown there is no cut-off.  1 is the
    birthday that stands for the beginning. -/
def Covered (nTimeFirstKey nCreateTime : Int) : Prop :=
  if nCreateTime = 0 then nTimeFirstKey ≤ 7200 else nTimeFirstKey ≤ max nCreateTime 1

instance (nTimeFirstKey nCreateTime : Int) : Decidable (Covered nTimeFirstKey nCreateTime) :=
  inferInstanceAs (Decidable (if nCreateTime = 0 then nTimeFirstKey ≤ 7200 else
    nTimeFirstKey ≤ max nCreateTime 1))

def Birthday : Prop := ∀ id ∈ w.keys, Covered w.nTimeFirstKey (w.nCreateTime id)

/-! ## Runs -/

inductive Op where
  | generateNewKey (id : Uint160) (nCreationTime : Int)
  | importPrivKey (id : Uint160)
  | importWallet (lines : List (Uint160 × Int)) (nBestTime : UInt32)
  | encryptKeys
  | lock
  | unlock
  /-- the key pool writes its own records -/
  | setPool (records : List (Int × Uint160 × Int))
  | reload (order : List KeyRecord) (nTimeFirstKey : Int)

/-- `none` where the program is over. -/
def step : Op → Option WalletKeys
  | .generateNewKey id nCreationTime => some (w.generateNewKey id nCreationTime).2
  | .importPrivKey id => some (w.importPrivKey id).2
  | .importWallet lines nBestTime => some (w.importWallet lines nBestTime)
  | .encryptKeys => w.encryptKeys
  | .lock => some { w with fLocked := true }
  | .unlock => some { w with fLocked := false }
  | .setPool records => some { w with
      file := records.map (fun r => .pool r.1 r.2.1 r.2.2) ++ w.file.filter fun r => !r.isPool }
  | .reload order nTimeFirstKey => loadWallet order nTimeFirstKey

/-- The file is read back as it is, in some order. -/
def Op.Reads (w : WalletKeys) : Op → Prop
  | .reload order _ => order.Perm w.file
  | _ => True

/-- The time from which `importwallet` scans: the least of the times of the lines whose keys are new. -/
def importBegin (keys : List Uint160) : List (Uint160 × Int) → Int → Int
  | [], nTimeBegin => nTimeBegin
  | line :: lines, nTimeBegin =>
    if line.1 ∈ keys then importBegin keys lines nTimeBegin
    else importBegin (line.1 :: keys) lines (min nTimeBegin line.2)

def isKey : KeyRecord → Bool
  | .key _ => true
  | .ckey _ => true
  | _ => false

def isMeta : KeyRecord → Bool
  | .keymeta _ _ => true
  | _ => false

/-- The records do not agree in number, or every key has its `keymeta` record and no unknown time is read
    before a known one. -/
def ClearOrder (order : List KeyRecord) : Prop :=
  order.countP isKey ≠ order.countP isMeta ∨
  (∀ id, (.key id ∈ order ∨ .wkey id ∈ order ∨ .ckey id ∈ order) → ∃ t, .keymeta id t ∈ order) ∧
  order.Pairwise fun r r' => ∀ id id' t, r = .keymeta id 0 → r' = .keymeta id' t → t = 0

def Clear : Op → Prop
  | .generateNewKey _ nCreationTime => w.nTimeFirstKey = 0 →
    ∀ id ∈ w.keys, Covered nCreationTime (w.nCreateTime id)
  | .importPrivKey id => w.fUseCrypto = true ∧ w.fLocked = true ∨
    Covered w.nTimeFirstKey (w.nCreateTime id)
  | .importWallet lines nBestTime => w.fUseCrypto = true ∧ w.fLocked = true ∨
    (w.nTimeFirstKey = 0 →
      ∀ id ∈ w.keys, Covered (importBegin w.keys lines nBestTime.toNat) (w.nCreateTime id))
  | .reload order _ => ClearOrder order
  | _ => True

/-- A file has one `keymeta` record a key. -/
def OneMeta (file : List KeyRecord) : Prop :=
  ∀ id t t', .keymeta id t ∈ file → .keymeta id t' ∈ file → t = t'

/-- A wallet file is read, and then anything happens; every step meets `P` in the state it finds. -/
inductive Run (P : WalletKeys → Op → Prop) : WalletKeys → Prop where
  | start {file order : List KeyRecord} {nTimeFirstKey : Int} {w : WalletKeys} (hmeta : OneMeta file)
      (horder : order.Perm file) (hop : P ⟨[], ∅, 0, false, false, file⟩ (.reload order nTimeFirstKey))
      (hload : loadWallet order nTimeFirstKey = some w) : Run P w
  | step {w w' : WalletKeys} (h : Run P w) (op : Op) (hreads : op.Reads w) (hop : P w op)
      (hstep : w.step op = some w') : Run P w'

/-! ## The cut-off -/

variable {w} {w' : WalletKeys}

theorem lowered_le (nTimeFirstKey nTime : Int) : lowered nTimeFirstKey nTime ≤ nTime := by
  unfold lowered
  split <;> omega

/-- What was covered stays so, unless there was no cut-off before. -/
theorem Covered.lowered {nTimeFirstKey nTime nCreateTime : Int} (h : Covered nTimeFirstKey nCreateTime)
    (hzero : nTimeFirstKey = 0 → Covered nTime nCreateTime) :
    Covered (lowered nTimeFirstKey nTime) nCreateTime := by
  unfold WalletKeys.lowered
  split
  · rename_i hlow
    rcases hlow with hz | hlt
    · exact hzero hz
    · unfold Covered at h ⊢
      split at h
      · rename_i hunknown
        rw [if_pos hunknown]
        omega
      · rename_i hknown
        rw [if_neg hknown]
        omega
  · exact h

theorem covered_of_le {nTimeFirstKey nCreateTime : Int} (h : nTimeFirstKey ≤ nCreateTime) :
    Covered nTimeFirstKey nCreateTime := by
  unfold Covered
  split <;> omega

/-- No block from two hours before the creation on is left out; no block at all if it is unknown. -/
theorem Covered.not_skips {id : Uint160} (h : Covered w.nTimeFirstKey (w.nCreateTime id))
    {nTime : UInt32} (htime : w.nCreateTime id = 0 ∨ w.nCreateTime id - 7200 ≤ nTime.toNat) :
    w.skips nTime = false := by
  refine decide_eq_false ?_
  rintro ⟨-, hlt⟩
  unfold Covered at h
  split at h
  · omega
  · rename_i hknown
    have htime := htime.resolve_left hknown
    omega

/-! ## Writing keys -/

/-- One `keymeta` record a key, and no key that the wallet does not have. -/
structure FileOk (w : WalletKeys) : Prop where
  oneMeta : OneMeta w.file
  known : ∀ id, .key id ∈ w.file ∨ .ckey id ∈ w.file → id ∈ w.keys

/-- Nothing but the file is changed, and the file is still sound. -/
structure Kept (w w' : WalletKeys) : Prop where
  keys : w'.keys = w.keys
  nTimeFirstKey : w'.nTimeFirstKey = w.nTimeFirstKey
  nCreateTime : ∀ id, w'.nCreateTime id = w.nCreateTime id
  file : w.FileOk → w'.FileOk

theorem Kept.birthday (h : Kept w w') (hb : w.Birthday) : w'.Birthday := by
  intro id hid
  rw [h.nTimeFirstKey, h.nCreateTime]
  exact hb id (h.keys ▸ hid)

theorem Kept.trans {w'' : WalletKeys} (h : Kept w w') (h' : Kept w' w'') : Kept w w'' where
  keys := h'.keys.trans h.keys
  nTimeFirstKey := h'.nTimeFirstKey.trans h.nTimeFirstKey
  nCreateTime id := (h'.nCreateTime id).trans (h.nCreateTime id)
  file hf := h'.file (h.file hf)

theorem nCreateTime_insert (id id' : Uint160) (nTime : Int) (hw : w'.mapKeyMetadata =
    w.mapKeyMetadata.insert id nTime) :
    w'.nCreateTime id' = if id = id' then nTime else w.nCreateTime id' := by
  unfold nCreateTime
  rw [hw, lookup_insert_eq_ite]
  split <;> rfl

theorem kept_writeMeta (id : Uint160) : Kept w ((w.touchMetadata id).writeKeyMeta id) := by
  refine ⟨rfl, rfl, fun id' => ?_, fun hf => ⟨?_, ?_⟩⟩
  · rw [nCreateTime_insert id id' (w.nCreateTime id) rfl]
    split
    · rename_i heq
      rw [heq]
    · rfl
  · -- the old record of the key is gone
    have hcases : ∀ {id' t}, .keymeta id' t ∈ ((w.touchMetadata id).writeKeyMeta id).file →
        id' = id ∧ t = (w.touchMetadata id).nCreateTime id ∨
        id' ≠ id ∧ .keymeta id' t ∈ w.file := by
      intro id' t hmem
      rcases List.mem_cons.mp hmem with heq | hmem
      · cases heq
        exact Or.inl ⟨rfl, rfl⟩
      · obtain ⟨hmem, hne⟩ := List.mem_filter.mp hmem
        refine Or.inr ⟨fun heq => ?_, hmem⟩
        have hself : KeyRecord.isMetaOf id (.keymeta id t) = true := decide_eq_true rfl
        rw [heq, hself] at hne
        cases hne
    intro id' t t' ht ht'
    rcases hcases ht with ⟨heq, ht⟩ | ⟨hne, ht⟩ <;> rcases hcases ht' with ⟨heq', ht'⟩ | ⟨hne', ht'⟩
    · rw [ht, ht']
    · exact absurd heq hne'
    · exact absurd heq' hne
    · exact hf.oneMeta id' t t' ht ht'
  · intro id' hmem
    have hold : ∀ r : KeyRecord, (∀ t, r ≠ .keymeta id t) →
        r ∈ ((w.touchMetadata id).writeKeyMeta id).file → r ∈ w.file := by
      intro r hne hr
      rcases List.mem_cons.mp hr with heq | hr
      · exact absurd heq (hne _)
      · exact (List.mem_filter.mp hr).1
    refine hf.known id' (hmem.imp ?_ ?_)
    · exact hold _ fun t hf => by cases hf
    · exact hold _ fun t hf => by cases hf

theorem writeKey_kept {id : Uint160} (hid : id ∈ w.keys) :
    Kept w (w.writeKey id).2 ∧
      ((w.writeKey id).1 = false → .key id ∈ ((w.touchMetadata id).writeKeyMeta id).file) := by
  have hmeta := kept_writeMeta (w := w) id
  unfold writeKey
  dsimp only
  split
  · rename_i hmem
    exact ⟨hmeta, fun _ => hmem⟩
  · refine ⟨hmeta.trans ⟨rfl, rfl, fun _ => rfl, fun hf => ⟨?_, ?_⟩⟩, fun hf => by cases hf⟩
    · intro id' t t' ht ht'
      exact hf.oneMeta id' t t' (List.mem_of_ne_of_mem (fun hf => by cases hf) ht)
        (List.mem_of_ne_of_mem (fun hf => by cases hf) ht')
    · rintro id' (hmem | hmem)
      · rcases List.mem_cons.mp hmem with heq | hmem
        · cases heq
          exact hid
        · exact hf.known id' (Or.inl hmem)
      · exact hf.known id' (Or.inr (List.mem_of_ne_of_mem (fun hf => by cases hf) hmem))

theorem writeCryptedKey_kept {id : Uint160} (hid : id ∈ w.keys) :
    Kept w (w.writeCryptedKey id).2 ∧
      ((w.writeCryptedKey id).1 = false →
        .ckey id ∈ ((w.touchMetadata id).writeKeyMeta id).file) := by
  have hmeta := kept_writeMeta (w := w) id
  unfold writeCryptedKey
  dsimp only
  split
  · rename_i hmem
    exact ⟨hmeta, fun _ => hmem⟩
  · have hold : ∀ {r : KeyRecord}, r ≠ .ckey id → r ∈ (.ckey id ::
        ((w.touchMetadata id).writeKeyMeta id).file.filter fun r => !r.isPlainOf id) →
        r ∈ ((w.touchMetadata id).writeKeyMeta id).file := by
      intro r hne hr
      exact (List.mem_filter.mp (List.mem_of_ne_of_mem hne hr)).1
    refine ⟨hmeta.trans ⟨rfl, rfl, fun _ => rfl, fun hf => ⟨?_, ?_⟩⟩, fun hf => by cases hf⟩
    · intro id' t t' ht ht'
      exact hf.oneMeta id' t t' (hold (fun hf => by cases hf) ht) (hold (fun hf => by cases hf) ht')
    · rintro id' (hmem | hmem)
      · exact hf.known id' (Or.inl (hold (fun hf => by cases hf) hmem))
      · by_cases heq : id' = id
        · rw [heq]
          exact hid
        · exact hf.known id' (Or.inr (hold (fun hf => heq (by cases hf; rfl)) hmem))

/-- `AddKey` adds the key and touches no age; it fails only on a locked store and on a key that is
    there. -/
theorem addKey_cases (hf : w.FileOk) (id : Uint160) :
    (w.fUseCrypto = true ∧ w.fLocked = true) ∧ w.addKey id = (false, w) ∨
    Kept { w with keys := id :: w.keys } (w.addKey id).2 ∧
      ((w.addKey id).1 = false → id ∈ w.keys) := by
  unfold addKey
  split
  · rename_i hlocked
    exact Or.inl ⟨hlocked, rfl⟩
  · right
    dsimp only
    -- a record that is there is one of the wallet's own
    have hmem : ∀ r : KeyRecord, (∀ t, r ≠ .keymeta id t) →
        r ∈ (({ w with keys := id :: w.keys }.touchMetadata id).writeKeyMeta id).file → r ∈ w.file := by
      intro r hne hr
      rcases List.mem_cons.mp hr with heq | hr
      · exact absurd heq (hne _)
      · exact (List.mem_filter.mp hr).1
    have hkey : id ∈ ({ w with keys := id :: w.keys } : WalletKeys).keys := List.mem_cons_self
    split
    · obtain ⟨hkept, hfail⟩ := writeCryptedKey_kept hkey
      exact ⟨hkept, fun hf' => hf.known id
        (Or.inr (hmem _ (fun t hc => by cases hc) (hfail hf')))⟩
    · obtain ⟨hkept, hfail⟩ := writeKey_kept hkey
      exact ⟨hkept, fun hf' => hf.known id
        (Or.inl (hmem _ (fun t hc => by cases hc) (hfail hf')))⟩

theorem FileOk.cons (h : w.FileOk) (id : Uint160) : FileOk { w with keys := id :: w.keys } :=
  ⟨h.oneMeta, fun id' hmem => List.mem_cons_of_mem _ (h.known id' hmem)⟩

/-! ## The steps -/

/-- The birthday is sound, and so is the file. -/
structure Sound (w : WalletKeys) : Prop where
  birthday : w.Birthday
  file : w.FileOk

theorem Sound.generateNewKey (h : Sound w) {id : Uint160} {nCreationTime : Int}
    (hclear : w.Clear (.generateNewKey id nCreationTime)) :
    Sound (w.generateNewKey id nCreationTime).2 := by
  -- the ages and the birthday are written before the key
  let w₁ : WalletKeys := { w with
    mapKeyMetadata := w.mapKeyMetadata.insert id nCreationTime
    nTimeFirstKey := lowered w.nTimeFirstKey nCreationTime }
  have hage : ∀ id', w₁.nCreateTime id' = if id = id' then nCreationTime else w.nCreateTime id' :=
    fun id' => nCreateTime_insert id id' nCreationTime rfl
  have hcovered : ∀ id', id' = id ∨ id' ∈ w.keys →
      Covered w₁.nTimeFirstKey (w₁.nCreateTime id') := by
    intro id' hid'
    rw [hage]
    split
    · exact covered_of_le (lowered_le _ _)
    · rename_i hne
      have hold : id' ∈ w.keys := hid'.resolve_left fun heq => hne heq.symm
      exact (h.birthday id' hold).lowered fun hz => hclear hz id' hold
  have hfile : w₁.FileOk := ⟨h.file.oneMeta, h.file.known⟩
  rcases addKey_cases hfile id with ⟨-, heq⟩ | ⟨hkept, -⟩
  · show Sound (w₁.addKey id).2
    rw [heq]
    exact ⟨fun id' hid' => hcovered id' (Or.inr hid'), hfile⟩
  · refine ⟨hkept.birthday fun id' hid' => ?_, hkept.file (hfile.cons id)⟩
    exact hcovered id' (List.mem_cons.mp hid')

theorem Sound.importPrivKey (h : Sound w) {id : Uint160} (hclear : w.Clear (.importPrivKey id)) :
    Sound (w.importPrivKey id).2 := by
  rcases addKey_cases h.file id with ⟨-, heq⟩ | ⟨hkept, -⟩
  · show Sound (w.addKey id).2
    rw [heq]
    exact h
  · rcases hclear with hlocked | hcovered
    · have heq : w.addKey id = (false, w) := if_pos hlocked
      show Sound (w.addKey id).2
      rw [heq]
      exact h
    · refine ⟨hkept.birthday fun id' hid' => ?_, hkept.file (h.file.cons id)⟩
      rcases List.mem_cons.mp hid' with rfl | hid'
      · exact hcovered
      · exact h.birthday id' hid'

/-- What the loop of `importwallet` keeps: the birthday is as it was, and each key is an old one with its
    age or a new one no older than `nTimeBegin`. -/
structure Importing (w : WalletKeys) (r : WalletKeys × Int) : Prop where
  nTimeFirstKey : r.1.nTimeFirstKey = w.nTimeFirstKey
  unlocked : ¬ (r.1.fUseCrypto = true ∧ r.1.fLocked = true)
  ages : ∀ id ∈ r.1.keys, id ∈ w.keys ∧ r.1.nCreateTime id = w.nCreateTime id ∨
    r.2 ≤ r.1.nCreateTime id
  file : r.1.FileOk

theorem addKey_unlocked (id : Uint160) : (w.addKey id).2.fUseCrypto = w.fUseCrypto ∧
    (w.addKey id).2.fLocked = w.fLocked := by
  unfold addKey writeKey writeCryptedKey
  split
  · exact ⟨rfl, rfl⟩
  · dsimp only
    split
    · split <;> exact ⟨rfl, rfl⟩
    · split <;> exact ⟨rfl, rfl⟩

/-- A line with a key that the wallet does not have. -/
theorem Importing.newLine {r : WalletKeys × Int} (h : Importing w r) {id : Uint160}
    (hmem : id ∉ r.1.keys) (nTime : Int) :
    Importing w (importLine r (id, nTime)) ∧
      (importLine r (id, nTime)).1.keys = id :: r.1.keys ∧
      (importLine r (id, nTime)).2 = min r.2 nTime := by
  obtain ⟨hlocked, -⟩ | ⟨hkept, hok⟩ := addKey_cases h.file id
  · exact absurd hlocked h.unlocked
  obtain ⟨hcrypto, hlock⟩ := addKey_unlocked (w := r.1) id
  have heq : importLine r (id, nTime) =
      ({ (r.1.addKey id).2 with
        mapKeyMetadata := (r.1.addKey id).2.mapKeyMetadata.insert id nTime }, min r.2 nTime) := by
    unfold importLine
    rw [if_neg hmem]
    cases hadd : r.1.addKey id with
    | mk ok w₁ =>
      cases ok with
      | true => rfl
      | false => exact absurd (hok (by rw [hadd])) hmem
  rw [heq]
  refine ⟨⟨hkept.nTimeFirstKey.trans h.nTimeFirstKey, ?_, ?_, ?_⟩, hkept.keys, rfl⟩
  · rintro ⟨hc, hl⟩
    exact h.unlocked ⟨hcrypto.symm.trans hc, hlock.symm.trans hl⟩
  · intro id' hid'
    have hid' : id' ∈ (r.1.addKey id).2.keys := hid'
    rw [hkept.keys] at hid'
    rw [nCreateTime_insert id id' nTime rfl, hkept.nCreateTime]
    by_cases hsame : id = id'
    · rw [if_pos hsame]
      exact Or.inr (Int.min_le_right _ _)
    · rw [if_neg hsame]
      have hold : id' ∈ r.1.keys := (List.mem_cons.mp hid').resolve_left fun heq => hsame heq.symm
      rcases h.ages id' hold with hage | hle
      · exact Or.inl hage
      · exact Or.inr (Int.le_trans (Int.min_le_left _ _) hle)
  · have hf := hkept.file (h.file.cons id)
    exact ⟨hf.oneMeta, hf.known⟩

theorem Importing.lines {r : WalletKeys × Int} (h : Importing w r)
    (lines : List (Uint160 × Int)) :
    Importing w (lines.foldl importLine r) ∧
      (lines.foldl importLine r).2 = importBegin r.1.keys lines r.2 := by
  induction lines generalizing r with
  | nil => exact ⟨h, rfl⟩
  | cons line lines ih =>
    obtain ⟨id, nTime⟩ := line
    rw [List.foldl_cons]
    by_cases hmem : id ∈ r.1.keys
    · have heq : importLine r (id, nTime) = r := if_pos hmem
      have hbegin : importBegin r.1.keys ((id, nTime) :: lines) r.2 =
        importBegin r.1.keys lines r.2 := if_pos hmem
      rw [heq, hbegin]
      exact ih h
    · obtain ⟨hline, hkeys, htime⟩ := h.newLine hmem nTime
      have hbegin : importBegin r.1.keys ((id, nTime) :: lines) r.2 =
        importBegin (id :: r.1.keys) lines (min r.2 nTime) := if_neg hmem
      rw [hbegin, ← hkeys, ← htime]
      exact ih hline

theorem Sound.importWallet (h : Sound w) {lines : List (Uint160 × Int)} {nBestTime : UInt32}
    (hclear : w.Clear (.importWallet lines nBestTime)) : Sound (w.importWallet lines nBestTime) := by
  unfold WalletKeys.importWallet
  split
  · exact h
  · rename_i hunlocked
    have hstart : Importing w (w, (nBestTime.toNat : Int)) :=
      ⟨rfl, hunlocked, fun id hid => Or.inl ⟨hid, rfl⟩, h.file⟩
    obtain ⟨himp, hbegin⟩ := hstart.lines lines
    refine ⟨?_, himp.file.oneMeta, himp.file.known⟩
    intro id hid
    show Covered (lowered (lines.foldl importLine (w, (nBestTime.toNat : Int))).1.nTimeFirstKey
      (lines.foldl importLine (w, (nBestTime.toNat : Int))).2) _
    rcases himp.ages id hid with ⟨hold, hage⟩ | hle
    · show Covered _ ((lines.foldl importLine (w, (nBestTime.toNat : Int))).1.nCreateTime id)
      rw [himp.nTimeFirstKey, hage, hbegin]
      exact (h.birthday id hold).lowered fun hz => hclear.resolve_left hunlocked hz id hold
    · exact covered_of_le (Int.le_trans (lowered_le _ _) hle)

theorem Sound.encryptKeys (h : Sound w) (hok : w.encryptKeys = some w') : Sound w' := by
  -- the keys that are still to be written are keys of the wallet
  have hfold : ∀ (ids : List Uint160) (w₁ : WalletKeys), Sound w₁ → (∀ id ∈ ids, id ∈ w₁.keys) →
      ids.foldlM (fun w id => match w.writeCryptedKey id with
        | (false, _) => none
        | (true, w) => some w) w₁ = some w' → Sound w' := by
    intro ids
    induction ids with
    | nil =>
      intro w₁ hs _ hok
      cases hok
      exact hs
    | cons id ids ih =>
      intro w₁ hs hsub hok
      have hkept := (writeCryptedKey_kept (hsub id List.mem_cons_self)).1
      rw [List.foldlM_cons] at hok
      cases hwrite : w₁.writeCryptedKey id with
      | mk ok w₂ =>
        rw [hwrite] at hkept hok
        cases ok with
        | false => cases hok
        | true =>
          refine ih w₂ ⟨hkept.birthday hs.birthday, hkept.file hs.file⟩ (fun id' hid' => ?_) hok
          rw [hkept.keys]
          exact hsub id' (List.mem_cons_of_mem _ hid')
  unfold WalletKeys.encryptKeys at hok
  split at hok
  · cases hok
    exact h
  · refine hfold _ { w with fUseCrypto := true, fLocked := true }
      ⟨h.birthday, h.file.oneMeta, h.file.known⟩ (fun id hid => List.mem_dedup.mp hid) hok

/-! ## Reading the file -/

/-- What has been read of a file. -/
structure Reading (done : List KeyRecord) (r : WalletKeys × CWalletScanState) : Prop where
  keys : ∀ id ∈ r.1.keys, .key id ∈ done ∨ .wkey id ∈ done ∨ .ckey id ∈ done
  recorded : ∀ id, .key id ∈ done ∨ .ckey id ∈ done → id ∈ r.1.keys
  ages : ∀ id t, .keymeta id t ∈ done → r.1.mapKeyMetadata.lookup id = some t
  nKeys : r.2.nKeys + r.2.nCKeys = done.countP isKey
  nKeyMeta : r.2.nKeyMeta = done.countP isMeta

/-- The birthday that is read from records in a clear order: no known time is below it, and with an
    unknown one there is no cut-off. -/
structure Lowest (done : List KeyRecord) (nTimeFirstKey : Int) : Prop where
  known : ∀ id t, .keymeta id t ∈ done → t ≠ 0 → nTimeFirstKey ≤ t
  unknown : ∀ id, .keymeta id 0 ∈ done → nTimeFirstKey ≤ 0
  unset : nTimeFirstKey = 0 → (∀ id, .keymeta id 0 ∉ done) → ∀ id t, .keymeta id t ∉ done

variable {done : List KeyRecord} {r r' : WalletKeys × CWalletScanState}

theorem mem_snoc {x y : KeyRecord} (hne : x ≠ y) : x ∈ done ++ [y] ↔ x ∈ done := by
  constructor
  · intro h
    rcases List.mem_append.mp h with h | h
    · exact h
    · exact absurd (List.mem_singleton.mp h) hne
  · exact List.mem_append_left _

/-- A record with a key. -/
theorem Reading.newKey (h : Reading done r) {record : KeyRecord} {id : Uint160}
    (hrecord : record = .key id ∨ record = .wkey id ∨ record = .ckey id)
    (hkeys : r'.1.keys = id :: r.1.keys) (hmeta : r'.1.mapKeyMetadata = r.1.mapKeyMetadata)
    (hcount : r'.2.nKeys + r'.2.nCKeys = r.2.nKeys + r.2.nCKeys + if isKey record then 1 else 0)
    (hcountMeta : r'.2.nKeyMeta = r.2.nKeyMeta) : Reading (done ++ [record]) r' := by
  have hlast : record ∈ done ++ [record] := List.mem_append_right _ List.mem_cons_self
  have hne : ∀ id' t, .keymeta id' t ≠ record := by
    intro id' t heq
    rcases hrecord with hr | hr | hr <;> cases heq.trans hr
  refine ⟨?_, ?_, ?_, ?_, ?_⟩
  · intro id' hid'
    rw [hkeys] at hid'
    rcases List.mem_cons.mp hid' with rfl | hid'
    · rcases hrecord with rfl | rfl | rfl
      · exact Or.inl hlast
      · exact Or.inr (Or.inl hlast)
      · exact Or.inr (Or.inr hlast)
    · exact (h.keys id' hid').imp (List.mem_append_left _)
        (Or.imp (List.mem_append_left _) (List.mem_append_left _))
  · intro id' hmem
    rw [hkeys]
    by_cases heq : id' = id
    · rw [heq]
      exact List.mem_cons_self
    · refine List.mem_cons_of_mem _ (h.recorded id' (hmem.imp ?_ ?_))
      · refine (mem_snoc ?_).mp
        rintro rfl
        rcases hrecord with hr | hr | hr <;> cases hr
        exact heq rfl
      · refine (mem_snoc ?_).mp
        rintro rfl
        rcases hrecord with hr | hr | hr <;> cases hr
        exact heq rfl
  · intro id' t ht
    rw [hmeta]
    exact h.ages id' t ((mem_snoc (hne id' t)).mp ht)
  · rw [hcount, h.nKeys, List.countP_append, List.countP_singleton]
  · rw [hcountMeta, h.nKeyMeta, List.countP_append, List.countP_singleton]
    rcases hrecord with rfl | rfl | rfl <;> rfl

theorem Reading.record (h : Reading done r) {record : KeyRecord} (hone : OneMeta (done ++ [record]))
    (hread : readKeyValue r record = some r') : Reading (done ++ [record]) r' := by
  have hlast : record ∈ done ++ [record] := List.mem_append_right _ List.mem_cons_self
  cases record with
  | key id =>
    simp only [readKeyValue] at hread
    split at hread
    · cases hread
    · cases hread
      exact h.newKey (Or.inl rfl) rfl rfl (Nat.add_right_comm _ _ _) rfl
  | wkey id =>
    simp only [readKeyValue] at hread
    split at hread
    · cases hread
    · cases hread
      exact h.newKey (Or.inr (Or.inl rfl)) rfl rfl rfl rfl
  | ckey id =>
    simp only [readKeyValue] at hread
    split at hread
    · cases hread
    · cases hread
      exact h.newKey (Or.inr (Or.inr rfl)) rfl rfl rfl rfl
  | keymeta id nCreateTime =>
    cases hread
    refine ⟨?_, ?_, ?_, ?_, ?_⟩
    · intro id' hid'
      exact (h.keys id' hid').imp (List.mem_append_left _)
        (Or.imp (List.mem_append_left _) (List.mem_append_left _))
    · intro id' hmem
      refine h.recorded id' (hmem.imp ?_ ?_) <;> exact (mem_snoc (fun hf => by cases hf)).mp
    · intro id' t ht
      show (r.1.mapKeyMetadata.insert id nCreateTime).lookup id' = some t
      rw [lookup_insert_eq_ite]
      split
      · rename_i heq
        rw [hone id' t nCreateTime ht (heq ▸ hlast)]
      · rename_i hne
        exact h.ages id' t ((mem_snoc fun hf => hne (by cases hf; rfl)).mp ht)
    · rw [List.countP_append, List.countP_singleton]
      exact h.nKeys
    · rw [List.countP_append, List.countP_singleton]
      exact congrArg (· + 1) h.nKeyMeta
  | pool nIndex id nTime =>
    -- only where there is no `keymeta` record yet
    have hold : Reading (done ++ [.pool nIndex id nTime]) r := by
      refine ⟨?_, ?_, ?_, ?_, ?_⟩
      · intro id' hid'
        exact (h.keys id' hid').imp (List.mem_append_left _)
          (Or.imp (List.mem_append_left _) (List.mem_append_left _))
      · intro id' hmem
        refine h.recorded id' (hmem.imp ?_ ?_) <;> exact (mem_snoc (fun hf => by cases hf)).mp
      · intro id' t ht
        exact h.ages id' t ((mem_snoc (fun hf => by cases hf)).mp ht)
      · rw [List.countP_append, List.countP_singleton]
        exact h.nKeys
      · rw [List.countP_append, List.countP_singleton]
        exact h.nKeyMeta
    simp only [readKeyValue] at hread
    split at hread
    · rename_i hnone
      cases hread
      refine ⟨hold.keys, hold.recorded, ?_, hold.nKeys, hold.nKeyMeta⟩
      intro id' t ht
      have hlookup := hold.ages id' t ht
      show (r.1.mapKeyMetadata.insert id nTime).lookup id' = some t
      rw [lookup_insert_eq_ite, if_neg (fun heq => ?_)]
      · exact hlookup
      · rw [← heq] at hlookup
        exact absurd (hnone.symm.trans hlookup) (by simp)
    · cases hread
      exact hold

theorem Reading.records {order : List KeyRecord} (h : Reading done r)
    (hone : OneMeta (done ++ order)) (hread : order.foldlM readKeyValue r = some r') :
    Reading (done ++ order) r' := by
  induction order generalizing done r with
  | nil =>
    cases hread
    rw [List.append_nil]
    exact h
  | cons record order ih =>
    rw [List.append_cons] at hone ⊢
    rw [List.foldlM_cons] at hread
    cases hnext : readKeyValue r record with
    | none =>
      rw [hnext] at hread
      cases hread
    | some r₁ =>
      rw [hnext] at hread
      refine ih (h.record (fun id t t' ht ht' => ?_) hnext) hone hread
      exact hone id t t' (List.mem_append_left _ ht) (List.mem_append_left _ ht')

/-- The first of the two updates is undone by none: together they are one for a known time. -/
theorem readKeyValue_lowest {record : KeyRecord} (h : Lowest done r.1.nTimeFirstKey)
    (hclear : ∀ id t, record = .keymeta id t → t ≠ 0 → ∀ id', .keymeta id' 0 ∉ done)
    (hread : readKeyValue r record = some r') : Lowest (done ++ [record]) r'.1.nTimeFirstKey := by
  have hsame : (∀ id t, .keymeta id t ≠ record) → r'.1.nTimeFirstKey = r.1.nTimeFirstKey →
      Lowest (done ++ [record]) r'.1.nTimeFirstKey := by
    intro hne heq
    rw [heq]
    refine ⟨fun id t ht => h.known id t ((mem_snoc (hne id t)).mp ht),
      fun id ht => h.unknown id ((mem_snoc (hne id 0)).mp ht), fun hz hno id t ht => ?_⟩
    exact h.unset hz (fun id' hmem => hno id' (List.mem_append_left _ hmem)) id t
      ((mem_snoc (hne id t)).mp ht)
  cases record with
  | key id =>
    simp only [readKeyValue] at hread
    split at hread <;> cases hread
    exact hsame (fun _ _ hf => by cases hf) rfl
  | wkey id =>
    simp only [readKeyValue] at hread
    split at hread <;> cases hread
    exact hsame (fun _ _ hf => by cases hf) rfl
  | ckey id =>
    simp only [readKeyValue] at hread
    split at hread <;> cases hread
    exact hsame (fun _ _ hf => by cases hf) rfl
  | pool nIndex id nTime =>
    simp only [readKeyValue] at hread
    split at hread <;> cases hread <;> exact hsame (fun _ _ hf => by cases hf) rfl
  | keymeta id nCreateTime =>
    cases hread
    have hmem : ∀ {id' t}, .keymeta id' t ∈ done ++ [.keymeta id nCreateTime] →
        .keymeta id' t ∈ done ∨ t = nCreateTime := by
      intro id' t ht
      rcases List.mem_append.mp ht with ht | ht
      · exact Or.inl ht
      · cases List.mem_singleton.mp ht
        exact Or.inr rfl
    have hlast : KeyRecord.keymeta id nCreateTime ∈ done ++ [.keymeta id nCreateTime] :=
      List.mem_append_right _ List.mem_cons_self
    by_cases hzero : nCreateTime = 0
    · -- no cut-off from here on
      subst hzero
      have heq : (if (0 : Int) ≠ 0 then lowered r.1.nTimeFirstKey 0 else r.1.nTimeFirstKey) =
          r.1.nTimeFirstKey := if_neg fun hf => hf rfl
      show Lowest _ (lowered (if (0 : Int) ≠ 0 then _ else _) 0)
      rw [heq]
      have hle : lowered r.1.nTimeFirstKey 0 ≤ 0 := lowered_le _ _
      have hmono : lowered r.1.nTimeFirstKey 0 ≤ r.1.nTimeFirstKey := by
        unfold lowered
        split <;> omega
      refine ⟨fun id' t ht hne => ?_, fun id' _ => hle, fun _ hno => absurd hlast (hno id)⟩
      rcases hmem ht with ht | ht
      · exact Int.le_trans hmono (h.known id' t ht hne)
      · exact absurd ht hne
    · have hno : ∀ id', .keymeta id' 0 ∉ done := hclear id nCreateTime rfl hzero
      have heq : lowered (lowered r.1.nTimeFirstKey nCreateTime) nCreateTime =
          lowered r.1.nTimeFirstKey nCreateTime := by
        unfold lowered
        split
        · split <;> rfl
        · rfl
      show Lowest _ (lowered (if nCreateTime ≠ 0 then _ else _) nCreateTime)
      rw [if_pos hzero, heq]
      have hle := lowered_le r.1.nTimeFirstKey nCreateTime
      refine ⟨fun id' t ht hne => ?_, fun id' ht => ?_, fun hz _ => ?_⟩
      · rcases hmem ht with ht | ht
        · -- the birthday was set by an earlier record
          have hset : r.1.nTimeFirstKey ≠ 0 := fun hz => h.unset hz hno id' t ht
          have hbelow := h.known id' t ht hne
          unfold lowered
          split <;> omega
        · rw [ht]
          exact hle
      · rcases hmem ht with ht | ht
        · exact absurd ht (hno id')
        · exact absurd ht.symm hzero
      · unfold lowered at hz
        split at hz <;> omega

theorem lowest_records {order : List KeyRecord} (h : Lowest done r.1.nTimeFirstKey)
    (hclear : (done ++ order).Pairwise fun r r' =>
      ∀ id id' t, r = .keymeta id 0 → r' = .keymeta id' t → t = 0)
    (hread : order.foldlM readKeyValue r = some r') : Lowest (done ++ order) r'.1.nTimeFirstKey := by
  induction order generalizing done r with
  | nil =>
    cases hread
    rw [List.append_nil]
    exact h
  | cons record order ih =>
    rw [List.foldlM_cons] at hread
    cases hnext : readKeyValue r record with
    | none =>
      rw [hnext] at hread
      cases hread
    | some r₁ =>
      rw [hnext] at hread
      have hbefore := (List.pairwise_append.mp hclear).2.2
      rw [List.append_cons] at hclear ⊢
      refine ih (readKeyValue_lowest h (fun id t heq hne id' hmem => hne ?_) hnext) hclear hread
      exact hbefore _ hmem record List.mem_cons_self id' id t rfl heq

theorem loadWallet_file {order : List KeyRecord} {r₀ : WalletKeys × CWalletScanState}
    (hread : order.foldlM readKeyValue r₀ = some r') : r'.1.file = r₀.1.file := by
  induction order generalizing r₀ with
  | nil =>
    cases hread
    rfl
  | cons record order ih =>
    rw [List.foldlM_cons] at hread
    cases hnext : readKeyValue r₀ record with
    | none =>
      rw [hnext] at hread
      cases hread
    | some r₁ =>
      rw [hnext] at hread
      have hfile : r₁.1.file = r₀.1.file := by
        cases record <;> simp only [readKeyValue] at hnext <;> (try split at hnext) <;> cases hnext <;>
          rfl
      exact (ih hread).trans hfile

theorem sound_loadWallet {order : List KeyRecord} {nTimeFirstKey : Int} (hone : OneMeta order)
    (hclear : ClearOrder order) (hload : loadWallet order nTimeFirstKey = some w) : Sound w := by
  unfold loadWallet at hload
  dsimp only at hload
  cases hread : order.foldlM readKeyValue
    ((⟨[], ∅, nTimeFirstKey, false, false, order⟩ : WalletKeys), ⟨0, 0, 0⟩) with
  | none =>
    rw [hread] at hload
    cases hload
  | some r =>
    obtain ⟨w₁, wss⟩ := r
    rw [hread] at hload
    have hreading : Reading order (w₁, wss) := by
      have hstart : Reading [] ((⟨[], ∅, nTimeFirstKey, false, false, order⟩ : WalletKeys),
          (⟨0, 0, 0⟩ : CWalletScanState)) := by
        refine ⟨fun _ hf => ?_, fun id hf => ?_, fun _ _ hf => ?_, rfl, rfl⟩
        · cases hf
        · rcases hf with hf | hf <;> cases hf
        · cases hf
      exact hstart.records hone hread
    have hfile : w₁.file = order := loadWallet_file hread
    have hok : w₁.FileOk := ⟨by rw [hfile]; exact hone, by rw [hfile]; exact hreading.recorded⟩
    dsimp only at hload
    by_cases hcount : wss.nKeys + wss.nCKeys ≠ wss.nKeyMeta
    · -- the birthday is the beginning
      rw [if_pos hcount] at hload
      cases hload
      refine ⟨fun id _ => ?_, hok.oneMeta, hok.known⟩
      show Covered 1 _
      unfold Covered
      split <;> omega
    · rw [if_neg hcount] at hload
      have hagree : order.countP isKey = order.countP isMeta := by
        rw [← hreading.nKeys, ← hreading.nKeyMeta]
        exact not_not.mp hcount
      obtain ⟨hmetas, hpairs⟩ := hclear.resolve_left fun hne => hne hagree
      have hlowest : Lowest order w₁.nTimeFirstKey := by
        have hstart : Lowest [] nTimeFirstKey :=
          ⟨fun _ _ hf => absurd hf List.not_mem_nil, fun _ hf => absurd hf List.not_mem_nil,
            fun _ _ _ _ => List.not_mem_nil⟩
        exact lowest_records (r := ((⟨[], ∅, nTimeFirstKey, false, false, order⟩ : WalletKeys),
          (⟨0, 0, 0⟩ : CWalletScanState))) hstart hpairs hread
      cases hload
      refine ⟨fun id hid => ?_, hok⟩
      obtain ⟨t, ht⟩ := hmetas id (hreading.keys id hid)
      have hage : w.nCreateTime id = t := by
        unfold nCreateTime
        rw [hreading.ages id t ht]
        rfl
      rw [hage]
      by_cases hzero : t = 0
      · subst hzero
        exact covered_of_le (hlowest.unknown id ht)
      · exact covered_of_le (hlowest.known id t ht hzero)

/-! ## Every run -/

theorem Sound.step (h : Sound w) {op : Op} (hreads : op.Reads w) (hclear : w.Clear op)
    (hstep : w.step op = some w') : Sound w' := by
  cases op with
  | generateNewKey id nCreationTime =>
    cases hstep
    exact h.generateNewKey hclear
  | importPrivKey id =>
    cases hstep
    exact h.importPrivKey hclear
  | importWallet lines nBestTime =>
    cases hstep
    exact h.importWallet hclear
  | encryptKeys => exact h.encryptKeys hstep
  | lock =>
    cases hstep
    exact ⟨h.birthday, h.file.oneMeta, h.file.known⟩
  | unlock =>
    cases hstep
    exact ⟨h.birthday, h.file.oneMeta, h.file.known⟩
  | setPool records =>
    cases hstep
    -- the records of the pool are neither keys nor ages
    have hold : ∀ {r : KeyRecord}, r.isPool = false →
        r ∈ records.map (fun r => .pool r.1 r.2.1 r.2.2) ++ w.file.filter (fun r => !r.isPool) →
        r ∈ w.file := by
      intro r hr hmem
      rcases List.mem_append.mp hmem with hmem | hmem
      · obtain ⟨record, -, rfl⟩ := List.mem_map.mp hmem
        cases hr
      · exact (List.mem_filter.mp hmem).1
    refine ⟨h.birthday, fun id t t' ht ht' => ?_, fun id hmem => ?_⟩
    · exact h.file.oneMeta id t t' (hold rfl ht) (hold rfl ht')
    · exact h.file.known id (hmem.imp (hold rfl) (hold rfl))
  | reload order nTimeFirstKey =>
    have hperm : order.Perm w.file := hreads
    refine sound_loadWallet (fun id t t' ht ht' => ?_) hclear hstep
    exact h.file.oneMeta id t t' (hperm.mem_iff.mp ht) (hperm.mem_iff.mp ht')

theorem Run.sound (hrun : Run Clear w) : Sound w := by
  induction hrun with
  | start hmeta horder hop hload =>
    refine sound_loadWallet (fun id t t' ht ht' => ?_) hop hload
    exact hmeta id t t' (horder.mem_iff.mp ht) (horder.mem_iff.mp ht')
  | step _ op hreads hop hstep ih => exact ih.step hreads hop hstep

/-- In every run of clear steps the birthday is sound, and no scan leaves out a block that could pay a
    key. -/
theorem birthday_sound {w : WalletKeys} (hrun : Run Clear w) :
    w.Birthday ∧ ∀ id ∈ w.keys, ∀ nTime : UInt32,
      (w.nCreateTime id = 0 ∨ w.nCreateTime id - 7200 ≤ nTime.toNat) → w.skips nTime = false :=
  ⟨hrun.sound.birthday, fun id hid _ htime => (hrun.sound.birthday id hid).not_skips htime⟩

namespace Imported

def id1 : Uint160 := 0xef1c351778f0e58d73a2e50ec7ddde11a25072fc
def id2 : Uint160 := 0x84532ac564cadfeaafcabaad82e74f932b0856b2

/-- A new wallet file is empty. -/
def new : WalletKeys := ⟨[], ∅, 0, false, false, []⟩

/-- The first key is made on 13 May 2014. -/
def generated : WalletKeys := (new.generateNewKey id1 1400000000).2

def imported : WalletKeys := (generated.importPrivKey id2).2

theorem run_generated {P : WalletKeys → Op → Prop} (hload : P new (.reload [] 0))
    (hgenerate : P new (.generateNewKey id1 1400000000)) : Run P generated := by
  have h0 : Run P new := Run.start (fun _ _ _ hf => absurd hf List.not_mem_nil) (List.Perm.refl [])
    hload rfl
  exact h0.step (.generateNewKey id1 1400000000) trivial hgenerate rfl

end Imported

theorem birthday_sound_generated : Imported.id1 ∈ Imported.generated.keys ∧
    Imported.generated.skips 1399999000 = false := by
  have hload : ClearOrder [] := by
    refine Or.inr ⟨fun id hf => ?_, List.Pairwise.nil⟩
    rcases hf with hf | hf | hf <;> cases hf
  have hrun : Run Clear Imported.generated := Imported.run_generated hload
    fun _ id hf => absurd hf List.not_mem_nil
  have hmem : Imported.id1 ∈ Imported.generated.keys := by decide
  exact ⟨hmem, (birthday_sound hrun).2 Imported.id1 hmem 1399999000 (by decide)⟩

/-- `importprivkey` after that: the age of the key is not known, and a block of April 2014 is left out. -/
theorem importPrivKey_hidden : ∃ w, Run (fun _ _ => True) w ∧ ¬ w.Birthday ∧
    ∃ id ∈ w.keys, w.nCreateTime id = 0 ∧ w.skips 1398000000 = true := by
  refine ⟨Imported.imported, ?_, ?_, Imported.id2, by decide, by decide,
    by decide⟩
  · exact (Imported.run_generated trivial trivial).step (.importPrivKey Imported.id2) trivial trivial rfl
  · intro hbirthday
    have hcovered := hbirthday Imported.id2 (by decide)
    exact absurd hcovered (by decide)

end WalletKeys
end Silkcoin
