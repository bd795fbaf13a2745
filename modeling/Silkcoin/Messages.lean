/-
  MESSAGES ON THE WIRE: a header of 24 bytes (start mark, command, size, checksum) and the payload.

  The sender writes a header with size and checksum 0, then the payload, and fills both in at the end
  (`pushMessage`).  The receiver runs `ProcessMessages` after every chunk that arrives: it looks for the
  start mark, reads the header, and either skips it, or hands the message to `ProcessMessage`, or puts
  the header back and waits.

  `ProcessMessage` itself is any function of the rest of the node.  What it can do to the connection is
  to close the socket, which CLEARS the receive buffer (a peer that misbehaves too often is banned in
  the middle of its stream), and to have the node shut down.
-/
import Silkcoin.DataStream

namespace Silkcoin

/-! ## The header -/

/-- The start mark; the test network has its own. -/
def pchMessageStart (fTestNet : Bool) : List UInt8 :=
  if fTestNet then [0xcd, 0xf2, 0xc0, 0xef] else [0x70, 0x35, 0x22, 0x05]

def MAX_SIZE : UInt32 := 0x02000000

/-- The bytes of a number in memory, lowest first. -/
def bytesOf (n : UInt32) : List UInt8 :=
  [0, 8, 16, 24].map fun shift => UInt8.ofNat (n.toNat / 2 ^ shift)

/-- The number that these bytes are in memory. -/
def numberOf (bytes : List UInt8) : UInt32 :=
  UInt32.ofNat (bytes.foldr (fun b n => b.toNat + 256 * n) 0)

theorem numberOf_bytesOf (n : UInt32) : numberOf (bytesOf n) = n := by
  have hlt : n.toNat < 2 ^ 32 := n.toNat_lt
  have hsum : (bytesOf n).foldr (fun b n => b.toNat + 256 * n) 0 = n.toNat := by
    show (UInt8.ofNat (n.toNat / 2 ^ 0)).toNat + 256 * ((UInt8.ofNat (n.toNat / 2 ^ 8)).toNat +
      256 * ((UInt8.ofNat (n.toNat / 2 ^ 16)).toNat +
        256 * ((UInt8.ofNat (n.toNat / 2 ^ 24)).toNat + 256 * 0))) = n.toNat
    simp only [UInt8.toNat_ofNat']
    omega
  unfold numberOf
  rw [hsum, UInt32.ofNat_toNat]

theorem length_bytesOf (n : UInt32) : (bytesOf n).length = 4 := rfl

structure CMessageHeader where
  pchMessageStart : List UInt8
  pchCommand : List UInt8
  nMessageSize : UInt32
  nChecksum : UInt32
  deriving DecidableEq, Repr

namespace CMessageHeader

def COMMAND_SIZE : Nat := 12

def MESSAGE_SIZE_OFFSET : Nat := 4 + COMMAND_SIZE

def CHECKSUM_OFFSET : Nat := MESSAGE_SIZE_OFFSET + 4

/-- `GetSerializeSize(CMessageHeader())`. -/
def nHeaderSize : Nat := CHECKSUM_OFFSET + 4

/-- `strncpy` of a C string. -/
def strncpy (psz : List UInt8) (n : Nat) : List UInt8 :=
  let copied := (psz.takeWhile fun c => c != 0).take n
  copied ++ List.replicate (n - copied.length) 0

/-- The constructor that `BeginMessage` calls. -/
def ofCommand (fTestNet : Bool) (pszCommand : List UInt8) (nMessageSizeIn : UInt32) : CMessageHeader where
  pchMessageStart := Silkcoin.pchMessageStart fTestNet
  pchCommand := strncpy pszCommand COMMAND_SIZE
  nMessageSize := nMessageSizeIn
  nChecksum := 0

def serialize (hdr : CMessageHeader) : List UInt8 :=
  hdr.pchMessageStart ++ hdr.pchCommand ++ bytesOf hdr.nMessageSize ++ bytesOf hdr.nChecksum

/-- `vRecv >> hdr`. -/
def unserialize (s : CDataStream) : Except Thrown (CMessageHeader × CDataStream) := do
  let (start, s) ← s.read 4
  let (command, s) ← s.read COMMAND_SIZE
  let (size, s) ← s.read 4
  let (checksum, s) ← s.read 4
  return (⟨start, command, numberOf size, numberOf checksum⟩, s)

def getCommand (hdr : CMessageHeader) : List UInt8 :=
  if hdr.pchCommand.getLast? = some 0 then hdr.pchCommand.takeWhile fun c => c != 0 else hdr.pchCommand

/-- The characters of a command: printable, and all zeros after the first zero. -/
def commandOk : List UInt8 → Bool
  | [] => true
  | c :: rest => if c = 0 then rest.all fun c => c == 0 else !(c < 0x20 || c > 0x7E) && commandOk rest

def isValid (fTestNet : Bool) (hdr : CMessageHeader) : Bool :=
  hdr.pchMessageStart == Silkcoin.pchMessageStart fTestNet && commandOk hdr.pchCommand &&
    !(hdr.nMessageSize > MAX_SIZE)

end CMessageHeader

open CMessageHeader

/-- `nChecksum` of a payload: the first four bytes of its hash in memory. -/
def checksumOf (hash : List UInt8 → Uint256) (payload : List UInt8) : UInt32 :=
  UInt32.ofNat (hash payload).toNat

/-- A message: command and payload. -/
abbrev Message := List UInt8 × List UInt8

/-! ## Writing messages -/

section Send

/-- The send buffer and the places of the message being written; -1 if there is none. -/
structure SendBuffer where
  vSend : CDataStream
  nHeaderStart : Int
  nMessageStart : Int

namespace SendBuffer

/-- An empty send buffer. -/
def fresh : SendBuffer := ⟨CDataStream.new, -1, -1⟩

variable (hash : List UInt8 → Uint256) (fTestNet : Bool)

def abortMessage (b : SendBuffer) : SendBuffer :=
  if b.nHeaderStart < 0 then b else ⟨b.vSend.resize b.nHeaderStart.toNat, -1, -1⟩

def beginMessage (pszCommand : List UInt8) (b : SendBuffer) : SendBuffer :=
  let b := if b.nHeaderStart ≠ -1 then b.abortMessage else b
  let vSend := b.vSend.write (ofCommand fTestNet pszCommand 0).serialize
  ⟨vSend, b.vSend.size, vSend.size⟩

/-- `vSend << a`, for what `a` is serialized to. -/
def write (bytes : List UInt8) (b : SendBuffer) : SendBuffer := { b with vSend := b.vSend.write bytes }

/-- `fDrop`: a test run has decided to drop the message. -/
def endMessage (fDrop : Bool) (b : SendBuffer) : SendBuffer :=
  if fDrop then b.abortMessage
  else if b.nHeaderStart < 0 then b
  else
    let nHeaderStart := b.nHeaderStart.toNat
    let nMessageStart := b.nMessageStart.toNat
    let nSize := UInt32.ofNat (b.vSend.size - nMessageStart)
    let vSend := b.vSend.overwrite (nHeaderStart + MESSAGE_SIZE_OFFSET) (bytesOf nSize)
    let nChecksum := checksumOf hash (vSend.unread.drop nMessageStart)
    ⟨vSend.overwrite (nHeaderStart + CHECKSUM_OFFSET) (bytesOf nChecksum), -1, -1⟩

/-- `PushMessage`: one message, from `BeginMessage` to `EndMessage`. -/
def pushMessage (message : Message) (b : SendBuffer) : SendBuffer :=
  (b.beginMessage fTestNet message.1).write message.2 |>.endMessage hash false

end SendBuffer

end Send

/-! ## Reading messages -/

section Receive

/-- What counts of a connection besides its bytes.  `node` is all that `ProcessMessage` reads and writes
    elsewhere, and `dispatched` what it has been given, oldest first. -/
structure Session (σ : Type) where
  fSocket : Bool
  fShutdown : Bool
  node : σ
  dispatched : List Message
  deriving DecidableEq

/-- What `ProcessMessage` leaves behind. -/
structure Processed (σ : Type) where
  node : σ
  /-- `CloseSocketDisconnect` was called. -/
  fDisconnect : Bool
  /-- The node is to shut down. -/
  fShutdown : Bool

structure Connection (σ : Type) extends Session σ where
  vRecv : CDataStream
  deriving DecidableEq

/-- How a round of the loop ends. -/
inductive Jump (σ : Type) where
  | next (c : Connection σ)
  | leave (c : Connection σ)
  | quit (c : Connection σ)

/-- A connection on which nothing has arrived. -/
def Connection.fresh {σ : Type} (node : σ) : Connection σ := ⟨⟨true, false, node, []⟩, CDataStream.new⟩

variable {σ : Type} (hash : List UInt8 → Uint256) (fTestNet : Bool) (sendBufferFull : σ → Bool)
  (processMessage : σ → Message → Processed σ)

/-- A call of `ProcessMessage`. -/
def Session.process (s : Session σ) (message : Message) : Session σ :=
  let p := processMessage s.node message
  ⟨s.fSocket && !p.fDisconnect, s.fShutdown || p.fShutdown, p.node, s.dispatched ++ [message]⟩

/-- One round of the loop of `ProcessMessages`. -/
def processMessagesBody (c : Connection σ) : Except Thrown (Jump σ) := do
  -- Don't bother if send buffer is too full to respond anyway
  if sendBufferFull c.node then return .leave c
  -- Scan for message start
  let pstart := c.vRecv.search (pchMessageStart fTestNet)
  if c.vRecv.end.val - pstart.val < nHeaderSize then
    if h : c.vRecv.size > nHeaderSize then
      let tail : c.vRecv.Iterator := ⟨c.vRecv.vch.length - nHeaderSize, by
        unfold CDataStream.size at h; omega, Nat.sub_le ..⟩
      return .leave { c with vRecv := c.vRecv.erase c.vRecv.begin tail }
    return .leave c
  let vRecv := c.vRecv.erase c.vRecv.begin pstart
  -- Read header
  let vHeaderSave := vRecv.unread.take nHeaderSize
  let (hdr, vRecv) ← unserialize vRecv
  if !hdr.isValid fTestNet then return .next { c with vRecv := vRecv }
  let strCommand := hdr.getCommand
  -- Message size
  if hdr.nMessageSize > MAX_SIZE then return .next { c with vRecv := vRecv }
  let nMessageSize := hdr.nMessageSize.toNat
  if nMessageSize > vRecv.size then
    -- Rewind and wait for rest of message
    return .leave { c with vRecv := vRecv.insert vRecv.begin vHeaderSave }
  -- Checksum
  if checksumOf hash (vRecv.unread.take nMessageSize) ≠ hdr.nChecksum then
    return .next { c with vRecv := vRecv }
  -- Copy message to its own buffer
  let vMsg := vRecv.unread.take nMessageSize
  let vRecv ← vRecv.ignore nMessageSize
  -- Process message
  let s := c.toSession.process processMessage (strCommand, vMsg)
  let vRecv := if c.fSocket && !s.fSocket then vRecv.clear else vRecv
  if s.fShutdown then return .quit ⟨s, vRecv⟩
  return .next ⟨s, vRecv⟩

def processMessagesLoop : Nat → Connection σ → Except Thrown (Connection σ)
  | 0, _ => .error .rounds
  | n + 1, c => do
    match ← processMessagesBody hash fTestNet sendBufferFull processMessage c with
    | .next c => processMessagesLoop n c
    | .leave c => return { c with vRecv := c.vRecv.compact }
    | .quit c => return c

def processMessages (c : Connection σ) : Except Thrown (Connection σ) :=
  if c.vRecv.empty then .ok c
  else processMessagesLoop hash fTestNet sendBufferFull processMessage (c.vRecv.size + 1) c

/-- A chunk arrives, and the message handler runs.  Nothing arrives on a closed socket, and the handler
    does not run once the node shuts down. -/
def receive (c : Connection σ) (chunk : List UInt8) : Except Thrown (Connection σ) :=
  let c := if c.fSocket then { c with vRecv := c.vRecv.write chunk } else c
  if c.fShutdown then .ok c else processMessages hash fTestNet sendBufferFull processMessage c

end Receive

/-! ## A peer that has not sent its version -/

/-- What counts of a peer that misbehaves; `fLocal` is `addr.IsLocal()`. -/
structure Peer where
  fLocal : Bool
  nMisbehavior : Int
  deriving DecidableEq

/-- `CNode::Misbehaving`: at `-banscore` the peer is banned and disconnected. -/
def Peer.misbehaving (banscore : Int) (pfrom : Peer) (howmuch : Int) : Processed Peer :=
  if pfrom.fLocal then ⟨pfrom, false, false⟩
  else
    let nMisbehavior := pfrom.nMisbehavior + howmuch
    ⟨{ pfrom with nMisbehavior := nMisbehavior }, decide (nMisbehavior ≥ banscore), false⟩

/-- "version". -/
def versionCommand : List UInt8 := [0x76, 0x65, 0x72, 0x73, 0x69, 0x6f, 0x6e]

/-- `ProcessMessage` for a peer whose `nVersion` is 0: it must have a version message before anything
    else. -/
def processUnversioned (banscore : Int) (processVersion : Peer → List UInt8 → Processed Peer)
    (pfrom : Peer) (message : Message) : Processed Peer :=
  if message.1 = versionCommand then processVersion pfrom message.2 else pfrom.misbehaving banscore 1

end Silkcoin
