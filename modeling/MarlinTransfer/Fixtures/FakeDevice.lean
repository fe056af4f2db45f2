import MarlinTransfer.Codec.Incremental
import MarlinTransfer.Session.Lines

/-!
# The fake device

The device of the fixtures, which decodes the packets it is fed and answers them with the
lines a printer would. It is the code base's own account of the other end: what a receive
loop over `decode` looks like, what each operation is answered with, and how the payload
of OPEN is read.
-/

namespace MarlinTransfer

open Codec Text Incremental

/-- The compression a device advertises. -/
inductive CompressionSpec where
  | none
  | heatshrink (window lookahead : UInt8)
  deriving DecidableEq, Repr

/-- `CompressionSpec::render`. -/
def CompressionSpec.render : CompressionSpec → Str
  | .none => "none".toList
  | .heatshrink window lookahead =>
    "heatshrink,".toList ++ (decimal window.toNat ++ ',' :: decimal lookahead.toNat)

/-- The answer to QUERY: `PFT:version:<version>:<spec>`. -/
def versionText (version spec : Str) : Str := "PFT:version:".toList ++ (version ++ ':' :: spec)

structure DeviceBehaviour where
  /-- The packet with this sync number is asked for once more before it is handled. -/
  resendOnceForSync : Option UInt8
  busyOnNextOpen : Bool
  failOnNextOpen : Bool
  /-- CLOSE and ABORT are answered by a bare ack. -/
  skipPftOnTerminal : Bool
  deriving DecidableEq, Repr

/-- `DeviceBehaviour::default`. -/
def DeviceBehaviour.default : DeviceBehaviour := ⟨none, false, false, false⟩

structure FakeDevice where
  inbound : Bytes
  replyBuf : Bytes
  initialSync : UInt8
  maxBlockSize : UInt16
  protocolVersion : Str
  compression : CompressionSpec
  behaviour : DeviceBehaviour
  lastOpenFilename : Option Str
  lastOpenDummy : Option Bool
  lastOpenCompressionByte : Option UInt8
  writtenBytes : Bytes
  aborted : Bool
  closed : Bool
  controlClosed : Bool
  deriving DecidableEq, Repr

namespace FakeDevice

/-- `FakeDevice::new`. -/
def new (maxBlockSize : UInt16) (protocolVersion : Str) (initialSync : UInt8) : FakeDevice :=
  { inbound := []
    replyBuf := []
    initialSync
    maxBlockSize
    protocolVersion
    compression := .none
    behaviour := .default
    lastOpenFilename := none
    lastOpenDummy := none
    lastOpenCompressionByte := none
    writtenBytes := []
    aborted := false
    closed := false
    controlClosed := false }

/-- `FakeDevice::write_line`. -/
def writeLine (d : FakeDevice) (line : Str) : FakeDevice :=
  { d with replyBuf := d.replyBuf ++ asBytes line ++ [0x0A] }

/-- The answer to CLOSE and ABORT, before the ack. -/
def writeSuccess (d : FakeDevice) : FakeDevice :=
  if d.behaviour.skipPftOnTerminal then d else d.writeLine "PFT:success".toList

/-- What OPEN's payload says: the dummy flag, the compression byte, and the name up to the first
zero byte. -/
def readOpen (d : FakeDevice) (payload : Bytes) : FakeDevice :=
  if 3 ≤ payload.length then
    let nameEnd := (((payload.drop 2).findIdx? (· == 0)).map (· + 2)).getD payload.length
    { d with
      lastOpenDummy := payload[0]?.map (· != 0)
      lastOpenCompressionByte := payload[1]?
      lastOpenFilename := some (fromUtf8Lossy ((payload.take nameEnd).drop 2)) }
  else d

/-- The verdict on OPEN; a device told to refuse the next one does so once. -/
def answerOpen (d : FakeDevice) : FakeDevice :=
  if d.behaviour.busyOnNextOpen then
    { d with behaviour.busyOnNextOpen := false }.writeLine "PFT:busy".toList
  else if d.behaviour.failOnNextOpen then
    { d with behaviour.failOnNextOpen := false }.writeLine "PFT:fail".toList
  else d.writeLine "PFT:success".toList

/-- `FakeDevice::handle`. -/
def handle (d : FakeDevice) (pkt : Packet) : FakeDevice :=
  if some pkt.sync = d.behaviour.resendOnceForSync then
    { d with behaviour.resendOnceForSync := none }.writeLine
      ("rs".toList ++ decimal pkt.sync.toNat)
  else
    match pkt.protocol.toNat, pkt.packetType.toNat with
    -- SYNC: the `ss` line is the ack
    | 0, 1 => d.writeLine (ssText d.initialSync d.maxBlockSize d.protocolVersion)
    -- control CLOSE
    | 0, 2 => { d with controlClosed := true }.writeLine (okText pkt.sync)
    -- QUERY
    | 1, 0 => (d.writeLine (versionText d.protocolVersion d.compression.render)).writeLine
        (okText pkt.sync)
    -- OPEN
    | 1, 1 => (d.readOpen pkt.payload).answerOpen.writeLine (okText pkt.sync)
    -- CLOSE
    | 1, 2 => { d with closed := true }.writeSuccess.writeLine (okText pkt.sync)
    -- WRITE
    | 1, 3 => { d with writtenBytes := d.writtenBytes ++ pkt.payload }.writeLine (okText pkt.sync)
    -- ABORT
    | 1, 4 => { d with aborted := true }.writeSuccess.writeLine (okText pkt.sync)
    -- an unknown packet is acked, so that the host does not stall
    | _, _ => d.writeLine (okText pkt.sync)

/-- The loop of `feed`: what its turns did, and the device it leaves. `none` is a panic, of
`decode` or of `drain`, or that the fuel was too little. -/
def loop : Nat → FakeDevice → Option (List (Turn Packet) × FakeDevice)
  | 0, _ => none
  | fuel + 1, d =>
    match decode d.inbound with
    | none => none
    | some (.ok (pkt, consumed)) =>
      if consumed ≤ d.inbound.length then
        (loop fuel ({ d with inbound := d.inbound.drop consumed }.handle pkt)).map
          fun r => (.message pkt :: r.1, r.2)
      else none
    | some (.error (.incomplete _ _)) => some ([], d)
    | some (.error _) =>
      match d.inbound with
      | [] => some ([], d)
      | _ :: rest => (loop fuel { d with inbound := rest }).map fun r => (.resync :: r.1, r.2)

/-- `FakeDevice::feed`. Every turn takes at least a byte, so the fuel is enough. -/
def feed (d : FakeDevice) (bytes : Bytes) : Option (List (Turn Packet) × FakeDevice) :=
  let d := { d with inbound := d.inbound ++ bytes }
  loop (d.inbound.length + 1) d

/-- `feed` of one chunk after the other. -/
def feedAll : FakeDevice → List Bytes → Option (List (Turn Packet) × FakeDevice)
  | d, [] => some ([], d)
  | d, chunk :: chunks => do
    let (ts, d) ← d.feed chunk
    let (ts', d) ← feedAll d chunks
    return (ts ++ ts', d)

/-- `FakeDevice::drain_reply`. -/
def drainReply (d : FakeDevice) : Bytes × FakeDevice := (d.replyBuf, { d with replyBuf := [] })

end FakeDevice

end MarlinTransfer
