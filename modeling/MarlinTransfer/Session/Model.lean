import MarlinTransfer.Codec.RoundTrip
import MarlinTransfer.Lib.Text

/-!
# The session

The sans-I/O state machine of `session.rs`: the sync counter, the packet in flight, the
queue behind it, the bytes waiting to be written, the events waiting to be polled, and
the parser of the ASCII lines the device answers with. One packet is in flight at a
time; what is sent meanwhile is queued and dispatched as the line becomes free.

Time is a number of nanoseconds, and `saturating_duration_since` is subtraction of
naturals. An `assert!` that fails is `none`.
-/

namespace MarlinTransfer

open Codec Text

/-- An `Instant`, in nanoseconds from an arbitrary origin. -/
abbrev Instant := Nat

/-- A `Duration`, in nanoseconds. -/
abbrev Duration := Nat

/-- `SYNC_MOD`. -/
def syncMod : UInt16 := 256

/-- `DEFAULT_RESPONSE_TIMEOUT`: one second. -/
def defaultResponseTimeout : Duration := 1000000000

/-- `DEFAULT_TOTAL_TIMEOUT`: twenty seconds. -/
def defaultTotalTimeout : Duration := 20000000000

inductive Event where
  | synced (maxBlockSize : UInt16) (protocolVersion : Str)
  | ack (n : UInt8)
  | resendRequested (n : UInt8)
  | asciiLine (line : Str)
  | fatalError
  | outOfSync (expected got : UInt8)
  | timeout (sync : UInt8)
  deriving DecidableEq, Repr

structure InFlight where
  sync : UInt8
  bytes : Bytes
  firstSent : Instant
  lastSent : Instant
  /-- True until the handshake completes: an `ss` reply consumes this packet, not `ok<n>`. -/
  isSyncHandshake : Bool
  deriving DecidableEq, Repr

/--
A packet without the parts that depend on the sync number. The session checks protocol,
type and length before it queues one, which is what the three bounds record.
-/
structure BytesBuilder where
  protocol : UInt8
  packetType : UInt8
  payload : Bytes
  protocol_le : protocol ≤ 0xF
  packetType_le : packetType ≤ 0xF
  payload_le : payload.length ≤ maxPayload
  deriving DecidableEq

/-- The packet as it goes out under a sync number. -/
def BytesBuilder.packet (b : BytesBuilder) (sync : UInt8) : Packet :=
  ⟨sync, b.protocol, b.packetType, b.payload⟩

/-- `BytesBuilder::build`, with `none` where an `expect` would fail. -/
def BytesBuilder.build (b : BytesBuilder) (sync : UInt8) : Option Bytes :=
  match Packet.new sync b.protocol b.packetType b.payload with
  | .error _ => none
  | .ok pkt =>
    match encode pkt [] with
    | (.error _, _) => none
    | (.ok _, out) => some out

theorem BytesBuilder.packet_valid (b : BytesBuilder) (sync : UInt8) : (b.packet sync).Valid :=
  ⟨b.protocol_le, b.packetType_le, b.payload_le⟩

/-- Both `expect`s of `build` hold. -/
theorem BytesBuilder.build_eq (b : BytesBuilder) (sync : UInt8) :
    b.build sync = some (b.packet sync).wire := by
  have hv := b.packet_valid sync
  have hnew : Packet.new sync b.protocol b.packetType b.payload = .ok (b.packet sync) :=
    Packet.new_eq_ok.mpr ⟨rfl, hv⟩
  rw [build, hnew]
  dsimp only
  rw [encode_valid hv, List.nil_append]

theorem BytesBuilder.build_isSome (b : BytesBuilder) (sync : UInt8) : (b.build sync).isSome := by
  rw [b.build_eq]
  rfl

structure Queued where
  bytesWithoutSync : BytesBuilder
  isSyncHandshake : Bool
  deriving DecidableEq

structure Session where
  sync : UInt8
  isSynced : Bool
  maxBlockSize : Option UInt16
  protocolVersion : Option Str
  inFlight : Option InFlight
  queued : List Queued
  outbound : List Bytes
  events : List Event
  inboundBuf : Bytes
  responseTimeout : Duration
  totalTimeout : Duration
  deriving DecidableEq

namespace Session

/-- `Session::new`. -/
def new : Session :=
  { sync := 0
    isSynced := false
    maxBlockSize := none
    protocolVersion := none
    inFlight := none
    queued := []
    outbound := []
    events := []
    inboundBuf := []
    responseTimeout := defaultResponseTimeout
    totalTimeout := defaultTotalTimeout }

/-- `Session::with_response_timeout`. -/
def withResponseTimeout (s : Session) (timeout : Duration) : Session :=
  { s with responseTimeout := timeout }

/-- `Session::with_total_timeout`. -/
def withTotalTimeout (s : Session) (timeout : Duration) : Session :=
  { s with totalTimeout := timeout }

/-- `Session::reset`. -/
def reset (s : Session) : Session :=
  { s with
    sync := 0
    isSynced := false
    maxBlockSize := none
    protocolVersion := none
    inFlight := none
    queued := []
    outbound := []
    events := []
    inboundBuf := [] }

/-- `self.events.push_back`. -/
def pushEvent (s : Session) (e : Event) : Session := { s with events := s.events ++ [e] }

/-- `Session::queue`. -/
def queue (s : Session) (b : BytesBuilder) (isSyncHandshake : Bool) : Session :=
  { s with queued := s.queued ++ [⟨b, isSyncHandshake⟩] }

/-- `Session::dispatch_if_idle`. -/
def dispatchIfIdle (s : Session) (now : Instant) : Session :=
  if s.inFlight.isSome then s
  else match s.queued with
    | [] => s
    | next :: rest =>
      let bytes := (next.bytesWithoutSync.build s.sync).get (next.bytesWithoutSync.build_isSome s.sync)
      { s with
        queued := rest
        outbound := s.outbound ++ [bytes]
        inFlight := some
          { sync := s.sync, bytes, firstSent := now, lastSent := now,
            isSyncHandshake := next.isSyncHandshake } }

/-- The SYNC control packet: protocol 0, type 1, no payload. -/
def syncPacket : BytesBuilder :=
  { protocol := 0, packetType := 1, payload := [],
    protocol_le := by decide, packetType_le := by decide, payload_le := by decide }

/-- `Session::connect`. -/
def connect (s : Session) (now : Instant) : Session :=
  (s.queue syncPacket true).dispatchIfIdle now

/-- `Session::send`, with `none` where an assertion fails. -/
def send (s : Session) (protocol packetType : UInt8) (payload : Bytes) (now : Instant) :
    Option Session :=
  if _ : s.isSynced = true then
    if hp : protocol ≤ 0xF then
      if ht : packetType ≤ 0xF then
        if hl : payload.length ≤ maxPayload then
          some ((s.queue ⟨protocol, packetType, payload, hp, ht, hl⟩ false).dispatchIfIdle now)
        else none
      else none
    else none
  else none

/-- `Session::poll_outbound`. -/
def pollOutbound (s : Session) : Option Bytes × Session :=
  match s.outbound with
  | [] => (none, s)
  | out :: rest => (some out, { s with outbound := rest })

/-- `Session::poll_event`. -/
def pollEvent (s : Session) : Option Event × Session :=
  match s.events with
  | [] => (none, s)
  | e :: rest => (some e, { s with events := rest })

/-- `strip_line_endings`. -/
def stripLineEndings (line : Bytes) : Bytes := line.rdropWhile fun b => b == 0x0A || b == 0x0D

/-- `parse_decimal_u8`. -/
def parseDecimalU8 (b : Bytes) : Option UInt8 :=
  if b.isEmpty then none
  else match fromUtf8 b with
    | none => none
    | some s =>
      match parseUnsigned (2 ^ 32) (trim s) with
      | none => none
      | some n => if n > 255 then none else some (UInt8.ofNat n)

/-- `Session::handle_ok`. -/
def handleOk (s : Session) (n : UInt8) (now : Instant) : Session :=
  match s.inFlight with
  | none =>
    -- a stray ack: passed through for debugging
    s.pushEvent (.asciiLine (['o', 'k'] ++ decimal n.toNat))
  | some flight =>
    if flight.isSyncHandshake then s.pushEvent (.outOfSync flight.sync n)
    else if n ≠ flight.sync then s.pushEvent (.outOfSync flight.sync n)
    else
      let s := { s with inFlight := none, sync := ((s.sync.toUInt16 + 1) % syncMod).toUInt8 }
      (s.pushEvent (.ack n)).dispatchIfIdle now

/-- The three fields of an `ss` line, when they parse. -/
def parseSs (rest : Bytes) : Option (UInt16 × UInt16 × Str) :=
  match fromUtf8 rest with
  | none => none
  | some s =>
    match splitn3 ',' s with
    | none => none
    | some (syncStr, bsizeStr, versionStr) =>
      match parseUnsigned (2 ^ 16) (trim syncStr) with
      | none => none
      | some newSync =>
        match parseUnsigned (2 ^ 16) (trim bsizeStr) with
        | none => none
        | some maxBlockSize =>
          some (UInt16.ofNat newSync, UInt16.ofNat maxBlockSize, trim versionStr)

/-- `Session::handle_ss`. -/
def handleSs (s : Session) (rest : Bytes) (now : Instant) : Session :=
  match parseSs rest with
  | none => s
  | some (newSync, maxBlockSize, protocolVersion) =>
    let s := { s with
      sync := (newSync % syncMod).toUInt8
      maxBlockSize := some maxBlockSize
      protocolVersion := some protocolVersion
      isSynced := true }
    -- `ss` consumes the SYNC packet in flight, if any
    let s := match s.inFlight with
      | none => s
      | some flight => if flight.isSyncHandshake then { s with inFlight := none } else s
    (s.pushEvent (.synced maxBlockSize protocolVersion)).dispatchIfIdle now

/-- `Session::process_line`. -/
def processLine (s : Session) (line : Bytes) (now : Instant) : Session :=
  match (stripPrefix line [0x6F, 0x6B]).bind parseDecimalU8 with  -- `ok<n>`
  | some n => s.handleOk n now
  | none =>
    match (stripPrefix line [0x72, 0x73]).bind parseDecimalU8 with  -- `rs<n>`
    | some n => s.pushEvent (.resendRequested n)
    | none =>
      match stripPrefix line [0x73, 0x73] with  -- `ss<sync>,<block>,<version>`
      | some rest => s.handleSs rest now
      | none =>
        if line = [0x66, 0x65] then s.pushEvent .fatalError  -- `fe`
        else match fromUtf8 line with
          | some str => s.pushEvent (.asciiLine str)
          | none => s

/-- The loop of `feed`; each turn takes at least one byte out of the buffer. -/
def feedLoop : Nat → Session → Instant → Session
  | 0, s, _ => s
  | fuel + 1, s, now =>
    match s.inboundBuf.findIdx? (· == 0x0A) with
    | none => s
    | some pos =>
      let line := s.inboundBuf.take (pos + 1)
      let s := { s with inboundBuf := s.inboundBuf.drop (pos + 1) }
      let trimmed := stripLineEndings line
      if trimmed.isEmpty then feedLoop fuel s now
      else feedLoop fuel (s.processLine trimmed now) now

/-- `Session::feed`. -/
def feed (s : Session) (bytes : Bytes) (now : Instant) : Session :=
  let s := { s with inboundBuf := s.inboundBuf ++ bytes }
  feedLoop s.inboundBuf.length s now

/-- `Session::tick`. -/
def tick (s : Session) (now : Instant) : Session :=
  match s.inFlight with
  | none => s
  | some flight =>
    if now - flight.firstSent ≥ s.totalTimeout then
      (({ s with inFlight := none }).pushEvent (.timeout flight.sync)).dispatchIfIdle now
    else if now - flight.lastSent ≥ s.responseTimeout then
      { s with
        outbound := s.outbound ++ [flight.bytes]
        inFlight := some { flight with lastSent := now } }
    else s

end Session

end MarlinTransfer
