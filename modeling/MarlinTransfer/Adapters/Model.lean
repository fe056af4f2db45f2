import MarlinTransfer.FileTransfer.Run
import MarlinTransfer.Lib.Chunks
import MarlinTransfer.Lib.Triple

/-!
# The upload helper

`upload` of `adapters/blocking.rs`, with what it takes from `adapters/common.rs` and
`compression.rs`. The transport, the source and the clock are scripts: what the reads
return one after the other, which writes fail, what `Instant::now` says. The third-party
heatshrink encoder is a parameter, absent when the feature is disabled.

The helper drives a watched session and a watched transfer, and keeps a log of what it
wrote, of the lines it processed and of the ticks, each with what it retired. The ledger,
the trace and the log are ghost state: nothing below reads them.
-/

namespace MarlinTransfer

open Codec Text Session Triple

/-- An `io::Error` of a kind other than `TimedOut`. -/
abbrev IoError := Nat

/-- `let mut buf = [0u8; 1024]`. -/
def readBufLen : Nat := 1024

/-- What `transport.read(&mut buf)` returns. -/
inductive ReadResult where
  | data (bytes : Bytes) (fits : bytes.length ≤ readBufLen)
  | timedOut
  | failed (err : IoError)

/-- The scripts of a run. -/
structure Env where
  /-- The reads, one after the other. -/
  reads : Nat → ReadResult
  /-- The error of each `write_all`, if it fails. -/
  writes : Nat → Option IoError
  /-- The readings of the clock. -/
  clock : Nat → Instant
  /-- What `src.read_to_end` returns. -/
  source : Except IoError Bytes

/-- What the `embedded_heatshrink` crate exports. -/
structure HeatshrinkCrate where
  minWindowBits : UInt8
  maxWindowBits : UInt8
  minLookaheadBits : UInt8
  encode : UInt8 → UInt8 → Bytes → Bytes

inductive UploadError where
  | io (err : IoError)
  | transfer (err : FileError)
  | stalled (what : String)
  | handshakeFailed
  | compressionFeatureDisabled
  /-- `HeatshrinkError::InvalidParameters`. -/
  | heatshrink (window lookahead : UInt8)
  deriving DecidableEq, Repr

structure Progress where
  bytesSent : Nat
  chunksSent : Nat
  sourceBytes : Nat
  deriving DecidableEq, Repr

structure UploadOptions where
  destFilename : Str
  compression : Compression
  dummy : Bool
  chunkSize : Nat
  /-- Whether there is a callback. -/
  progress : Bool
  deriving DecidableEq, Repr

structure UploadStats where
  sourceBytes : Nat
  bytesSent : Nat
  chunksSent : Nat
  compression : Compression
  deriving DecidableEq, Repr

/-- `FALLBACK_CHUNK_SIZE`. -/
def fallbackChunkSize : Nat := 256

/-- `resolve_chunk_size`. -/
def resolveChunkSize (requested : Nat) (deviceMax : UInt16) : Nat :=
  let deviceMax := if deviceMax = 0 then fallbackChunkSize else deviceMax.toNat
  if requested = 0 then deviceMax else min requested deviceMax

/-- `compression::compress`. -/
def compress (crate : HeatshrinkCrate) (input : Bytes) (window lookahead : UInt8) :
    Except UploadError Bytes :=
  if ¬ (crate.minWindowBits ≤ window ∧ window ≤ crate.maxWindowBits)
      ∨ lookahead < crate.minLookaheadBits ∨ lookahead ≥ window then
    .error (.heatshrink window lookahead)
  else .ok (crate.encode window lookahead input)

/-- The packet that a step of the session retired, with the event that told it. -/
def retiredBy (s s' : Session) : Option (InFlight × Event) := (closings s s').head?

/-- What the log remembers. -/
inductive LogEntry where
  /-- `transport.write_all` succeeded. -/
  | wrote (bytes : Bytes)
  /-- A line was processed. -/
  | heard (r : Reply) (done : Option (InFlight × Event))
  | ticked (done : Option (InFlight × Event))
  deriving DecidableEq

/-- The lines a read completes, one after the other. -/
def hearings (s : Session) (now : Instant) : List Reply → List LogEntry
  | [] => []
  | r :: rs => .heard r (retiredBy s (s.take r now)) :: hearings (s.take r now) now rs

structure World where
  /-- The session, and the transfer while there is one. -/
  transfer : Transfer
  reads : Nat
  writes : Nat
  nows : Nat
  /-- What the progress callback was called with. -/
  reports : List Progress
  log : List LogEntry
  /-- The transfers that `poll` was called on. -/
  polls : List Transfer

/-- How a run ends when it does not return `Ok`. -/
inductive Stop where
  | err (e : UploadError)
  | panic
  /-- A loop ran out of fuel. It never does. -/
  | stuck
  deriving DecidableEq

abbrev Upload (α : Type) := Prog World Stop α

namespace World

def session (w : World) : Session := w.transfer.host.session

def ft (w : World) : FileTransfer := w.transfer.ft

/-- The watched session moves on. -/
def withHost (w : World) (host : Watched) : World :=
  { w with transfer := { w.transfer with host } }

/-- Before anything is done, with a session just constructed. -/
def start : World :=
  { transfer := Transfer.start (Watched.start Session.new)
    reads := 0, writes := 0, nows := 0, reports := [], log := [], polls := [] }

end World

namespace Blocking

variable (env : Env)

/-- `Instant::now()`. -/
def now : Upload Instant := do
  let w ← get
  modify fun w => { w with nows := w.nows + 1 }
  pure (env.clock w.nows)

/-- `transport.write_all(bytes)?`. -/
def writeAll (bytes : Bytes) : Upload Unit := do
  let w ← get
  modify fun w => { w with writes := w.writes + 1 }
  match env.writes w.writes with
  | some err => throw (.err (.io err))
  | none => modify fun w => { w with log := w.log ++ [.wrote bytes] }

/-- `transport.read(&mut buf)`, an idle read counting as no bytes. -/
def read : Upload Bytes := do
  let w ← get
  modify fun w => { w with reads := w.reads + 1 }
  match env.reads w.reads with
  | .data bytes _ => pure bytes
  | .timedOut => pure []
  | .failed err => throw (.err (.io err))

/-- `src.read_to_end(&mut source_bytes)?`. -/
def readToEnd : Upload Bytes :=
  match env.source with
  | .ok bytes => pure bytes
  | .error err => throw (.err (.io err))

/-- `session.feed(&buf[..n], Instant::now())`, when something was read. -/
def feed (bytes : Bytes) : Upload Unit := do
  if bytes.length > 0 then
    let now ← now env
    modify fun w =>
      { w.withHost (w.transfer.host.feed bytes now) with
        log := w.log ++ hearings w.session now (replies (w.session.inboundBuf ++ bytes)) }

/-- `session.tick(Instant::now())`. -/
def tick : Upload Unit := do
  let now ← now env
  modify fun w =>
    { w.withHost (w.transfer.host.tick now) with
      log := w.log ++ [.ticked (retiredBy w.session (w.session.tick now))] }

/-- `session.poll_outbound()`. -/
def pollOutbound : Upload (Option Bytes) := do
  let w ← get
  modify fun w => w.withHost w.transfer.host.pollOutbound
  pure w.session.pollOutbound.1

/-- `session.poll_event()`. -/
def pollEvent : Upload (Option Event) := do
  let w ← get
  modify fun w => w.withHost w.transfer.host.pollEvent
  pure w.session.pollEvent.1

/-- `ft.poll()`. -/
def poll : Upload (Option FileEvent) := do
  let w ← get
  modify fun w => { w with transfer := w.transfer.poll, polls := w.polls ++ [w.transfer] }
  pure (w.ft.poll w.session).1

/-- A call of an operation of the transfer. -/
def call (c : Call) : Upload Unit := do
  let w ← get
  match w.transfer.step c with
  | some transfer => modify fun w => { w with transfer }
  | none => throw .panic

/-- `while let Some(out) = poll_outbound() { transport.write_all(&out)?; }`. -/
def flush : Upload Unit := do
  let w ← get
  let _ ← whileSome (α := Unit) .stuck pollOutbound (fun out => do writeAll env out; pure none)
    (w.session.outbound.length + 1)
  pure ()

/-- What a loop does with an event: go on, or leave with a result or an error. -/
abbrev Answer (α : Type) := Option (Except UploadError α)

def respond {α : Type} : Answer α → Upload (Option α)
  | none => pure none
  | some (.ok a) => pure (some a)
  | some (.error e) => throw (.err e)

/-- `while let Some(evt) = next() { match evt { .. } }`. -/
def answerAll {γ α : Type} (next : Upload (Option γ)) (answer : γ → Answer α) :
    Upload (Option α) := do
  let w ← get
  whileSome .stuck next (fun e => respond (answer e))
    (w.session.events.length + w.ft.outEvents.length + 1)

/-- One turn of a drive loop. -/
def turn {γ α : Type} (next : Upload (Option γ)) (answer : γ → Answer α) : Upload (Option α) := do
  flush env
  let bytes ← read env
  feed env bytes
  match ← answerAll next answer with
  | some a => pure (some a)
  | none =>
    tick env
    pure none

/-- A drive loop: two hundred turns, and then the error it gives up with. -/
def drive {γ α : Type} (next : Upload (Option γ)) (answer : γ → Answer α) (giveUp : UploadError) :
    Upload α := repeatUpTo (.err giveUp) (turn env next answer) 200

/-- How the session loops take the events that end a session. -/
def sessionError : Event → Option UploadError
  | .fatalError => some (.transfer .sessionFatalError)
  | .timeout _ => some (.transfer .sessionTimeout)
  | .outOfSync expected got => some (.transfer (.sessionOutOfSync expected got))
  | _ => none

/-- `drive_session_until_idle`. -/
def driveSessionUntilIdle : Upload Unit :=
  drive env pollEvent
    (fun e => match e with
      | .ack _ => some (.ok ())
      | e => (sessionError e).map .error)
    (.stalled "control close not acked")

/-- `drive_session_until_synced`. -/
def driveSessionUntilSynced : Upload Unit :=
  drive env pollEvent
    (fun e => match e with
      | .synced _ _ => some (.ok ())
      | e => (sessionError e).map .error)
    .handshakeFailed

/-- `drive_until_negotiated`. -/
def driveUntilNegotiated : Upload Compression :=
  drive env poll
    (fun e => match e with
      | .negotiated _ compression => some (.ok compression)
      | .failed err => some (.error (.transfer err))
      | _ => none)
    (.stalled "negotiation did not complete")

/-- `drive_until_event`. -/
def driveUntilEvent (pred : FileEvent → Bool) : Upload Unit :=
  drive env poll
    (fun e => match e with
      | .failed err => some (.error (.transfer err))
      | e => if pred e then some (.ok ()) else none)
    (.stalled "event did not arrive in time")

/-- The payload: the source, or the source compressed. -/
def payloadOf (crate : Option HeatshrinkCrate) (sourceBytes : Bytes) :
    Compression → Upload Bytes
  | .none => pure sourceBytes
  | .heatshrink window lookahead =>
    match crate with
    | none => throw (.err .compressionFeatureDisabled)
    | some crate =>
      match compress crate sourceBytes window lookahead with
      | .ok payload => pure payload
      | .error e => throw (.err e)
  | .auto => throw .panic  -- `unreachable!`

/-- `for chunk in payload.chunks(chunk_size)`. -/
def writeChunks (options : UploadOptions) : List Bytes → UploadStats → Upload UploadStats
  | [], stats => pure stats
  | chunk :: chunks, stats => do
    call (.write chunk (← now env))
    driveUntilEvent env fun e => e = .writeAcked
    let stats := { stats with
      bytesSent := stats.bytesSent + chunk.length
      chunksSent := stats.chunksSent + 1 }
    if options.progress then
      modify fun w => { w with
        reports := w.reports ++ [⟨stats.bytesSent, stats.chunksSent, stats.sourceBytes⟩] }
    writeChunks options chunks stats

/-- `session.connect(now)`. -/
def connect : Upload Unit := do
  let now ← now env
  modify fun w => w.withHost (w.transfer.host.connect now)

/-- `session.send(0, 2, &[], Instant::now())`: the control CLOSE. -/
def sendControlClose : Upload Unit := do
  let now ← now env
  let w ← get
  match w.transfer.host.send 0 2 [] now with
  | some host => modify fun w => w.withHost host
  | none => throw .panic

/-- `b"M28B1\n"`. -/
def binaryTrigger : Bytes := asBytes "M28B1\n".toList

/-- `upload`. -/
def upload (crate : Option HeatshrinkCrate) (options : UploadOptions) : Upload UploadStats := do
  writeAll env binaryTrigger
  modify fun w => { w with transfer := Transfer.start (Watched.start Session.new) }
  connect env
  driveSessionUntilSynced env
  let deviceMax := (← get).session.maxBlockSize.getD 0
  modify fun w => { w with transfer := Transfer.start w.transfer.host }
  call (.query options.compression (← now env))
  let negotiated ← driveUntilNegotiated env
  call (.open options.destFilename options.dummy (← now env))
  driveUntilEvent env fun e => e = .opened
  let chunkSize := resolveChunkSize options.chunkSize deviceMax
  let sourceBytes ← readToEnd env
  let payload ← payloadOf crate sourceBytes negotiated
  let stats ← writeChunks env options (Chunks.chunks chunkSize payload)
    { sourceBytes := sourceBytes.length, bytesSent := 0, chunksSent := 0, compression := negotiated }
  call (.close (← now env))
  driveUntilEvent env fun e => e = .closed
  sendControlClose env
  driveSessionUntilIdle env
  pure stats

end Blocking

end MarlinTransfer
