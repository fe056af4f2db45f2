import MarlinTransfer.Adapters.Endings
import MarlinTransfer.Session.Timing

/-!
# The async upload helper

`tokio.rs`. Its reads are bounded by the response timeout of the session and may fail with an error
of any kind; apart from them its loops are those of the blocking helper. A read that is cut off
counts as no bytes, so the two helpers do the same on transports whose reads correspond.
-/

namespace MarlinTransfer

open Codec Text Session Triple

/-- What `transport.read(buf)` comes to. -/
inductive AsyncRead where
  | ready (delay : Duration) (bytes : Bytes) (fits : bytes.length ≤ readBufLen)
  /-- It fails, with an error of any kind. -/
  | failed (delay : Duration) (err : IoError)
  /-- It is never ready. -/
  | pending

/-- `tokio::time::timeout`: what has come by then. -/
def AsyncRead.within (timeout : Duration) : AsyncRead → ReadResult
  | .ready delay bytes fits => if delay ≤ timeout then .data bytes fits else .timedOut
  | .failed delay err => if delay ≤ timeout then .failed err else .timedOut
  | .pending => .timedOut

/-- The scripts of a run. -/
structure AsyncEnv where
  reads : Nat → AsyncRead
  writes : Nat → Option IoError
  clock : Nat → Instant
  source : Except IoError Bytes

/-- The scripts but for the reads. -/
def AsyncEnv.io (env : AsyncEnv) : Env := ⟨fun _ => .timedOut, env.writes, env.clock, env.source⟩

namespace Tokio

open Blocking (now writeAll readToEnd feed tick pollOutbound pollEvent poll call flush Answer
  answerAll sessionError payloadOf connect sendControlClose binaryTrigger)

variable (env : AsyncEnv)

/-- `read_with_timeout`. -/
def readWithTimeout (timeout : Duration) : Upload Bytes := do
  let w ← get
  modify fun w => { w with reads := w.reads + 1 }
  match (env.reads w.reads).within timeout with
  | .data bytes _ => pure bytes
  | .timedOut => pure []
  | .failed err => throw (.err (.io err))

/-- One turn of a drive loop. -/
def turn {γ α : Type} (next : Upload (Option γ)) (answer : γ → Answer α) : Upload (Option α) := do
  flush env.io
  let timeout := (← get).session.responseTimeout
  let bytes ← readWithTimeout env timeout
  feed env.io bytes
  match ← answerAll next answer with
  | some a => pure (some a)
  | none =>
    tick env.io
    pure none

/-- A drive loop. -/
def drive {γ α : Type} (next : Upload (Option γ)) (answer : γ → Answer α) (giveUp : UploadError) :
    Upload α := repeatUpTo (.err giveUp) (turn env next answer) 200

/-- `drive_session_until_idle`. -/
def driveSessionUntilIdle : Upload Unit :=
  drive env pollEvent
    (fun e => match e with
      | .ack _ => some (.ok ())
      | e => (sessionError e).map .error)
    (.stalled "control close not acked")

/-- `drive_until_synced`. -/
def driveUntilSynced : Upload Unit :=
  drive env pollEvent
    (fun e => match e with
      | .synced _ _ => some (.ok ())
      | e => (sessionError e).map .error)
    .handshakeFailed

/-- `drive_until_negotiated`. -/
def driveUntilNegotiated : Upload Compression :=
  drive env poll
    (fun e => match e with
      | .negotiated _ compression => some (.ok compression)
      | .failed err => some (.error (.transfer err))
      | _ => none)
    (.stalled "negotiation did not complete")

/-- `drive_until`. -/
def driveUntil (pred : FileEvent → Bool) : Upload Unit :=
  drive env poll
    (fun e => match e with
      | .failed err => some (.error (.transfer err))
      | e => if pred e then some (.ok ()) else none)
    (.stalled "event did not arrive in time")

/-- `for chunk in payload.chunks(chunk_size)`. -/
def writeChunks (options : UploadOptions) : List Bytes → UploadStats → Upload UploadStats
  | [], stats => pure stats
  | chunk :: chunks, stats => do
    call (.write chunk (← now env.io))
    driveUntil env fun e => e = .writeAcked
    let stats := { stats with
      bytesSent := stats.bytesSent + chunk.length
      chunksSent := stats.chunksSent + 1 }
    if options.progress then
      modify fun w => { w with
        reports := w.reports ++ [⟨stats.bytesSent, stats.chunksSent, stats.sourceBytes⟩] }
    writeChunks options chunks stats

/-- `upload`. -/
def upload (crate : Option HeatshrinkCrate) (options : UploadOptions) : Upload UploadStats := do
  writeAll env.io binaryTrigger
  modify fun w => { w with transfer := Transfer.start (Watched.start Session.new) }
  connect env.io
  driveUntilSynced env
  let deviceMax := (← get).session.maxBlockSize.getD 0
  modify fun w => { w with transfer := Transfer.start w.transfer.host }
  call (.query options.compression (← now env.io))
  let negotiated ← driveUntilNegotiated env
  call (.open options.destFilename options.dummy (← now env.io))
  driveUntil env fun e => e = .opened
  let sourceBytes ← readToEnd env.io
  let payload ← payloadOf crate sourceBytes negotiated
  let chunkSize := resolveChunkSize options.chunkSize deviceMax
  let stats ← writeChunks env options (Chunks.chunks chunkSize payload)
    { sourceBytes := sourceBytes.length, bytesSent := 0, chunksSent := 0
      compression := negotiated }
  call (.close (← now env.io))
  driveUntil env fun e => e = .closed
  sendControlClose env.io
  driveSessionUntilIdle env
  pure stats

end Tokio

/-! ## The two helpers -/

/-- The response timeout is that of a session just constructed. -/
def Unhurried (w : World) : Prop := w.session.responseTimeout = defaultResponseTimeout

theorem takeAll_responseTimeout (now : Instant) (rs : List Reply) (w : Watched) :
    (w.takeAll rs now).session.responseTimeout = w.session.responseTimeout := by
  induction rs generalizing w with
  | nil => rfl
  | cons r rs ih => exact (ih (w.take r now)).trans (sameTimeouts_take w.session r now).1

theorem observe_responseTimeout (ps : List (Event × Option Nat)) (t : Transfer) :
    (ps.foldl Transfer.observe t).host.session.responseTimeout
      = t.host.session.responseTimeout := by
  induction ps generalizing t with
  | nil => rfl
  | cons p ps ih =>
    refine (ih (t.observe p)).trans ?_
    show t.host.pollEvent.session.responseTimeout = _
    rw [Watched.pollEvent_session, Session.pollEvent]
    split <;> rfl

/-- Nothing that a loop does changes the response timeout. -/
theorem steady_unhurried : Steady Unhurried where
  untallied _ _ _ _ h := h
  dropped w h := by
    show w.transfer.host.pollOutbound.session.responseTimeout = _
    rw [Watched.pollOutbound_session, Session.pollOutbound]
    split <;> exact h
  wrote w out h _ := by
    show w.transfer.host.pollOutbound.session.responseTimeout = _
    rw [Watched.pollOutbound_session, Session.pollOutbound]
    split <;> exact h
  received w input now h := (takeAll_responseTimeout now _ w.transfer.host).trans h
  ticked w now h := (sameTimeouts_tick w.session now).1.trans h
  polledEvent w h := by
    show w.transfer.host.pollEvent.session.responseTimeout = _
    rw [Watched.pollEvent_session, Session.pollEvent]
    split <;> exact h
  polledFile w h := (observe_responseTimeout w.transfer.pending w.transfer).trans h

namespace Tokio

open Blocking (Answer)

variable (env : AsyncEnv)

theorem keeps_now : Keeps Unhurried (Blocking.now env.io) :=
  Blocking.keeps_now env.io steady_unhurried.untallied

end Tokio

end MarlinTransfer
