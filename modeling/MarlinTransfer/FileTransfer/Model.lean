import MarlinTransfer.Session.Model

/-!
# The file-transfer machine

The sub-protocol of `file_transfer.rs` over a session: QUERY, OPEN, WRITE, CLOSE and
ABORT, each sent as one packet and answered by that packet's ack, which for all but WRITE
is preceded by a `PFT:` line that says how it went. The transfer borrows its session
mutably, so every operation takes the session and returns it. An `assert!` that fails is
`none`.
-/

namespace MarlinTransfer

open Codec Text

inductive Compression where
  | none
  | heatshrink (window lookahead : UInt8)
  | auto
  deriving DecidableEq, Repr

inductive FileError where
  | openBusy
  | openFail
  | ioError
  | noOpenFile
  | sessionTimeout
  | sessionFatalError
  | sessionOutOfSync (expected got : UInt8)
  | compressionUnsupported
  | protocolViolation (state expected : String)
  deriving DecidableEq, Repr

inductive FileEvent where
  | negotiated (version : Str) (compression : Compression)
  | opened
  | writeAcked
  | closed
  | abortAcked
  | failed (err : FileError)
  deriving DecidableEq, Repr

inductive State where
  | idle
  | awaitingQueryReply
  | negotiated
  | awaitingOpenReply
  | opened
  | awaitingWriteAck
  | awaitingCloseReply
  | closed
  | awaitingAbortReply
  | aborted
  | failed
  deriving DecidableEq, Repr

/-- The line half of a two-part reply. -/
inductive PendingAscii where
  | queryVersion (version : Str) (compression : Compression)
  | queryFailed (err : FileError)
  | openSuccess
  | openBusy
  | openFail
  | closeSuccess
  | closeIoError
  | closeInvalid
  | abortSuccess
  deriving DecidableEq, Repr

structure FileTransfer where
  state : State
  requestedCompression : Compression
  negotiated : Option Compression
  advertisedVersion : Option Str
  pendingAscii : Option PendingAscii
  outEvents : List FileEvent
  protocolId : UInt8
  deriving DecidableEq, Repr

/-- `PROTOCOL_FILE_TRANSFER`. -/
def protocolFileTransfer : UInt8 := 1
/-- `PT_QUERY`. -/
def ptQuery : UInt8 := 0
/-- `PT_OPEN`. -/
def ptOpen : UInt8 := 1
/-- `PT_CLOSE`. -/
def ptClose : UInt8 := 2
/-- `PT_WRITE`. -/
def ptWrite : UInt8 := 3
/-- `PT_ABORT`. -/
def ptAbort : UInt8 := 4

/-- `parse_compression_spec`: what is not understood counts as no compression. -/
def parseCompressionSpec (spec : Str) : Compression :=
  let spec := trim spec
  if spec = "none".toList then .none
  else match stripPrefix spec "heatshrink,".toList with
    | none => .none
    | some rest =>
      let parts := split ',' rest
      let window := parts[0]?.bind fun s => parseUnsigned (2 ^ 8) (trim s)
      let lookahead := parts[1]?.bind fun s => parseUnsigned (2 ^ 8) (trim s)
      match window, lookahead with
      | some window, some lookahead => .heatshrink (UInt8.ofNat window) (UInt8.ofNat lookahead)
      | _, _ => .none

/-- `choose_compression`, of what the caller requested and what the device advertises. -/
def chooseCompression (requested device : Compression) : Except FileError Compression :=
  match requested, device with
  | .none, _ => .ok .none
  | .heatshrink window lookahead, .heatshrink _ _ => .ok (.heatshrink window lookahead)
  | .heatshrink _ _, _ => .error .compressionUnsupported
  | .auto, .heatshrink window lookahead => .ok (.heatshrink window lookahead)
  | .auto, _ => .ok .none

namespace FileTransfer

/-- `FileTransfer::new`. -/
def new : FileTransfer :=
  { state := .idle
    requestedCompression := .none
    negotiated := none
    advertisedVersion := none
    pendingAscii := none
    outEvents := []
    protocolId := protocolFileTransfer }

/-- An operation: `required` is the state it asserts, `next` the one it waits in. -/
def request (ft : FileTransfer) (s : Session) (required next : State) (packetType : UInt8)
    (payload : Bytes) (now : Instant) : Option (FileTransfer × Session) :=
  if ft.state = required then
    (s.send ft.protocolId packetType payload now).map fun s => ({ ft with state := next }, s)
  else none

/-- `FileTransfer::query`. -/
def query (ft : FileTransfer) (s : Session) (compression : Compression) (now : Instant) :
    Option (FileTransfer × Session) :=
  { ft with requestedCompression := compression }.request s .idle .awaitingQueryReply ptQuery []
    now

/-- The payload of OPEN: the dummy flag, the compression flag, the name and a zero byte. -/
def openPayload (ft : FileTransfer) (name : Str) (dummy : Bool) : Bytes :=
  let compByte : UInt8 := match ft.negotiated with
    | some (.heatshrink _ _) => 1
    | _ => 0
  [if dummy then 1 else 0, compByte] ++ asBytes name ++ [(0 : UInt8)]

/-- `FileTransfer::open`. -/
def «open» (ft : FileTransfer) (s : Session) (name : Str) (dummy : Bool) (now : Instant) :
    Option (FileTransfer × Session) :=
  ft.request s .negotiated .awaitingOpenReply ptOpen (ft.openPayload name dummy) now

/-- `FileTransfer::write`. -/
def write (ft : FileTransfer) (s : Session) (chunk : Bytes) (now : Instant) :
    Option (FileTransfer × Session) :=
  ft.request s .opened .awaitingWriteAck ptWrite chunk now

/-- `FileTransfer::close`. -/
def close (ft : FileTransfer) (s : Session) (now : Instant) : Option (FileTransfer × Session) :=
  ft.request s .opened .awaitingCloseReply ptClose [] now

/-- `FileTransfer::abort`. -/
def abort (ft : FileTransfer) (s : Session) (now : Instant) : Option (FileTransfer × Session) :=
  ft.request s .opened .awaitingAbortReply ptAbort [] now

/-- `self.out_events.push_back`. -/
def pushEvent (ft : FileTransfer) (e : FileEvent) : FileTransfer :=
  { ft with outEvents := ft.outEvents ++ [e] }

/-- `FileTransfer::fail`. -/
def fail (ft : FileTransfer) (err : FileError) : FileTransfer :=
  { ft with state := .failed }.pushEvent (.failed err)

/-- A success: the state it leads to and the event it tells. -/
def succeed (ft : FileTransfer) (state : State) (e : FileEvent) : FileTransfer :=
  { ft with state }.pushEvent e

/-- A `PFT:` line that only counts in one state. -/
def expectIn (ft : FileTransfer) (state : State) (pending : PendingAscii) : FileTransfer :=
  if ft.state = state then { ft with pendingAscii := some pending } else ft

/-- The `PFT:version:<version>:<spec>` line, `rest` being what follows the prefix. -/
def handleVersion (ft : FileTransfer) (rest : Str) : FileTransfer :=
  if ft.state ≠ .awaitingQueryReply then ft
  else match splitOnce ':' rest with
    | none => ft
    | some (version, comp) =>
      { ft with
        advertisedVersion := some version
        pendingAscii := some
          (match chooseCompression ft.requestedCompression (parseCompressionSpec comp) with
            | .ok chosen => .queryVersion version chosen
            | .error err => .queryFailed err) }

/-- `FileTransfer::handle_ascii_line`. -/
def handleAsciiLine (ft : FileTransfer) (line : Str) : FileTransfer :=
  match stripPrefix line "PFT:version:".toList with
  | some rest => ft.handleVersion rest
  | none =>
    if line = "PFT:success".toList then
      match ft.state with
      | .awaitingOpenReply => { ft with pendingAscii := some .openSuccess }
      | .awaitingCloseReply => { ft with pendingAscii := some .closeSuccess }
      | .awaitingAbortReply => { ft with pendingAscii := some .abortSuccess }
      | _ => ft
    else if line = "PFT:busy".toList then ft.expectIn .awaitingOpenReply .openBusy
    else if line = "PFT:fail".toList then ft.expectIn .awaitingOpenReply .openFail
    else if line = "PFT:ioerror".toList then ft.expectIn .awaitingCloseReply .closeIoError
    else if line = "PFT:invalid".toList then ft.expectIn .awaitingCloseReply .closeInvalid
    else ft

/-- `FileTransfer::handle_ack`. -/
def handleAck (ft : FileTransfer) : FileTransfer :=
  let pending := ft.pendingAscii
  let ft := { ft with pendingAscii := none }
  match ft.state, pending with
  | .awaitingQueryReply, some (.queryVersion version compression) =>
    { ft with negotiated := some compression }.succeed .negotiated (.negotiated version compression)
  | .awaitingQueryReply, some (.queryFailed err) => ft.fail err
  | .awaitingQueryReply, none =>
    ft.fail (.protocolViolation "AwaitingQueryReply" "PFT:version:<v>:<compression-spec>")
  | .awaitingOpenReply, some .openSuccess => ft.succeed .opened .opened
  | .awaitingOpenReply, some .openBusy => ft.fail .openBusy
  | .awaitingOpenReply, some .openFail => ft.fail .openFail
  | .awaitingOpenReply, none =>
    ft.fail (.protocolViolation "AwaitingOpenReply" "PFT:success | PFT:busy | PFT:fail")
  | .awaitingWriteAck, none => ft.succeed .opened .writeAcked
  | .awaitingWriteAck, some _ =>
    ft.fail (.protocolViolation "AwaitingWriteAck" "bare ok<n> (no PFT preamble)")
  | .awaitingCloseReply, some .closeSuccess => ft.succeed .closed .closed
  | .awaitingCloseReply, some .closeIoError => ft.fail .ioError
  | .awaitingCloseReply, some .closeInvalid => ft.fail .noOpenFile
  | .awaitingCloseReply, none =>
    ft.fail (.protocolViolation "AwaitingCloseReply" "PFT:success | PFT:ioerror | PFT:invalid")
  | .awaitingAbortReply, some .abortSuccess => ft.succeed .aborted .abortAcked
  | .awaitingAbortReply, none =>
    ft.fail (.protocolViolation "AwaitingAbortReply" "PFT:success")
  | _, _ => ft

/-- `FileTransfer::handle_session_event`. -/
def handleSessionEvent (ft : FileTransfer) (e : Event) : FileTransfer :=
  match e with
  | .asciiLine line => ft.handleAsciiLine line
  | .ack _ => ft.handleAck
  | .synced _ _ => ft
  | .resendRequested _ => ft
  | .fatalError => ft.fail .sessionFatalError
  | .outOfSync expected got => ft.fail (.sessionOutOfSync expected got)
  | .timeout _ => ft.fail .sessionTimeout

/-- The loop of `poll`; each turn takes an event off the session. -/
def drain : Nat → FileTransfer → Session → FileTransfer × Session
  | 0, ft, s => (ft, s)
  | fuel + 1, ft, s =>
    match s.pollEvent with
    | (none, s) => (ft, s)
    | (some e, s) => drain fuel (ft.handleSessionEvent e) s

/-- `self.out_events.pop_front`. -/
def popEvent (ft : FileTransfer) : Option FileEvent × FileTransfer :=
  match ft.outEvents with
  | [] => (none, ft)
  | e :: rest => (some e, { ft with outEvents := rest })

/-- What a poll returns and what it still has to return are what it had to return. -/
theorem popEvent_told (ft : FileTransfer) :
    ft.popEvent.1.toList ++ ft.popEvent.2.outEvents = ft.outEvents := by
  unfold popEvent
  cases h : ft.outEvents with
  | nil => exact h
  | cons e rest => rfl

theorem popEvent_keeps (ft : FileTransfer) :
    ft.popEvent.2.state = ft.state ∧ ft.popEvent.2.pendingAscii = ft.pendingAscii
      ∧ ft.popEvent.2.requestedCompression = ft.requestedCompression := by
  unfold popEvent
  cases ft.outEvents <;> exact ⟨rfl, rfl, rfl⟩

theorem popEvent_nil {ft : FileTransfer} (h : ft.outEvents = []) : ft.popEvent = (none, ft) := by
  unfold popEvent
  rw [h]

theorem popEvent_cons {ft : FileTransfer} {ev : FileEvent} {rest : List FileEvent}
    (h : ft.outEvents = ev :: rest) : ft.popEvent = (some ev, { ft with outEvents := rest }) := by
  unfold popEvent
  rw [h]

/-- `FileTransfer::poll`. -/
def poll (ft : FileTransfer) (s : Session) : Option FileEvent × FileTransfer × Session :=
  let (ft, s) := drain s.events.length ft s
  let (e, ft) := ft.popEvent
  (e, ft, s)

/-- The loop of `poll` handles every event that is pending, and leaves none. -/
theorem drain_eq (s : Session) (ft : FileTransfer) :
    drain s.events.length ft s = (s.events.foldl handleSessionEvent ft, { s with events := [] }) := by
  have key : ∀ (es : List Event) (s : Session) (ft : FileTransfer), s.events = es →
      drain es.length ft s = (es.foldl handleSessionEvent ft, { s with events := [] }) := by
    intro es
    induction es with
    | nil =>
      intro s ft h
      rw [List.length_nil, drain, List.foldl_nil, ← h]
    | cons e es ih =>
      intro s ft h
      rw [List.length_cons, drain]
      have hpoll : s.pollEvent = (some e, { s with events := es }) := by
        unfold Session.pollEvent
        rw [h]
      rw [hpoll]
      exact ih { s with events := es } (ft.handleSessionEvent e) rfl
  exact key s.events s ft rfl

end FileTransfer

end MarlinTransfer
