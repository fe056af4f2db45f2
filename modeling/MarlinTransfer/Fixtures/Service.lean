import MarlinTransfer.Fixtures.Exchange
import MarlinTransfer.Fixtures.OpenName

/-!
# The service a transfer is

What a transfer over a fake device comes to when packets, sync numbers, lines and acks are
forgotten: a printer that serves requests, one event for each. The pumps of the tests, which
carry the bytes between the two state machines, implement it: whatever is asked, at whatever
times, they return the events the service tells and leave the device as the service leaves the
printer, and they panic where it refuses.
-/

namespace MarlinTransfer

open Codec Text Session

/-! ## The service -/

/-- An operation with what it is called with. -/
inductive Request where
  | query (compression : Compression)
  | open (name : Str) (dummy : Bool)
  | write (chunk : Bytes)
  | close
  | abort

/-- A device when nothing is under way. -/
structure Printer where
  blockSize : UInt16
  version : Str
  compression : CompressionSpec
  /-- What the next OPEN is refused with. -/
  busy : Bool
  failing : Bool
  /-- It does not say how CLOSE and ABORT went. -/
  silent : Bool
  name : Option Str
  dummy : Option Bool
  flag : Option UInt8
  contents : Bytes
  aborted : Bool
  closed : Bool
  /-- It has left the binary mode. -/
  released : Bool
  deriving DecidableEq

/-- How far a transfer has come. -/
inductive Course where
  | idle
  | negotiated (c : Compression)
  | opened (c : Compression)
  | closed
  | aborted
  | failed
  deriving DecidableEq

namespace Course

def state : Course → State
  | idle => .idle
  | negotiated _ => .negotiated
  | opened _ => .opened
  | closed => .closed
  | aborted => .aborted
  | failed => .failed

/-- The compression a transfer goes on with. -/
def compression : Course → Option Compression
  | negotiated c => some c
  | opened c => some c
  | _ => none

end Course

structure Service where
  course : Course
  printer : Printer
  deriving DecidableEq

namespace Service

/-- The answer to a query. -/
def negotiate (p : Printer) (requested : Compression) : FileEvent × Service :=
  match agree requested p.compression with
  | some c => (.negotiated p.version c, ⟨.negotiated c, p⟩)
  | none => (.failed .compressionUnsupported, ⟨.failed, p⟩)

/-- A file is opened, if only for the record: the printer notes what it was told also when it
refuses. -/
def openFile (p : Printer) (c : Compression) (name : Str) (dummy : Bool) : FileEvent × Service :=
  let p := { p with
    name := some (untilNul name), dummy := some dummy, flag := some (compressionByte c) }
  if p.busy then (.failed .openBusy, ⟨.failed, { p with busy := false }⟩)
  else if p.failing then (.failed .openFail, ⟨.failed, { p with failing := false }⟩)
  else (.opened, ⟨.opened c, p⟩)

/-- An end, which is a violation of the protocol when the printer does not say how it went. -/
def conclude (p : Printer) (op : Operation) (ev : FileEvent) (course : Course) :
    FileEvent × Service :=
  if p.silent then (.failed op.violation, ⟨.failed, p⟩) else (ev, ⟨course, p⟩)

/-- One request; `none` is a request that is out of turn or too long. -/
def serve (sv : Service) (r : Request) : Option (FileEvent × Service) :=
  match sv.course, r with
  | .idle, .query requested => some (negotiate sv.printer requested)
  | .negotiated c, .open name dummy =>
    if (asBytes name).length + 3 ≤ maxPayload then some (openFile sv.printer c name dummy) else none
  | .opened c, .write chunk =>
    if chunk.length ≤ maxPayload then
      some (.writeAcked,
        ⟨.opened c, { sv.printer with contents := sv.printer.contents ++ chunk }⟩)
    else none
  | .opened _, .close => some (conclude { sv.printer with closed := true } .close .closed .closed)
  | .opened _, .abort =>
    some (conclude { sv.printer with aborted := true } .abort .abortAcked .aborted)
  | _, _ => none

/-- Requests, one after the other. -/
def serveAll : List Request → Service → Option (List FileEvent × Service)
  | [], sv => some ([], sv)
  | r :: rs, sv => do
    let (ev, sv) ← sv.serve r
    let (evs, sv) ← serveAll rs sv
    return (ev :: evs, sv)

end Service

/-! ## The pumps -/

/-- `while let Some(out) = session.poll_outbound() { device.feed(&out); }`; `none` is a panic. -/
def deliver : Nat → Session → FakeDevice → Option (Session × FakeDevice)
  | 0, s, d => some (s, d)
  | fuel + 1, s, d =>
    match s.pollOutbound with
    | (none, s) => some (s, d)
    | (some out, s) => (d.feed out).bind fun r => deliver fuel s r.2

/-- `pump`, and `pump_ft`, which does the same to the session of a transfer. -/
def pump (s : Session) (d : FakeDevice) (now : Instant) : Option (Session × FakeDevice) :=
  (deliver (s.outbound.length + 1) s d).map fun (s, d) =>
    let (reply, d) := d.drainReply
    (if reply.isEmpty then s else s.feed reply now, d)

/-- The events that are pending are polled; whether one is `Synced`. -/
def sawSynced : Nat → Session → Bool × Session
  | 0, s => (false, s)
  | fuel + 1, s =>
    match s.pollEvent with
    | (none, s) => (false, s)
    | (some e, s) =>
      let (rest, s) := sawSynced fuel s
      ((match e with | .synced _ _ => true | _ => false) || rest, s)

/-- The loop of `complete_handshake`, which panics in the end. -/
def pumpUntilSynced : Nat → (Nat → Instant) → Session → FakeDevice → Option (Session × FakeDevice)
  | 0, _, _, _ => none
  | pumps + 1, clock, s, d =>
    (pump s d (clock 0)).bind fun (s, d) =>
      let (synced, s) := sawSynced (s.events.length + 1) s
      if synced then some (s, d) else pumpUntilSynced pumps (fun k => clock (k + 1)) s d

/-- `complete_handshake`. -/
def completeHandshake (clock : Nat → Instant) (s : Session) (d : FakeDevice) :
    Option (Session × FakeDevice) :=
  pumpUntilSynced 10 (fun k => clock (k + 1)) (s.connect (clock 0)) d

/-- A transfer on its session, and the device behind it. -/
structure Rig where
  ft : FileTransfer
  session : Session
  device : FakeDevice

/-- `pump_until_event`. -/
def pumpUntilEvent : Nat → (Nat → Instant) → Rig → Option (Option FileEvent × Rig)
  | 0, _, rig => some (none, rig)
  | pumps + 1, clock, ⟨ft, s, d⟩ =>
    (pump s d (clock 0)).bind fun (s, d) =>
      match ft.poll s with
      | (some ev, ft, s) => some (some ev, ⟨ft, s, d⟩)
      | (none, ft, s) => pumpUntilEvent pumps (fun k => clock (k + 1)) ⟨ft, s, d⟩

/-- The call of a request. -/
def Request.issue (r : Request) (ft : FileTransfer) (s : Session) (now : Instant) :
    Option (FileTransfer × Session) :=
  match r with
  | .query compression => ft.query s compression now
  | .open name dummy => ft.open s name dummy now
  | .write chunk => ft.write s chunk now
  | .close => ft.close s now
  | .abort => ft.abort s now

namespace Rig

/-- A request is called, and its event pumped out. -/
def exchange (rig : Rig) (r : Request) (now : Instant) (clock : Nat → Instant) :
    Option (Option FileEvent × Rig) :=
  (r.issue rig.ft rig.session now).bind fun (ft, session) =>
    pumpUntilEvent 10 clock { rig with ft, session }

/-- One after the other, each with the times of its call and its pumps. -/
def exchanges : List (Request × Instant × (Nat → Instant)) → Rig →
    Option (List (Option FileEvent) × Rig)
  | [], rig => some ([], rig)
  | (r, now, clock) :: rs, rig => do
    let (ev, rig) ← rig.exchange r now clock
    let (evs, rig) ← exchanges rs rig
    return (ev :: evs, rig)

end Rig

/-! ## One pump -/

section Pumps

variable {s : Session} {d d' : FakeDevice} {f : InFlight} {p : Packet} {ls : List Str}

/-- What the one packet on its way does to the device. -/
theorem deliver_one (hd : d.inbound = []) (hp : p.Valid) :
    deliver 2 (s.sending f [p.wire]) d = some (s.sending f [], d.handle p) := by
  have hout : (s.sending f [p.wire]).pollOutbound = (some p.wire, s.sending f []) := rfl
  rw [deliver, hout]
  dsimp only
  rw [FakeDevice.feed_wire hd hp]
  rfl

/-- **A pump carries the packet over and the answer back.** -/
theorem pump_one (hd : d.inbound = []) (hp : p.Valid) (hans : d.handle p = d'.replying ls)
    (hd' : d'.Listens) (hls : ls ≠ []) (now : Instant) :
    pump (s.sending f [p.wire]) d now
      = some ((s.sending f []).feed (Lines.unlines 0x0A (ls.map asBytes)) now, d') := by
  have hne : (Lines.unlines 0x0A (ls.map asBytes)).isEmpty = false := by
    cases ls with
    | nil => exact absurd rfl hls
    | cons l ls => simp
  unfold pump
  rw [show (s.sending f [p.wire]).outbound.length + 1 = 2 from rfl, deliver_one hd hp, hans]
  show some _ = _
  dsimp only
  rw [hd'.drainReply ls, hne]
  rfl

end Pumps

/-! ## The handshake -/

theorem sawSynced_one {s : Session} {block : UInt16} {version : Str}
    (h : s.events = [.synced block version]) : sawSynced 2 s = (true, { s with events := [] }) := by
  have hpoll : s.pollEvent = (some (.synced block version), { s with events := [] }) := by
    unfold Session.pollEvent
    rw [h]
  rw [sawSynced, hpoll]
  rfl

/-- **The handshake is complete after one pump.** -/
theorem completeHandshake_eq {s : Session} (hs : s.Vacant) {d : FakeDevice} (hd : d.Listens)
    (clock : Nat → Instant) :
    completeHandshake clock s d
      = some ({ s.greeted d.initialSync d.maxBlockSize (trim d.protocolVersion) with events := [] },
          d) := by
  obtain ⟨f, -, hf, hout⟩ := hs.dispatch syncPacket true (clock 0)
  have hans : d.handle (syncPacket.packet s.sync)
      = d.replying [ssText d.initialSync d.maxBlockSize d.protocolVersion] := by
    unfold FakeDevice.handle
    rw [hd.resend, if_neg (fun h => nomatch h), ← FakeDevice.writeLine_eq]
    rfl
  unfold completeHandshake connect
  rw [hout, pumpUntilSynced, pump_one hd.inbound (syncPacket.packet_valid _) hans hd (by simp),
    Option.bind_some]
  dsimp only
  rw [show [ssText d.initialSync d.maxBlockSize d.protocolVersion].map asBytes
      = [ssLine d.initialSync d.maxBlockSize d.protocolVersion] from rfl,
    hs.feed hf _ _ hd.oneLine]
  rw [show (s.greeted d.initialSync d.maxBlockSize (trim d.protocolVersion)).events.length + 1 = 2
    from rfl, sawSynced_one rfl]
  rfl

/-! ## One exchange -/

theorem Operation.packetType_le (op : Operation) : op.packetType ≤ 0xF := by
  cases op <;> decide

namespace Request

def operation : Request → Operation
  | query _ => .query
  | .open _ _ => .open
  | write _ => .write
  | close => .close
  | abort => .abort

/-- What is sent. -/
def payload (ft : FileTransfer) : Request → Bytes
  | query _ => []
  | .open name dummy => ft.openPayload name dummy
  | write chunk => chunk
  | close => []
  | abort => []

/-- The transfer that sends it. -/
def prepared (ft : FileTransfer) : Request → FileTransfer
  | query compression => { ft with requestedCompression := compression }
  | _ => ft

theorem issue_eq (r : Request) (ft : FileTransfer) (s : Session) (now : Instant) :
    r.issue ft s now = (r.prepared ft).request s r.operation.required r.operation.awaiting
      r.operation.packetType (r.payload ft) now := by
  cases r <;> rfl

theorem prepared_rests {ft : FileTransfer} {st : State} (h : ft.Rests st) (r : Request) :
    (r.prepared ft).Rests st := by
  cases r with
  | query compression => exact ⟨h.state, h.pending, h.outEvents, h.protocol⟩
  | _ => exact h

theorem prepared_negotiated (ft : FileTransfer) (r : Request) :
    (r.prepared ft).negotiated = ft.negotiated := by
  cases r <;> rfl

end Request

namespace Request

/-- Its packet. -/
def packet (r : Request) (ft : FileTransfer) (sync : UInt8) : Packet :=
  ⟨sync, protocolFileTransfer, r.operation.packetType, r.payload ft⟩

/-- The transfer that waits for its answer. -/
def waiting (r : Request) (ft : FileTransfer) : FileTransfer :=
  { r.prepared ft with state := r.operation.awaiting }

end Request

section Exchange

variable {ft : FileTransfer} {s : Session} {d : FakeDevice} {r : Request}

/-- A request out of turn panics. -/
theorem issue_out_of_turn (h : ft.state ≠ r.operation.required) (now : Instant) :
    r.issue ft s now = none := by
  have hst : (r.prepared ft).state = ft.state := by cases r <;> rfl
  rw [r.issue_eq, FileTransfer.request, if_neg (by rw [hst]; exact h)]

/-- So does one that is too long. -/
theorem issue_oversized (h : maxPayload < (r.payload ft).length) (now : Instant) :
    r.issue ft s now = none := by
  rw [r.issue_eq, FileTransfer.request, send_oversized h]
  split_ifs <;> rfl

/-- Any other sends its packet. -/
theorem issue_sends (hs : s.AtRest) (hft : ft.Rests r.operation.required)
    (hl : (r.payload ft).length ≤ maxPayload) (now : Instant) :
    ∃ f, f.sync = s.sync ∧ f.isSyncHandshake = false
      ∧ r.issue ft s now = some (r.waiting ft, s.sending f [(r.packet ft s.sync).wire]) := by
  have hprep := r.prepared_rests hft
  obtain ⟨f, hsync, hf, hsend⟩ :=
    hs.send (by decide : protocolFileTransfer ≤ 0xF) r.operation.packetType_le hl now
  refine ⟨f, hsync, hf, ?_⟩
  rw [r.issue_eq]
  exact FileTransfer.request_eq_some.mpr ⟨hprep.state, by rw [hprep.protocol]; exact hsend, rfl⟩

/-- The request goes out at any time, and comes back as `ev`, in one packet and one answer. -/
structure Rig.Answered (rig : Rig) (r : Request) (ev : FileEvent) (rig' : Rig) : Prop where
  rest : rig.session.AtRest
  listens : rig.device.Listens
  sent : ∀ now, ∃ f, f.sync = rig.session.sync ∧ f.isSyncHandshake = false
    ∧ r.issue rig.ft rig.session now
      = some (r.waiting rig.ft, rig.session.sending f [(r.packet rig.ft rig.session.sync).wire])
  valid : (r.packet rig.ft rig.session.sync).Valid
  polled : (r.waiting rig.ft).poll
      (rig.session.answered (rig.device.verdictLines r.operation))
    = (some ev, rig'.ft, rig'.session)
  device : rig'.device = rig.device.served (r.payload rig.ft) r.operation

namespace Rig.Answered

variable {rig rig' : Rig} {ev : FileEvent}

/-- What the device has to send. -/
theorem handled (h : rig.Answered r ev rig') :
    rig.device.handle (r.packet rig.ft rig.session.sync)
      = rig'.device.replying
        (rig.device.verdictLines r.operation ++ [okText rig.session.sync]) := by
  rw [h.device]
  exact FakeDevice.handle_operation h.listens.resend _ _ _

theorem listens' (h : rig.Answered r ev rig') : rig'.device.Listens := by
  rw [h.device]
  exact h.listens.served _ _

/-- **One pump** is enough. -/
theorem exchange (h : rig.Answered r ev rig') (now : Instant) (clock : Nat → Instant) :
    rig.exchange r now clock = some (some ev, rig') := by
  obtain ⟨f, hsync, hf, hissue⟩ := h.sent now
  have hpump := pump_one (s := rig.session) (f := f) h.listens.inbound h.valid h.handled h.listens'
    (by simp) (clock 0)
  rw [h.rest.feed hsync hf (FakeDevice.plain_verdictLines h.listens.oneLine _)] at hpump
  unfold Rig.exchange
  rw [hissue, Option.bind_some]
  dsimp only
  rw [pumpUntilEvent, hpump, Option.bind_some]
  dsimp only
  rw [h.polled]

end Rig.Answered

/-- **A request in turn that fits is answered.** -/
theorem exists_answered (hs : s.AtRest) (hft : ft.Rests r.operation.required) (hd : d.Listens)
    (hl : (r.payload ft).length ≤ maxPayload) :
    let ev := r.operation.outcome (r.prepared ft).requestedCompression
      (d.verdictLines r.operation)
    ∃ ft' s', Rig.Answered ⟨ft, s, d⟩ r ev ⟨ft', s', d.served (r.payload ft) r.operation⟩
      ∧ s'.AtRest ∧ ft'.Rests (r.operation.after ev)
      ∧ (r.operation ≠ .query → ft'.negotiated = ft.negotiated)
      ∧ ∀ version c, ev = .negotiated version c → ft'.negotiated = some c := by
  intro ev
  have hproto : protocolFileTransfer ≤ 0xF := by decide
  have hprep := r.prepared_rests hft
  have hwait : (r.waiting ft).Rests r.operation.awaiting :=
    ⟨rfl, hprep.pending, hprep.outEvents, hprep.protocol⟩
  obtain ⟨ft', hpoll, hrests, hneg, hnew⟩ :=
    hwait.answered (s := s.answered (d.verdictLines r.operation)) rfl
  refine ⟨ft', _, ⟨hs, hd, issue_sends hs hft hl, ?_, hpoll, rfl⟩,
    hs.answered (d.verdictLines r.operation), hrests,
    fun hop => (hneg hop).trans (r.prepared_negotiated ft), hnew⟩
  exact ⟨hproto, r.operation.packetType_le, hl⟩

end Exchange

/-! ## The service behind the exchange -/

/-- What is left of a device when packets and lines are forgotten. -/
def FakeDevice.printer (d : FakeDevice) : Printer :=
  { blockSize := d.maxBlockSize
    version := d.protocolVersion
    compression := d.compression
    busy := d.behaviour.busyOnNextOpen
    failing := d.behaviour.failOnNextOpen
    silent := d.behaviour.skipPftOnTerminal
    name := d.lastOpenFilename
    dummy := d.lastOpenDummy
    flag := d.lastOpenCompressionByte
    contents := d.writtenBytes
    aborted := d.aborted
    closed := d.closed
    released := d.controlClosed }

/-- The answer to a query is what host and device agree on. -/
theorem outcome_query (requested : Compression) {d : FakeDevice} (hd : ':' ∉ d.protocolVersion) :
    Operation.outcome .query requested (d.verdictLines .query)
      = (Service.negotiate d.printer requested).1 := by
  have hv : verdict .query requested (versionText d.protocolVersion d.compression.render)
      = some (match agree requested d.compression with
        | some c => .accept (.negotiated d.protocolVersion c)
        | none => .refuse .compressionUnsupported) := by
    unfold verdict versionText
    dsimp only
    rw [stripPrefix_append, Option.bind_some, splitOnce_append _ hd, Option.map_some]
    dsimp only
    rw [parseCompressionSpec_render, chooseCompression_eq]
    cases agree requested d.compression <;> rfl
  unfold Operation.outcome FakeDevice.verdictLines
  rw [List.map_singleton, verdictIn_cons, Event.verdict, hv]
  unfold Service.negotiate FakeDevice.printer
  cases agree requested d.compression <;> rfl

/-- The answer to an OPEN is the verdict, and the printer is what the device becomes. -/
theorem outcome_open (requested : Compression) (d : FakeDevice) {ft : FileTransfer}
    {c : Compression} (hc : ft.negotiated = some c) (name : Str) (dummy : Bool) :
    Operation.outcome .open requested (d.verdictLines .open)
        = (Service.openFile d.printer c name dummy).1
      ∧ (d.served (ft.openPayload name dummy) .open).printer
        = (Service.openFile d.printer c name dummy).2.printer := by
  unfold FakeDevice.served FakeDevice.verdictLines FakeDevice.openText FakeDevice.rearmed
    Service.openFile
  rw [readOpen_openPayload d hc name dummy]
  dsimp only [FakeDevice.printer]
  split_ifs <;> exact ⟨rfl, rfl⟩

/-- The answer to a CLOSE or an ABORT. -/
theorem outcome_terminal (requested : Compression) (d : FakeDevice) (p : Printer)
    (hp : p.silent = d.behaviour.skipPftOnTerminal) :
    Operation.outcome .close requested (d.verdictLines .close)
        = (Service.conclude p .close .closed .closed).1
      ∧ Operation.outcome .abort requested (d.verdictLines .abort)
        = (Service.conclude p .abort .abortAcked .aborted).1 := by
  unfold FakeDevice.verdictLines FakeDevice.terminalLines Service.conclude
  dsimp only
  rw [hp]
  split_ifs <;> exact ⟨rfl, rfl⟩

/-- The test bench implements the service. -/
structure Rig.Implements (rig : Rig) (sv : Service) : Prop where
  session : rig.session.AtRest
  transfer : rig.ft.Rests sv.course.state
  negotiated : ∀ c, sv.course.compression = some c → rig.ft.negotiated = some c
  device : rig.device.Listens
  printer : rig.device.printer = sv.printer

/-- A request is answered as the service says, or refused. -/
def Rig.Answers (rig : Rig) (r : Request) : Option (FileEvent × Service) → Prop
  | none => ∀ now, r.issue rig.ft rig.session now = none
  | some (ev, sv) => ∃ rig', rig.Answered r ev rig' ∧ rig'.Implements sv

theorem Service.serve_out_of_turn {sv : Service} {r : Request}
    (h : sv.course.state ≠ r.operation.required) : sv.serve r = none := by
  obtain ⟨course, p⟩ := sv
  cases course <;> cases r <;> first
    | rfl
    | exact absurd rfl h

/-- A request is answered by its event, or by a failure. -/
theorem Service.serve_event {r : Request} {sv sv' : Service} {ev : FileEvent}
    (h : sv.serve r = some (ev, sv')) :
    (∃ err, ev = .failed err) ∨ ev.answers = some r.operation := by
  have hturn : sv.course.state = r.operation.required := by
    by_contra hne
    rw [Service.serve_out_of_turn hne] at h
    cases h
  obtain ⟨course, p⟩ := sv
  cases r with
  | query requested =>
    cases course <;> try cases hturn
    obtain rfl : (Service.negotiate p requested).1 = ev := congrArg Prod.fst (Option.some.inj h)
    unfold Service.negotiate
    cases agree requested p.compression with
    | none => exact .inl ⟨_, rfl⟩
    | some c => exact .inr rfl
  | «open» name dummy =>
    cases course <;> try cases hturn
    rename_i c
    unfold Service.serve at h
    dsimp only at h
    split_ifs at h
    obtain rfl : (Service.openFile p c name dummy).1 = ev := congrArg Prod.fst (Option.some.inj h)
    unfold Service.openFile
    dsimp only
    split_ifs
    · exact .inl ⟨_, rfl⟩
    · exact .inl ⟨_, rfl⟩
    · exact .inr rfl
  | write chunk =>
    cases course <;> try cases hturn
    unfold Service.serve at h
    dsimp only at h
    split_ifs at h
    cases h
    exact .inr rfl
  | close =>
    cases course <;> try cases hturn
    obtain rfl : (Service.conclude { p with closed := true } .close .closed .closed).1 = ev :=
      congrArg Prod.fst (Option.some.inj h)
    unfold Service.conclude
    split_ifs
    · exact .inl ⟨_, rfl⟩
    · exact .inr rfl
  | abort =>
    cases course <;> try cases hturn
    obtain rfl : (Service.conclude { p with aborted := true } .abort .abortAcked .aborted).1 = ev :=
      congrArg Prod.fst (Option.some.inj h)
    unfold Service.conclude
    split_ifs
    · exact .inl ⟨_, rfl⟩
    · exact .inr rfl

section Steps

variable {ft : FileTransfer} {s : Session} {d : FakeDevice}

/-- A request in turn that fits is answered as the service says, if the service says what the
verdict is and what the device becomes. -/
theorem answers_in_turn {r : Request} (hs : s.AtRest) (hft : ft.Rests r.operation.required)
    (hd : d.Listens) (hl : (r.payload ft).length ≤ maxPayload) {a : FileEvent × Service}
    (hev : r.operation.outcome (r.prepared ft).requestedCompression (d.verdictLines r.operation)
      = a.1)
    (hst : r.operation.after a.1 = a.2.course.state)
    (hneg : ∀ c, a.2.course.compression = some c →
      r.operation ≠ .query ∧ ft.negotiated = some c ∨ ∃ version, a.1 = .negotiated version c)
    (hp : (d.served (r.payload ft) r.operation).printer = a.2.printer) :
    Rig.Answers ⟨ft, s, d⟩ r (some a) := by
  obtain ⟨ft', s', hx, hs', hft', hkeep, hnew⟩ := exists_answered hs hft hd hl
  rw [hev] at hx hft' hnew
  rw [hst] at hft'
  refine ⟨⟨ft', s', _⟩, hx, ⟨hs', hft', fun c hc => ?_, hd.served _ _, hp⟩⟩
  rcases hneg c hc with ⟨hop, hsame⟩ | ⟨version, hev⟩
  · exact (hkeep hop).trans hsame
  · exact hnew version c hev

theorem answers_query (h : Rig.Implements ⟨ft, s, d⟩ ⟨.idle, d.printer⟩) (requested : Compression) :
    Rig.Answers ⟨ft, s, d⟩ (.query requested)
      (some (Service.negotiate d.printer requested)) := by
  refine answers_in_turn (r := .query requested) h.session h.transfer h.device
    (Nat.zero_le _) (outcome_query requested h.device.noColon) ?_ ?_ ?_
  all_goals
    unfold Service.negotiate
    cases agree requested d.printer.compression
  · rfl
  · rfl
  · exact fun c hc => nomatch hc
  · exact fun c hc => .inr ⟨_, congrArg _ (Option.some.inj hc)⟩
  · rfl
  · rfl

theorem answers_open {c : Compression} (h : Rig.Implements ⟨ft, s, d⟩ ⟨.negotiated c, d.printer⟩)
    {name : Str} (hl : (asBytes name).length + 3 ≤ maxPayload) (dummy : Bool) :
    Rig.Answers ⟨ft, s, d⟩ (.open name dummy)
      (some (Service.openFile d.printer c name dummy)) := by
  have hc := h.negotiated c rfl
  obtain ⟨hev, hp⟩ := outcome_open ft.requestedCompression d hc name dummy
  refine answers_in_turn (r := .open name dummy) h.session h.transfer h.device ?_ hev ?_
    ?_ hp
  · show (ft.openPayload name dummy).length ≤ _
    rw [length_openPayload]
    exact hl
  all_goals
    unfold Service.openFile
    dsimp only
    split_ifs
  · rfl
  · rfl
  · rfl
  · exact fun c hc => nomatch hc
  · exact fun c hc => nomatch hc
  · exact fun _ hc' => .inl ⟨(fun h => nomatch h), hc.trans hc'⟩

theorem answers_write {c : Compression} (h : Rig.Implements ⟨ft, s, d⟩ ⟨.opened c, d.printer⟩)
    {chunk : Bytes} (hl : chunk.length ≤ maxPayload) :
    Rig.Answers ⟨ft, s, d⟩ (.write chunk)
      (some (.writeAcked,
        ⟨.opened c, { d.printer with contents := d.printer.contents ++ chunk }⟩)) :=
  answers_in_turn (r := .write chunk) h.session h.transfer h.device hl rfl rfl
    (fun _ hc' => .inl ⟨(fun h => nomatch h), (h.negotiated c rfl).trans hc'⟩) rfl

theorem answers_close {c : Compression} (h : Rig.Implements ⟨ft, s, d⟩ ⟨.opened c, d.printer⟩) :
    Rig.Answers ⟨ft, s, d⟩ .close
      (some (Service.conclude { d.printer with closed := true } .close .closed .closed)) := by
  refine answers_in_turn (r := .close) h.session h.transfer h.device (Nat.zero_le _)
    (outcome_terminal ft.requestedCompression d { d.printer with closed := true } rfl).1 ?_ ?_ ?_
  all_goals
    unfold Service.conclude
    split_ifs
  · rfl
  · rfl
  · exact fun c hc => nomatch hc
  · exact fun c hc => nomatch hc
  · rfl
  · rfl

theorem answers_abort {c : Compression} (h : Rig.Implements ⟨ft, s, d⟩ ⟨.opened c, d.printer⟩) :
    Rig.Answers ⟨ft, s, d⟩ .abort
      (some (Service.conclude { d.printer with aborted := true } .abort .abortAcked .aborted)) := by
  refine answers_in_turn (r := .abort) h.session h.transfer h.device (Nat.zero_le _)
    (outcome_terminal ft.requestedCompression d { d.printer with aborted := true } rfl).2 ?_ ?_ ?_
  all_goals
    unfold Service.conclude
    split_ifs
  · rfl
  · rfl
  · exact fun c hc => nomatch hc
  · exact fun c hc => nomatch hc
  · rfl
  · rfl

end Steps

/-- **One exchange is one request of the service.** -/
theorem Rig.Implements.serve {rig : Rig} {sv : Service} (h : rig.Implements sv)
    (r : Request) : rig.Answers r (sv.serve r) := by
  obtain ⟨ft, s, d⟩ := rig
  obtain ⟨course, p⟩ := sv
  by_cases hturn : course.state = r.operation.required
  swap
  · rw [Service.serve_out_of_turn hturn]
    refine issue_out_of_turn fun hst => hturn ?_
    rw [← hst]
    exact h.transfer.state.symm
  obtain rfl : d.printer = p := h.printer
  cases r with
  | query requested =>
    cases course <;> try cases hturn
    exact answers_query h requested
  | «open» name dummy =>
    cases course <;> try cases hturn
    rename_i c
    unfold Service.serve
    dsimp only
    split_ifs with hl
    · exact answers_open h hl dummy
    · refine issue_oversized (r := .open name dummy) ?_
      show maxPayload < (ft.openPayload name dummy).length
      rw [length_openPayload]
      omega
  | write chunk =>
    cases course <;> try cases hturn
    unfold Service.serve
    dsimp only
    split_ifs with hl
    · exact answers_write h hl
    · exact issue_oversized (r := .write chunk) (Nat.lt_of_not_le hl)
  | close =>
    cases course <;> try cases hturn
    exact answers_close h
  | abort =>
    cases course <;> try cases hturn
    exact answers_abort h

/-- **Any number of exchanges** are as many requests of the service, and the first request that it
refuses panics. -/
theorem Rig.Implements.serveAll (script : List (Request × Instant × (Nat → Instant))) {rig : Rig}
    {sv : Service} (h : rig.Implements sv) :
    (rig.exchanges script).map (fun r => (r.1, r.2.device.printer))
      = (sv.serveAll (script.map (·.1))).map fun r => (r.1.map some, r.2.printer) := by
  induction script generalizing rig sv with
  | nil => exact congrArg (fun p => some (([] : List (Option FileEvent)), p)) h.printer
  | cons x script ih =>
    obtain ⟨r, now, clock⟩ := x
    have hstep := h.serve r
    rw [List.map_cons, Rig.exchanges, Service.serveAll]
    cases hsv : sv.serve r with
    | none =>
      rw [hsv] at hstep
      have hnone : rig.exchange r now clock = none := by
        unfold Rig.exchange
        rw [show r.issue rig.ft rig.session now = none from hstep now]
        rfl
      rw [hnone]
      rfl
    | some a =>
      obtain ⟨ev, sv'⟩ := a
      rw [hsv] at hstep
      obtain ⟨rig', hx, h'⟩ := hstep
      have hrest := ih h'
      rw [hx.exchange now clock]
      show Option.map _ ((rig'.exchanges script).bind fun a => some (some ev :: a.1, a.2))
        = Option.map _ ((sv'.serveAll _).bind fun a => some (ev :: a.1, a.2))
      cases hrig : rig'.exchanges script with
      | none =>
        rw [hrig] at hrest
        rw [Option.map_eq_none_iff.mp hrest.symm]
        rfl
      | some a =>
        rw [hrig] at hrest
        obtain ⟨b, hb, hab⟩ := Option.map_eq_some_iff.mp hrest.symm
        rw [hb]
        obtain ⟨h1, h2⟩ := Prod.mk.inj hab
        show some (some ev :: a.1, a.2.device.printer) = some (some ev :: b.1.map some, b.2.printer)
        rw [← h1, ← h2]

/-- A session just constructed has nothing to do. -/
theorem vacant_new : Session.new.Vacant := ⟨rfl, rfl, rfl, rfl, rfl⟩

/--
**A transfer over a fake device is the service.** The handshake succeeds with every device that
has nothing under way, says its version on one line without a colon and asks for no packet
twice. From there on any requests, at any times, return the events the service tells, one each,
and leave the device as the service leaves the printer; and the first request that the service
refuses, which is one out of turn or one too long for a packet, is the first that panics.
-/
theorem exchanges_refine_service (d : FakeDevice) (hd : d.Listens) (clock : Nat → Instant)
    (script : List (Request × Instant × (Nat → Instant))) :
    ∃ s d', completeHandshake clock Session.new d = some (s, d')
      ∧ (Rig.exchanges script ⟨FileTransfer.new, s, d'⟩).map (fun r => (r.1, r.2.device.printer))
        = (Service.serveAll (script.map (·.1)) ⟨.idle, d.printer⟩).map
            fun r => (r.1.map some, r.2.printer) := by
  refine ⟨_, d, completeHandshake_eq vacant_new hd clock, ?_⟩
  refine Rig.Implements.serveAll script ⟨?_, ⟨rfl, rfl, rfl, rfl⟩, ?_, hd, rfl⟩
  · exact vacant_new.greeted _ _ _
  · exact fun c hc => nomatch hc

/-- A device that is busy once and has heatshrink. -/
def busyDevice : FakeDevice :=
  { FakeDevice.new 512 ['1', '.', '0'] 255 with
    compression := .heatshrink 8 4
    behaviour := { DeviceBehaviour.default with busyOnNextOpen := true } }

theorem exchanges_refine_service_busyDevice :
    ∃ s d', completeHandshake id Session.new busyDevice = some (s, d')
      ∧ (Rig.exchanges [(.query .auto, 3, id), (.open ['a'] true, 2, id)]
          ⟨FileTransfer.new, s, d'⟩).map (fun r => (r.1, r.2.device.printer))
        = some ([some (.negotiated ['1', '.', '0'] (.heatshrink 8 4)), some (.failed .openBusy)],
          { busyDevice.printer with
            busy := false, name := some ['a'], dummy := some true, flag := some 1 }) :=
  exchanges_refine_service busyDevice ⟨rfl, rfl, rfl, by decide, by decide⟩ id
    [(.query .auto, 3, id), (.open ['a'] true, 2, id)]

end MarlinTransfer
