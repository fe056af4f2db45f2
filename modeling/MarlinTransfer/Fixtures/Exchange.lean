import MarlinTransfer.FileTransfer.Committed
import MarlinTransfer.Fixtures.Reception

/-!
# One exchange with the fake device

A packet and its answer, from each side. The device handles the packet and has its lines to
send; the session, which had nothing else to do, takes them back and is ready for the next
packet; the transfer is told how its operation went by the verdict among them.
-/

namespace MarlinTransfer

open Codec Text Incremental

/-! ## The device's side -/

namespace FakeDevice

/-- The verdict on an OPEN. -/
def openText (d : FakeDevice) : Str :=
  if d.behaviour.busyOnNextOpen then "PFT:busy".toList
  else if d.behaviour.failOnNextOpen then "PFT:fail".toList
  else "PFT:success".toList

/-- The verdict on a CLOSE or an ABORT, if there is one. -/
def terminalLines (d : FakeDevice) : List Str :=
  if d.behaviour.skipPftOnTerminal then [] else ["PFT:success".toList]

/-- The lines an operation is answered with, ahead of its ack. -/
def verdictLines (d : FakeDevice) : Operation → List Str
  | .query => [versionText d.protocolVersion d.compression.render]
  | .open => [d.openText]
  | .write => []
  | .close => d.terminalLines
  | .abort => d.terminalLines

/-- The device after it has refused an OPEN, if it was told to. -/
def rearmed (d : FakeDevice) : FakeDevice :=
  if d.behaviour.busyOnNextOpen then { d with behaviour.busyOnNextOpen := false }
  else if d.behaviour.failOnNextOpen then { d with behaviour.failOnNextOpen := false }
  else d

/-- What an operation leaves in the device. -/
def served (d : FakeDevice) (payload : Bytes) : Operation → FakeDevice
  | .query => d
  | .open => (d.readOpen payload).rearmed
  | .write => { d with writtenBytes := d.writtenBytes ++ payload }
  | .close => { d with closed := true }
  | .abort => { d with aborted := true }

/-- The device with lines to send. -/
def replying (d : FakeDevice) (ls : List Str) : FakeDevice :=
  { d with replyBuf := d.replyBuf ++ Lines.unlines 0x0A (ls.map asBytes) }

theorem writeLine_eq (d : FakeDevice) (line : Str) : d.writeLine line = d.replying [line] := by
  unfold writeLine replying
  rw [List.append_assoc, List.map_singleton, Lines.unlines_cons, Lines.unlines_nil]

theorem replying_replying (d : FakeDevice) (ls ls' : List Str) :
    (d.replying ls).replying ls' = d.replying (ls ++ ls') := by
  unfold replying
  dsimp only
  rw [List.map_append, Lines.unlines_append, List.append_assoc]

theorem replying_nil (d : FakeDevice) : d.replying [] = d := by
  unfold replying
  rw [List.map_nil, Lines.unlines_nil, List.append_nil]

theorem writeSuccess_eq (d : FakeDevice) : d.writeSuccess = d.replying d.terminalLines := by
  unfold writeSuccess terminalLines
  split_ifs
  · exact d.replying_nil.symm
  · exact d.writeLine_eq _

theorem answerOpen_eq (d : FakeDevice) : d.answerOpen = d.rearmed.replying [d.openText] := by
  unfold answerOpen rearmed openText
  split_ifs <;> exact writeLine_eq _ _

theorem readOpen_keeps (d : FakeDevice) (payload : Bytes) :
    (d.readOpen payload).behaviour = d.behaviour
      ∧ (d.readOpen payload).replyBuf = d.replyBuf
      ∧ (d.readOpen payload).inbound = d.inbound := by
  unfold readOpen
  split_ifs <;> exact ⟨rfl, rfl, rfl⟩

/-- **How an operation is handled**, unless it is asked for once more. -/
theorem handle_operation {d : FakeDevice} (h : d.behaviour.resendOnceForSync = none)
    (sync : UInt8) (op : Operation) (payload : Bytes) :
    d.handle ⟨sync, protocolFileTransfer, op.packetType, payload⟩
      = (d.served payload op).replying (d.verdictLines op ++ [okText sync]) := by
  have hno : ¬ some sync = d.behaviour.resendOnceForSync := by
    rw [h]
    exact fun h => nomatch h
  unfold handle
  rw [if_neg hno, ← replying_replying, ← writeLine_eq]
  have hack : ∀ {d₁ d₂ : FakeDevice}, d₁ = d₂ →
      d₁.writeLine (okText sync) = d₂.writeLine (okText sync) := fun h => by rw [h]
  cases op with
  | query => exact hack (writeLine_eq _ _)
  | «open» =>
    have hverdict := answerOpen_eq (d.readOpen payload)
    rw [openText, (d.readOpen_keeps payload).1] at hverdict
    exact hack hverdict
  | write => exact hack (replying_nil { d with writtenBytes := d.writtenBytes ++ payload }).symm
  | close => exact hack (writeSuccess_eq { d with closed := true })
  | abort => exact hack (writeSuccess_eq { d with aborted := true })

/-- A packet that comes whole, and alone, is handled. -/
theorem feed_wire {d : FakeDevice} (hd : d.inbound = []) {p : Packet} (hp : p.Valid) :
    d.feed p.wire = some ([.message p], d.handle p) := by
  have hr : Receives Codec.verdict (d.inbound ++ p.wire) [Turn.message p] [] := by
    have := receives_wire (show ∀ q ∈ [p], q.Valid by simpa using hp)
    rw [List.flatMap_singleton] at this
    rw [hd]
    exact this
  rw [feed_eq hr]
  show some ([Turn.message p], (d.handle p).withInbound []) = _
  rw [← hd, ← d.handle_inbound p, withInbound_self]

/-- A device with nothing under way, whose version line can be read and which asks for no
packet twice. -/
structure Listens (d : FakeDevice) : Prop where
  inbound : d.inbound = []
  replyBuf : d.replyBuf = []
  resend : d.behaviour.resendOnceForSync = none
  oneLine : '\n' ∉ d.protocolVersion
  noColon : ':' ∉ d.protocolVersion

theorem Listens.rearmed {d : FakeDevice} (h : d.Listens) : d.rearmed.Listens := by
  obtain ⟨h1, h2, h3, h4, h5⟩ := h
  unfold FakeDevice.rearmed
  split_ifs <;> exact ⟨h1, h2, h3, h4, h5⟩

theorem Listens.readOpen {d : FakeDevice} (h : d.Listens) (payload : Bytes) :
    (d.readOpen payload).Listens := by
  obtain ⟨h1, h2, h3, h4, h5⟩ := h
  unfold FakeDevice.readOpen
  split_ifs <;> exact ⟨h1, h2, h3, h4, h5⟩

/-- An operation leaves the device ready for the next. -/
theorem Listens.served {d : FakeDevice} (h : d.Listens) (payload : Bytes) (op : Operation) :
    (d.served payload op).Listens := by
  cases op with
  | query => exact h
  | «open» => exact (h.readOpen payload).rearmed
  | write => exact ⟨h.inbound, h.replyBuf, h.resend, h.oneLine, h.noColon⟩
  | close => exact ⟨h.inbound, h.replyBuf, h.resend, h.oneLine, h.noColon⟩
  | abort => exact ⟨h.inbound, h.replyBuf, h.resend, h.oneLine, h.noColon⟩

theorem Listens.drainReply {d : FakeDevice} (h : d.Listens) (ls : List Str) :
    (d.replying ls).drainReply = (Lines.unlines 0x0A (ls.map asBytes), d) := by
  unfold FakeDevice.drainReply replying
  dsimp only
  rw [h.replyBuf, List.nil_append, ← h.replyBuf]

end FakeDevice

/-! ## The session's side -/

/-- A line that the session passes on. -/
structure Plain (line : Str) : Prop where
  oneLine : '\n' ∉ line
  text : reply (asBytes line) = .text line

/-- A fixed line. -/
theorem plain_of_complete {s : Str} (hlf : '\n' ∉ 'P' :: s)
    (hcr : ('P' :: s).getLast? ≠ some '\r') : Plain ('P' :: s) :=
  ⟨hlf, reply_text (by decide) (by decide) (rdropWhile_of_complete hlf hcr)⟩

/-- **Every verdict of the device is passed on**, given a version on one line. -/
theorem FakeDevice.plain_verdictLines {d : FakeDevice} (hv : '\n' ∉ d.protocolVersion)
    (op : Operation) : ∀ line ∈ d.verdictLines op, Plain line := by
  have hopen : Plain d.openText := by
    unfold openText
    split_ifs
    · exact plain_of_complete (by decide) (by decide)
    · exact plain_of_complete (by decide) (by decide)
    · exact plain_of_complete (by decide) (by decide)
  have hterminal : ∀ line ∈ d.terminalLines, Plain line := by
    unfold terminalLines
    split_ifs
    · exact fun line hm => absurd hm List.not_mem_nil
    · intro line hm
      rw [List.mem_singleton.mp hm]
      exact plain_of_complete (by decide) (by decide)
  cases op with
  | query =>
    intro line hm
    rw [List.mem_singleton.mp hm]
    obtain ⟨hlf, hcr⟩ := render_complete d.compression
    have hreply := reply_versionLine hv hlf hcr 0
    rw [versionLine, List.replicate_zero, List.append_nil] at hreply
    exact ⟨lf_notMem_versionText hv hlf, hreply⟩
  | «open» =>
    intro line hm
    rw [List.mem_singleton.mp hm]
    exact hopen
  | write => exact fun line hm => absurd hm List.not_mem_nil
  | close => exact hterminal
  | abort => exact hterminal

namespace Session

/-- A session with nothing to do. -/
structure Vacant (s : Session) : Prop where
  inFlight : s.inFlight = none
  queued : s.queued = []
  outbound : s.outbound = []
  events : s.events = []
  inboundBuf : s.inboundBuf = []

/-- And it was greeted. -/
structure AtRest (s : Session) : Prop extends Vacant s where
  synced : s.isSynced = true

/-- The session with a packet on its way. -/
def sending (s : Session) (f : InFlight) (outbound : List Bytes) : Session :=
  { s with inFlight := some f, outbound }

/-- The session one packet later. -/
def answered (s : Session) (lines : List Str) : Session :=
  { s with sync := s.sync + 1, events := lines.map .asciiLine ++ [.ack s.sync] }

theorem AtRest.answered {s : Session} (h : s.AtRest) (lines : List Str) :
    AtRest { s.answered lines with events := [] } :=
  ⟨⟨h.inFlight, h.queued, h.outbound, rfl, h.inboundBuf⟩, h.synced⟩

/-- What is queued on a free line goes out at once. -/
theorem Vacant.dispatch {s : Session} (h : s.Vacant) (b : BytesBuilder) (handshake : Bool)
    (now : Instant) :
    ∃ f, f.sync = s.sync ∧ f.isSyncHandshake = handshake
      ∧ (s.queue b handshake).dispatchIfIdle now = s.sending f [(b.packet s.sync).wire] := by
  refine ⟨s.launched ⟨b, handshake⟩ now, rfl, rfl, ?_⟩
  have hq : (s.queue b handshake).queued = [⟨b, handshake⟩] := by
    show s.queued ++ _ = _
    rw [h.queued]
    rfl
  rw [dispatchIfIdle_cons (show (s.queue b handshake).inFlight = none from h.inFlight) hq]
  show ({ s with queued := _, outbound := s.outbound ++ _, inFlight := _ } : Session)
    = sending s _ _
  rw [h.outbound, ← h.queued]
  rfl

theorem AtRest.send {s : Session} (h : s.AtRest) {protocol packetType : UInt8} {payload : Bytes}
    (hp : protocol ≤ 0xF) (ht : packetType ≤ 0xF) (hl : payload.length ≤ maxPayload)
    (now : Instant) :
    ∃ f, f.sync = s.sync ∧ f.isSyncHandshake = false
      ∧ s.send protocol packetType payload now
        = some (s.sending f [(⟨s.sync, protocol, packetType, payload⟩ : Packet).wire]) := by
  obtain ⟨f, hsync, hf, hout⟩ :=
    h.dispatch ⟨protocol, packetType, payload, hp, ht, hl⟩ false now
  exact ⟨f, hsync, hf, send_eq_some.mpr ⟨_, rfl, rfl, rfl, h.synced, hout.symm⟩⟩

/-- What does not fit in a packet is refused. -/
theorem send_oversized {s : Session} {protocol packetType : UInt8} {payload : Bytes}
    (hl : maxPayload < payload.length) (now : Instant) :
    s.send protocol packetType payload now = none := by
  cases hs : s.send protocol packetType payload now with
  | none => rfl
  | some s' =>
    obtain ⟨b, -, -, rfl, -, -⟩ := send_eq_some.mp hs
    exact absurd b.payload_le (Nat.not_le_of_lt hl)

/-- Lines that are passed on. -/
theorem takeAll_plain (lines : List Str) (s : Session) (now : Instant) :
    s.takeAll (lines.map .text) now = { s with events := s.events ++ lines.map .asciiLine } := by
  induction lines generalizing s with
  | nil =>
    rw [List.map_nil, List.map_nil, List.append_nil]
    rfl
  | cons line lines ih =>
    show takeAll (s.pushEvent (.asciiLine line)) _ _ = _
    rw [ih]
    show ({ s with events := (s.events ++ [.asciiLine line]) ++ _ } : Session) = _
    rw [List.append_assoc]
    rfl

/-- The ack of a packet behind which nothing waits. -/
theorem take_ok_alone {s : Session} {f : InFlight} (h : s.inFlight = some f)
    (hf : f.isSyncHandshake = false) (hq : s.queued = []) (now : Instant) :
    s.take (.ok f.sync) now = s.advance f.sync := by
  rw [take_ok_matching h hf]
  exact dispatchIfIdle_empty (show (s.advance f.sync).queued = [] from hq) now

/-- **The answer is taken**: whatever lines come ahead, the ack ends the exchange. -/
theorem AtRest.feed {s : Session} (h : s.AtRest) {f : InFlight} (hsync : f.sync = s.sync)
    (hf : f.isSyncHandshake = false) {lines : List Str} (hl : ∀ line ∈ lines, Plain line)
    (now : Instant) :
    (s.sending f []).feed (Lines.unlines 0x0A ((lines ++ [okText s.sync]).map asBytes)) now
      = s.answered lines := by
  have hcut : Lines.cut 0x0A ((s.sending f []).inboundBuf
      ++ Lines.unlines 0x0A ((lines ++ [okText s.sync]).map asBytes))
      = ((lines ++ [okText s.sync]).map asBytes, []) := by
    rw [show (s.sending f []).inboundBuf = [] from h.inboundBuf, List.nil_append,
      ← List.append_nil (Lines.unlines _ _)]
    refine Lines.cut_unlines (fun x hx => ?_) List.not_mem_nil
    obtain ⟨line, hline, rfl⟩ := List.mem_map.mp hx
    rcases List.mem_append.mp hline with hm | hm
    · exact lf_notMem_asBytes (hl line hm).oneLine
    · rw [List.mem_singleton.mp hm]
      exact lf_notMem_okLine s.sync
  have hreplies : ((lines ++ [okText s.sync]).map asBytes).map reply
      = lines.map .text ++ [.ok s.sync] := by
    rw [List.map_map, List.map_append]
    congr 1
    · exact List.map_congr_left fun line hm => (hl line hm).text
    · exact congrArg (· :: []) (reply_okLine s.sync)
  rw [feed_eq, replies, hcut, hreplies, takeAll_append, takeAll_plain, ← hsync]
  -- the ack is that of the packet in flight, and nothing waits behind it
  unfold takeAll
  rw [List.foldl_cons, List.foldl_nil, take_ok_alone rfl hf]
  · show ({ s with
      sync := ((s.sync.toUInt16 + 1) % syncMod).toUInt8, inFlight := none, outbound := [],
      events := (s.events ++ _) ++ [.ack f.sync], inboundBuf := [] } : Session) = _
    rw [sync_succ, h.events, List.nil_append, hsync, ← h.inFlight, ← h.outbound, ← h.inboundBuf]
    rfl
  · exact h.queued

/-- The session once it was greeted. -/
def greeted (s : Session) (sync : UInt8) (block : UInt16) (version : Str) : Session :=
  { s with
    sync
    maxBlockSize := some block
    protocolVersion := some version
    isSynced := true
    events := [.synced block version] }

theorem Vacant.greeted {s : Session} (h : s.Vacant) (sync : UInt8) (block : UInt16)
    (version : Str) : AtRest { s.greeted sync block version with events := [] } :=
  ⟨⟨h.inFlight, h.queued, h.outbound, rfl, h.inboundBuf⟩, rfl⟩

/-- **The greeting is taken.** -/
theorem Vacant.feed {s : Session} (h : s.Vacant) {f : InFlight} (hf : f.isSyncHandshake = true)
    (sync : UInt8) (block : UInt16) {version : Str} (hv : '\n' ∉ version) (now : Instant) :
    (s.sending f []).feed (Lines.unlines 0x0A [ssLine sync block version]) now
      = s.greeted sync block (trim version) := by
  have hcut : Lines.cut 0x0A ((s.sending f []).inboundBuf
      ++ Lines.unlines 0x0A [ssLine sync block version]) = ([ssLine sync block version], []) := by
    rw [show (s.sending f []).inboundBuf = [] from h.inboundBuf, List.nil_append,
      ← List.append_nil (Lines.unlines _ _)]
    refine Lines.cut_unlines (fun x hx => ?_) List.not_mem_nil
    rw [List.mem_singleton.mp hx]
    exact lf_notMem_ssLine sync block hv
  rw [feed_eq, replies, hcut]
  show withBuf (take _ (reply _) now) [] = _
  rw [reply_ssLine, take, dispatchIfIdle_empty]
  · have hfree := adopt_inFlight_handshake (s := s.sending f []) rfl hf sync block (trim version)
    show ({ s with
      sync, maxBlockSize := some block, protocolVersion := some (trim version), isSynced := true,
      inFlight := ((s.sending f []).adopt sync block (trim version)).inFlight, outbound := [],
      events := s.events ++ [.synced block (trim version)], inboundBuf := [] } : Session) = _
    rw [hfree, h.events, ← h.inFlight, ← h.outbound, ← h.inboundBuf]
    rfl
  · exact h.queued

end Session

/-! ## The transfer's side -/

/-- How an operation turns out by the lines ahead of its ack. -/
def Operation.outcome (op : Operation) (requested : Compression) (lines : List Str) : FileEvent :=
  op.settle (verdictIn op requested (lines.map .asciiLine))

/-- Where it leads. -/
def Operation.after (op : Operation) (ev : FileEvent) : State :=
  if ev.answers = some op then op.done else .failed

namespace FileTransfer

/-- A transfer in this state, with nothing pending and nothing to tell. -/
structure Rests (st : State) (ft : FileTransfer) : Prop where
  state : ft.state = st
  pending : ft.pendingAscii = none
  outEvents : ft.outEvents = []
  protocol : ft.protocolId = protocolFileTransfer

theorem Rests.prompt {st : State} {ft : FileTransfer} (h : ft.Rests st) : ft.Prompt where
  consistent := consistent_of_none h.pending
  untold := by
    rw [h.outEvents]
    exact fun ev hm => absurd hm List.not_mem_nil
  failed := fun hne => absurd h.outEvents hne
  resolved := resolved_of_none h.pending
  protocol := h.protocol

/-- **The operation is answered**: one poll tells how, and the transfer goes on from there. -/
theorem Rests.answered {op : Operation} {ft : FileTransfer} (h : ft.Rests op.awaiting)
    {s : Session} {lines : List Str} {n : UInt8}
    (hev : s.events = lines.map .asciiLine ++ [.ack n]) :
    ∃ ft', ft.poll s
        = (some (op.outcome ft.requestedCompression lines), ft', { s with events := [] })
      ∧ ft'.Rests (op.after (op.outcome ft.requestedCompression lines))
      ∧ (op ≠ .query → ft'.negotiated = ft.negotiated)
      ∧ ∀ version c, op.outcome ft.requestedCompression lines = .negotiated version c →
          ft'.negotiated = some c := by
  have hidle : ∀ e ∈ lines.map Event.asciiLine, e.idle = true := by
    intro e he
    obtain ⟨line, -, rfl⟩ := List.mem_map.mp he
    rfl
  have hi := fold_idle h.state hidle
  have hheard := hi.heard
  have hset := handleAck_waiting (hi.state.trans h.state)
    (hi.consistent (consistent_of_none h.pending))
  have hnone : ft.heard = none := by
    unfold heard
    rw [h.pending]
    rfl
  rw [hnone, Option.or_none] at hheard
  have hfold :
      ft.handled s = ((lines.map Event.asciiLine).foldl handleSessionEvent ft).handleAck := by
    unfold handled
    rw [hev, List.foldl_append]
    rfl
  have hout : (ft.handled s).outEvents = [op.outcome ft.requestedCompression lines] := by
    rw [hfold, hset.outEvents, hi.outEvents, h.outEvents, hheard]
    rfl
  have hpoll : ft.poll s = (some (op.outcome ft.requestedCompression lines),
      { ft.handled s with outEvents := [] }, { s with events := [] }) := by
    rw [poll_handled, popEvent_cons hout]
  refine ⟨_, hpoll, ⟨?_, ?_, rfl, ?_⟩, fun hop => ?_, fun version c hc => ?_⟩
  · show (ft.handled s).state = _
    have hsettle : op.settle ((lines.map Event.asciiLine).foldl handleSessionEvent ft).heard
        = op.outcome ft.requestedCompression lines := by
      rw [hheard]
      rfl
    rw [hfold]
    unfold Operation.after
    rcases hset.state with ⟨hans, hst⟩ | ⟨⟨err, herr⟩, hst⟩
    · rw [hsettle] at hans
      rw [if_pos hans, hst]
    · rw [hsettle] at herr
      rw [herr, if_neg (by simp [FileEvent.answers]), hst]
  · rw [hfold]
    exact hset.pending
  · show (ft.handled s).protocolId = _
    rw [handled, fold_protocolId]
    exact h.protocol
  · -- only the answer to a query negotiates
    have hc : ft.Committed ft.negotiated := by
      refine ⟨rfl, ?_, ?_⟩ <;> rw [h.state] <;> revert hop <;> cases op <;> decide
    exact (hc.fold s.events).negotiated
  · have hneg := negotiated_of_poll h.prompt (by rw [hpoll, hc])
    rw [hpoll] at hneg
    exact hneg

end FileTransfer

end MarlinTransfer
