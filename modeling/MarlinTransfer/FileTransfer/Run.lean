import MarlinTransfer.FileTransfer.Verdict
import MarlinTransfer.Session.Effects

/-!
# Runs of a transfer

A transfer over a watched session, with a trace of what was called and what was handled:
every call with the number of the packet it sent, every session event with the packet it
retired, if any, and with the file events it produced. The trace is ghost state. `poll`
handles what is pending one event at a time, and `poll_eq` says that it is the machine's.
-/

namespace MarlinTransfer

open Codec Text Session

/-- What happened to a transfer. -/
inductive Entry where
  /-- An operation was called and sent its packet. -/
  | called (op : Operation) (requested : Compression) (packet : Nat)
  /-- A session event was handled. -/
  | handled (e : Event) (owner : Option Nat) (out : List FileEvent)
  deriving DecidableEq

structure Transfer where
  ft : FileTransfer
  host : Watched
  trace : List Entry
  /-- What `poll` has returned so far. -/
  returned : List FileEvent
  deriving DecidableEq

/-- What a caller may do with a transfer. -/
inductive Call where
  | query (compression : Compression) (now : Instant)
  | open (name : Str) (dummy : Bool) (now : Instant)
  | write (chunk : Bytes) (now : Instant)
  | close (now : Instant)
  | abort (now : Instant)
  | feed (bytes : Bytes) (now : Instant)
  | tick (now : Instant)
  | pollOutbound
  | poll

namespace Transfer

/-- A transfer just constructed on a session. -/
def start (w : Watched) : Transfer := ⟨FileTransfer.new, w, [], []⟩

/-- The session events that are pending, each with the packet it retired. -/
def pending (t : Transfer) : List (Event × Option Nat) := t.host.log.emitted.drop t.host.log.polled

/-- An operation was called, with what the machine made of it. -/
def called (t : Transfer) (op : Operation) (payload : Bytes)
    (r : Option (FileTransfer × Session)) : Option Transfer :=
  r.map fun (ft, s) =>
    { t with
      ft
      host := (t.host.enter (⟨t.ft.protocolId, op.packetType, payload⟩, false)).after s
      trace := t.trace ++ [.called op ft.requestedCompression t.host.log.submitted.length] }

/-- The next pending event is handled. -/
def observe (t : Transfer) (p : Event × Option Nat) : Transfer :=
  let ft := t.ft.handleSessionEvent p.1
  { t with
    ft
    host := t.host.pollEvent
    trace := t.trace ++ [.handled p.1 p.2 (ft.outEvents.drop t.ft.outEvents.length)] }

/-- Everything pending is handled. -/
def drained (t : Transfer) : Transfer := t.pending.foldl observe t

def poll (t : Transfer) : Transfer :=
  let (e, ft) := t.drained.ft.popEvent
  { t.drained with ft, returned := t.drained.returned ++ e.toList }

/-- One call; `none` is a failed assertion. -/
def step (t : Transfer) : Call → Option Transfer
  | .query compression now => t.called .query [] (t.ft.query t.host.session compression now)
  | .open name dummy now =>
    t.called .open (t.ft.openPayload name dummy) (t.ft.open t.host.session name dummy now)
  | .write chunk now => t.called .write chunk (t.ft.write t.host.session chunk now)
  | .close now => t.called .close [] (t.ft.close t.host.session now)
  | .abort now => t.called .abort [] (t.ft.abort t.host.session now)
  | .feed bytes now => some { t with host := t.host.feed bytes now }
  | .tick now => some { t with host := t.host.tick now }
  | .pollOutbound => some { t with host := t.host.pollOutbound }
  | .poll => some t.poll

def run : List Call → Transfer → Option Transfer
  | [], t => some t
  | c :: cs, t => (t.step c).bind (run cs)

theorem run_append {cs cs' : List Call} {t : Transfer} :
    t.run (cs ++ cs') = (t.run cs).bind (run cs') := by
  induction cs generalizing t with
  | nil => rfl
  | cons c cs ih =>
    rw [List.cons_append, run, run]
    cases t.step c with
    | none => rfl
    | some t' => exact ih

/-- **Runs.** What every call keeps, a run keeps. -/
theorem run_invariant {P : Transfer → Prop}
    (hstep : ∀ {t t' : Transfer} {c : Call}, P t → t.step c = some t' → P t') {cs : List Call}
    {t t' : Transfer} (h : P t) (hr : t.run cs = some t') : P t' := by
  induction cs generalizing t with
  | nil => cases hr; exact h
  | cons c cs ih =>
    obtain ⟨t1, h1, h2⟩ := Option.bind_eq_some_iff.mp hr
    exact ih (hstep h h1) h2

/-! ## The watched poll is the machine's -/

theorem pollEvent_cons {w : Watched} {ds : List Dispatch} (h : Conserved w ds)
    {p : Event × Option Nat} {ps : List (Event × Option Nat)}
    (hp : w.log.emitted.drop w.log.polled = p :: ps) :
    w.pollEvent = ⟨{ w.session with events := ps.map Prod.fst },
        { w.log with polled := w.log.polled + 1 }⟩
      ∧ w.pollEvent.log.emitted.drop w.pollEvent.log.polled = ps := by
  have hev := h.events
  rw [hp, List.map_cons] at hev
  have hpoll : w.pollEvent = ⟨{ w.session with events := ps.map Prod.fst },
      { w.log with polled := w.log.polled + 1 }⟩ := by
    unfold Watched.pollEvent Session.pollEvent
    rw [hev]
  refine ⟨hpoll, ?_⟩
  rw [hpoll]
  show w.log.emitted.drop (w.log.polled + 1) = ps
  rw [← List.drop_drop, hp]
  rfl

theorem foldl_observe {ds : List Dispatch} :
    ∀ (ps : List (Event × Option Nat)) (t : Transfer), Conserved t.host ds → t.pending = ps →
      (ps.foldl observe t).ft = (ps.map Prod.fst).foldl FileTransfer.handleSessionEvent t.ft
        ∧ (ps.foldl observe t).host = ⟨{ t.host.session with events := [] },
            { t.host.log with polled := t.host.log.polled + ps.length }⟩
        ∧ (ps.foldl observe t).returned = t.returned := by
  intro ps
  induction ps with
  | nil =>
    intro t hc hp
    refine ⟨rfl, ?_, rfl⟩
    have hev := hc.events
    rw [show t.host.log.emitted.drop t.host.log.polled = [] from hp] at hev
    rw [List.foldl_nil, ← show t.host.session.events = [] from hev]
    rfl
  | cons p ps ih =>
    intro t hc hp
    obtain ⟨hpoll, hrest⟩ := pollEvent_cons hc hp
    obtain ⟨h1, h2, h3⟩ := ih (t.observe p) hc.pollEvent hrest
    refine ⟨h1, ?_, h3⟩
    rw [List.foldl_cons, h2, show (t.observe p).host = _ from hpoll, List.length_cons,
      Nat.add_comm ps.length 1, ← Nat.add_assoc]

/-- **The watched `poll` is `poll`.** -/
theorem poll_eq {t : Transfer} {ds : List Dispatch} (hc : Conserved t.host ds) :
    t.ft.poll t.host.session
      = (t.drained.ft.popEvent.1, t.poll.ft, t.poll.host.session) := by
  obtain ⟨h1, h2, -⟩ := foldl_observe t.pending t hc rfl
  have hev : t.host.session.events = t.pending.map Prod.fst := hc.events
  unfold FileTransfer.poll
  rw [FileTransfer.drain_eq, hev]
  unfold poll drained
  dsimp only
  rw [h1, h2]

/-- A poll takes what is pending off the session. -/
theorem poll_host {t : Transfer} {ds : List Dispatch} (hc : Conserved t.host ds) :
    t.poll.host = ⟨{ t.host.session with events := [] },
      { t.host.log with polled := t.host.log.polled + t.pending.length }⟩ :=
  (foldl_observe t.pending t hc rfl).2.1

/-- And returns what the machine returns. -/
theorem poll_returned {t : Transfer} {ds : List Dispatch} (hc : Conserved t.host ds) :
    t.poll.returned = t.returned ++ (t.ft.poll t.host.session).1.toList := by
  rw [poll_eq hc]
  show t.drained.returned ++ _ = _
  rw [show t.drained.returned = t.returned from (foldl_observe t.pending t hc rfl).2.2]
  rfl

end Transfer

/-! ## Reading a trace -/

namespace Entry

/-- The file events an entry records. -/
def outs : Entry → List FileEvent
  | called _ _ _ => []
  | handled _ _ out => out

def operation : Entry → Option Operation
  | called op _ _ => some op
  | handled _ _ _ => none

/-- The verdict an entry records on an operation. -/
def verdict (op : Operation) (requested : Compression) : Entry → Option Verdict
  | handled (.asciiLine line) _ _ => MarlinTransfer.verdict op requested line
  | _ => none

end Entry

/-- The file events of a trace, in order. -/
def outsOf (tr : List Entry) : List FileEvent := tr.flatMap Entry.outs

/-- The operations called, in order. -/
def callsOf (tr : List Entry) : List Operation := tr.filterMap Entry.operation

/-- The operations answered in success, in order. -/
def successesOf (tr : List Entry) : List Operation := (outsOf tr).filterMap FileEvent.answers

/-- The last verdict on an operation among the lines handled. -/
def lastVerdict (op : Operation) (requested : Compression) (tr : List Entry) : Option Verdict :=
  (tr.filterMap (Entry.verdict op requested)).getLast?

@[simp] theorem outsOf_append (tr tr' : List Entry) : outsOf (tr ++ tr') = outsOf tr ++ outsOf tr' :=
  List.flatMap_append

@[simp] theorem callsOf_append (tr tr' : List Entry) :
    callsOf (tr ++ tr') = callsOf tr ++ callsOf tr' := List.filterMap_append

@[simp] theorem successesOf_append (tr tr' : List Entry) :
    successesOf (tr ++ tr') = successesOf tr ++ successesOf tr' := by
  simp [successesOf, List.filterMap_append]

theorem lastVerdict_append (op : Operation) (requested : Compression) (tr : List Entry) (x : Entry) :
    lastVerdict op requested (tr ++ [x])
      = (x.verdict op requested).or (lastVerdict op requested tr) := by
  unfold lastVerdict
  rw [List.filterMap_append]
  cases h : x.verdict op requested with
  | none => simp [h]
  | some v => simp [h]

/-- The events that fail a transfer. -/
def Event.failure : Event → Option FileError
  | .fatalError => some .sessionFatalError
  | .outOfSync expected got => some (.sessionOutOfSync expected got)
  | .timeout _ => some .sessionTimeout
  | _ => none

def Event.isAck : Event → Bool
  | .ack _ => true
  | _ => false

/-- What a reply tells when it retires nothing is no ack. -/
theorem told_not_ack (r : Reply) (fl : Option InFlight) : ∀ e ∈ told r fl, e.isAck = false := by
  intro e he
  cases r <;> cases fl <;> simp [told] at he <;> rw [he] <;> rfl

namespace FileTransfer

theorem handle_failure {ft : FileTransfer} {e : Event} {err : FileError}
    (h : e.failure = some err) : ft.handleSessionEvent e = ft.fail err := by
  cases e <;> cases h <;> rfl

/-- An event that is no line, no ack and no failure is none of a transfer's business. -/
theorem handle_other {ft : FileTransfer} {e : Event} (hf : e.failure = none)
    (ha : e.isAck = false) (hl : ∀ line, e ≠ .asciiLine line) : ft.handleSessionEvent e = ft := by
  cases e with
  | asciiLine line => exact absurd rfl (hl line)
  | ack n => cases ha
  | fatalError => cases hf
  | outOfSync expected got => cases hf
  | timeout sync => cases hf
  | synced block version => rfl
  | resendRequested n => rfl

theorem request_eq_some {ft ft' : FileTransfer} {s s' : Session} {required next : State}
    {packetType : UInt8} {payload : Bytes} {now : Instant} :
    ft.request s required next packetType payload now = some (ft', s')
      ↔ ft.state = required ∧ s.send ft.protocolId packetType payload now = some s'
        ∧ ft' = { ft with state := next } := by
  unfold request
  constructor
  · intro h
    split_ifs at h with hst
    obtain ⟨s1, h1, h2⟩ := Option.map_eq_some_iff.mp h
    obtain ⟨rfl, rfl⟩ := Prod.mk.inj h2
    exact ⟨hst, h1, rfl⟩
  · rintro ⟨hst, h1, rfl⟩
    rw [if_pos hst, h1]
    rfl

end FileTransfer

/-- What a call of an operation does. -/
structure Calls (op : Operation) (t t' : Transfer) : Prop where
  required : t.ft.state = op.required
  state : t'.ft.state = op.awaiting
  requested : op ≠ .query → t'.ft.requestedCompression = t.ft.requestedCompression
  pendingAscii : t'.ft.pendingAscii = t.ft.pendingAscii
  outEvents : t'.ft.outEvents = t.ft.outEvents
  protocolId : t'.ft.protocolId = t.ft.protocolId
  returned : t'.returned = t.returned
  trace : t'.trace
    = t.trace ++ [.called op t'.ft.requestedCompression t.host.log.submitted.length]
  sent : ∃ payload now, t.host.send t.ft.protocolId op.packetType payload now = some t'.host

theorem sent_of_request {t t' : Transfer} (op : Operation) (requested : Compression)
    {payload : Bytes} {now : Instant}
    (h : t.called op payload ({ t.ft with requestedCompression := requested }.request
      t.host.session op.required op.awaiting op.packetType payload now) = some t') :
    t.host.send t.ft.protocolId op.packetType payload now = some t'.host := by
  obtain ⟨⟨ft', s'⟩, hr, rfl⟩ := Option.map_eq_some_iff.mp h
  obtain ⟨-, hs, rfl⟩ := FileTransfer.request_eq_some.mp hr
  unfold Watched.send
  rw [show t.host.session.send t.ft.protocolId op.packetType payload now = some s' from hs]
  rfl

theorem calls_of_request {t t' : Transfer} {op : Operation} {payload : Bytes} {now : Instant}
    {requested : Compression} (hreq : op ≠ .query → requested = t.ft.requestedCompression)
    (h : t.called op payload ({ t.ft with requestedCompression := requested }.request
      t.host.session op.required op.awaiting op.packetType payload now) = some t') :
    Calls op t t' := by
  have hsent := sent_of_request op requested h
  obtain ⟨⟨ft', s'⟩, hr, rfl⟩ := Option.map_eq_some_iff.mp h
  obtain ⟨hst, hs, rfl⟩ := FileTransfer.request_eq_some.mp hr
  exact ⟨hst, rfl, hreq, rfl, rfl, rfl, rfl, rfl, payload, now, hsent⟩

/-- The operation a call is one of. -/
def Call.operation : Call → Option Operation
  | .query _ _ => some .query
  | .open _ _ _ => some .open
  | .write _ _ => some .write
  | .close _ => some .close
  | .abort _ => some .abort
  | _ => none

/-- **An operation called** is one that its state allows, and sends its packet. -/
theorem calls_of_operation {t t' : Transfer} {c : Call} {op : Operation}
    (hop : c.operation = some op) (h : t.step c = some t') : Calls op t t' := by
  cases c with
  | query compression now =>
    obtain rfl := Option.some.inj hop
    exact calls_of_request (by simp) h
  | «open» name dummy now =>
    obtain rfl := Option.some.inj hop
    exact calls_of_request (fun _ => rfl) h
  | write chunk now =>
    obtain rfl := Option.some.inj hop
    exact calls_of_request (fun _ => rfl) h
  | close now =>
    obtain rfl := Option.some.inj hop
    exact calls_of_request (fun _ => rfl) h
  | abort now =>
    obtain rfl := Option.some.inj hop
    exact calls_of_request (fun _ => rfl) h
  | _ => cases hop

namespace Transfer

/-- **Everything a step can do**: call an operation, poll, or touch only the session. -/
inductive Steps (t t' : Transfer) : Prop where
  | call (op : Operation) (h : Calls op t t')
  | poll (h : t' = t.poll)
  | feed (bytes : Bytes) (now : Instant) (h : t' = { t with host := t.host.feed bytes now })
  | tick (now : Instant) (h : t' = { t with host := t.host.tick now })
  | pollOutbound (h : t' = { t with host := t.host.pollOutbound })

theorem steps {t t' : Transfer} {c : Call} (h : t.step c = some t') : Steps t t' := by
  cases hop : c.operation with
  | some op => exact .call op (calls_of_operation hop h)
  | none =>
    cases c with
    | feed bytes now => exact .feed bytes now (Option.some.inj h).symm
    | tick now => exact .tick now (Option.some.inj h).symm
    | pollOutbound => exact .pollOutbound (Option.some.inj h).symm
    | poll => exact .poll (Option.some.inj h).symm
    | _ => cases hop

theorem drained_ft (t : Transfer) :
    t.drained.ft = (t.pending.map Prod.fst).foldl FileTransfer.handleSessionEvent t.ft := by
  have key : ∀ (ps : List (Event × Option Nat)) (t : Transfer),
      (ps.foldl observe t).ft
        = (ps.map Prod.fst).foldl FileTransfer.handleSessionEvent t.ft := by
    intro ps
    induction ps with
    | nil => exact fun _ => rfl
    | cons p ps ih => exact fun t => ih (t.observe p)
  exact key t.pending t

end Transfer

/-! ## What a transfer keeps -/

/-- A property of a transfer that no event, no poll and no call takes from it. -/
structure FileTransfer.Lasts (P : FileTransfer → Prop) : Prop where
  handle : ∀ {ft : FileTransfer} (e : Event), P ft → P (ft.handleSessionEvent e)
  popEvent : ∀ {ft : FileTransfer}, P ft → P ft.popEvent.2
  call : ∀ {op : Operation} {t t' : Transfer}, P t.ft → Calls op t t' → P t'.ft

namespace FileTransfer.Lasts

variable {P : FileTransfer → Prop}

theorem fold (h : Lasts P) {ft : FileTransfer} (hft : P ft) (es : List Event) :
    P (es.foldl handleSessionEvent ft) := by
  induction es generalizing ft with
  | nil => exact hft
  | cons e es ih => exact ih (h.handle e hft)

theorem step (h : Lasts P) {t t' : Transfer} {c : Call} (ht : P t.ft) (hs : t.step c = some t') :
    P t'.ft := by
  cases Transfer.steps hs with
  | call op hc => exact h.call ht hc
  | poll heq =>
    rw [heq]
    show P t.drained.ft.popEvent.2
    rw [Transfer.drained_ft]
    exact h.popEvent (h.fold ht _)
  | feed bytes now heq => rw [heq]; exact ht
  | tick now heq => rw [heq]; exact ht
  | pollOutbound heq => rw [heq]; exact ht

/-- **It holds in every run** that starts with it. -/
theorem run (h : Lasts P) {t t' : Transfer} {cs : List Call} (ht : P t.ft)
    (hr : t.run cs = some t') : P t'.ft :=
  Transfer.run_invariant (P := fun t => P t.ft) h.step ht hr

end FileTransfer.Lasts

end MarlinTransfer
