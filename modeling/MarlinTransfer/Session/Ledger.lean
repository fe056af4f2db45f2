import MarlinTransfer.Session.Steps

/-!
# The ledger of a run

A session forgets: a packet that was acked leaves no trace, nor does a copy that was
handed to the transport. The ledger remembers. It is ghost state, written by an observer
who sees the session before and after every step and nothing else, and the session never
reads it. Packets are numbered in the order in which they are dispatched, so that the
packet in flight always has as its number the count of those retired before it.
-/

namespace MarlinTransfer

open Codec Text

/-- How a queued packet is entered: what it says, and whether it is a handshake. -/
def Queued.entry (q : Queued) : Content × Bool := (q.content, q.isSyncHandshake)

structure Ledger where
  /-- What was handed to `connect` and `send`, in call order. -/
  submitted : List (Content × Bool)
  /-- The packets that left flight, with the event that told so. -/
  retired : List (InFlight × Event)
  /-- The sync counter at each dispatch. -/
  counters : List UInt8
  /-- Everything ever placed on the outbound queue, with the number of its packet. -/
  placed : List (Nat × Bytes)
  /-- How much of `placed` the transport has taken. -/
  taken : Nat
  /-- Every event ever told, with the number of the packet it retired, if any. -/
  emitted : List (Event × Option Nat)
  /-- How much of `emitted` the caller has seen. -/
  polled : Nat
  deriving DecidableEq

namespace Session

/-- The events told between two states. -/
def newEvents (s s' : Session) : List Event := s'.events.drop s.events.length

/-- The byte strings placed on the outbound queue between two states. -/
def newBytes (s s' : Session) : List Bytes := s'.outbound.drop s.outbound.length

/-- The packet that left flight between two states, with its event. -/
def closings (s s' : Session) : List (InFlight × Event) :=
  match s.inFlight with
  | none => []
  | some f => ((newEvents s s').filter (closes f)).map (f, ·)

/-- Whether a packet was dispatched between two states. -/
def started (s s' : Session) : Bool :=
  s'.inFlight.isSome && (s.inFlight.isNone || !(closings s s').isEmpty)

/-- The number of the packet an event retired, the packet in flight having number `n`. -/
def owner (s : Session) (n : Nat) (e : Event) : Option Nat :=
  if s.inFlight.any (closes · e) then some n else none

end Session

namespace Ledger

def empty : Ledger := ⟨[], [], [], [], 0, [], 0⟩

/-- What an observer of one step writes down. -/
def note (l : Ledger) (s s' : Session) : Ledger :=
  { l with
    retired := l.retired ++ Session.closings s s'
    counters := if Session.started s s' then l.counters ++ [s'.sync] else l.counters
    placed := l.placed ++
      (Session.newBytes s s').map ((l.retired ++ Session.closings s s').length, ·)
    emitted := l.emitted ++
      (Session.newEvents s s').map fun e => (e, s.owner l.retired.length e) }

end Ledger

/-- A session and the ledger of its run. -/
structure Watched where
  session : Session
  log : Ledger
  deriving DecidableEq

namespace Watched

/-- A session no run has begun on. -/
def start (s : Session) : Watched := ⟨s, .empty⟩

/-- The watched session after a step. -/
def after (w : Watched) (s' : Session) : Watched := ⟨s', w.log.note w.session s'⟩

/-- A packet is about to be submitted. -/
def enter (w : Watched) (entry : Content × Bool) : Watched :=
  { w with log := { w.log with submitted := w.log.submitted ++ [entry] } }

def connect (w : Watched) (now : Instant) : Watched :=
  (w.enter (⟨0, 1, []⟩, true)).after (w.session.connect now)

def send (w : Watched) (protocol packetType : UInt8) (payload : Bytes) (now : Instant) :
    Option Watched :=
  (w.session.send protocol packetType payload now).map fun s' =>
    (w.enter (⟨protocol, packetType, payload⟩, false)).after s'

def take (w : Watched) (r : Reply) (now : Instant) : Watched := w.after (w.session.take r now)

def takeAll (w : Watched) (rs : List Reply) (now : Instant) : Watched :=
  rs.foldl (fun w r => w.take r now) w

def withBuf (w : Watched) (buf : Bytes) : Watched :=
  { w with session := w.session.withBuf buf }

/-- `feed`, one completed line after the other. -/
def feed (w : Watched) (bytes : Bytes) (now : Instant) : Watched :=
  (w.takeAll (Session.replies (w.session.inboundBuf ++ bytes)) now).withBuf
    (Lines.cut 0x0A (w.session.inboundBuf ++ bytes)).2

def tick (w : Watched) (now : Instant) : Watched := w.after (w.session.tick now)

def pollOutbound (w : Watched) : Watched :=
  match w.session.pollOutbound with
  | (none, _) => w
  | (some _, s') => ⟨s', { w.log with taken := w.log.taken + 1 }⟩

def pollEvent (w : Watched) : Watched :=
  match w.session.pollEvent with
  | (none, _) => w
  | (some _, s') => ⟨s', { w.log with polled := w.log.polled + 1 }⟩

/-! ## Watching changes nothing -/

@[simp] theorem start_session (s : Session) : (start s).session = s := rfl

@[simp] theorem after_session (w : Watched) (s' : Session) : (w.after s').session = s' := rfl

@[simp] theorem enter_session (w : Watched) (entry : Content × Bool) :
    (w.enter entry).session = w.session := rfl

@[simp] theorem withBuf_session (w : Watched) (buf : Bytes) :
    (w.withBuf buf).session = w.session.withBuf buf := rfl

@[simp] theorem withBuf_log (w : Watched) (buf : Bytes) : (w.withBuf buf).log = w.log := rfl

theorem connect_session (w : Watched) (now : Instant) :
    (w.connect now).session = w.session.connect now := rfl

theorem send_session (w : Watched) (protocol packetType : UInt8) (payload : Bytes)
    (now : Instant) :
    (w.send protocol packetType payload now).map (·.session)
      = w.session.send protocol packetType payload now := by
  unfold send
  cases w.session.send protocol packetType payload now with
  | none => rfl
  | some s' => rfl

@[simp] theorem take_session (w : Watched) (r : Reply) (now : Instant) :
    (w.take r now).session = w.session.take r now := rfl

@[simp] theorem takeAll_nil (w : Watched) (now : Instant) : w.takeAll [] now = w := rfl

@[simp] theorem takeAll_cons (w : Watched) (r : Reply) (rs : List Reply) (now : Instant) :
    w.takeAll (r :: rs) now = (w.take r now).takeAll rs now := rfl

@[simp] theorem takeAll_session (w : Watched) (rs : List Reply) (now : Instant) :
    (w.takeAll rs now).session = w.session.takeAll rs now := by
  induction rs generalizing w with
  | nil => rfl
  | cons r rs ih => exact ih (w.take r now)

/-- **The watched `feed` is `feed`.** -/
theorem feed_session (w : Watched) (bytes : Bytes) (now : Instant) :
    (w.feed bytes now).session = w.session.feed bytes now := by
  rw [Session.feed_eq, feed, withBuf_session, takeAll_session]

theorem tick_session (w : Watched) (now : Instant) :
    (w.tick now).session = w.session.tick now := rfl

theorem pollOutbound_session (w : Watched) :
    w.pollOutbound.session = w.session.pollOutbound.2 := by
  unfold pollOutbound Session.pollOutbound
  cases w.session.outbound with
  | nil => rfl
  | cons b rest => rfl

theorem pollEvent_session (w : Watched) : w.pollEvent.session = w.session.pollEvent.2 := by
  unfold pollEvent Session.pollEvent
  cases w.session.events with
  | nil => rfl
  | cons e rest => rfl

end Watched

/-! ## What the observer writes for each shape -/

namespace Ledger

open Session

variable {l : Ledger} {s s' : Session}

theorem newEvents_eq {es : List Event} (he : s'.events = s.events ++ es) :
    newEvents s s' = es := by rw [newEvents, he, List.drop_left]

theorem newBytes_eq {bs : List Bytes} (ho : s'.outbound = s.outbound ++ bs) :
    newBytes s s' = bs := by rw [newBytes, ho, List.drop_left]

theorem newBytes_nil (ho : s'.outbound = s.outbound) : newBytes s s' = [] :=
  newBytes_eq (by rw [ho, List.append_nil])

theorem closings_none {es : List Event} (he : s'.events = s.events ++ es)
    (hcl : ∀ f, s.inFlight = some f → ∀ e ∈ es, closes f e = false) : closings s s' = [] := by
  unfold closings
  cases hf : s.inFlight with
  | none => rfl
  | some f =>
    dsimp only
    rw [newEvents_eq he, List.filter_eq_nil_iff.mpr fun e hm => by simp [hcl f hf e hm]]
    rfl

theorem closings_some {f : InFlight} {e : Event} (hf : s.inFlight = some f)
    (hcl : closes f e = true) (he : s'.events = s.events ++ [e]) :
    closings s s' = [(f, e)] := by
  unfold closings
  rw [hf]
  dsimp only
  rw [newEvents_eq he, List.filter_cons_of_pos hcl]
  rfl

theorem note_quiet (es : List Event) (hf : s'.inFlight = s.inFlight)
    (ho : s'.outbound = s.outbound) (he : s'.events = s.events ++ es)
    (hcl : ∀ f, s.inFlight = some f → ∀ e ∈ es, closes f e = false) :
    l.note s s' = { l with emitted := l.emitted ++ es.map (·, none) } := by
  have hc := closings_none he hcl
  have hst : started s s' = false := by
    unfold started
    rw [hf, hc]
    cases s.inFlight <;> rfl
  have how : (newEvents s s').map (fun e => (e, s.owner l.retired.length e))
      = es.map (·, none) := by
    rw [newEvents_eq he]
    refine List.map_congr_left fun e hm => ?_
    unfold owner
    rw [if_neg]
    cases hin : s.inFlight with
    | none => simp
    | some f => simp [hcl f hin e hm]
  unfold note
  rw [how, hc, hst, newBytes_nil ho]
  simp

theorem note_launch {f : InFlight} (hidle : s.inFlight = none) (hf : s'.inFlight = some f)
    (ho : s'.outbound = s.outbound ++ [f.bytes]) (he : s'.events = s.events) :
    l.note s s'
      = { l with
          counters := l.counters ++ [s'.sync]
          placed := l.placed ++ [(l.retired.length, f.bytes)] } := by
  have he' : s'.events = s.events ++ [] := by rw [he, List.append_nil]
  have hc := closings_none he' (by simp [hidle])
  have hst : started s s' = true := by
    unfold started
    rw [hf, hidle]
    rfl
  unfold note
  rw [hc, hst, newEvents_eq he', newBytes_eq ho]
  simp

theorem note_resend {f : InFlight} (hf : s.inFlight = some f)
    (ho : s'.outbound = s.outbound ++ [f.bytes]) (he : s'.events = s.events) :
    l.note s s' = { l with placed := l.placed ++ [(l.retired.length, f.bytes)] } := by
  have he' : s'.events = s.events ++ [] := by rw [he, List.append_nil]
  have hc := closings_none he' (by simp)
  have hst : started s s' = false := by
    unfold started
    rw [hf, hc]
    simp
  unfold note
  rw [hc, hst, newEvents_eq he', newBytes_eq ho]
  simp

/-- The packet in flight is done with and nothing waits. -/
theorem note_retire {f : InFlight} {e : Event} (hf : s.inFlight = some f)
    (hcl : closes f e = true) (he : s'.events = s.events ++ [e]) (hf' : s'.inFlight = none)
    (ho : s'.outbound = s.outbound) :
    l.note s s'
      = { l with
          retired := l.retired ++ [(f, e)]
          emitted := l.emitted ++ [(e, some l.retired.length)] } := by
  have hst : started s s' = false := by
    unfold started
    rw [hf']
    rfl
  unfold note
  rw [closings_some hf hcl he, hst, newEvents_eq he,
    newBytes_nil ho]
  simp [owner, hf, hcl]

/-- The packet in flight is done with and the next one goes out. -/
theorem note_advance {f f' : InFlight} {e : Event} (hf : s.inFlight = some f)
    (hcl : closes f e = true) (he : s'.events = s.events ++ [e]) (hf' : s'.inFlight = some f')
    (ho : s'.outbound = s.outbound ++ [f'.bytes]) :
    l.note s s'
      = { l with
          retired := l.retired ++ [(f, e)]
          counters := l.counters ++ [s'.sync]
          placed := l.placed ++ [(l.retired.length + 1, f'.bytes)]
          emitted := l.emitted ++ [(e, some l.retired.length)] } := by
  have hst : started s s' = true := by
    unfold started
    rw [hf', closings_some hf hcl he]
    simp
  unfold note
  rw [closings_some hf hcl he, hst, newEvents_eq he, newBytes_eq ho]
  simp [owner, hf, hcl]

end Ledger

theorem submitted_of_send {w w' : Watched} {protocol packetType : UInt8} {payload : Bytes}
    {now : Instant} (h : w.send protocol packetType payload now = some w') :
    w'.log.submitted = w.log.submitted ++ [(⟨protocol, packetType, payload⟩, false)] := by
  obtain ⟨s', -, rfl⟩ := Option.map_eq_some_iff.mp h
  rfl

end MarlinTransfer
