import MarlinTransfer.FileTransfer.Run
import MarlinTransfer.Session.Events

/-!
# When to poll

What a transfer has still to return is in the way of nothing, as what waits in its session is
not. So the events a caller gets from a transfer, and the states that are left in the end, do
not depend on how what arrived was cut into chunks, nor on the polls in between.
-/

namespace MarlinTransfer

open Codec Text Session

namespace FileTransfer

/-- The same transfer with other events to return in front of its own. -/
def owing (out : List FileEvent) (ft : FileTransfer) : FileTransfer :=
  { ft with outEvents := out ++ ft.outEvents }

section Owing

variable (out : List FileEvent) (ft : FileTransfer)

theorem expectIn_owing (state : State) (pending : PendingAscii) :
    (ft.owing out).expectIn state pending = (ft.expectIn state pending).owing out := by
  unfold expectIn
  rw [show (ft.owing out).state = ft.state from rfl]
  split_ifs <;> rfl

theorem handleVersion_owing (rest : Str) :
    (ft.owing out).handleVersion rest = (ft.handleVersion rest).owing out := by
  unfold handleVersion
  rw [show (ft.owing out).state = ft.state from rfl]
  split_ifs
  · rfl
  · cases splitOnce ':' rest <;> rfl

theorem handleAsciiLine_owing (line : Str) :
    (ft.owing out).handleAsciiLine line = (ft.handleAsciiLine line).owing out := by
  unfold handleAsciiLine
  cases stripPrefix line "PFT:version:".toList with
  | some rest => exact handleVersion_owing out ft rest
  | none =>
    dsimp only
    rw [show (ft.owing out).state = ft.state from rfl]
    split_ifs
    · cases ft.state <;> rfl
    · exact expectIn_owing out ft _ _
    · exact expectIn_owing out ft _ _
    · exact expectIn_owing out ft _ _
    · exact expectIn_owing out ft _ _
    · rfl

theorem handleAck_owing : (ft.owing out).handleAck = ft.handleAck.owing out := by
  unfold handleAck
  dsimp only [owing]
  split <;> simp only [*]
  all_goals simp [fail, succeed, pushEvent]

theorem handle_owing (e : Event) :
    (ft.owing out).handleSessionEvent e = (ft.handleSessionEvent e).owing out := by
  cases e with
  | asciiLine line => exact handleAsciiLine_owing out ft line
  | ack n => exact handleAck_owing out ft
  | synced block version => rfl
  | resendRequested n => rfl
  | fatalError => simp [handleSessionEvent, fail, pushEvent, owing]
  | outOfSync expected got => simp [handleSessionEvent, fail, pushEvent, owing]
  | timeout sync => simp [handleSessionEvent, fail, pushEvent, owing]

theorem fold_owing (es : List Event) :
    es.foldl handleSessionEvent (ft.owing out) = (es.foldl handleSessionEvent ft).owing out := by
  induction es generalizing ft with
  | nil => rfl
  | cons e es ih => rw [List.foldl_cons, List.foldl_cons, handle_owing, ih]

end Owing

/-- Feeds and polls: what the polls returned, and what is left. -/
def visits (now : Instant) :
    List Visit → FileTransfer → Session → List FileEvent × FileTransfer × Session
  | [], ft, s => ([], ft, s)
  | .feed bytes :: ts, ft, s => visits now ts ft (s.feed bytes now)
  | .poll :: ts, ft, s =>
    match ft.poll s with
    | (e, ft, s) => (e.toList ++ (visits now ts ft s).1, (visits now ts ft s).2)

/-- Polls until there is nothing left. -/
def pollAll : Nat → FileTransfer → Session → List FileEvent × FileTransfer × Session
  | 0, ft, s => ([], ft, s)
  | fuel + 1, ft, s =>
    match ft.poll s with
    | (none, ft, s) => ([], ft, s)
    | (some e, ft, s) => (e :: (pollAll fuel ft s).1, (pollAll fuel ft s).2)

/-- The transfer once everything that waits in the session was handled. -/
def handled (ft : FileTransfer) (s : Session) : FileTransfer := s.events.foldl handleSessionEvent ft

/-- Visits, and a final drain: one poll for each event to return, and one that returns nothing. -/
def visitsDrained (now : Instant) (ts : List Visit) (ft : FileTransfer) (s : Session) :
    List FileEvent × FileTransfer × Session :=
  let (es, ft, s) := visits now ts ft s
  let (es', ft, s) := pollAll ((ft.handled s).outEvents.length + 1) ft s
  (es ++ es', ft, s)

/-- All that a transfer has to return, and what it leaves. -/
def settled (ft : FileTransfer) (s : Session) : List FileEvent × FileTransfer × Session :=
  ((ft.handled s).outEvents, { ft.handled s with outEvents := [] }, { s with events := [] })

theorem poll_handled (ft : FileTransfer) (s : Session) :
    ft.poll s
      = ((ft.handled s).popEvent.1, (ft.handled s).popEvent.2, { s with events := [] }) := by
  unfold poll
  rw [drain_eq]
  rfl

theorem pollAll_eq (ft : FileTransfer) (s : Session) :
    pollAll ((ft.handled s).outEvents.length + 1) ft s = settled ft s := by
  have key : ∀ (out : List FileEvent) (ft : FileTransfer) (s : Session),
      (ft.handled s).outEvents = out → pollAll (out.length + 1) ft s = settled ft s := by
    intro out
    induction out with
    | nil =>
      intro ft s h
      rw [List.length_nil, pollAll, poll_handled, popEvent_nil h]
      unfold settled
      rw [h, ← h]
    | cons e out ih =>
      intro ft s h
      rw [List.length_cons, pollAll, poll_handled, popEvent_cons h]
      dsimp only
      rw [ih { ft.handled s with outEvents := out } { s with events := [] } rfl]
      unfold settled
      rw [h]
      rfl
  exact key _ ft s rfl

/-- **A poll takes away what it returns**, and nothing else of what is still to come. -/
theorem settled_poll (ft : FileTransfer) (s : Session) (bytes : Bytes) (now : Instant) :
    settled ft (s.feed bytes now)
      = ((ft.poll s).1.toList ++ (settled (ft.poll s).2.1 ((ft.poll s).2.2.feed bytes now)).1,
        (settled (ft.poll s).2.1 ((ft.poll s).2.2.feed bytes now)).2) := by
  -- what waits is handled before what the bytes bring
  have hs : s = ({ s with events := [] } : Session).ahead s.events := by
    unfold ahead
    rw [List.append_nil]
  have hev : (s.feed bytes now).events
      = s.events ++ (({ s with events := [] } : Session).feed bytes now).events := by
    conv_lhs => rw [hs, feed_ahead]
    rfl
  have hrest : { s.feed bytes now with events := [] }
      = { ({ s with events := [] } : Session).feed bytes now with events := [] } := by
    conv_lhs => rw [hs, feed_ahead]
    rfl
  -- the event that a poll returns is the one it owed first
  have hpop : ft.handled s
      = ((ft.handled s).popEvent.2).owing (ft.handled s).popEvent.1.toList := by
    unfold popEvent
    cases h : (ft.handled s).outEvents with
    | nil => rfl
    | cons e out =>
      unfold owing
      show _ = { ft.handled s with outEvents := e :: out }
      rw [← h]
  have hall : ft.handled (s.feed bytes now)
      = ((ft.handled s).popEvent.2.handled
          (({ s with events := [] } : Session).feed bytes now)).owing
        (ft.handled s).popEvent.1.toList := by
    have hfold : ft.handled (s.feed bytes now)
        = (({ s with events := [] } : Session).feed bytes now).events.foldl handleSessionEvent
          (ft.handled s) := by
      unfold handled
      rw [hev, List.foldl_append]
    rw [hfold, hpop, fold_owing, ← hpop]
    rfl
  rw [poll_handled]
  unfold settled
  rw [hall, hrest]
  rfl

theorem visitsDrained_eq (now : Instant) (ts : List Visit) (ft : FileTransfer) {s : Session}
    (h : (0x0A : UInt8) ∉ s.inboundBuf) :
    visitsDrained now ts ft s = settled ft (s.feed (fed ts) now) := by
  induction ts generalizing ft s with
  | nil =>
    unfold visitsDrained
    rw [visits]
    dsimp only
    rw [pollAll_eq, show fed [] = [] from rfl, feed_nil h]
    rfl
  | cons t ts ih =>
    cases t with
    | feed bytes =>
      refine (ih ft (unfinished_feed s bytes now)).trans ?_
      rw [show fed (.feed bytes :: ts) = bytes ++ fed ts from rfl, feed_append]
    | poll =>
      have hbuf : (0x0A : UInt8) ∉ (ft.poll s).2.2.inboundBuf := by
        rw [poll_handled]
        exact h
      have hvisits : visitsDrained now (.poll :: ts) ft s
          = ((ft.poll s).1.toList ++ (visitsDrained now ts (ft.poll s).2.1 (ft.poll s).2.2).1,
            (visitsDrained now ts (ft.poll s).2.1 (ft.poll s).2.2).2) := by
        unfold visitsDrained
        rw [visits]
        simp only [List.append_assoc]
      rw [hvisits, ih _ hbuf, show fed (.poll :: ts) = fed ts from rfl]
      exact (settled_poll ft s (fed ts) now).symm

end FileTransfer

/--
**Chunks and polls make no difference.** In every reachable state of a session: feeding
chunks one by one is reading what they hold line by line, the unfinished bytes first; so
feeding two byte strings is feeding one after the other; and a caller that polls in between,
the session itself or a transfer on it, has in the end seen the same events, in the same
order, and is left with the same state as one that fed everything first.
-/
theorem schedule_independent (s : Session) (ops : List Op) (w : Watched)
    (hr : (Watched.start s.reset).run ops = some w) (now : Instant) :
    (∀ chunks : List Bytes, chunks.foldl (fun s chunk => s.feed chunk now) w.session
        = w.session.byLines chunks.flatten now)
      ∧ (∀ a b, w.session.feed (a ++ b) now = (w.session.feed a now).feed b now)
      ∧ (∀ ts : List Visit, Session.visitsDrained now ts w.session
          = ((w.session.feed (fed ts) now).events,
            { w.session.feed (fed ts) now with events := [] }))
      ∧ ∀ (ft : FileTransfer) (ts : List Visit), FileTransfer.visitsDrained now ts ft w.session
          = FileTransfer.settled ft (w.session.feed (fed ts) now) := by
  have hbuf : (0x0A : UInt8) ∉ w.session.inboundBuf := unfinished_run List.not_mem_nil hr
  refine ⟨fun chunks => ?_, fun a b => feed_append w.session a b now,
    fun ts => Session.visitsDrained_eq now ts hbuf,
    fun ft ts => FileTransfer.visitsDrained_eq now ts ft hbuf⟩
  rw [feed_chunks hbuf, feed_byLines]

/-- An `ok`, a CRLF and a version line cut in the middle, with polls in between. -/
def cutVisits : List Visit :=
  [.feed [0x73, 0x73, 0x35], .poll, .feed [0x2C, 0x35, 0x31, 0x32, 0x2C, 0x31, 0x0D], .poll,
    .feed [0x0A, 0x66, 0x65, 0x0D, 0x0A, 0x6F], .poll]

theorem schedule_independent_cut :
    ∃ w, (Watched.start Session.new.reset).run [.connect 0] = some w
      ∧ (w.session.feed (fed cutVisits) 1).events = [.synced 512 ['1'], .fatalError]
      ∧ (Session.visitsDrained 1 cutVisits w.session).1 = [.synced 512 ['1'], .fatalError] := by
  refine ⟨_, rfl, by decide +kernel, ?_⟩
  rw [(schedule_independent Session.new [.connect 0] _ rfl 1).2.2.1 cutVisits]
  decide +kernel

end MarlinTransfer
