import MarlinTransfer.Session.Buffer

/-!
# The events that wait

Events that wait to be polled are in nobody's way: with some of them put in front, every
operation does what it would have done without them, and leaves them in front. So it makes
no difference when a caller polls, nor into which chunks the bytes were cut that it feeds.
-/

namespace MarlinTransfer

open Codec Text

namespace Session

/-- The same session with other events waiting in front of its own. -/
def ahead (es : List Event) (s : Session) : Session := { s with events := es ++ s.events }

@[simp] theorem ahead_nil (s : Session) : s.ahead [] = s := rfl

variable (es : List Event) (s : Session) (now : Instant)

theorem pushEvent_ahead (e : Event) : (s.ahead es).pushEvent e = (s.pushEvent e).ahead es := by
  show { s with events := (es ++ s.events) ++ [e] } = { s with events := es ++ (s.events ++ [e]) }
  rw [List.append_assoc]

theorem dispatchIfIdle_ahead :
    (s.ahead es).dispatchIfIdle now = (s.dispatchIfIdle now).ahead es := by
  unfold dispatchIfIdle ahead
  dsimp only
  split
  · rfl
  · split <;> rfl

theorem handleOk_ahead (n : UInt8) : (s.ahead es).handleOk n now = (s.handleOk n now).ahead es := by
  unfold handleOk
  rw [show (s.ahead es).inFlight = s.inFlight from rfl]
  cases s.inFlight with
  | none => exact pushEvent_ahead es s _
  | some flight =>
    dsimp only
    split_ifs
    · exact pushEvent_ahead es s _
    · exact pushEvent_ahead es s _
    · rw [← dispatchIfIdle_ahead, ← pushEvent_ahead]
      rfl

theorem take_ahead (r : Reply) : (s.ahead es).take r now = (s.take r now).ahead es := by
  cases r with
  | ok n => exact handleOk_ahead es s now n
  | ss sync block version =>
    show ((s.ahead es).adopt sync block version).dispatchIfIdle now = _
    rw [show (s.ahead es).adopt sync block version = (s.adopt sync block version).ahead es by
      simp [adopt, ahead]]
    exact dispatchIfIdle_ahead es (s.adopt sync block version) now
  | rs n => exact pushEvent_ahead es s _
  | fe => exact pushEvent_ahead es s _
  | text line => exact pushEvent_ahead es s _
  | noise => rfl

theorem takeAll_ahead (rs : List Reply) :
    (s.ahead es).takeAll rs now = (s.takeAll rs now).ahead es := by
  induction rs generalizing s with
  | nil => rfl
  | cons r rs ih => rw [takeAll_cons, takeAll_cons, take_ahead, ih]

/-- **What waits is not in the way of what arrives.** -/
theorem feed_ahead (bytes : Bytes) : (s.ahead es).feed bytes now = (s.feed bytes now).ahead es := by
  rw [feed_eq, feed_eq]
  show ((s.ahead es).takeAll (replies (s.inboundBuf ++ bytes)) now).withBuf _ = _
  rw [takeAll_ahead]
  rfl

theorem tick_ahead : (s.ahead es).tick now = (s.tick now).ahead es := by
  cases hf : s.inFlight with
  | none => rw [tick_idle hf, tick_idle (s := s.ahead es) hf]
  | some f =>
    by_cases ht : now - f.firstSent ≥ s.totalTimeout
    · rw [tick_expired hf ht, tick_expired (s := s.ahead es) hf ht, ← dispatchIfIdle_ahead]
      congr 1
      exact pushEvent_ahead es { s with inFlight := none } _
    · by_cases hr : now - f.lastSent ≥ s.responseTimeout
      · rw [tick_late hf ht hr, tick_late (s := s.ahead es) hf ht hr]
        rfl
      · rw [tick_early hf ht hr, tick_early (s := s.ahead es) hf ht hr]

theorem send_ahead (protocol packetType : UInt8) (payload : Bytes) :
    (s.ahead es).send protocol packetType payload now
      = (s.send protocol packetType payload now).map (ahead es) := by
  unfold send
  rw [show (s.ahead es).isSynced = s.isSynced from rfl]
  split_ifs with h1 h2 h3 h4
  · exact congrArg some (dispatchIfIdle_ahead es (s.queue ⟨_, _, _, h2, h3, h4⟩ false) now)
  · rfl
  · rfl
  · rfl
  · rfl

theorem pollOutbound_ahead :
    (s.ahead es).pollOutbound = (s.pollOutbound.1, s.pollOutbound.2.ahead es) := by
  unfold pollOutbound
  rw [show (s.ahead es).outbound = s.outbound from rfl]
  cases s.outbound <;> rfl

/-! ## Chunks -/

theorem feed_nil {s : Session} (h : (0x0A : UInt8) ∉ s.inboundBuf) (now : Instant) :
    s.feed [] now = s := by
  rw [feed_eq, List.append_nil, replies, Lines.cut_of_notMem h]
  rfl

theorem unfinished_feed (s : Session) (bytes : Bytes) (now : Instant) :
    (0x0A : UInt8) ∉ (s.feed bytes now).inboundBuf := by
  rw [feed_eq]
  exact (Lines.notMem_cut 0x0A _).2

/-- Bytes read as a list of lines: cut at every line feed, stripped of their endings, the
empty ones dropped, the rest processed in order. -/
def byLines (s : Session) (bytes : Bytes) (now : Instant) : Session :=
  let pieces := Lines.cut 0x0A (s.inboundBuf ++ bytes)
  let lines := (pieces.1.map stripLineEndings).filter fun line => !line.isEmpty
  { lines.foldl (fun s line => s.processLine line now) s with inboundBuf := pieces.2 }

theorem takeAll_reply (lines : List Bytes) (s : Session) (now : Instant) :
    s.takeAll (lines.map reply) now
      = ((lines.map stripLineEndings).filter fun line => !line.isEmpty).foldl
          (fun s line => s.processLine line now) s := by
  induction lines generalizing s with
  | nil => rfl
  | cons line lines ih =>
    rw [List.map_cons, List.map_cons, takeAll_cons, ih]
    by_cases hempty : (stripLineEndings line).isEmpty
    · rw [List.filter_cons_of_neg (by simp [hempty])]
      rw [show reply line = .noise by unfold reply; rw [if_pos hempty]]
      rfl
    · rw [List.filter_cons_of_pos (by simp [hempty]), List.foldl_cons, processLine_eq]
      rw [show reply line = classify (stripLineEndings line) by unfold reply; rw [if_neg hempty]]

/-- **Feeding is reading line by line.** -/
theorem feed_byLines (s : Session) (bytes : Bytes) (now : Instant) :
    s.feed bytes now = s.byLines bytes now := by
  rw [feed_eq, replies, takeAll_reply]
  rfl

/-- However the bytes are cut. -/
theorem feed_chunks {s : Session} (h : (0x0A : UInt8) ∉ s.inboundBuf) (chunks : List Bytes)
    (now : Instant) : chunks.foldl (fun s chunk => s.feed chunk now) s = s.feed chunks.flatten now := by
  induction chunks generalizing s with
  | nil => exact (feed_nil h now).symm
  | cons chunk chunks ih =>
    rw [List.foldl_cons, ih (unfinished_feed s chunk now), List.flatten_cons, feed_append]

end Session

/-! ## Polls in between -/

/-- What a caller does while bytes arrive: feed some, or poll. -/
inductive Visit where
  | feed (bytes : Bytes)
  | poll

/-- The bytes fed in all. -/
def fed (ts : List Visit) : Bytes :=
  ts.flatMap fun
    | .feed bytes => bytes
    | .poll => []

namespace Session

/-- Feeds and polls: what the polls returned, and the session that is left. -/
def visits (now : Instant) : List Visit → Session → List Event × Session
  | [], s => ([], s)
  | .feed bytes :: ts, s => visits now ts (s.feed bytes now)
  | .poll :: ts, s =>
    match s.pollEvent with
    | (e, s) => (e.toList ++ (visits now ts s).1, (visits now ts s).2)

/-- Polls until there is nothing left. -/
def pollAll : Nat → Session → List Event × Session
  | 0, s => ([], s)
  | fuel + 1, s =>
    match s.pollEvent with
    | (none, s) => ([], s)
    | (some e, s) => (e :: (pollAll fuel s).1, (pollAll fuel s).2)

/-- Visits, and a final drain. -/
def visitsDrained (now : Instant) (ts : List Visit) (s : Session) : List Event × Session :=
  let (es, s) := visits now ts s
  let (es', s) := pollAll s.events.length s
  (es ++ es', s)

theorem pollAll_eq (s : Session) : pollAll s.events.length s = (s.events, { s with events := [] }) := by
  have key : ∀ (es : List Event) (s : Session), s.events = es →
      pollAll es.length s = (es, { s with events := [] }) := by
    intro es
    induction es with
    | nil =>
      intro s h
      rw [List.length_nil, pollAll, ← h]
    | cons e es ih =>
      intro s h
      have hpoll : s.pollEvent = (some e, { s with events := es }) := by
        unfold pollEvent
        rw [h]
      rw [List.length_cons, pollAll, hpoll]
      dsimp only
      rw [ih { s with events := es } rfl]
  exact key s.events s rfl

/-- **When a caller polls makes no difference**: in the end it has seen what it would have seen
had it fed everything first. -/
theorem visitsDrained_eq (now : Instant) (ts : List Visit) {s : Session}
    (h : (0x0A : UInt8) ∉ s.inboundBuf) :
    visitsDrained now ts s
      = ((s.feed (fed ts) now).events, { s.feed (fed ts) now with events := [] }) := by
  induction ts generalizing s with
  | nil =>
    show ([] ++ (pollAll s.events.length s).1, (pollAll s.events.length s).2) = _
    rw [pollAll_eq, show fed [] = [] from rfl, feed_nil h]
    rfl
  | cons t ts ih =>
    cases t with
    -- what is fed now and what is fed later are fed as one
    | feed bytes =>
      refine (ih (unfinished_feed s bytes now)).trans ?_
      rw [show fed (.feed bytes :: ts) = bytes ++ fed ts from rfl, feed_append]
    | poll =>
      have hfed : fed (.poll :: ts) = fed ts := rfl
      rw [hfed]
      -- a poll takes the first event that waits, which is in nobody's way (`feed_ahead`)
      cases he : s.events with
      | nil =>
        have hpoll : s.pollEvent = (none, s) := by
          unfold pollEvent
          rw [he]
        have hvisits : visitsDrained now (.poll :: ts) s = visitsDrained now ts s := by
          unfold visitsDrained
          rw [visits, hpoll]
          rfl
        rw [hvisits]
        exact ih h
      | cons e es =>
        have hpoll : s.pollEvent = (some e, { s with events := es }) := by
          unfold pollEvent
          rw [he]
        have hs : s = ({ s with events := es } : Session).ahead [e] := by
          unfold ahead
          rw [List.singleton_append, ← he]
        have hvisits : visitsDrained now (.poll :: ts) s
            = (e :: (visitsDrained now ts { s with events := es }).1,
              (visitsDrained now ts { s with events := es }).2) := by
          unfold visitsDrained
          rw [visits, hpoll]
          rfl
        rw [hvisits, ih (s := { s with events := es }) h]
        conv_rhs => rw [hs, feed_ahead]
        rfl

end Session

end MarlinTransfer
