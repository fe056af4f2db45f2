import MarlinTransfer.Session.Effects
import MarlinTransfer.Lib.Spacing

/-!
# The journal of a run

The ledger says what was placed and what was told. The journal says when and on what
grounds: every line that was read, whether it asked for the packet in flight again, every
tick that found that packet overdue with budget left, every event told, and every copy
placed, with its packet and the instant. It is a function of the run, so the session cannot
depend on it. `Moves` is what one step does to the packets, in the journal's words.
-/

namespace MarlinTransfer

open Codec Text Session

inductive Mark where
  /-- A line was read. -/
  | read (r : Reply)
  /-- An `rs` line named the packet in flight, by its sync number. -/
  | asked (packet : Nat)
  /-- A tick found the packet in flight overdue, and its budget not exhausted. -/
  | overdue (packet : Nat)
  | told (e : Event)
  /-- A copy of a packet was placed on the outbound queue. -/
  | placed (packet : Nat) (now : Instant)
  deriving DecidableEq

namespace Mark

def placement : Mark → Option (Nat × Instant)
  | placed packet now => some (packet, now)
  | _ => none

def late : Mark → Option Nat
  | overdue packet => some packet
  | _ => none

def asking : Mark → Option Nat
  | asked packet => some packet
  | _ => none

end Mark

/-- The copies placed, with their instants. -/
def placements (h : List Mark) : List (Nat × Instant) := h.filterMap Mark.placement

/-- When the copies of a packet were placed. -/
def sentAt (packet : Nat) (h : List Mark) : List Instant :=
  ((placements h).filter (·.1 == packet)).map Prod.snd

/-- The packets found overdue. -/
def overdues (h : List Mark) : List Nat := h.filterMap Mark.late

/-- The packets asked for again while they were in flight. -/
def asks (h : List Mark) : List Nat := h.filterMap Mark.asking

@[simp] theorem placements_append (h h' : List Mark) :
    placements (h ++ h') = placements h ++ placements h' := List.filterMap_append

@[simp] theorem overdues_append (h h' : List Mark) :
    overdues (h ++ h') = overdues h ++ overdues h' := List.filterMap_append

theorem sentAt_append (packet : Nat) (h h' : List Mark) :
    sentAt packet (h ++ h') = sentAt packet h ++ sentAt packet h' := by
  simp [sentAt]

namespace Watched

/-- What happened in a step that took place at `now`. -/
def noted (w w' : Watched) (now : Instant) : List Mark :=
  (w'.log.emitted.drop w.log.emitted.length).map (fun p => .told p.1)
    ++ (w'.log.placed.drop w.log.placed.length).map fun p => .placed p.1 now

/-- Whether a line asks for the packet in flight again. -/
def requests (w : Watched) : Reply → List Mark
  | .rs n => if w.session.inFlight.any (·.sync == n) then [.asked w.log.retired.length] else []
  | _ => []

/-- Whether a tick finds the packet in flight overdue. -/
def lateness (w : Watched) (now : Instant) : List Mark :=
  match w.session.inFlight with
  | none => []
  | some f =>
    if now - f.firstSent < w.session.totalTimeout ∧ now - f.lastSent ≥ w.session.responseTimeout
    then [.overdue w.log.retired.length] else []

def readOne (w : Watched) (r : Reply) (now : Instant) : List Mark :=
  .read r :: (w.requests r ++ w.noted (w.take r now) now)

def readAll : List Reply → Watched → Instant → List Mark
  | [], _, _ => []
  | r :: rs, w, now => w.readOne r now ++ readAll rs (w.take r now) now

/-- The marks of one call. -/
def marks (w : Watched) : Op → List Mark
  | .connect now => w.noted (w.connect now) now
  | .send protocol packetType payload now =>
    match w.send protocol packetType payload now with
    | none => []
    | some w' => w.noted w' now
  | .feed bytes now => readAll (replies (w.session.inboundBuf ++ bytes)) w now
  | .tick now => w.lateness now ++ w.noted (w.tick now) now
  | .pollOutbound => []
  | .pollEvent => []

/-- The marks of a run. -/
def journal : List Op → Watched → List Mark
  | [], _ => []
  | op :: ops, w => w.marks op ++ match w.step op with
    | none => []
    | some w' => journal ops w'

end Watched

/-! ## One induction over runs and the lines within a `feed` -/

/-- What every step keeps, the journal growing by the marks of the step. -/
structure Lasting (P : Watched → List Mark → Prop) : Prop where
  connect : ∀ {w ds h}, Conserved w ds → P w h → ∀ now,
    P (w.connect now) (h ++ w.noted (w.connect now) now)
  send : ∀ {w w' ds h protocol packetType payload now}, Conserved w ds → P w h →
    w.send protocol packetType payload now = some w' → P w' (h ++ w.noted w' now)
  take : ∀ {w ds h}, Conserved w ds → P w h → ∀ r now, P (w.take r now) (h ++ w.readOne r now)
  tick : ∀ {w ds h}, Conserved w ds → P w h → ∀ now,
    P (w.tick now) (h ++ (w.lateness now ++ w.noted (w.tick now) now))
  withBuf : ∀ {w h}, P w h → ∀ buf, P (w.withBuf buf) h
  pollOutbound : ∀ {w h}, P w h → P w.pollOutbound h
  pollEvent : ∀ {w h}, P w h → P w.pollEvent h

namespace Lasting

variable {P : Watched → List Mark → Prop} {w w' : Watched} {ds : List Dispatch} {h : List Mark}

theorem takeAll (hP : Lasting P) (hc : Conserved w ds) (hw : P w h) (rs : List Reply)
    (now : Instant) : P (w.takeAll rs now) (h ++ Watched.readAll rs w now) := by
  induction rs generalizing w ds h with
  | nil =>
    rw [Watched.readAll, List.append_nil]
    exact hw
  | cons r rs ih =>
    obtain ⟨ds', hc'⟩ := hc.take r now
    rw [Watched.readAll, ← List.append_assoc]
    exact ih hc' (hP.take hc hw r now)

theorem step (hP : Lasting P) (hc : Conserved w ds) (hw : P w h) {op : Op}
    (hs : w.step op = some w') : P w' (h ++ w.marks op) := by
  cases op with
  | connect now => cases hs; exact hP.connect hc hw now
  | send protocol packetType payload now =>
    have hs' : w.send protocol packetType payload now = some w' := hs
    rw [Watched.marks, hs']
    exact hP.send hc hw hs'
  | feed bytes now => cases hs; exact hP.withBuf (hP.takeAll hc hw _ now) _
  | tick now => cases hs; exact hP.tick hc hw now
  | pollOutbound => cases hs; rw [Watched.marks, List.append_nil]; exact hP.pollOutbound hw
  | pollEvent => cases hs; rw [Watched.marks, List.append_nil]; exact hP.pollEvent hw

/-- **Runs.** What every step keeps holds along a run. -/
theorem run (hP : Lasting P) {ops : List Op} (hc : Conserved w ds) (hw : P w h)
    (hr : w.run ops = some w') : P w' (h ++ Watched.journal ops w) := by
  induction ops generalizing w ds h with
  | nil =>
    cases hr
    rw [Watched.journal, List.append_nil]
    exact hw
  | cons op ops ih =>
    obtain ⟨w1, h1, h2⟩ := Option.bind_eq_some_iff.mp hr
    obtain ⟨ds1, hc1⟩ := conserved_step hc h1
    rw [Watched.journal, h1, ← List.append_assoc]
    exact ih hc1 (hP.step hc hw h1) h2

end Lasting

/-! ## What a step does to the packets -/

/-- A packet that goes out for the first time. -/
structure JustSent (f : InFlight) (now : Instant) : Prop where
  firstSent : f.firstSent = now
  lastSent : f.lastSent = now

theorem dispatchIfIdle_justSent {s : Session} (h : s.inFlight = none) {now : Instant} {f : InFlight}
    (hf : (s.dispatchIfIdle now).inFlight = some f) : JustSent f now := by
  cases hq : s.queued with
  | nil =>
    rw [dispatchIfIdle_empty hq, h] at hf
    cases hf
  | cons q rest =>
    rw [dispatchIfIdle_cons h hq] at hf
    obtain rfl := Option.some.inj hf
    exact ⟨rfl, rfl⟩

/-- What a step at `now` does to the packets and what its marks `ms` say of that. -/
inductive Moves (now : Instant) (ms : List Mark) (w w' : Watched) : Prop where
  | still (hf : w'.session.inFlight = w.session.inFlight) (hr : w'.log.retired = w.log.retired)
      (hp : w'.log.placed = w.log.placed) (hs : placements ms = []) (ho : overdues ms = [])
  | launched (f : InFlight) (hidle : w.session.inFlight = none)
      (hf : w'.session.inFlight = some f) (hjust : JustSent f now)
      (hr : w'.log.retired = w.log.retired)
      (hp : w'.log.placed = w.log.placed ++ [(w.log.retired.length, f.bytes)])
      (hs : placements ms = [(w.log.retired.length, now)]) (ho : overdues ms = [])
  | again (f : InFlight) (hf : w.session.inFlight = some f)
      (hf' : w'.session.inFlight = some { f with lastSent := now })
      (hin : now - f.firstSent < w.session.totalTimeout)
      (hlate : w.session.responseTimeout ≤ now - f.lastSent)
      (hr : w'.log.retired = w.log.retired)
      (hp : w'.log.placed = w.log.placed ++ [(w.log.retired.length, f.bytes)])
      (hs : placements ms = [(w.log.retired.length, now)])
      (ho : overdues ms = [w.log.retired.length])
  | dropped (f : InFlight) (e : Event) (hf : w.session.inFlight = some f)
      (hf' : w'.session.inFlight = none) (hr : w'.log.retired = w.log.retired ++ [(f, e)])
      (hp : w'.log.placed = w.log.placed) (hs : placements ms = []) (ho : overdues ms = [])
  | replaced (f f' : InFlight) (e : Event) (hf : w.session.inFlight = some f)
      (hf' : w'.session.inFlight = some f') (hjust : JustSent f' now)
      (hr : w'.log.retired = w.log.retired ++ [(f, e)])
      (hp : w'.log.placed = w.log.placed ++ [(w.log.retired.length + 1, f'.bytes)])
      (hs : placements ms = [(w.log.retired.length + 1, now)]) (ho : overdues ms = [])

variable {w w' : Watched} {now : Instant}

theorem placements_told (ps : List (Event × Option Nat)) :
    placements (ps.map fun p => .told p.1) = [] := by
  simp [placements, Mark.placement]

theorem placements_noted {ps : List (Nat × Bytes)} (hp : w'.log.placed = w.log.placed ++ ps) :
    placements (w.noted w' now) = ps.map fun p => (p.1, now) := by
  unfold Watched.noted
  rw [placements_append, placements_told, hp, List.drop_left]
  simp [placements, Mark.placement, Function.comp_def]

theorem placements_noted_same (hp : w'.log.placed = w.log.placed) :
    placements (w.noted w' now) = [] := by
  have h : w'.log.placed = w.log.placed ++ [] := by rw [hp, List.append_nil]
  exact placements_noted h

theorem overdues_noted (w w' : Watched) (now : Instant) : overdues (w.noted w' now) = [] := by
  refine List.filterMap_eq_nil_iff.mpr fun m hm => ?_
  rcases List.mem_append.mp hm with hm | hm
  · obtain ⟨p, -, rfl⟩ := List.mem_map.mp hm
    rfl
  · obtain ⟨p, -, rfl⟩ := List.mem_map.mp hm
    rfl

/-- The one mark a line may leave of itself. -/
theorem mem_requests {r : Reply} {m : Mark} (h : m ∈ w.requests r) :
    m = .asked w.log.retired.length := by
  cases r with
  | rs n =>
    simp only [Watched.requests] at h
    split_ifs at h
    · exact List.mem_singleton.mp h
    · cases h
  | ok n => cases h
  | ss sync block version => cases h
  | fe => cases h
  | text line => cases h
  | noise => cases h

theorem placements_readOne (r : Reply) :
    placements (w.readOne r now) = placements (w.noted (w.take r now) now) := by
  have hreq : placements (w.requests r) = [] :=
    List.filterMap_eq_nil_iff.mpr fun m hm => by rw [mem_requests hm]; rfl
  show placements ([.read r] ++ (w.requests r ++ w.noted (w.take r now) now)) = _
  rw [placements_append, placements_append, hreq]
  rfl

theorem overdues_readOne (r : Reply) : overdues (w.readOne r now) = [] := by
  have hreq : overdues (w.requests r) = [] :=
    List.filterMap_eq_nil_iff.mpr fun m hm => by rw [mem_requests hm]; rfl
  show overdues ([.read r] ++ (w.requests r ++ w.noted (w.take r now) now)) = _
  rw [overdues_append, overdues_append, hreq, overdues_noted]
  rfl

theorem placements_lateness : placements (w.lateness now) = [] := by
  unfold Watched.lateness
  split
  · rfl
  · split <;> rfl

/-- A packet leaves flight, and the next one may go out. -/
theorem moves_of_retires {ms : List Mark} {f : InFlight} {e : Event} (h : Retires f e w w')
    (hjust : ∀ f', w'.session.inFlight = some f' → JustSent f' now)
    (hms : placements ms = placements (w.noted w' now)) (ho : overdues ms = []) :
    Moves now ms w w' := by
  cases h.resumes with
  | idle hq hq' hf hp hk =>
    refine .dropped f e h.was hf h.retired hp ?_ ho
    rw [hms, placements_noted_same hp]
  | launch q f' hq hf hc hp hk =>
    rw [h.retired, List.length_append] at hp
    refine .replaced f f' e h.was hf (hjust f' hf) h.retired hp ?_ ho
    rw [hms, placements_noted hp]
    rfl

theorem moves_take {ds : List Dispatch} (hc : Conserved w ds) (r : Reply) (now : Instant) :
    Moves now (w.readOne r now) w (w.take r now) := by
  have ho : overdues (w.readOne r now) = [] := overdues_readOne r
  have hms : placements (w.readOne r now) = placements (w.noted (w.take r now) now) :=
    placements_readOne r
  cases taken hc r now with
  | quiet ht =>
    refine .still ht.inFlight (by rw [ht.log]) (by rw [ht.log]) ?_ ho
    rw [hms, placements_noted_same (by rw [ht.log])]
  | acked f hr hf ht =>
    refine moves_of_retires ht (fun f' hf' => ?_) hms ho
    subst hr
    rw [Watched.take_session, take_ok_matching ht.was hf] at hf'
    exact dispatchIfIdle_justSent rfl hf'
  | synced f sync block version hr hf ht =>
    refine moves_of_retires ht (fun f' hf' => ?_) hms ho
    subst hr
    exact dispatchIfIdle_justSent (adopt_inFlight_handshake ht.was hf sync block version) hf'

theorem moves_submitted {q : Queued} (h : Submitted q w w')
    (hjust : w.session.inFlight = none →
      ∀ f, w'.session.inFlight = some f → JustSent f now) : Moves now (w.noted w' now) w w' := by
  have ho := overdues_noted w w' now
  cases h with
  | waits hbusy hf hq hl =>
    refine .still hf (by rw [hl]) (by rw [hl]) ?_ ho
    exact placements_noted_same (by rw [hl])
  | launched f hidle hf hc hq hl =>
    have hp : w'.log.placed = w.log.placed ++ [(w.log.retired.length, f.bytes)] := by rw [hl]
    refine .launched f hidle hf (hjust hidle f hf) (by rw [hl]) hp ?_ ho
    rw [placements_noted hp]
    rfl

theorem moves_tick (w : Watched) (now : Instant) :
    Moves now (w.lateness now ++ w.noted (w.tick now) now) w (w.tick now) := by
  have hsame : w.session.tick now = w.session → w.tick now = w := fun h => by
    unfold Watched.tick
    rw [h]
    exact after_self w
  have hquiet : overdues (w.lateness now) = [] → w.tick now = w →
      Moves now (w.lateness now ++ w.noted (w.tick now) now) w (w.tick now) := by
    intro hl heq
    rw [heq]
    refine .still rfl rfl rfl ?_ ?_
    · rw [placements_append, placements_lateness, placements_noted_same rfl, List.append_nil]
    · rw [overdues_append, hl, overdues_noted]
      rfl
  cases hf : w.session.inFlight with
  | none =>
    refine hquiet ?_ (hsame (tick_idle hf now))
    unfold Watched.lateness
    rw [hf]
    rfl
  | some f =>
    have hlateness : w.lateness now = if now - f.firstSent < w.session.totalTimeout
        ∧ now - f.lastSent ≥ w.session.responseTimeout then [.overdue w.log.retired.length]
        else [] := by
      unfold Watched.lateness
      rw [hf]
    -- the total timeout is looked at first, as in the source
    by_cases ht : now - f.firstSent ≥ w.session.totalTimeout
    · have hnone : w.lateness now = [] := by
        rw [hlateness, if_neg fun h => absurd ht (Nat.not_le.mpr h.1)]
      rw [hnone, List.nil_append]
      -- the packet is given up, and the next one may go out in the same tick
      have hr : Retires f (.timeout f.sync) w (w.tick now) := by
        unfold Watched.tick
        rw [tick_expired hf ht]
        refine retires_of_next hf (by simp [closes]) ?_
          (next_dispatchIfIdle (s := w.session) (t := w.session.giveUp f.sync) rfl rfl rfl now)
        rw [dispatchIfIdle_events]
        rfl
      refine moves_of_retires hr (fun f' hf' => ?_) rfl (overdues_noted _ _ _)
      rw [Watched.tick_session, tick_expired hf ht] at hf'
      exact dispatchIfIdle_justSent rfl hf'
    · have hin : now - f.firstSent < w.session.totalTimeout := Nat.not_le.mp ht
      by_cases hr : now - f.lastSent ≥ w.session.responseTimeout
      · have hone : w.lateness now = [.overdue w.log.retired.length] := by
          rw [hlateness, if_pos ⟨hin, hr⟩]
        -- the response timeout: one copy more, and one overdue
        have hf' : (w.tick now).session.inFlight = some { f with lastSent := now } := by
          rw [Watched.tick_session, tick_late hf ht hr]
        have hl : (w.tick now).log
            = { w.log with placed := w.log.placed ++ [(w.log.retired.length, f.bytes)] } := by
          unfold Watched.tick
          rw [tick_late hf ht hr]
          exact Ledger.note_resend hf rfl rfl
        have hp : (w.tick now).log.placed
            = w.log.placed ++ [(w.log.retired.length, f.bytes)] := by rw [hl]
        refine .again f hf hf' hin hr (by rw [hl]) hp ?_ ?_
        · rw [placements_append, placements_lateness, placements_noted hp]
          rfl
        · rw [overdues_append, hone, overdues_noted]
          rfl
      · refine hquiet ?_ (hsame (tick_early hf ht hr))
        rw [hlateness, if_neg fun h => hr h.2]
        rfl

theorem moves_connect {ds : List Dispatch} (hc : Conserved w ds) (now : Instant) :
    Moves now (w.noted (w.connect now) now) w (w.connect now) :=
  moves_submitted (submitted_connect hc now) fun hidle _ hf =>
    dispatchIfIdle_justSent (s := w.session.queue syncPacket true) hidle hf

theorem moves_send {ds : List Dispatch} (hc : Conserved w ds) {protocol packetType : UInt8}
    {payload : Bytes} (hs : w.send protocol packetType payload now = some w') :
    Moves now (w.noted w' now) w w' := by
  obtain ⟨-, -, -, b, -, -, -, hsub⟩ := submitted_send hc hs
  refine moves_submitted hsub fun hidle f hf => ?_
  have hs' := w.send_session protocol packetType payload now
  rw [hs, Option.map_some] at hs'
  obtain ⟨b', -, -, -, -, heq⟩ := send_eq_some.mp hs'.symm
  rw [heq] at hf
  exact dispatchIfIdle_justSent (s := w.session.queue b' false) hidle hf

end MarlinTransfer
