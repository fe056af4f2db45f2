import MarlinTransfer.Session.Timing

/-!
# The retransmit budget

What a tick does in each of its windows, and how often a packet can go out at all. Elapsed
times saturate, so a clock that steps back finds no time elapsed: that is early, except for
a budget of nothing, which every tick exhausts.
-/

namespace MarlinTransfer

open Codec Text Session Spacing

/-- The packet in flight is given up at `now`: told once, and the next one dispatched. -/
structure GivesUp (f : InFlight) (now : Instant) (s s' : Session) : Prop where
  empty : s.queued = [] →
    s' = { s with inFlight := none, events := s.events ++ [.timeout f.sync] }
  next : ∀ q rest, s.queued = q :: rest →
    s' = { s with
      inFlight := some (s.launched q now)
      queued := rest
      outbound := s.outbound ++ [(q.packet s.sync).wire]
      events := s.events ++ [.timeout f.sync] }

namespace Session

theorem tick_givesUp {s : Session} {f : InFlight} {now : Instant} (hf : s.inFlight = some f)
    (ht : s.totalTimeout ≤ now - f.firstSent) : GivesUp f now s (s.tick now) where
  empty := fun hq => by
    rw [tick_expired hf ht, dispatchIfIdle_empty (s := s.giveUp f.sync) hq]
    rfl
  next := fun q rest hq => by
    rw [tick_expired hf ht, dispatchIfIdle_cons (s := s.giveUp f.sync) rfl hq]
    rfl

end Session

/-- Nobody is told of a timeout after an ack: a packet is retired once. -/
theorem timeout_not_acked {w : Watched} {ds : List Dispatch} (hc : Conserved w ds) {i : Nat}
    {sync n : UInt8} (ht : (Event.timeout sync, some i) ∈ w.log.emitted) :
    (Event.ack n, some i) ∉ w.log.emitted := by
  intro ha
  have hmem : ∀ e : Event, (e, some i) ∈ w.log.emitted →
      ∃ p : InFlight × Event, w.log.retired[i]? = some p ∧ p.2 = e := by
    intro e he
    have h1 : (e, i) ∈ w.log.emitted.filterMap fun p => p.2.map (p.1, ·) :=
      List.mem_filterMap.mpr ⟨(e, some i), he, rfl⟩
    rw [hc.owned] at h1
    obtain ⟨⟨p, j⟩, hp, heq⟩ := List.mem_map.mp h1
    obtain ⟨rfl, rfl⟩ := Prod.mk.inj heq
    exact ⟨p, List.mem_zipIdx_iff_getElem?.mp hp, rfl⟩
  obtain ⟨p, hp, h1⟩ := hmem _ ht
  obtain ⟨p', hp', h2⟩ := hmem _ ha
  obtain rfl := Option.some.inj (hp.symm.trans hp')
  rw [h1] at h2
  cases h2

/--
**The retransmit budget.** In every run of a session with a response timeout `R > 0` and a
total timeout `T`: the copies of every packet are `R` apart and, but for the first, go out
before the first plus `T`, so that there are at most `max 1 ⌈T / R⌉` of them, twenty with
the default timeouts. A tick at or after the first copy plus `T`, and with `T = 0` any tick,
gives the packet in flight up; any other tick at which no response is overdue changes
nothing. A timeout is told of one packet, and never of one that was acked.
-/
theorem retransmit_budget (s : Session) (hR : 0 < s.responseTimeout) (ops : List Op) (w : Watched)
    (hr : (Watched.start s.reset).run ops = some w) :
    (placements (Watched.journal ops (Watched.start s.reset))).map Prod.fst
        = w.log.placed.map Prod.fst
      ∧ (∀ i, Spaced s.responseTimeout s.totalTimeout
            (sentAt i (Watched.journal ops (Watched.start s.reset)))
          ∧ (sentAt i (Watched.journal ops (Watched.start s.reset))).length
              ≤ max 1 (s.totalTimeout ⌈/⌉ s.responseTimeout)
          ∧ (s.responseTimeout = defaultResponseTimeout → s.totalTimeout = defaultTotalTimeout →
              (sentAt i (Watched.journal ops (Watched.start s.reset))).length ≤ 20))
      ∧ (∀ f, w.session.inFlight = some f →
          (sentAt w.log.retired.length (Watched.journal ops (Watched.start s.reset))).head?
              = some f.firstSent
            ∧ (sentAt w.log.retired.length (Watched.journal ops (Watched.start s.reset))).getLast?
              = some f.lastSent
            ∧ ∀ now, f.firstSent + s.totalTimeout ≤ now ∨ s.totalTimeout = 0 →
                GivesUp f now w.session (w.session.tick now))
      ∧ (∀ now, (∀ f, w.session.inFlight = some f → now < f.firstSent + s.totalTimeout
            ∧ 0 < s.totalTimeout ∧ now < f.lastSent + s.responseTimeout) →
          w.session.tick now = w.session)
      ∧ (∀ sync owner, (Event.timeout sync, owner) ∈ w.log.emitted →
          ∃ i, owner = some i ∧ ∀ n, (Event.ack n, some i) ∉ w.log.emitted) := by
  have ht := Timed.run s hr
  obtain ⟨ds, hc⟩ := conserved_run (conserved_start s) hr
  have hspaced : ∀ i, Spaced s.responseTimeout s.totalTimeout
      (sentAt i (Watched.journal ops (Watched.start s.reset))) := by
    intro i
    -- a packet of the past, the one in flight, or one that was not dispatched yet
    by_cases hpast : i < w.log.retired.length
    · exact (ht.past i hpast).spaced hR
    · by_cases hnow : i < w.log.retired.length + w.session.inFlight.toList.length
      · obtain ⟨f, hf⟩ : ∃ f, w.session.inFlight = some f := by
          cases hf : w.session.inFlight with
          | none => rw [hf] at hnow; exact absurd hnow hpast
          | some f => exact ⟨f, rfl⟩
        rw [hf, Option.toList_some, List.length_singleton] at hnow
        obtain rfl : i = w.log.retired.length := by omega
        exact (ht.flying f hf).1.spaced hR
      · rw [(ht.future i (Nat.not_lt.mp hnow)).1]
        exact spaced_nil
  refine ⟨ht.placed, fun i => ⟨hspaced i, (hspaced i).length_le hR, ?_⟩, ?_, ?_, ?_⟩
  · intro h1 h2
    have hle := (hspaced i).length_le hR
    rw [h1, h2, show max 1 (defaultTotalTimeout ⌈/⌉ defaultResponseTimeout) = 20 by decide] at hle
    exact hle
  · intro f hf
    refine ⟨(ht.flying f hf).2.1, (ht.flying f hf).2.2, fun now hnow => tick_givesUp hf ?_⟩
    rw [ht.timeouts.2]
    rcases hnow with h | h
    · exact Nat.le_sub_of_add_le' h
    · rw [h]
      exact Nat.zero_le _
  · intro now hnow
    -- truncated subtraction, away from the session so that omega sees numbers only
    have hearly : ∀ budget sent t : Nat, 0 < budget → t < sent + budget → ¬ t - sent ≥ budget :=
      fun _ _ _ _ _ => by omega
    cases hf : w.session.inFlight with
    | none => exact tick_idle hf now
    | some f =>
      obtain ⟨h1, hpos, h2⟩ := hnow f hf
      refine tick_early hf ?_ ?_
      · rw [ht.timeouts.2]
        exact hearly _ _ _ hpos h1
      · rw [ht.timeouts.1]
        exact hearly _ _ _ hR h2
  · intro sync owner hm
    -- every timeout retired a packet, and a packet is retired once
    obtain ⟨i, hi⟩ := Option.isSome_iff_exists.mp (hc.unowned _ hm trivial)
    obtain rfl : owner = some i := hi
    exact ⟨i, rfl, fun n => timeout_not_acked hc hm⟩

/-- A handshake that is answered by nobody: sent, sent again, and given up. -/
def lonelyRun : List Op := [.connect 3, .tick 4, .tick 1000000003, .tick 20000000003]

theorem retransmit_budget_lonelyRun :
    0 < Session.new.responseTimeout
      ∧ ∃ w, (Watched.start Session.new.reset).run lonelyRun = some w
        ∧ sentAt 0 (Watched.journal lonelyRun (Watched.start Session.new.reset))
          = [3, 1000000003]
        ∧ (sentAt 0 (Watched.journal lonelyRun (Watched.start Session.new.reset))).length ≤ 20 := by
  have hpos : 0 < Session.new.responseTimeout := by decide
  have hsome : ((Watched.start Session.new.reset).run lonelyRun).isSome := by decide +kernel
  obtain ⟨w, hw⟩ := Option.isSome_iff_exists.mp hsome
  exact ⟨hpos, w, hw, by decide +kernel,
    ((retransmit_budget Session.new hpos lonelyRun w hw).2.1 0).2.2 rfl rfl⟩

/-- With a budget of nothing a tick before the first copy gives up, though it is neither at
nor after the first copy plus the budget, nor at or after the last one plus a timeout. -/
theorem early_tick_gives_up :
    ∃ w f, (Watched.start (Session.new.withTotalTimeout 0).reset).run [.connect 5] = some w
      ∧ w.session.inFlight = some f ∧ 4 < f.firstSent + w.session.totalTimeout
      ∧ 4 < f.lastSent + w.session.responseTimeout ∧ w.session.tick 4 ≠ w.session :=
  ⟨_, _, rfl, rfl, by decide, by decide, by decide +kernel⟩

end MarlinTransfer
