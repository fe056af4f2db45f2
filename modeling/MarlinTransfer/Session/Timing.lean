import MarlinTransfer.Session.Journal

/-!
# When copies go out

The journal's invariant: the copies of every packet are spaced by the response timeout and
within its budget, there is one for its dispatch and one for every tick that found it
overdue, and the session's own `first_sent` and `last_sent` are the first and last of them.
Every step is one of the five `Moves`, so each is a short case.
-/

namespace MarlinTransfer

open Codec Text Session Spacing

namespace Session

@[simp] theorem dispatchIfIdle_responseTimeout (s : Session) (now : Instant) :
    (s.dispatchIfIdle now).responseTimeout = s.responseTimeout := by
  unfold dispatchIfIdle
  split
  · rfl
  · split <;> rfl

@[simp] theorem dispatchIfIdle_totalTimeout (s : Session) (now : Instant) :
    (s.dispatchIfIdle now).totalTimeout = s.totalTimeout := by
  unfold dispatchIfIdle
  split
  · rfl
  · split <;> rfl

/-- The timeouts are the caller's. -/
def SameTimeouts (s s' : Session) : Prop :=
  s'.responseTimeout = s.responseTimeout ∧ s'.totalTimeout = s.totalTimeout

theorem sameTimeouts_dispatchIfIdle {s t : Session} (h : SameTimeouts s t) (now : Instant) :
    SameTimeouts s (t.dispatchIfIdle now) := by
  unfold SameTimeouts
  rw [dispatchIfIdle_responseTimeout, dispatchIfIdle_totalTimeout]
  exact h

theorem sameTimeouts_take (s : Session) (r : Reply) (now : Instant) :
    SameTimeouts s (s.take r now) := by
  cases r with
  | ok n =>
    show SameTimeouts s (s.handleOk n now)
    unfold handleOk
    split
    · exact ⟨rfl, rfl⟩
    · split_ifs
      · exact ⟨rfl, rfl⟩
      · exact ⟨rfl, rfl⟩
      · exact sameTimeouts_dispatchIfIdle ⟨rfl, rfl⟩ now
  | ss sync block version => exact sameTimeouts_dispatchIfIdle ⟨rfl, rfl⟩ now
  | rs n => exact ⟨rfl, rfl⟩
  | fe => exact ⟨rfl, rfl⟩
  | text line => exact ⟨rfl, rfl⟩
  | noise => exact ⟨rfl, rfl⟩

theorem sameTimeouts_tick (s : Session) (now : Instant) : SameTimeouts s (s.tick now) := by
  unfold tick
  split
  · exact ⟨rfl, rfl⟩
  · split_ifs
    · exact sameTimeouts_dispatchIfIdle ⟨rfl, rfl⟩ now
    · exact ⟨rfl, rfl⟩
    · exact ⟨rfl, rfl⟩

end Session

/-- The copies of a packet, against the journal. -/
structure Paced (response total : Duration) (packet : Nat) (h : List Mark) : Prop where
  /-- A response timeout apart and within the budget. -/
  spaced : 0 < response → Spaced response total (sentAt packet h)
  /-- One for the dispatch and one for every overdue tick. -/
  copies : (sentAt packet h).length = 1 + (overdues h).count packet

/-- **The invariant of the journal.** -/
structure Timed (response total : Duration) (w : Watched) (h : List Mark) : Prop where
  timeouts : w.session.responseTimeout = response ∧ w.session.totalTimeout = total
  /-- The journal's copies are the ledger's. -/
  placed : (placements h).map Prod.fst = w.log.placed.map Prod.fst
  past : ∀ i, i < w.log.retired.length → Paced response total i h
  /-- The packet in flight remembers its first and its last copy. -/
  flying : ∀ f, w.session.inFlight = some f → Paced response total w.log.retired.length h
    ∧ (sentAt w.log.retired.length h).head? = some f.firstSent
    ∧ (sentAt w.log.retired.length h).getLast? = some f.lastSent
  /-- What is still to be dispatched has left no mark. -/
  future : ∀ i, w.log.retired.length + w.session.inFlight.toList.length ≤ i →
    sentAt i h = [] ∧ (overdues h).count i = 0

namespace Timed

variable {response total : Duration} {w w' : Watched} {h ms : List Mark} {now : Instant}

theorem start (s : Session) :
    Timed s.responseTimeout s.totalTimeout (Watched.start s.reset) [] where
  timeouts := ⟨rfl, rfl⟩
  placed := rfl
  past := fun i hi => absurd hi (Nat.not_lt_zero i)
  flying := fun f hf => by cases hf
  future := fun _ _ => ⟨rfl, rfl⟩

theorem sentAt_of_placements (i : Nat) (ps : List (Nat × Instant)) (hs : placements ms = ps) :
    sentAt i (h ++ ms) = sentAt i h ++ (ps.filter (·.1 == i)).map Prod.snd := by
  rw [sentAt_append]
  unfold sentAt
  rw [hs]

theorem count_overdues (i : Nat) (ns : List Nat) (ho : overdues ms = ns) :
    (overdues (h ++ ms)).count i = (overdues h).count i + ns.count i := by
  rw [overdues_append, List.count_append, ho]

/-- Marks about other packets. -/
theorem paced_other {i : Nat} (hi : Paced response total i h) {ps : List (Nat × Instant)}
    {ns : List Nat} (hs : placements ms = ps) (ho : overdues ms = ns) (hps : ∀ p ∈ ps, p.1 ≠ i)
    (hns : i ∉ ns) : Paced response total i (h ++ ms) := by
  have hnone : (ps.filter (·.1 == i)).map Prod.snd = [] := by
    rw [List.filter_eq_nil_iff.mpr fun p hp => by simpa using hps p hp]
    rfl
  have hsame : sentAt i (h ++ ms) = sentAt i h := by
    rw [sentAt_of_placements i ps hs, hnone, List.append_nil]
  constructor
  · rw [hsame]
    exact hi.spaced
  · rw [hsame, count_overdues i ns ho, List.count_eq_zero_of_not_mem hns, Nat.add_zero]
    exact hi.copies

theorem future_other {i : Nat} (hi : sentAt i h = [] ∧ (overdues h).count i = 0)
    {ps : List (Nat × Instant)} {ns : List Nat} (hs : placements ms = ps) (ho : overdues ms = ns)
    (hps : ∀ p ∈ ps, p.1 ≠ i) (hns : i ∉ ns) :
    sentAt i (h ++ ms) = [] ∧ (overdues (h ++ ms)).count i = 0 := by
  constructor
  · rw [sentAt_of_placements i ps hs, hi.1,
      List.filter_eq_nil_iff.mpr fun p hp => by simpa using hps p hp]
    rfl
  · rw [count_overdues i ns ho, hi.2, List.count_eq_zero_of_not_mem hns]

/-- The first copy of a packet. -/
theorem paced_first {i : Nat} (hi : sentAt i h = [] ∧ (overdues h).count i = 0)
    (hs : placements ms = [(i, now)]) (ho : overdues ms = []) :
    Paced response total i (h ++ ms) ∧ sentAt i (h ++ ms) = [now] := by
  have hsent : sentAt i (h ++ ms) = [now] := by
    rw [sentAt_of_placements i _ hs, hi.1]
    simp
  refine ⟨⟨?_, ?_⟩, hsent⟩
  · rw [hsent]
    exact fun _ => spaced_singleton now
  · rw [hsent, count_overdues i [] ho, hi.2]
    rfl

/-- One more copy of a packet: the clock has moved on by a response timeout, and not past the
budget. -/
theorem paced_again {i : Nat} (hi : Paced response total i h) {f : InFlight}
    (hfirst : (sentAt i h).head? = some f.firstSent) (hlast : (sentAt i h).getLast? = some f.lastSent)
    (hin : now - f.firstSent < total) (hlate : response ≤ now - f.lastSent)
    (hs : placements ms = [(i, now)]) (ho : overdues ms = [i]) :
    Paced response total i (h ++ ms) ∧ sentAt i (h ++ ms) = sentAt i h ++ [now] := by
  have hgap : ∀ r last t : Nat, 0 < r → r ≤ t - last → last + r ≤ t := fun _ _ _ _ _ => by omega
  have hbudget : ∀ b first t : Nat, t - first < b → t < first + b := fun _ _ _ _ => by omega
  have hsent : sentAt i (h ++ ms) = sentAt i h ++ [now] := by
    rw [sentAt_of_placements i _ hs]
    simp
  refine ⟨⟨?_, ?_⟩, hsent⟩
  · intro hpos
    rw [hsent]
    exact (hi.spaced hpos).snoc hfirst hlast (hgap _ _ _ hpos hlate) (hbudget _ _ _ hin)
  · rw [hsent, count_overdues i _ ho, List.length_append, hi.copies]
    simp [Nat.add_assoc]

theorem timeouts_of (ht : Timed response total w h) (hto : SameTimeouts w.session w'.session) :
    w'.session.responseTimeout = response ∧ w'.session.totalTimeout = total :=
  ⟨hto.1.trans ht.timeouts.1, hto.2.trans ht.timeouts.2⟩

theorem placed_same (ht : Timed response total w h) (hp : w'.log.placed = w.log.placed)
    (hs : placements ms = []) :
    (placements (h ++ ms)).map Prod.fst = w'.log.placed.map Prod.fst := by
  rw [placements_append, hs, List.append_nil, ht.placed, hp]

theorem placed_snoc (ht : Timed response total w h) {i : Nat} {bytes : Bytes}
    (hp : w'.log.placed = w.log.placed ++ [(i, bytes)]) (hs : placements ms = [(i, now)]) :
    (placements (h ++ ms)).map Prod.fst = w'.log.placed.map Prod.fst := by
  rw [placements_append, List.map_append, ht.placed, hs, hp, List.map_append]
  rfl

/-- Nothing was placed and nothing was late. -/
theorem after_still (ht : Timed response total w h) (hto : SameTimeouts w.session w'.session)
    (hf : w'.session.inFlight = w.session.inFlight) (hr : w'.log.retired = w.log.retired)
    (hp : w'.log.placed = w.log.placed) (hs : placements ms = []) (ho : overdues ms = []) :
    Timed response total w' (h ++ ms) := by
  refine ⟨ht.timeouts_of hto, ht.placed_same hp hs, ?_, ?_, ?_⟩
  · intro i hi
    rw [hr] at hi
    exact paced_other (ht.past i hi) hs ho (by simp) (by simp)
  · intro f hf'
    rw [hf] at hf'
    obtain ⟨h1, h2, h3⟩ := ht.flying f hf'
    rw [hr, sentAt_of_placements _ [] hs, List.filter_nil, List.map_nil, List.append_nil]
    exact ⟨paced_other h1 hs ho (by simp) (by simp), h2, h3⟩
  · intro i hi
    rw [hr, hf] at hi
    exact future_other (ht.future i hi) hs ho (by simp) (by simp)

/-- A packet that was in the future starts with one copy. -/
theorem after_launched (ht : Timed response total w h) (hto : SameTimeouts w.session w'.session)
    {f : InFlight} (hidle : w.session.inFlight = none) (hf : w'.session.inFlight = some f)
    (hjust : JustSent f now) (hr : w'.log.retired = w.log.retired)
    (hp : w'.log.placed = w.log.placed ++ [(w.log.retired.length, f.bytes)])
    (hs : placements ms = [(w.log.retired.length, now)]) (ho : overdues ms = []) :
    Timed response total w' (h ++ ms) := by
  have hn := ht.future w.log.retired.length (by rw [hidle]; exact Nat.le_refl _)
  obtain ⟨h1, h2⟩ : Paced response total _ _ ∧ _ := paced_first hn hs ho
  refine ⟨ht.timeouts_of hto, ht.placed_snoc hp hs, ?_, ?_, ?_⟩
  · intro i hi
    rw [hr] at hi
    exact paced_other (ht.past i hi) hs ho (by simpa using hi.ne') (by simp)
  · intro g hg
    obtain rfl := Option.some.inj (hf.symm.trans hg)
    rw [hr, h2, hjust.firstSent, hjust.lastSent]
    exact ⟨h1, rfl, rfl⟩
  · intro i hi
    rw [hr, hf, Option.toList_some, List.length_singleton] at hi
    refine future_other (ht.future i ?_) hs ho (by simp; omega) (by simp)
    rw [hidle]
    simp
    omega

/-- One more copy of the packet in flight: the only step that `Paced` is about. -/
theorem after_again (ht : Timed response total w h) (hto : SameTimeouts w.session w'.session)
    {f : InFlight} (hf : w.session.inFlight = some f)
    (hf' : w'.session.inFlight = some { f with lastSent := now })
    (hin : now - f.firstSent < w.session.totalTimeout)
    (hlate : w.session.responseTimeout ≤ now - f.lastSent)
    (hr : w'.log.retired = w.log.retired)
    (hp : w'.log.placed = w.log.placed ++ [(w.log.retired.length, f.bytes)])
    (hs : placements ms = [(w.log.retired.length, now)])
    (ho : overdues ms = [w.log.retired.length]) :
    Timed response total w' (h ++ ms) := by
  obtain ⟨h1, h2, h3⟩ := ht.flying f hf
  rw [ht.timeouts.2] at hin
  rw [ht.timeouts.1] at hlate
  obtain ⟨h4, hsent⟩ := paced_again h1 h2 h3 hin hlate hs ho
  refine ⟨ht.timeouts_of hto, ht.placed_snoc hp hs, ?_, ?_, ?_⟩
  · intro i hi
    rw [hr] at hi
    exact paced_other (ht.past i hi) hs ho (by simpa using hi.ne') (by simpa using hi.ne)
  · intro g hg
    obtain rfl := Option.some.inj (hf'.symm.trans hg)
    rw [hr, hsent]
    refine ⟨h4, ?_, ?_⟩
    · rw [List.head?_append, h2]
      rfl
    · rw [List.getLast?_append]
      rfl
  · intro i hi
    rw [hr, hf', Option.toList_some, List.length_singleton] at hi
    refine future_other (ht.future i ?_) hs ho (by simp; omega) (by simp; omega)
    rw [hf]
    exact hi

/-- The packet in flight joins the past as it is. -/
theorem after_dropped (ht : Timed response total w h) (hto : SameTimeouts w.session w'.session)
    {f : InFlight} {e : Event} (hf : w.session.inFlight = some f)
    (hf' : w'.session.inFlight = none) (hr : w'.log.retired = w.log.retired ++ [(f, e)])
    (hp : w'.log.placed = w.log.placed) (hs : placements ms = []) (ho : overdues ms = []) :
    Timed response total w' (h ++ ms) := by
  refine ⟨ht.timeouts_of hto, ht.placed_same hp hs, ?_, ?_, ?_⟩
  · intro i hi
    rw [hr, List.length_append, List.length_singleton] at hi
    rcases Nat.lt_succ_iff_lt_or_eq.mp hi with hi | rfl
    · exact paced_other (ht.past i hi) hs ho (by simp) (by simp)
    · exact paced_other (ht.flying f hf).1 hs ho (by simp) (by simp)
  · intro g hg
    rw [hf'] at hg
    cases hg
  · intro i hi
    rw [hr, hf', List.length_append] at hi
    refine future_other (ht.future i ?_) hs ho (by simp) (by simp)
    rw [hf]
    exact hi

/-- The packet in flight joins the past, and the next one starts. -/
theorem after_replaced (ht : Timed response total w h) (hto : SameTimeouts w.session w'.session)
    {f f' : InFlight} {e : Event} (hf : w.session.inFlight = some f)
    (hf' : w'.session.inFlight = some f') (hjust : JustSent f' now)
    (hr : w'.log.retired = w.log.retired ++ [(f, e)])
    (hp : w'.log.placed = w.log.placed ++ [(w.log.retired.length + 1, f'.bytes)])
    (hs : placements ms = [(w.log.retired.length + 1, now)]) (ho : overdues ms = []) :
    Timed response total w' (h ++ ms) := by
  have hn := ht.future (w.log.retired.length + 1) (by rw [hf]; exact Nat.le_refl _)
  obtain ⟨h1, h2⟩ : Paced response total _ _ ∧ _ := paced_first hn hs ho
  refine ⟨ht.timeouts_of hto, ht.placed_snoc hp hs, ?_, ?_, ?_⟩
  · intro i hi
    rw [hr, List.length_append, List.length_singleton] at hi
    have hne : ∀ p ∈ [(w.log.retired.length + 1, now)], p.1 ≠ i := by
      simp
      omega
    rcases Nat.lt_succ_iff_lt_or_eq.mp hi with hi | rfl
    · exact paced_other (ht.past i hi) hs ho hne (by simp)
    · exact paced_other (ht.flying f hf).1 hs ho hne (by simp)
  · intro g hg
    obtain rfl := Option.some.inj (hf'.symm.trans hg)
    rw [hr, List.length_append, List.length_singleton, h2, hjust.firstSent, hjust.lastSent]
    exact ⟨h1, rfl, rfl⟩
  · intro i hi
    rw [hr, hf', List.length_append] at hi
    simp only [List.length_singleton, Option.toList_some] at hi
    refine future_other (ht.future i ?_) hs ho (by simp; omega) (by simp)
    rw [hf]
    simp
    omega

/-- **One step**, whatever it does to the packets. -/
theorem moves (ht : Timed response total w h) (hm : Moves now ms w w')
    (hto : SameTimeouts w.session w'.session) : Timed response total w' (h ++ ms) := by
  cases hm with
  | still hf hr hp hs ho => exact ht.after_still hto hf hr hp hs ho
  | launched f hidle hf hjust hr hp hs ho => exact ht.after_launched hto hidle hf hjust hr hp hs ho
  | again f hf hf' hin hlate hr hp hs ho => exact ht.after_again hto hf hf' hin hlate hr hp hs ho
  | dropped f e hf hf' hr hp hs ho => exact ht.after_dropped hto hf hf' hr hp hs ho
  | replaced f f' e hf hf' hjust hr hp hs ho =>
    exact ht.after_replaced hto hf hf' hjust hr hp hs ho

/-- **Every step keeps it.** -/
theorem lasting (response total : Duration) : Lasting (Timed response total) where
  connect := fun hc ht now => ht.moves (moves_connect hc now)
    (sameTimeouts_dispatchIfIdle ⟨rfl, rfl⟩ now)
  send := fun {w w'} _ _ protocol packetType payload now hc ht hs => by
    refine ht.moves (moves_send hc hs) ?_
    have hs' := w.send_session protocol packetType payload now
    rw [hs, Option.map_some] at hs'
    obtain ⟨b, -, -, -, -, heq⟩ := send_eq_some.mp hs'.symm
    rw [heq]
    exact sameTimeouts_dispatchIfIdle ⟨rfl, rfl⟩ now
  take := fun hc ht r now => ht.moves (moves_take hc r now) (sameTimeouts_take _ r now)
  tick := fun _ ht now => ht.moves (moves_tick _ now) (sameTimeouts_tick _ now)
  withBuf := fun ht _ => ⟨ht.timeouts, ht.placed, ht.past, ht.flying, ht.future⟩
  pollOutbound := fun {w h} ht => by
    unfold Watched.pollOutbound Session.pollOutbound
    cases w.session.outbound with
    | nil => exact ht
    | cons b rest => exact ⟨ht.timeouts, ht.placed, ht.past, ht.flying, ht.future⟩
  pollEvent := fun {w h} ht => by
    unfold Watched.pollEvent Session.pollEvent
    cases w.session.events with
    | nil => exact ht
    | cons e rest => exact ⟨ht.timeouts, ht.placed, ht.past, ht.flying, ht.future⟩

theorem run {ops : List Op} (s : Session) (hr : (Watched.start s.reset).run ops = some w) :
    Timed s.responseTimeout s.totalTimeout w (Watched.journal ops (Watched.start s.reset)) := by
  have h := (lasting s.responseTimeout s.totalTimeout).run (conserved_start s) (start s) hr
  rwa [List.nil_append] at h

end Timed

end MarlinTransfer
