import MarlinTransfer.Session.Ledger

/-!
# Nothing is lost, duplicated or reordered

Whatever is called on a session, in whatever order, the packets submitted are the
packets dispatched followed by the queue, and the packets dispatched are the packets
retired followed by the one in flight. The invariant holds of the ledger of every run
because it holds of each of the six shapes a step can take.
-/

namespace MarlinTransfer

open Codec Text

/-- A packet that was dispatched: under which counter, and in how many copies so far. -/
structure Dispatch where
  queued : Queued
  counter : UInt8
  copies : Nat

namespace Dispatch

/-- The packet that went out. -/
def packet (d : Dispatch) : Packet := d.queued.packet d.counter

/-- Every copy, with the packet's number. -/
def sent (d : Dispatch) (i : Nat) : List (Nat × Bytes) := List.replicate d.copies (i, d.packet.wire)

/-- Every copy of every packet: `p₀^k₀ p₁^k₁ …`. -/
def sentAll (ds : List Dispatch) : List (Nat × Bytes) := ds.zipIdx.flatMap fun p => p.1.sent p.2

theorem sentAll_append (ds : List Dispatch) (d : Dispatch) :
    sentAll (ds ++ [d]) = sentAll ds ++ d.sent ds.length := by
  simp [sentAll, List.zipIdx_append]

/-- A copy with the number `n` is one of the `n`-th packet dispatched. -/
theorem mem_sentAll {ds : List Dispatch} {n : Nat} {bytes : Bytes}
    (h : (n, bytes) ∈ sentAll ds) : ∃ d, ds[n]? = some d ∧ bytes = d.packet.wire := by
  obtain ⟨⟨d, i⟩, hd, hmem⟩ := List.mem_flatMap.mp h
  obtain ⟨rfl, rfl⟩ := Prod.mk.inj (List.eq_of_mem_replicate hmem)
  exact ⟨d, List.mem_zipIdx_iff_getElem?.mp hd, rfl⟩

/-- Without the numbers. -/
theorem sentAll_bytes (ds : List Dispatch) :
    (sentAll ds).map Prod.snd = ds.flatMap fun d => List.replicate d.copies d.packet.wire := by
  have key : ∀ (ds : List Dispatch) (k : Nat),
      ((ds.zipIdx k).flatMap fun p => p.1.sent p.2).map Prod.snd
        = ds.flatMap fun d => List.replicate d.copies d.packet.wire := by
    intro ds
    induction ds with
    | nil => intro k; rfl
    | cons d ds ih =>
      intro k
      rw [List.zipIdx_cons, List.flatMap_cons, List.flatMap_cons, List.map_append, ih]
      simp [sent]
  exact key ds 0

end Dispatch

/-- The packets that ever left the queue, in order. -/
def Watched.flights (w : Watched) : List InFlight :=
  w.log.retired.map Prod.fst ++ w.session.inFlight.toList

/-- **The conservation invariant**, for the packets dispatched so far. -/
structure Conserved (w : Watched) (ds : List Dispatch) : Prop where
  /-- What was submitted is what was dispatched, then what waits. -/
  submitted : w.log.submitted = ds.map (·.queued.entry) ++ w.session.queued.map (·.entry)
  /-- What was dispatched is what was retired, then what is in flight. -/
  flights : List.Forall₂ (fun d f => Session.Carries f d.queued d.counter) ds w.flights
  counters : w.log.counters = ds.map (·.counter)
  /-- Each packet was retired by an event that may retire it. -/
  closed : ∀ p ∈ w.log.retired, Session.closes p.1 p.2 = true
  /-- The events that name a packet are the retirements, each told once. -/
  owned : w.log.emitted.filterMap (fun p => p.2.map (p.1, ·))
    = w.log.retired.zipIdx.map fun p => (p.1.2, p.2)
  /-- No ack and no timeout is told without retiring a packet. -/
  unowned : ∀ p ∈ w.log.emitted, Session.Final p.1 → p.2.isSome
  placed : w.log.placed = Dispatch.sentAll ds
  copies_pos : ∀ d ∈ ds, 0 < d.copies
  taken_le : w.log.taken ≤ w.log.placed.length
  outbound : w.session.outbound = (w.log.placed.drop w.log.taken).map Prod.snd
  polled_le : w.log.polled ≤ w.log.emitted.length
  events : w.session.events = (w.log.emitted.drop w.log.polled).map Prod.fst
  /-- Nothing waits while nothing is in flight. -/
  idle : w.session.inFlight = none → w.session.queued = []

theorem conserved_start (s : Session) : Conserved (Watched.start s.reset) [] where
  submitted := rfl
  flights := .nil
  counters := rfl
  closed := by simp [Watched.start, Ledger.empty]
  owned := rfl
  unowned := by simp [Watched.start, Ledger.empty]
  placed := rfl
  copies_pos := by simp
  taken_le := Nat.zero_le _
  outbound := rfl
  polled_le := Nat.zero_le _
  events := rfl
  idle := fun _ => rfl

namespace Conserved

open Session

variable {w : Watched} {ds : List Dispatch} {s' : Session}

theorem length_flights (h : Conserved w ds) : ds.length = w.flights.length := h.flights.length_eq

/-- The number of the next packet to be dispatched from an idle session. -/
theorem length_idle (h : Conserved w ds) (hf : w.session.inFlight = none) :
    ds.length = w.log.retired.length := by
  rw [h.length_flights, Watched.flights, hf]
  simp

theorem length_busy (h : Conserved w ds) {f : InFlight} (hf : w.session.inFlight = some f) :
    ds.length = w.log.retired.length + 1 := by
  rw [h.length_flights, Watched.flights, hf]
  simp

/-- A copy that was placed outbound encodes what was submitted under its number. -/
theorem placed_entry (h : Conserved w ds) {n : Nat} {bytes : Bytes}
    (hb : (n, bytes) ∈ w.log.placed) :
    ∃ (q : Queued) (c : UInt8), w.log.submitted[n]? = some q.entry
      ∧ bytes = (q.packet c).wire := by
  rw [h.placed] at hb
  obtain ⟨d, hd, rfl⟩ := Dispatch.mem_sentAll hb
  refine ⟨d.queued, d.counter, ?_, rfl⟩
  rw [h.submitted]
  obtain ⟨hlt, -⟩ := List.getElem?_eq_some_iff.mp hd
  rw [List.getElem?_append_left (by rw [List.length_map]; exact hlt), List.getElem?_map, hd]
  rfl

/-- Events told without retiring anyone keep the event clauses. -/
theorem owned_quiet {emitted : List (Event × Option Nat)} (es : List Event) :
    (emitted ++ es.map (·, none)).filterMap (fun p : Event × Option Nat => p.2.map (p.1, ·))
      = emitted.filterMap fun p => p.2.map (p.1, ·) := by
  rw [List.filterMap_append, List.filterMap_map]
  simp

/-- The bytes not yet taken, once more were placed. -/
theorem outbound_append {placed : List (Nat × Bytes)} {taken : Nat} {out : List Bytes}
    (hle : taken ≤ placed.length) (ho : out = (placed.drop taken).map Prod.snd)
    (new : List (Nat × Bytes)) :
    out ++ new.map Prod.snd = ((placed ++ new).drop taken).map Prod.snd := by
  rw [List.drop_append_of_le_length hle, List.map_append, ho]

/-- The events not yet polled, once more were told. -/
theorem events_append {emitted : List (Event × Option Nat)} {polled : Nat} {evs : List Event}
    (hle : polled ≤ emitted.length) (he : evs = (emitted.drop polled).map Prod.fst)
    (new : List (Event × Option Nat)) :
    evs ++ new.map Prod.fst = ((emitted ++ new).drop polled).map Prod.fst := by
  rw [List.drop_append_of_le_length hle, List.map_append, he]

theorem after_quiet (h : Conserved w ds) {es : List Event}
    (hf : s'.inFlight = w.session.inFlight) (hq : s'.queued = w.session.queued)
    (ho : s'.outbound = w.session.outbound) (he : s'.events = w.session.events ++ es)
    (hes : ∀ e ∈ es, ¬ Final e)
    (hcl : ∀ f, w.session.inFlight = some f → ∀ e ∈ es, closes f e = false) :
    Conserved (w.after s') ds := by
  unfold Watched.after
  rw [Ledger.note_quiet _ hf ho he hcl]
  -- no clause depends on the session but through what is in flight, queued and pending
  have hfl : (Watched.mk s' { w.log with emitted := w.log.emitted ++ es.map (·, none) }).flights
      = w.flights := by
    show w.log.retired.map Prod.fst ++ s'.inFlight.toList = _
    rw [hf]
    rfl
  exact
    { submitted := by rw [hq]; exact h.submitted
      flights := by rw [hfl]; exact h.flights
      counters := h.counters
      closed := h.closed
      owned := by rw [owned_quiet]; exact h.owned
      unowned := by
        intro p hp hfin
        rcases List.mem_append.mp hp with hp | hp
        · exact h.unowned p hp hfin
        · obtain ⟨e, he', rfl⟩ := List.mem_map.mp hp
          exact absurd hfin (hes e he')
      placed := h.placed
      copies_pos := h.copies_pos
      taken_le := h.taken_le
      outbound := by rw [ho]; exact h.outbound
      polled_le := by
        rw [List.length_append]
        exact Nat.le_add_right_of_le h.polled_le
      events := by
        rw [he, ← events_append h.polled_le h.events, List.map_map]
        simp [Function.comp_def]
      idle := by rw [hf, hq]; exact h.idle }

theorem after_enqueue (h : Conserved w ds) {q : Queued}
    (hf : s'.inFlight = w.session.inFlight) (hbusy : w.session.inFlight.isSome)
    (hq : s'.queued = w.session.queued ++ [q]) (ho : s'.outbound = w.session.outbound)
    (he : s'.events = w.session.events) : Conserved ((w.enter q.entry).after s') ds := by
  have he' : s'.events = (w.enter q.entry).session.events ++ [] := by
    rw [he, List.append_nil]
    rfl
  have hin : s'.inFlight.isSome := by rw [hf]; exact hbusy
  unfold Watched.after
  rw [Ledger.note_quiet (s := (w.enter q.entry).session) _ hf ho he' (by simp)]
  have hfl : (Watched.mk s' { (w.enter q.entry).log with
      emitted := (w.enter q.entry).log.emitted ++ ([] : List Event).map (·, none) }).flights
      = w.flights := by
    show w.log.retired.map Prod.fst ++ s'.inFlight.toList = _
    rw [hf]
    rfl
  exact
    { submitted := by
        rw [hq, List.map_append, ← List.append_assoc, ← h.submitted]
        rfl
      flights := by rw [hfl]; exact h.flights
      counters := h.counters
      closed := h.closed
      owned := by rw [owned_quiet]; exact h.owned
      unowned := by
        rw [List.map_nil, List.append_nil]
        exact h.unowned
      placed := h.placed
      copies_pos := h.copies_pos
      taken_le := h.taken_le
      outbound := by rw [ho]; exact h.outbound
      polled_le := by
        rw [List.map_nil, List.append_nil]
        exact h.polled_le
      events := by
        rw [he, List.map_nil, List.append_nil]
        exact h.events
      -- it was queued because something is in flight
      idle := fun hn => by rw [hn] at hin; cases hin }

/-- A copy more of the last packet. -/
theorem sentAll_more (ds : List Dispatch) (d : Dispatch) :
    Dispatch.sentAll (ds ++ [{ d with copies := d.copies + 1 }])
      = Dispatch.sentAll (ds ++ [d]) ++ [(ds.length, d.packet.wire)] := by
  rw [Dispatch.sentAll_append, Dispatch.sentAll_append, List.append_assoc]
  congr 1
  exact List.replicate_succ'

theorem after_launch (h : Conserved w ds) {q : Queued} {f : InFlight}
    (hidle : w.session.inFlight = none) (hf : s'.inFlight = some f) (hc : Carries f q s'.sync)
    (hq : s'.queued = []) (ho : s'.outbound = w.session.outbound ++ [f.bytes])
    (he : s'.events = w.session.events) :
    Conserved ((w.enter q.entry).after s') (ds ++ [⟨q, s'.sync, 1⟩]) := by
  -- with nothing in flight the number of the packet is the number of dispatches so far
  have hn := h.length_idle hidle
  have hq0 := h.idle hidle
  unfold Watched.after
  rw [Ledger.note_launch (s := (w.enter q.entry).session) hidle hf ho he]
  have hsent : (Dispatch.mk q s'.sync 1).sent ds.length = [(w.log.retired.length, f.bytes)] := by
    rw [hn, Dispatch.sent, hc.bytes_eq]
    rfl
  exact
    { submitted := by
        rw [hq, List.map_append, List.map_nil, List.append_nil]
        show w.log.submitted ++ [q.entry] = _
        rw [h.submitted, hq0, List.map_nil, List.append_nil]
        rfl
      flights := by
        refine List.rel_append ?_ (?_ : List.Forall₂ _ _ s'.inFlight.toList)
        · have hfl := h.flights
          unfold Watched.flights at hfl
          rw [hidle, Option.toList_none, List.append_nil] at hfl
          exact hfl
        · rw [hf]
          exact .cons hc .nil
      counters := by
        show w.log.counters ++ [s'.sync] = _
        rw [h.counters, List.map_append]
        rfl
      closed := h.closed
      owned := h.owned
      unowned := h.unowned
      placed := by
        show w.log.placed ++ [(w.log.retired.length, f.bytes)] = _
        rw [Dispatch.sentAll_append, hsent, h.placed]
      copies_pos := by
        intro d hd
        rcases List.mem_append.mp hd with hd | hd
        · exact h.copies_pos d hd
        · rw [List.mem_singleton.mp hd]
          exact Nat.one_pos
      taken_le := by
        show w.log.taken ≤ (w.log.placed ++ _).length
        rw [List.length_append]
        exact Nat.le_add_right_of_le h.taken_le
      outbound := by
        rw [ho]
        exact outbound_append h.taken_le h.outbound [(w.log.retired.length, f.bytes)]
      polled_le := h.polled_le
      events := by
        rw [he]
        exact h.events
      idle := fun _ => hq }

/-- The event clauses once a packet was retired. -/
theorem owned_retire (h : Conserved w ds) (f : InFlight) (e : Event) :
    (w.log.emitted ++ [(e, some w.log.retired.length)]).filterMap (fun p => p.2.map (p.1, ·))
      = (w.log.retired ++ [(f, e)]).zipIdx.map fun p => (p.1.2, p.2) := by
  rw [List.filterMap_append, h.owned, List.zipIdx_append, List.map_append]
  simp

theorem unowned_retire (h : Conserved w ds) (e : Event) :
    ∀ p ∈ w.log.emitted ++ [(e, some w.log.retired.length)], Final p.1 → p.2.isSome := by
  intro p hp hfin
  rcases List.mem_append.mp hp with hp | hp
  · exact h.unowned p hp hfin
  · rw [List.mem_singleton.mp hp]
    rfl

theorem closed_retire (h : Conserved w ds) {f : InFlight} {e : Event}
    (hcl : closes f e = true) : ∀ p ∈ w.log.retired ++ [(f, e)], closes p.1 p.2 = true := by
  intro p hp
  rcases List.mem_append.mp hp with hp | hp
  · exact h.closed p hp
  · rw [List.mem_singleton.mp hp]
    exact hcl

/-- Retiring the packet in flight moves it, and changes no order. -/
theorem flights_retire (h : Conserved w ds) {f : InFlight} (e : Event)
    (hf : w.session.inFlight = some f) :
    List.Forall₂ (fun d f => Carries f d.queued d.counter) ds
      ((w.log.retired ++ [(f, e)]).map Prod.fst) := by
  have hfl := h.flights
  unfold Watched.flights at hfl
  rw [hf] at hfl
  rw [List.map_append]
  exact hfl

theorem after_retire (h : Conserved w ds) {f : InFlight} {e : Event}
    (hf : w.session.inFlight = some f) (hcl : closes f e = true)
    (he : s'.events = w.session.events ++ [e]) (hn : Next w.session s') :
    ∃ ds', Conserved (w.after s') ds' := by
  have hlen := h.length_busy hf
  cases hn with
  | idle hq0 hq hf' ho =>
    -- nothing waits: the dispatches are the same, all of them closed
    refine ⟨ds, ?_⟩
    unfold Watched.after
    rw [Ledger.note_retire hf hcl he hf' ho]
    exact
      { submitted := by
          rw [hq, ← hq0]
          exact h.submitted
        flights := by
          show List.Forall₂ _ ds (_ ++ s'.inFlight.toList)
          rw [hf', Option.toList_none, List.append_nil]
          exact h.flights_retire e hf
        counters := h.counters
        closed := h.closed_retire hcl
        owned := h.owned_retire f e
        unowned := h.unowned_retire e
        placed := h.placed
        copies_pos := h.copies_pos
        taken_le := h.taken_le
        outbound := by
          rw [ho]
          exact h.outbound
        polled_le := by
          rw [List.length_append]
          exact Nat.le_add_right_of_le h.polled_le
        events := by
          rw [he]
          exact events_append h.polled_le h.events [(e, some w.log.retired.length)]
        idle := fun _ => hq }
  | launch q f' hq hf' hc ho =>
    -- the head of the queue goes out in the same step, under the next number
    refine ⟨ds ++ [⟨q, s'.sync, 1⟩], ?_⟩
    unfold Watched.after
    rw [Ledger.note_advance hf hcl he hf' ho]
    have hsent : (Dispatch.mk q s'.sync 1).sent ds.length
        = [(w.log.retired.length + 1, f'.bytes)] := by
      rw [hlen, Dispatch.sent, hc.bytes_eq]
      rfl
    exact
      { submitted := by
          show w.log.submitted = _
          rw [h.submitted, hq, List.map_append, List.append_assoc]
          rfl
        flights := by
          refine List.rel_append (h.flights_retire e hf)
            (?_ : List.Forall₂ _ _ s'.inFlight.toList)
          rw [hf']
          exact .cons hc .nil
        counters := by
          show w.log.counters ++ [s'.sync] = _
          rw [h.counters, List.map_append]
          rfl
        closed := h.closed_retire hcl
        owned := h.owned_retire f e
        unowned := h.unowned_retire e
        placed := by
          show w.log.placed ++ [(w.log.retired.length + 1, f'.bytes)] = _
          rw [Dispatch.sentAll_append, hsent, h.placed]
        copies_pos := by
          intro d hd
          rcases List.mem_append.mp hd with hd | hd
          · exact h.copies_pos d hd
          · rw [List.mem_singleton.mp hd]
            exact Nat.one_pos
        taken_le := by
          rw [List.length_append]
          exact Nat.le_add_right_of_le h.taken_le
        outbound := by
          rw [ho]
          exact outbound_append h.taken_le h.outbound [(w.log.retired.length + 1, f'.bytes)]
        polled_le := by
          rw [List.length_append]
          exact Nat.le_add_right_of_le h.polled_le
        events := by
          rw [he]
          exact events_append h.polled_le h.events [(e, some w.log.retired.length)]
        idle := fun hn => by rw [hf'] at hn; cases hn }

theorem after_resend (h : Conserved w ds) {f : InFlight} {now : Instant}
    (hf : w.session.inFlight = some f) (hf' : s'.inFlight = some { f with lastSent := now })
    (hq : s'.queued = w.session.queued) (ho : s'.outbound = w.session.outbound ++ [f.bytes])
    (he : s'.events = w.session.events) : ∃ ds', Conserved (w.after s') ds' := by
  have hlen := h.length_busy hf
  -- the packet in flight is the last one dispatched
  obtain ⟨ds0, d, rfl⟩ : ∃ ds0 d, ds = ds0 ++ [d] := by
    rcases List.eq_nil_or_concat ds with rfl | ⟨ds0, d, rfl⟩
    · simp at hlen
    · exact ⟨ds0, d, List.concat_eq_append⟩
  have hn : ds0.length = w.log.retired.length := by
    rw [List.length_append] at hlen
    simpa using hlen
  obtain ⟨hds0, hd⟩ : List.Forall₂ (fun d f => Carries f d.queued d.counter) ds0
      (w.log.retired.map Prod.fst) ∧ Carries f d.queued d.counter := by
    have hfl := h.flights
    unfold Watched.flights at hfl
    rw [hf] at hfl
    have htake := List.forall₂_take_append (ds0 ++ [d]) _ _ hfl
    have hdrop := List.forall₂_drop_append (ds0 ++ [d]) _ _ hfl
    rw [List.length_map, ← hn, List.take_left] at htake
    rw [List.length_map, ← hn, List.drop_left] at hdrop
    cases hdrop with
    | cons hd _ => exact ⟨htake, hd⟩
  refine ⟨ds0 ++ [{ d with copies := d.copies + 1 }], ?_⟩
  unfold Watched.after
  rw [Ledger.note_resend hf ho he]
  exact
    { submitted := by
        rw [hq]
        refine h.submitted.trans ?_
        simp
      flights := by
        refine List.rel_append hds0 (?_ : List.Forall₂ _ _ s'.inFlight.toList)
        rw [hf']
        exact .cons ⟨hd.sync_eq, hd.bytes_eq, hd.handshake_eq⟩ .nil
      counters := by
        refine h.counters.trans ?_
        simp
      closed := h.closed
      owned := h.owned
      unowned := h.unowned
      placed := by
        show w.log.placed ++ [(w.log.retired.length, f.bytes)] = _
        rw [sentAll_more, h.placed, ← hn, hd.bytes_eq]
        rfl
      copies_pos := by
        intro d' hd'
        rcases List.mem_append.mp hd' with hd' | hd'
        · exact h.copies_pos d' (List.mem_append_left _ hd')
        · rw [List.mem_singleton.mp hd']
          exact Nat.succ_pos _
      taken_le := by
        rw [List.length_append]
        exact Nat.le_add_right_of_le h.taken_le
      outbound := by
        rw [ho]
        exact outbound_append h.taken_le h.outbound [(w.log.retired.length, f.bytes)]
      polled_le := h.polled_le
      events := by
        rw [he]
        exact h.events
      idle := fun hn => by rw [hf'] at hn; cases hn }

/-- The submissions of a step are entered before it. -/
def entered (w : Watched) : Option Queued → Watched
  | none => w
  | some q => w.enter q.entry

/-- **One step.** Whatever shape it takes, the invariant is kept. -/
theorem after_shape (h : Conserved w ds) {sub : Option Queued}
    (hs : Shape sub w.session s') : ∃ ds', Conserved ((entered w sub).after s') ds' := by
  cases hs with
  | quiet es hsub hf hq ho he hes hcl =>
    subst hsub
    exact ⟨ds, h.after_quiet hf hq ho he hes hcl⟩
  | enqueue q hsub hbusy hf hq ho he =>
    subst hsub
    exact ⟨ds, h.after_enqueue hf hbusy hq ho he⟩
  | launch q f hsub hidle hf hc hq ho he =>
    subst hsub
    exact ⟨_, h.after_launch hidle hf hc hq ho he⟩
  | retire f e hsub hf hcl he hn =>
    subst hsub
    exact h.after_retire hf hcl he hn
  | resend f now hsub hf hf' hq ho he =>
    subst hsub
    exact h.after_resend hf hf' hq ho he

theorem pollOutbound (h : Conserved w ds) : Conserved w.pollOutbound ds := by
  unfold Watched.pollOutbound Session.pollOutbound
  cases ho : w.session.outbound with
  | nil => exact h
  | cons b rest =>
    have hdrop := h.outbound
    rw [ho] at hdrop
    have hlt : w.log.taken < w.log.placed.length := by
      rcases Nat.lt_or_ge w.log.taken w.log.placed.length with hlt | hge
      · exact hlt
      · rw [List.drop_of_length_le hge] at hdrop
        cases hdrop
    exact
      { h with
        taken_le := hlt
        outbound := by
          rw [List.drop_eq_getElem_cons hlt, List.map_cons] at hdrop
          exact (List.cons.inj hdrop).2 }

theorem pollEvent (h : Conserved w ds) : Conserved w.pollEvent ds := by
  unfold Watched.pollEvent Session.pollEvent
  cases he : w.session.events with
  | nil => exact h
  | cons e rest =>
    have hdrop := h.events
    rw [he] at hdrop
    have hlt : w.log.polled < w.log.emitted.length := by
      rcases Nat.lt_or_ge w.log.polled w.log.emitted.length with hlt | hge
      · exact hlt
      · rw [List.drop_of_length_le hge] at hdrop
        cases hdrop
    exact
      { h with
        polled_le := hlt
        events := by
          rw [List.drop_eq_getElem_cons hlt, List.map_cons] at hdrop
          exact (List.cons.inj hdrop).2 }

theorem withBuf (h : Conserved w ds) (buf : Bytes) : Conserved (w.withBuf buf) ds :=
  { h with }

/-- A session whose run conserves so far can be stepped and conserve on. -/
theorem take (h : Conserved w ds) (r : Reply) (now : Instant) :
    ∃ ds', Conserved (w.take r now) ds' := h.after_shape (take_shape h.idle r now)

theorem takeAll (h : Conserved w ds) (rs : List Reply) (now : Instant) :
    ∃ ds', Conserved (w.takeAll rs now) ds' := by
  induction rs generalizing w ds with
  | nil => exact ⟨ds, h⟩
  | cons r rs ih =>
    obtain ⟨ds', h'⟩ := h.take r now
    exact ih h'

theorem feed (h : Conserved w ds) (bytes : Bytes) (now : Instant) :
    ∃ ds', Conserved (w.feed bytes now) ds' := by
  obtain ⟨ds', h'⟩ := h.takeAll (replies (w.session.inboundBuf ++ bytes)) now
  exact ⟨ds', h'.withBuf _⟩

theorem tick (h : Conserved w ds) (now : Instant) : ∃ ds', Conserved (w.tick now) ds' :=
  h.after_shape (tick_shape w.session now)

theorem connect (h : Conserved w ds) (now : Instant) : ∃ ds', Conserved (w.connect now) ds' :=
  h.after_shape (queue_shape h.idle syncPacket true now)

theorem send (h : Conserved w ds) {protocol packetType : UInt8} {payload : Bytes}
    {now : Instant} {w' : Watched} (hs : w.send protocol packetType payload now = some w') :
    ∃ ds', Conserved w' ds' := by
  unfold Watched.send at hs
  obtain ⟨s', hs', rfl⟩ := Option.map_eq_some_iff.mp hs
  obtain ⟨b, rfl, rfl, rfl, -, rfl⟩ := send_eq_some.mp hs'
  exact h.after_shape (queue_shape h.idle b false now)

end Conserved

/-! ## Runs -/

/-- What a caller may do with a session. -/
inductive Op where
  | connect (now : Instant)
  | send (protocol packetType : UInt8) (payload : Bytes) (now : Instant)
  | feed (bytes : Bytes) (now : Instant)
  | tick (now : Instant)
  | pollOutbound
  | pollEvent

namespace Watched

/-- One call; `none` is a failed assertion of `send`. -/
def step (w : Watched) : Op → Option Watched
  | .connect now => some (w.connect now)
  | .send protocol packetType payload now => w.send protocol packetType payload now
  | .feed bytes now => some (w.feed bytes now)
  | .tick now => some (w.tick now)
  | .pollOutbound => some w.pollOutbound
  | .pollEvent => some w.pollEvent

/-- The calls of a run, one after the other. -/
def run : List Op → Watched → Option Watched
  | [], w => some w
  | op :: ops, w => (w.step op).bind (run ops)

/-- **Runs.** What every call keeps, a run keeps. -/
theorem run_invariant {P : Watched → Prop}
    (hstep : ∀ {w w' : Watched} {op : Op}, P w → w.step op = some w' → P w') {ops : List Op}
    {w w' : Watched} (h : P w) (hr : w.run ops = some w') : P w' := by
  induction ops generalizing w with
  | nil => cases hr; exact h
  | cons op ops ih =>
    obtain ⟨w1, h1, h2⟩ := Option.bind_eq_some_iff.mp hr
    exact ih (hstep h h1) h2

end Watched

/-! ## What was submitted -/

theorem submitted_takeAll (rs : List Reply) (w : Watched) (now : Instant) :
    (w.takeAll rs now).log.submitted = w.log.submitted := by
  induction rs generalizing w with
  | nil => rfl
  | cons r rs ih => exact ih (w.take r now)

theorem submitted_feed (w : Watched) (bytes : Bytes) (now : Instant) :
    (w.feed bytes now).log.submitted = w.log.submitted :=
  submitted_takeAll _ w now

theorem submitted_pollOutbound (w : Watched) :
    w.pollOutbound.log.submitted = w.log.submitted := by
  unfold Watched.pollOutbound
  split <;> rfl

theorem submitted_pollEvent (w : Watched) : w.pollEvent.log.submitted = w.log.submitted := by
  unfold Watched.pollEvent
  split <;> rfl

/-- What was submitted stays so, in its place. -/
theorem submitted_step {w w' : Watched} {op : Op} (hs : w.step op = some w') :
    w.log.submitted <+: w'.log.submitted := by
  cases op with
  | connect now =>
    obtain rfl := Option.some.inj hs
    exact List.prefix_append _ _
  | send protocol packetType payload now =>
    rw [submitted_of_send hs]
    exact List.prefix_append _ _
  | feed bytes now =>
    obtain rfl := Option.some.inj hs
    rw [submitted_feed]
  | tick now =>
    obtain rfl := Option.some.inj hs
    exact List.prefix_rfl
  | pollOutbound =>
    obtain rfl := Option.some.inj hs
    rw [submitted_pollOutbound]
  | pollEvent =>
    obtain rfl := Option.some.inj hs
    rw [submitted_pollEvent]

theorem submitted_run {ops : List Op} {w w' : Watched} (hr : w.run ops = some w') :
    w.log.submitted <+: w'.log.submitted :=
  Watched.run_invariant (P := fun w1 => w.log.submitted <+: w1.log.submitted)
    (fun h hs => h.trans (submitted_step hs)) List.prefix_rfl hr

/-! ## The invariant along a run -/

theorem conserved_step {w w' : Watched} {ds : List Dispatch} (h : Conserved w ds) {op : Op}
    (hs : w.step op = some w') : ∃ ds', Conserved w' ds' := by
  cases op with
  | send protocol packetType payload now => exact h.send hs
  | connect now => cases hs; exact h.connect now
  | feed bytes now => cases hs; exact h.feed bytes now
  | tick now => cases hs; exact h.tick now
  | pollOutbound => cases hs; exact ⟨ds, h.pollOutbound⟩
  | pollEvent => cases hs; exact ⟨ds, h.pollEvent⟩

theorem conserved_run {ops : List Op} {w w' : Watched} {ds : List Dispatch} (h : Conserved w ds)
    (hr : w.run ops = some w') : ∃ ds', Conserved w' ds' :=
  Watched.run_invariant (P := fun w => ∃ ds, Conserved w ds)
    (fun ⟨_, hc⟩ hs => conserved_step hc hs) ⟨ds, h⟩ hr

/--
**The queue loses, duplicates and reorders nothing, and never stalls.** After any run of
calls since a reset there is a list of dispatches such that: what was submitted is what
was dispatched followed by the queue, and what was dispatched is what was retired
followed by the packet in flight; every retirement was told by one event of its own, an
ack, a timeout or (for a handshake) a `Synced`; nothing waits while nothing is in
flight; and the bytes ever placed outbound are copies of the first packet, then of the
second, and so on, each of which decodes to what was submitted under the counter of its
dispatch.
-/
theorem queue_conserves (s : Session) (ops : List Op) (w : Watched)
    (hr : (Watched.start s.reset).run ops = some w) :
    ∃ ds : List Dispatch,
      w.log.submitted = ds.map (·.queued.entry) ++ w.session.queued.map (·.entry)
      ∧ List.Forall₂ (fun d f => Session.Carries f d.queued d.counter) ds
          (w.log.retired.map Prod.fst ++ w.session.inFlight.toList)
      ∧ w.log.counters = ds.map (·.counter)
      ∧ (∀ p ∈ w.log.retired, Session.closes p.1 p.2 = true)
      ∧ w.log.emitted.filterMap (fun p => p.2.map (p.1, ·))
          = w.log.retired.zipIdx.map (fun p => (p.1.2, p.2))
      ∧ (∀ p ∈ w.log.emitted, Session.Final p.1 → p.2.isSome)
      ∧ (w.session.inFlight = none → w.session.queued = [])
      ∧ w.log.placed.map Prod.snd = ds.flatMap (fun d => List.replicate d.copies d.packet.wire)
      ∧ w.session.outbound = (w.log.placed.drop w.log.taken).map Prod.snd
      ∧ ∀ d ∈ ds, 0 < d.copies
          ∧ d.queued.bytesWithoutSync.build d.counter = some d.packet.wire
          ∧ decode d.packet.wire = some (.ok (d.packet, d.packet.wire.length))
          ∧ d.packet.sync = d.counter ∧ d.packet.content = d.queued.content := by
  obtain ⟨ds, h⟩ := conserved_run (conserved_start s) hr
  refine ⟨ds, h.submitted, h.flights, h.counters, h.closed, h.owned, h.unowned, h.idle, ?_,
    h.outbound, ?_⟩
  · rw [h.placed, Dispatch.sentAll_bytes]
  · intro d hd
    refine ⟨h.copies_pos d hd, d.queued.bytesWithoutSync.build_eq d.counter, ?_, rfl, rfl⟩
    have hdec := decode_wire (d.queued.packet_valid d.counter) []
    rw [List.append_nil, ← Packet.wire_length] at hdec
    exact hdec

/-- A handshake, two packets sent at once, and the ack of the first. -/
def sampleRun : List Op :=
  [.connect 0, .pollOutbound, .feed ("ss5,512,1.0\n".toUTF8.data.toList) 1,
    .send 1 0 [] 2, .send 1 3 [7, 8] 2, .feed ("ok5\n".toUTF8.data.toList) 3, .tick 4]

theorem sampleRun_completes : ((Watched.start Session.new.reset).run sampleRun).isSome := by
  decide +kernel

theorem queue_conserves_sampleRun :
    ∃ w, (Watched.start Session.new.reset).run sampleRun = some w
      ∧ ∃ ds : List Dispatch,
          w.log.submitted = ds.map (·.queued.entry) ++ w.session.queued.map (·.entry) := by
  obtain ⟨w, hw⟩ := Option.isSome_iff_exists.mp sampleRun_completes
  obtain ⟨ds, hds, -⟩ := queue_conserves Session.new sampleRun w hw
  exact ⟨w, hw, ds, hds⟩

end MarlinTransfer
