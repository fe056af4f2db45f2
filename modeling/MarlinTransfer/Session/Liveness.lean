import MarlinTransfer.Session.Timing

/-!
# Packets that are not answered

A session does not wait for ever: a tick at least the total timeout after the packet in flight
went out gives it up, if nothing else has ended it. So ticks that are as far apart as that end
one packet each, whatever is fed, sent or ticked in between: if none ended since the last of
them, the packet in flight has been so all the time, and is overdue.
-/

namespace MarlinTransfer

open Codec Text Session

namespace Op

/-- When a call takes place, if it is told the time. -/
def instant : Op → Option Instant
  | .connect now => some now
  | .send _ _ _ now => some now
  | .feed _ now => some now
  | .tick now => some now
  | .pollOutbound => none
  | .pollEvent => none

def tickInstant : Op → Option Instant
  | .tick now => some now
  | _ => none

end Op

/-- The readings of the clock in a run. -/
def instants (ops : List Op) : List Instant := ops.filterMap Op.instant

/-- The ticks of a run. -/
def ticks (ops : List Op) : List Instant := ops.filterMap Op.tickInstant

/-! ## What every step keeps -/

variable {w w' : Watched} {ds : List Dispatch} {now : Instant}

/-- What every movement of a packet keeps, and what depends on nothing else, a call keeps. -/
theorem kept_step {P : Watched → Prop}
    (hmove : ∀ {w w' : Watched} {ms : List Mark}, P w → Moves now ms w w' → P w')
    (hsame : ∀ {w w' : Watched}, P w → w'.session.inFlight = w.session.inFlight →
      w'.log.retired = w.log.retired → P w')
    (hc : Conserved w ds) {op : Op} (hop : ∀ t ∈ op.instant, t = now) (h : P w)
    (hs : w.step op = some w') : P w' := by
  cases op with
  | connect t =>
    obtain rfl := hop t rfl
    cases hs
    exact hmove h (moves_connect hc t)
  | send protocol packetType payload t =>
    obtain rfl := hop t rfl
    exact hmove h (moves_send hc hs)
  | feed bytes t =>
    obtain rfl := hop t rfl
    cases hs
    have hall : ∀ (rs : List Reply) {w : Watched} {ds : List Dispatch}, Conserved w ds → P w →
        P (w.takeAll rs t) := by
      intro rs
      induction rs with
      | nil => exact fun _ h => h
      | cons r rs ih =>
        intro w ds hc h
        obtain ⟨ds', hc'⟩ := hc.take r t
        exact ih hc' (hmove h (moves_take hc r t))
    exact hsame (hall _ hc h) rfl rfl
  | tick t =>
    obtain rfl := hop t rfl
    cases hs
    exact hmove h (moves_tick w t)
  | pollOutbound =>
    cases hs
    exact hsame h (untouched_pollOutbound w).inFlight (untouched_pollOutbound w).retired
  | pollEvent =>
    cases hs
    exact hsame h (untouched_pollEvent w).inFlight (untouched_pollEvent w).retired

/-- The packet in flight went out before this. -/
def SentBy (t : Instant) (w : Watched) : Prop := ∀ f ∈ w.session.inFlight, f.firstSent ≤ t

theorem SentBy.mono {t t' : Instant} (h : SentBy t w) (hle : t ≤ t') : SentBy t' w :=
  fun f hf => Nat.le_trans (h f hf) hle

theorem SentBy.moves {t : Instant} {ms : List Mark} (h : SentBy t w) (hm : Moves now ms w w')
    (hle : now ≤ t) : SentBy t w' := by
  intro f hf
  cases hm with
  | still hf' => exact h f (hf' ▸ hf)
  | launched f' _ hf' hjust =>
    obtain rfl := Option.some.inj (hf'.symm.trans hf)
    rw [hjust.firstSent]
    exact hle
  | again f' hf₀ hf' =>
    obtain rfl := Option.some.inj (hf'.symm.trans hf)
    exact h f' hf₀
  | dropped _ _ _ hf' =>
    rw [hf'] at hf
    cases hf
  | replaced _ f' _ _ hf' hjust =>
    obtain rfl := Option.some.inj (hf'.symm.trans hf)
    rw [hjust.firstSent]
    exact hle

theorem SentBy.step {t : Instant} (h : SentBy t w) (hc : Conserved w ds) {op : Op}
    (hop : ∀ now ∈ op.instant, now ≤ t) (hs : w.step op = some w') : SentBy t w' := by
  have hnow : ∃ now, (∀ t' ∈ op.instant, t' = now) ∧ now ≤ t := by
    cases hi : op.instant with
    | none => exact ⟨t, fun _ hm => (nomatch hm), Nat.le_refl t⟩
    | some now => exact ⟨now, fun _ hm => (Option.some.inj hm).symm, hop now hi⟩
  obtain ⟨now, hnow, hle⟩ := hnow
  exact kept_step (P := SentBy t) (fun h hm => h.moves hm hle) (fun h hf _ f hf' => h f (hf ▸ hf'))
    hc hnow h hs

theorem sentBy_run {t : Instant} {ops : List Op} {ds : List Dispatch} (h : SentBy t w)
    (hc : Conserved w ds) (hops : ∀ now ∈ instants ops, now ≤ t) (hr : w.run ops = some w') :
    SentBy t w' := by
  induction ops generalizing w ds with
  | nil =>
    cases hr
    exact h
  | cons op ops ih =>
    obtain ⟨w₁, h₁, h₂⟩ := Option.bind_eq_some_iff.mp hr
    obtain ⟨ds₁, hc₁⟩ := conserved_step hc h₁
    have hmem : ∀ now, now ∈ op.instant ∨ now ∈ instants ops → now ∈ instants (op :: ops) := by
      intro now hm
      unfold instants at hm ⊢
      rcases hm with hm | hm
      · exact List.mem_filterMap.mpr ⟨op, List.mem_cons_self, hm⟩
      · obtain ⟨op', hop', hm⟩ := List.mem_filterMap.mp hm
        exact List.mem_filterMap.mpr ⟨op', List.mem_cons_of_mem _ hop', hm⟩
    exact ih (h.step hc (fun now hm => hops now (hmem now (.inl hm))) h₁) hc₁
      (fun now hm => hops now (hmem now (.inr hm))) h₂

theorem length_retired_snoc {p : InFlight × Event} (h : w'.log.retired = w.log.retired ++ [p]) :
    w'.log.retired.length = w.log.retired.length + 1 := by
  rw [h, List.length_append, List.length_singleton]

theorem retired_mono {ms : List Mark} (hm : Moves now ms w w') :
    w.log.retired.length ≤ w'.log.retired.length := by
  cases hm with
  | still _ hr => rw [hr]
  | launched _ _ _ _ hr => rw [hr]
  | again _ _ _ _ _ hr => rw [hr]
  | dropped _ _ _ _ hr => rw [length_retired_snoc hr]; exact Nat.le_succ _
  | replaced _ _ _ _ _ _ hr => rw [length_retired_snoc hr]; exact Nat.le_succ _

/-- The packet in flight is retired, or remains in flight since the same instant. -/
theorem retired_or_flying {ms : List Mark} (hm : Moves now ms w w') {f : InFlight}
    (hf : w.session.inFlight = some f) :
    w.log.retired.length < w'.log.retired.length
      ∨ w'.log.retired.length = w.log.retired.length
        ∧ ∃ f' ∈ w'.session.inFlight, f'.firstSent = f.firstSent := by
  cases hm with
  | still hf' hr => exact .inr ⟨by rw [hr], f, hf'.trans hf, rfl⟩
  | launched _ hidle =>
    rw [hidle] at hf
    cases hf
  | again f' hf₀ hf' _ _ hr =>
    obtain rfl := Option.some.inj (hf₀.symm.trans hf)
    exact .inr ⟨by rw [hr], _, hf', rfl⟩
  | dropped _ _ _ _ hr => exact .inl (by rw [length_retired_snoc hr]; exact Nat.lt_succ_self _)
  | replaced _ _ _ _ _ _ hr => exact .inl (by rw [length_retired_snoc hr]; exact Nat.lt_succ_self _)

/-- `goal` packets are retired, or more than `m`, or `m` and the next has been in flight since
`anchor`. -/
def OnTime (goal m : Nat) (anchor : Instant) (w : Watched) : Prop :=
  goal ≤ w.log.retired.length ∨ m < w.log.retired.length
    ∨ w.log.retired.length = m ∧ ∃ f ∈ w.session.inFlight, f.firstSent ≤ anchor

variable {goal m : Nat} {anchor : Instant}

theorem OnTime.le (h : OnTime goal m anchor w) : min goal m ≤ w.log.retired.length := by
  rcases h with h | h | ⟨h, -⟩ <;> omega

theorem OnTime.moves {ms : List Mark} (h : OnTime goal m anchor w) (hm : Moves now ms w w') :
    OnTime goal m anchor w' := by
  have hmono := retired_mono hm
  rcases h with hgoal | hmore | ⟨hcount, f, hf, hsent⟩
  · exact .inl (Nat.le_trans hgoal hmono)
  · exact .inr (.inl (Nat.lt_of_lt_of_le hmore hmono))
  · rcases retired_or_flying hm hf with hlt | ⟨hsame, f', hf', hfirst⟩
    · exact .inr (.inl (by omega))
    · exact .inr (.inr ⟨by omega, f', hf', by rw [hfirst]; exact hsent⟩)

/-- A tick that finds the budget exhausted retires the packet. -/
theorem retires_tick {f : InFlight} (hf : w.session.inFlight = some f)
    (ht : now - f.firstSent ≥ w.session.totalTimeout) :
    Retires f (.timeout f.sync) w (w.tick now) := by
  unfold Watched.tick
  rw [tick_expired hf ht]
  refine retires_of_next hf (by simp [closes]) ?_
    (next_dispatchIfIdle (s := w.session) (t := w.session.giveUp f.sync) rfl rfl rfl now)
  rw [dispatchIfIdle_events]
  rfl

/-- **A tick that comes late enough** ends one packet more. -/
theorem OnTime.tick (h : OnTime goal m anchor w) (hc : Conserved w ds)
    (hgoal : goal ≤ w.log.submitted.length) (hsent : SentBy now w)
    (hlate : anchor + w.session.totalTimeout ≤ now) : OnTime goal (m + 1) now (w.tick now) := by
  have hm := moves_tick w now
  obtain ⟨ds', hc'⟩ := hc.tick now
  have hmono := retired_mono hm
  -- of the packet in flight after the tick, if any
  have hnext : (w.tick now).log.retired.length = m + 1 → OnTime goal (m + 1) now (w.tick now) := by
    intro hcount
    cases hf : (w.tick now).session.inFlight with
    | none =>
      -- nothing waits, so that everything submitted is retired
      have hsub := congrArg List.length hc'.submitted
      rw [hc'.idle hf, List.map_nil, List.append_nil, List.length_map, hc'.length_idle hf] at hsub
      exact .inl (Nat.le_trans hgoal (Nat.le_of_eq hsub))
    | some f => exact .inr (.inr ⟨hcount, f, hf, hsent.moves hm (Nat.le_refl _) f hf⟩)
  rcases h with hdone | hmore | ⟨hcount, f, hf, hfirst⟩
  · exact .inl (Nat.le_trans hdone hmono)
  · by_cases heq : (w.tick now).log.retired.length = m + 1
    · exact hnext heq
    · exact .inr (.inl (by omega))
  · have hdue : w.session.totalTimeout + f.firstSent ≤ now := by
      rw [Nat.add_comm]
      exact Nat.le_trans (Nat.add_le_add_right hfirst _) hlate
    have hretired := (retires_tick hf (Nat.le_sub_of_add_le hdue)).retired
    have := length_retired_snoc hretired
    exact hnext (by omega)

/-! ## Runs -/

/-- A run on a clock that is never set back. -/
theorem onTime_run {T : Duration} {ops : List Op} :
    ∀ {w w' : Watched} {ds : List Dispatch} {R : Duration} {h : List Mark} {anchor clock : Instant}
      {m : Nat} {late : List Instant}, Conserved w ds → Timed R T w h →
      goal ≤ w.log.submitted.length → SentBy clock w → OnTime goal m anchor w →
      (clock :: instants ops).Pairwise (· ≤ ·) → late.Sublist (ticks ops) →
      (anchor :: late).IsChain (fun a b => a + T ≤ b) → w.run ops = some w' →
      min goal (m + late.length) ≤ w'.log.retired.length := by
  induction ops with
  | nil =>
    intro w w' ds R h anchor clock m late _ _ _ _ hontime _ hlate _ hr
    cases hr
    obtain rfl := List.sublist_nil.mp hlate
    exact hontime.le
  | cons op ops ih =>
    intro w w' ds R h anchor clock m late hc ht hgoal hsent hontime hclock hlate hchain hr
    obtain ⟨w₁, h₁, h₂⟩ := Option.bind_eq_some_iff.mp hr
    obtain ⟨ds₁, hc₁⟩ := conserved_step hc h₁
    have ht₁ := (Timed.lasting R T).step hc ht h₁
    have hgoal₁ := Nat.le_trans hgoal (submitted_step h₁).length_le
    -- the time of the call, and that no call after it is earlier
    obtain ⟨now, hop, hle, hclock₁⟩ : ∃ now, (∀ t ∈ op.instant, t = now) ∧ clock ≤ now
        ∧ (now :: instants ops).Pairwise (· ≤ ·) := by
      cases hi : op.instant with
      | none =>
        rw [instants, List.filterMap_cons_none hi] at hclock
        exact ⟨clock, fun t ht => (nomatch ht), Nat.le_refl _, hclock⟩
      | some t =>
        rw [instants, List.filterMap_cons_some hi] at hclock
        obtain ⟨hfirst, hrest⟩ := List.pairwise_cons.mp hclock
        exact ⟨t, fun t' ht' => (Option.some.inj ht').symm, hfirst t List.mem_cons_self, hrest⟩
    have hsent₁ : SentBy now w₁ :=
      (hsent.mono hle).step hc (fun t hm => Nat.le_of_eq (hop t hm)) h₁
    have hontime₁ : OnTime goal m anchor w₁ := by
      refine kept_step (P := OnTime goal m anchor) (fun h hm => h.moves hm) (fun h hf hr => ?_)
        hc hop hontime h₁
      unfold OnTime at h ⊢
      rw [hf, hr]
      exact h
    have hskip : late.Sublist (ticks ops) → min goal (m + late.length) ≤ w'.log.retired.length :=
      fun hlate => ih hc₁ ht₁ hgoal₁ hsent₁ hontime₁ hclock₁ hlate hchain h₂
    cases ht' : op.tickInstant with
    | none =>
      rw [ticks, List.filterMap_cons_none ht'] at hlate
      exact hskip hlate
    | some t =>
      obtain rfl : op = .tick t := by
        cases op with
        | tick t' => rw [Option.some.inj ht']
        | _ => cases ht'
      obtain rfl : t = now := hop t rfl
      rw [ticks, List.filterMap_cons_some ht'] at hlate
      cases hlate with
      | cons _ hlate => exact hskip hlate
      | cons_cons _ hlate =>
        -- one of the ticks that are counted
        rename_i late
        obtain ⟨hgap, hchain₁⟩ := List.isChain_cons_cons.mp hchain
        cases h₁
        have hontime₂ := hontime.tick hc hgoal (hsent.mono hle) (by rw [ht.timeouts.2]; exact hgap)
        have := ih hc₁ ht₁ hgoal₁ hsent₁ hontime₂ hclock₁ hlate hchain₁ h₂
        rw [List.length_cons]
        omega

/-- How a packet ended. -/
theorem Conserved.retired_entry (hc : Conserved w ds) {i : Nat} (hi : i < w.log.retired.length) :
    ∃ f e q c, w.log.retired[i]? = some (f, e) ∧ closes f e = true
      ∧ (e, some i) ∈ w.log.emitted ∧ w.log.submitted[i]? = some q.entry
      ∧ Session.Carries f q c := by
  have hret : w.log.retired[i]? = some (w.log.retired[i].1, w.log.retired[i].2) :=
    List.getElem?_eq_getElem hi
  have hlen : i < ds.length := by
    rw [hc.length_flights, Watched.flights, List.length_append, List.length_map]
    omega
  have hcarries : Session.Carries w.log.retired[i].1 ds[i].queued ds[i].counter := by
    have hi' : i < w.flights.length := hc.length_flights ▸ hlen
    have hflight : w.flights[i]? = some w.log.retired[i].1 := by
      unfold Watched.flights
      rw [List.getElem?_append_left (by rw [List.length_map]; exact hi), List.getElem?_map, hret]
      rfl
    rw [← Option.some.inj ((List.getElem?_eq_getElem hi').symm.trans hflight)]
    exact hc.flights.get hlen hi'
  refine ⟨_, _, ds[i].queued, ds[i].counter, hret, hc.closed _ (List.getElem_mem hi), ?_, ?_,
    hcarries⟩
  · have howned : (w.log.retired[i].2, i) ∈ w.log.retired.zipIdx.map fun p => (p.1.2, p.2) :=
      List.mem_map.mpr ⟨(w.log.retired[i], i), List.mem_zipIdx_iff_getElem?.mpr hret, rfl⟩
    rw [← hc.owned] at howned
    obtain ⟨⟨e, owner⟩, hmem, howner⟩ := List.mem_filterMap.mp howned
    obtain ⟨n, rfl, hn⟩ := Option.map_eq_some_iff.mp howner
    obtain ⟨rfl, rfl⟩ := Prod.mk.inj hn
    exact hmem
  · rw [hc.submitted, List.getElem?_append_left (by rw [List.length_map]; exact hlen),
      List.getElem?_map, List.getElem?_eq_getElem hlen]
    rfl

/--
**Nothing is outstanding for ever.** In a run of a session on a clock that is never set back, let
some ticks be at least the total timeout apart, the first of them that long after everything
before. Then each of them ends one more of the packets that were submitted before, in their order
and until all have ended, whatever else is called or fed in between: every such packet is retired,
and the session tells so by the ack, the timeout or, for a handshake, the `Synced` that is its own.
-/
theorem spaced_ticks_retire (s : Session) (before after : List Op) (w w' : Watched)
    (hw : (Watched.start s.reset).run before = some w) (hw' : w.run after = some w')
    (start : Instant) (hbefore : ∀ t ∈ instants before, t ≤ start)
    (hafter : (start :: instants after).Pairwise (· ≤ ·)) (late : List Instant)
    (hlate : late.Sublist (ticks after))
    (hspaced : (start :: late).IsChain fun a b => a + s.totalTimeout ≤ b) :
    ∀ i, i < w.log.submitted.length → i < w.log.retired.length + late.length →
      ∃ f e q c, w'.log.retired[i]? = some (f, e) ∧ closes f e = true
        ∧ (e, some i) ∈ w'.log.emitted ∧ w.log.submitted[i]? = some q.entry
        ∧ Session.Carries f q c := by
  intro i hsub hcount
  obtain ⟨ds, hc⟩ := conserved_run (conserved_start s) hw
  obtain ⟨ds', hc'⟩ := conserved_run hc hw'
  have hsent : SentBy start w :=
    sentBy_run (w := Watched.start s.reset) (fun f hf => (nomatch hf)) (conserved_start s)
      hbefore hw
  have hontime : OnTime w.log.submitted.length w.log.retired.length start w := by
    cases hf : w.session.inFlight with
    | none =>
      have hall := congrArg List.length hc.submitted
      rw [hc.idle hf, List.map_nil, List.append_nil, List.length_map, hc.length_idle hf] at hall
      exact .inl (Nat.le_of_eq hall)
    | some f => exact .inr (.inr ⟨rfl, f, hf, hsent f hf⟩)
  have hretired :=
    onTime_run hc (Timed.run s hw) (Nat.le_refl _) hsent hontime hafter hlate hspaced hw'
  obtain ⟨f, e, q, c, hret, hcl, hem, hq, hcar⟩ := hc'.retired_entry (i := i) (by omega)
  refine ⟨f, e, q, c, hret, hcl, hem, ?_, hcar⟩
  obtain ⟨more, hmore⟩ := submitted_run hw'
  rw [← hmore, List.getElem?_append_left hsub] at hq
  exact hq

/-- A handshake that is not answered, and one behind it. -/
def twoHandshakes : List Op := [.connect 3, .connect 4]

theorem spaced_ticks_retire_twoHandshakes :
    ∃ w w', (Watched.start Session.new.reset).run twoHandshakes = some w
      ∧ w.run [.tick 20000000004, .feed [0x66, 0x65, 0x0A] 30000000000, .tick 40000000004] = some w'
      ∧ ∃ f e, w'.log.retired[1]? = some (f, e) ∧ (e, some 1) ∈ w'.log.emitted := by
  obtain ⟨w, hw⟩ : ∃ w, (Watched.start Session.new.reset).run twoHandshakes = some w := ⟨_, rfl⟩
  obtain ⟨w', hw'⟩ : ∃ w', w.run [.tick 20000000004, .feed [0x66, 0x65, 0x0A] 30000000000,
      .tick 40000000004] = some w' := ⟨_, rfl⟩
  have hsub : w.log.submitted.length = 2 := by
    cases hw
    rfl
  obtain ⟨f, e, -, -, hret, -, hem, -⟩ := spaced_ticks_retire Session.new twoHandshakes _ w w'
    hw hw' 4 (by decide) (by decide) [20000000004, 40000000004] (by decide) (by decide) 1 (by omega)
    (Nat.lt_add_left _ (by decide))
  exact ⟨w, w', hw, hw', f, e, hret, hem⟩

end MarlinTransfer
