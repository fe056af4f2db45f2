import MarlinTransfer.Link.RoundTrip

/-!
# Recovery

A round trip is always possible. Whatever was lost before, the transport can take what is
outbound, the device can hear what is under way, its lines can arrive, and the host can read them;
none of these gives a packet up. So as long as the packet in flight may be sent once more within
its budget, no state of a link is a dead end: from then on everything sent can be delivered.
-/

namespace MarlinTransfer

open Codec Text Runs Session

variable {block : UInt16} {version : Str} {hv : '\n' ∉ version}

/-- What holds while the link recovers, from `l₀` with `i` packets retired, at `now`. -/
structure Recovering (block : UInt16) {version : Str} (hv : '\n' ∉ version) (i : Nat)
    (now : Instant) (l₀ l : Link Receiver) : Prop where
  reach : Reach (OrderlyStep block hv false) l₀ l
  regular : Regular l
  noTimeout : l.host.NoTimeout
  submitted : l.host.log.submitted = l₀.host.log.submitted
  timeouts : SameTimeouts l₀.host.session l.host.session
  /-- What goes out anew does so now. -/
  fresh : i < l.host.log.retired.length → ∀ f ∈ l.host.session.inFlight, JustSent f now

namespace Recovering

variable {i : Nat} {now : Instant} {l₀ l l' : Link Receiver}

/-- The host submits nothing, and gives nothing up. -/
theorem step (h : Recovering block hv i now l₀ l) {act : Act}
    (hs : Step (Receiver.device block hv) false act l l') (hact : ∀ t, act ≠ .connect t)
    (hsub : l'.host.log.submitted = l.host.log.submitted) (hno : l'.host.NoTimeout)
    (ht : SameTimeouts l.host.session l'.host.session)
    (hfresh : i < l'.host.log.retired.length → ∀ f ∈ l'.host.session.inFlight, JustSent f now) :
    OrderlyStep block hv false act l l' ∧ Recovering block hv i now l₀ l' := by
  have hsync : l'.host.NoneLikeSync := by
    have hsends : l'.host.sends = l.host.sends := by
      unfold Watched.sends
      rw [hsub]
    unfold Watched.NoneLikeSync
    rw [hsends]
    exact h.regular.noneLikeSync
  have hstep : OrderlyStep block hv false act l l' := ⟨hs, ⟨hact, hno⟩, hsync⟩
  exact ⟨hstep, h.reach.tail hstep, h.regular.step hstep, hno, hsub.trans h.submitted,
    ⟨ht.1.trans h.timeouts.1, ht.2.trans h.timeouts.2⟩, hfresh⟩

/-- The host is left alone. -/
theorem step_same (h : Recovering block hv i now l₀ l) {act : Act}
    (hs : Step (Receiver.device block hv) false act l l') (hact : ∀ t, act ≠ .connect t)
    (hhost : l'.host = l.host) :
    OrderlyStep block hv false act l l' ∧ Recovering block hv i now l₀ l' :=
  h.step hs hact (by rw [hhost]) (by rw [hhost]; exact h.noTimeout)
    (by rw [hhost]; exact ⟨rfl, rfl⟩) (by rw [hhost]; exact h.fresh)

/-- The transport can take a copy that is outbound. -/
theorem transmit (h : Recovering block hv i now l₀ l) {c : Nat × Bytes} {cs : List (Nat × Bytes)}
    (hd : l.host.log.placed.drop l.host.log.taken = c :: cs) :
    ∃ l', OrderlyStep block hv false .transmit l l' ∧ Recovering block hv i now l₀ l'
      ∧ l'.wire.forward = l.wire.forward ∧ l'.host.log.placed.drop l'.host.log.taken = cs := by
  obtain ⟨ds, hc⟩ := h.regular.wellFormed.conserved
  have hout := hc.outbound
  rw [hd, List.map_cons] at hout
  have hget : l.host.log.placed[l.host.log.taken]? = some (c.1, c.2) := by
    rw [← List.head?_drop, hd]
    rfl
  have hpoll : l.host.pollOutbound
      = ⟨{ l.host.session with outbound := cs.map Prod.snd },
          { l.host.log with taken := l.host.log.taken + 1 }⟩ := by
    unfold Watched.pollOutbound Session.pollOutbound
    rw [hout]
  have hs : Step (Receiver.device block hv) false .transmit l
      { l with host := l.host.pollOutbound, toDevice := l.toDevice ++ [(c.1, c.2)] } := by
    refine .transmit c.1 c.2 ?_ hget
    unfold Session.pollOutbound
    rw [hout]
  have hu := untouched_pollOutbound l.host
  have hno : l.host.pollOutbound.NoTimeout := by
    unfold Watched.NoTimeout
    rw [hu.emitted]
    exact h.noTimeout
  obtain ⟨hstep, h'⟩ := h.step hs (by simp) hu.submitted hno (by rw [hpoll]; exact ⟨rfl, rfl⟩)
    (by rw [hu.retired, hu.inFlight]; exact h.fresh)
  have hdrop : l.host.pollOutbound.log.placed.drop l.host.pollOutbound.log.taken = cs := by
    rw [hpoll]
    dsimp only
    rw [← List.tail_drop, hd]
    rfl
  refine ⟨_, hstep, h', ?_, hdrop⟩
  unfold Link.wire
  dsimp only
  rw [hdrop, hd, List.append_assoc]
  rfl

theorem hear (h : Recovering block hv i now l₀ l) {c : Nat × Bytes} {rest : List (Nat × Bytes)}
    (hq : l.toDevice = c :: rest) :
    ∃ l', OrderlyStep block hv false .hear l l' ∧ Recovering block hv i now l₀ l'
      ∧ l'.toDevice = rest := by
  obtain ⟨hstep, h'⟩ := h.step_same (.hear c rest _ _ hq rfl) (by simp) rfl
  exact ⟨_, hstep, h', rfl⟩

theorem arrive (h : Recovering block hv i now l₀ l) {line : Bytes} {rest : List Bytes}
    (hq : l.toHost = line :: rest) :
    ∃ l', OrderlyStep block hv false .arrive l l' ∧ Recovering block hv i now l₀ l'
      ∧ l'.unread = l.unread ∧ l'.toHost = rest := by
  obtain ⟨hstep, h'⟩ := h.step_same (.arrive line rest hq) (by simp) rfl
  refine ⟨_, hstep, h', ?_, rfl⟩
  unfold Link.unread
  rw [hq, Lines.unlines_cons, List.append_assoc, List.append_assoc]
  rfl

/-- What a reply does at this time to the packet in flight. -/
theorem fresh_take (h : Recovering block hv i now l₀ l) (r : Reply) :
    i < (l.host.take r now).log.retired.length →
      ∀ f ∈ (l.host.take r now).session.inFlight, JustSent f now := by
  obtain ⟨ds, hc⟩ := h.regular.wellFormed.conserved
  intro hlt f hf
  cases moves_take hc r now with
  | still hf' hr =>
    rw [hr] at hlt
    rw [hf'] at hf
    exact h.fresh hlt f hf
  | launched g _ hg hjust =>
    rw [hg] at hf
    obtain rfl := Option.some.inj hf
    exact hjust
  | again _ _ _ _ _ _ _ _ ho =>
    -- a reply finds nothing overdue
    rw [overdues_readOne] at ho
    cases ho
  | dropped _ _ _ hnone =>
    rw [hnone] at hf
    cases hf
  | replaced _ g _ _ hg hjust =>
    rw [hg] at hf
    obtain rfl := Option.some.inj hf
    exact hjust

theorem noTimeout_take (h : Recovering block hv i now l₀ l) (r : Reply) :
    (l.host.take r now).NoTimeout := by
  obtain ⟨ds, hc⟩ := h.regular.wellFormed.conserved
  intro p hp n
  cases taken hc r now with
  | quiet ht =>
    rw [ht.log] at hp
    rcases List.mem_append.mp hp with hp | hp
    · exact h.noTimeout p hp n
    · obtain ⟨e, he, rfl⟩ := List.mem_map.mp hp
      rintro rfl
      unfold told at he
      split at he <;> simp at he
  | acked f _ _ hr =>
    rw [hr.emitted] at hp
    rcases List.mem_append.mp hp with hp | hp
    · exact h.noTimeout p hp n
    · rw [List.mem_singleton.mp hp]
      simp
  | synced f _ _ _ _ _ hr =>
    rw [hr.emitted] at hp
    rcases List.mem_append.mp hp with hp | hp
    · exact h.noTimeout p hp n
    · rw [List.mem_singleton.mp hp]
      simp

/-- The host can read a byte that has arrived. -/
theorem read (h : Recovering block hv i now l₀ l) {b : UInt8} {rest : Bytes}
    (hq : l.arriving = b :: rest) :
    ∃ l', OrderlyStep block hv false (.read now) l l' ∧ Recovering block hv i now l₀ l'
      ∧ l'.arriving = rest := by
  have hs : Step (Receiver.device block hv) false (.read now) l
      { l with host := l.host.feed [b] now, arriving := rest } := .read b rest now hq
  have hsub := submitted_feed l.host [b] now
  by_cases hb : b = 0x0A
  · subst hb
    have hfeed := Watched.feed_lf h.regular.wellFormed.unfinished now
    obtain ⟨hstep, h'⟩ := h.step hs (by simp) hsub (by rw [hfeed]; exact h.noTimeout_take _)
      (by rw [hfeed]; exact sameTimeouts_take l.host.session _ now)
      (by rw [hfeed]; exact h.fresh_take _)
    exact ⟨_, hstep, h', rfl⟩
  · have hfeed := Watched.feed_byte h.regular.wellFormed.unfinished hb now
    obtain ⟨hstep, h'⟩ := h.step hs (by simp) hsub (by rw [hfeed]; exact h.noTimeout)
      (by rw [hfeed]; exact ⟨rfl, rfl⟩) (by rw [hfeed]; exact h.fresh)
    exact ⟨_, hstep, h', rfl⟩

/-- Everything outbound is taken. -/
theorem drain_outbound (h : Recovering block hv i now l₀ l) :
    ∃ acts l', Trail (OrderlyStep block hv false) l acts l' ∧ Recovering block hv i now l₀ l'
      ∧ l'.toDevice = l.wire.forward := by
  have hone : ∀ k : Link Receiver,
      Recovering block hv i now l₀ k ∧ k.wire.forward = l.wire.forward →
      (k.host.log.placed.drop k.host.log.taken).length ≠ 0 →
      ∃ k', OrderlyStep block hv false .transmit k k'
        ∧ (Recovering block hv i now l₀ k' ∧ k'.wire.forward = l.wire.forward)
        ∧ (k'.host.log.placed.drop k'.host.log.taken).length + 1
          = (k.host.log.placed.drop k.host.log.taken).length := by
    intro k ⟨h, hforward⟩ hsome
    cases hd : k.host.log.placed.drop k.host.log.taken with
    | nil => exact absurd (by rw [hd]; rfl) hsome
    | cons c cs =>
      obtain ⟨k', hstep, h', hsame, hd'⟩ := h.transmit hd
      exact ⟨k', hstep, ⟨h', hsame.trans hforward⟩, by rw [hd']; rfl⟩
  obtain ⟨l', htrail, ⟨h', hforward⟩, hzero⟩ := Trail.drain Act.transmit
    (fun k : Link Receiver => (k.host.log.placed.drop k.host.log.taken).length)
    (P := fun k => Recovering block hv i now l₀ k ∧ k.wire.forward = l.wire.forward) hone ⟨h, rfl⟩
  refine ⟨_, l', htrail, h', ?_⟩
  rw [← hforward]
  unfold Link.wire
  dsimp only
  rw [List.length_eq_zero_iff.mp hzero, List.append_nil]

/-- Everything taken is heard. -/
theorem drain_toDevice (h : Recovering block hv i now l₀ l) :
    ∃ l', Trail (OrderlyStep block hv false) l (List.replicate l.toDevice.length .hear) l'
      ∧ Recovering block hv i now l₀ l' := by
  have hone : ∀ k : Link Receiver, Recovering block hv i now l₀ k → k.toDevice.length ≠ 0 →
      ∃ k', OrderlyStep block hv false .hear k k' ∧ Recovering block hv i now l₀ k'
        ∧ k'.toDevice.length + 1 = k.toDevice.length := by
    intro k h hsome
    cases hq : k.toDevice with
    | nil => exact absurd (by rw [hq]; rfl) hsome
    | cons c rest =>
      obtain ⟨k', hstep, h', hq'⟩ := h.hear hq
      exact ⟨k', hstep, h', by rw [hq']; rfl⟩
  obtain ⟨l', htrail, h', -⟩ :=
    Trail.drain Act.hear (fun k : Link Receiver => k.toDevice.length) hone h
  exact ⟨l', htrail, h'⟩

/-- Everything said arrives. -/
theorem drain_toHost (h : Recovering block hv i now l₀ l) :
    ∃ acts l', Trail (OrderlyStep block hv false) l acts l' ∧ Recovering block hv i now l₀ l'
      ∧ l'.arriving = l.unread := by
  have hone : ∀ k : Link Receiver, Recovering block hv i now l₀ k ∧ k.unread = l.unread →
      k.toHost.length ≠ 0 →
      ∃ k', OrderlyStep block hv false .arrive k k'
        ∧ (Recovering block hv i now l₀ k' ∧ k'.unread = l.unread)
        ∧ k'.toHost.length + 1 = k.toHost.length := by
    intro k ⟨h, hunread⟩ hsome
    cases hq : k.toHost with
    | nil => exact absurd (by rw [hq]; rfl) hsome
    | cons line rest =>
      obtain ⟨k', hstep, h', hsame, hq'⟩ := h.arrive hq
      exact ⟨k', hstep, ⟨h', hsame.trans hunread⟩, by rw [hq']; rfl⟩
  obtain ⟨l', htrail, ⟨h', hunread⟩, hzero⟩ :=
    Trail.drain Act.arrive (fun k : Link Receiver => k.toHost.length)
      (P := fun k => Recovering block hv i now l₀ k ∧ k.unread = l.unread) hone ⟨h, rfl⟩
  refine ⟨_, l', htrail, h', ?_⟩
  rw [← hunread]
  unfold Link.unread
  rw [List.length_eq_zero_iff.mp hzero, Lines.unlines_nil, List.append_nil]

/-- Everything that arrived is read. -/
theorem drain_arriving (h : Recovering block hv i now l₀ l) :
    ∃ l', Trail (OrderlyStep block hv false) l (List.replicate l.arriving.length (.read now)) l'
      ∧ Recovering block hv i now l₀ l' := by
  have hone : ∀ k : Link Receiver, Recovering block hv i now l₀ k → k.arriving.length ≠ 0 →
      ∃ k', OrderlyStep block hv false (.read now) k k' ∧ Recovering block hv i now l₀ k'
        ∧ k'.arriving.length + 1 = k.arriving.length := by
    intro k h hsome
    cases hq : k.arriving with
    | nil => exact absurd (by rw [hq]; rfl) hsome
    | cons b rest =>
      obtain ⟨k', hstep, h', hq'⟩ := h.read hq
      exact ⟨k', hstep, h', by rw [hq']; rfl⟩
  obtain ⟨l', htrail, h', -⟩ :=
    Trail.drain (Act.read now) (fun k : Link Receiver => k.arriving.length) hone h
  exact ⟨l', htrail, h'⟩

end Recovering

/-- The packet in flight may be sent once more now. -/
def Resendable (now : Instant) (w : Watched) : Prop :=
  ∀ f ∈ w.session.inFlight, w.session.responseTimeout ≤ now - f.lastSent
    ∧ now - f.firstSent < w.session.totalTimeout

/-- A tick that sends the packet in flight once more gives nothing up. -/
theorem recovering_tick (block : UInt16) {version : Str} (hv : '\n' ∉ version) {l : Link Receiver}
    {now : Instant} (h : Regular l) (hno : l.host.NoTimeout) (hdue : Resendable now l.host) :
    ∃ l', OrderlyStep block hv false (.tick now) l l'
      ∧ Recovering block hv l.host.log.retired.length now l l' := by
  have hstart : Recovering block hv l.host.log.retired.length now l l :=
    ⟨.init, h, hno, rfl, ⟨rfl, rfl⟩, fun hlt => absurd hlt (Nat.lt_irrefl _)⟩
  have hlog : (l.host.tick now).log.retired = l.host.log.retired
      ∧ (l.host.tick now).log.emitted = l.host.log.emitted := by
    cases hf : l.host.session.inFlight with
    | none =>
      have hself : l.host.tick now = l.host := by
        unfold Watched.tick
        rw [tick_idle hf]
        exact after_self l.host
      rw [hself]
      exact ⟨rfl, rfl⟩
    | some f =>
      obtain ⟨hlate, hin⟩ := hdue f hf
      have hlog := (late_tick hf (Nat.not_le.mpr hin) hlate).2
      rw [hlog]
      exact ⟨rfl, rfl⟩
  obtain ⟨hstep, h'⟩ := hstart.step (.tick now) (by simp) rfl
    (by unfold Watched.NoTimeout; rw [hlog.2]; exact hno) (sameTimeouts_tick l.host.session now)
    (by rw [hlog.1]; exact fun hlt => absurd hlt (Nat.lt_irrefl _))
  exact ⟨_, hstep, h'⟩

theorem OrderlyStep.on_lossy {l l' : Link Receiver} {act : Act}
    (h : OrderlyStep block hv false act l l') : OrderlyStep block hv true act l l' :=
  ⟨h.1.on_lossy, h.2⟩

/-- **A round trip is possible** from every state in which the packet in flight may be sent once
more, and it leaves the next packet just sent. -/
theorem round_possible (block : UInt16) {version : Str} (hv : '\n' ∉ version) {l : Link Receiver}
    {now : Instant} (h : Regular l) (hno : l.host.NoTimeout) (hdue : Resendable now l.host) :
    ∃ l', Round block hv l l' ∧ Recovering block hv l.host.log.retired.length now l l' := by
  obtain ⟨asked, htick, hasked⟩ := recovering_tick block hv h hno hdue
  obtain ⟨taking, taken, htaking, htaken, hall⟩ := hasked.drain_outbound
  obtain ⟨heard, hhears, hheard⟩ := htaken.drain_toDevice
  obtain ⟨arriving, arrived, harriving, harrived, hunread⟩ := hheard.drain_toHost
  obtain ⟨l', hreads, h'⟩ := harrived.drain_arriving
  refine ⟨l', .mk .init htick.on_lossy (fun f hf => (hdue f hf).1) (htaking.append hhears) ?_
    (harriving.append hreads) ?_, h'⟩
  · rw [List.countP_append, List.countP_replicate, if_pos (by rfl), hall]
    exact Nat.le_add_left _ _
  · rw [List.countP_append, List.countP_replicate, if_pos (by rfl), hunread]
    exact Nat.le_add_left _ _

/-- What has just been sent may be sent once more a response timeout later. -/
theorem resendable_of_justSent {w : Watched} {now : Instant}
    (hshort : w.session.responseTimeout < w.session.totalTimeout)
    (h : ∀ f ∈ w.session.inFlight, JustSent f now) :
    Resendable (now + w.session.responseTimeout) w := by
  intro f hf
  have hjust := h f hf
  rw [hjust.firstSent, hjust.lastSent, Nat.add_sub_cancel_left]
  exact ⟨Nat.le_refl _, hshort⟩

/-- One round trip after the other retires everything submitted. -/
theorem retires_everything (block : UInt16) {version : Str} (hv : '\n' ∉ version) (n : Nat) :
    ∀ {l : Link Receiver} {now : Instant}, Regular l → l.host.NoTimeout →
      l.host.session.responseTimeout < l.host.session.totalTimeout → Resendable now l.host →
      l.host.log.submitted.length ≤ l.host.log.retired.length + n →
      ∃ l', Reach (OrderlyStep block hv false) l l' ∧ Regular l'
        ∧ l'.host.log.submitted = l.host.log.submitted
        ∧ l.host.log.submitted.length ≤ l'.host.log.retired.length := by
  induction n with
  | zero => exact fun {l now} h _ _ _ hall => ⟨l, .init, h, rfl, hall⟩
  | succ n ih =>
    intro l now h hno hshort hdue hall
    by_cases hdone : l.host.log.submitted.length ≤ l.host.log.retired.length
    · exact ⟨l, .init, h, rfl, hdone⟩
    · obtain ⟨l₁, hround, h₁⟩ := round_possible block hv h hno hdue
      have hmin := (hround.gains h).retired
      have hmore : l.host.log.retired.length < l₁.host.log.retired.length := by omega
      obtain ⟨hresponse, htotal⟩ := h₁.timeouts
      obtain ⟨l', hreach, h', hsub, hret⟩ := ih h₁.regular h₁.noTimeout
        (by rw [hresponse, htotal]; exact hshort)
        (resendable_of_justSent (by rw [hresponse, htotal]; exact hshort) (h₁.fresh hmore))
        (by rw [h₁.submitted]; omega)
      refine ⟨l', ?_, h', hsub.trans h₁.submitted, by rw [← h₁.submitted]; exact hret⟩
      exact h₁.reach.trans hreach

/-- Where everything submitted is retired, everything sent was acked and accepted. -/
theorem Regular.all_acked {l : Link Receiver} (h : Regular l)
    (hall : l.host.log.submitted.length ≤ l.host.log.retired.length) :
    l.host.acked = l.host.sends ∧ l.device.accepted = l.host.sends := by
  have hacked := h.inOrder.acked_prefix
  obtain ⟨ds, hc⟩ := h.wellFormed.conserved
  rcases h.inOrder.phase with hs | ⟨sub, k, hfl⟩
  · have hsub : l.host.log.submitted = _ := hs.submitted
    have hret : l.host.log.retired = [] := hs.retired
    rw [hsub, hret] at hall
    exact absurd hall (by simp)
  · have hsub : l.host.log.submitted = _ := hfl.submitted
    have hret : l.host.log.retired.length = k + 1 := hfl.retired
    rw [hsub, hret, List.length_cons] at hall
    have hsends : l.host.sends = sub.map Prod.fst := hfl.sends_eq
    have hack : l.host.acked = sub.map Prod.fst := by
      rw [show l.host.acked = _ from hfl.acked, List.take_of_length_le (by omega)]
    refine ⟨hack.trans hsends.symm, ?_⟩
    rw [hsends]
    rcases hfl.progress with hl | ha
    · rw [show l.device.accepted = _ from hl.accepted, List.take_of_length_le (by omega)]
    · rw [show l.device.accepted = _ from ha.accepted, List.take_of_length_le (by omega)]

theorem noTimeout_reach {s : Session} {now : Instant} {e : UInt8} {l : Link Receiver} {lossy : Bool}
    (hr : Reach (OrderlyStep block hv lossy) (Link.connected s now ⟨e, []⟩) l) :
    l.host.NoTimeout :=
  hr.invariant (P := fun l => l.host.NoTimeout) (fun _ hp => (nomatch hp))
    fun _ _ _ _ hs => hs.2.1.2

/--
**No state is a dead end.** From any link a run of orderly steps reaches, whatever was lost: if the
packet in flight may still be sent once more, then from then on, with nothing lost, everything sent
can be delivered, so that every packet is acked and the device has accepted exactly what was sent.
-/
theorem everything_deliverable {block : UInt16} {version : Str} (hv : '\n' ∉ version) (s : Session)
    (start now : Instant) (e : UInt8) (l : Link Receiver)
    (hr : Reach (OrderlyStep block hv true) (Link.connected s start ⟨e, []⟩) l)
    (hshort : l.host.session.responseTimeout < l.host.session.totalTimeout)
    (hdue : Resendable now l.host) :
    ∃ l', Reach (OrderlyStep block hv false) l l' ∧ l'.host.sends = l.host.sends
      ∧ l'.host.acked = l.host.sends ∧ l'.device.accepted = l.host.sends := by
  have hl := (Gains.reach (regular_connected s start e) hr).regular
  obtain ⟨l', hreach, h', hsub, hret⟩ :=
    retires_everything block hv l.host.log.submitted.length hl
      (noTimeout_reach hr) hshort hdue (Nat.le_add_left _ _)
  have hsends : l'.host.sends = l.host.sends := by
    unfold Watched.sends
    rw [hsub]
  obtain ⟨hacked, haccepted⟩ := h'.all_acked (by rw [hsub]; exact hret)
  exact ⟨l', hreach, hsends, hacked.trans hsends, haccepted.trans hsends⟩

/-- The packet of `sendingScript` is lost, and can be delivered all the same. -/
theorem everything_deliverable_lostCopy :
    ∃ l l' : Link Receiver,
      Reach (OrderlyStep 512 (by decide : '\n' ∉ ['1']) true)
          (Link.connected Session.new 0 ⟨255, []⟩) l
        ∧ l.toDevice = [] ∧ l.host.sends = [⟨1, 3, [1]⟩] ∧ l.device.accepted = []
        ∧ Reach (OrderlyStep 512 (by decide : '\n' ∉ ['1']) false) l l'
        ∧ l'.device.accepted = [⟨1, 3, [1]⟩] := by
  have hrun : (runOrderly sendingScript (Link.connected Session.new 0 ⟨255, []⟩)).any (fun l =>
      l.toDevice.length = 1 ∧ l.host.sends = [⟨1, 3, [1]⟩] ∧ l.device.accepted = []
        ∧ l.host.session.responseTimeout < l.host.session.totalTimeout
        ∧ (∀ f ∈ l.host.session.inFlight, l.host.session.responseTimeout ≤ 1000000001 - f.lastSent
          ∧ 1000000001 - f.firstSent < l.host.session.totalTimeout)
        ∧ Orderly .loseCopy l.host) = true := by
    decide +kernel
  obtain ⟨l, hl, hobs⟩ := (Option.any_eq_true _ _).mp hrun
  obtain ⟨htaken, hsends, haccepted, hshort, hdue, horderly⟩ := of_decide_eq_true hobs
  have hlost := (runScript_reach receiverConduct_fits .init hl).tail (lose_copy htaken horderly)
  obtain ⟨l', hreach, -, -, h⟩ :=
    everything_deliverable (by decide) Session.new 0 1000000001 255 _ hlost hshort hdue
  exact ⟨_, l', hlost, rfl, hsends, haccepted, hreach, h.trans hsends⟩

end MarlinTransfer
