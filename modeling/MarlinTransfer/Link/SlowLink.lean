import MarlinTransfer.Link.Kept

/-!
# A transfer over a slow link

A transfer on a link to a device that answers every copy. Over a calm run, in which every
packet is dispatched with no earlier `ok` outstanding, every `ok` under way comes behind the
line that accepts the operation it answers, so nothing ever fails the transfer. A packet
that was retransmitted and is acked for the second time while the next one is in flight
breaks it (`retransmit_breaks_transfer`).
-/

namespace MarlinTransfer

open Codec Text Runs Session

/-! ## The invariant of the composition -/

/-- **The invariant**: nothing has failed, and no `ok` under way will make it fail. -/
structure Unbroken (profile : Profile) (l : Line) : Prop where
  wellFormed : l.link.WellFormed
  inStep : InStep profile l.link.wire
  sound : Sound l.transfer
  ready : Ready l.transfer
  unfailed : l.transfer.ft.state ≠ .failed
  returned : ∀ err, .failed err ∉ l.transfer.returned
  kept : ∀ op, l.transfer.ft.state = op.awaiting →
    Kept profile op l.transfer.ft.requestedCompression l.transfer.ft.heard l.link.wire

/-- A query asks for what the caller wants, which suits the device. -/
theorem supports_of_query {profile : Profile} {t t' : Transfer} {c : Call}
    (hop : c.operation = some .query) (hsuits : c.Suits profile) (h : t.step c = some t') :
    profile.supports t'.ft.requestedCompression = true := by
  cases c with
  | query compression now =>
    obtain ⟨⟨ft', s'⟩, hr, rfl⟩ := Option.map_eq_some_iff.mp h
    obtain ⟨-, -, rfl⟩ := FileTransfer.request_eq_some.mp hr
    exact hsuits
  | _ => cases hop

namespace Unbroken

variable {profile : Profile} {l l' : Line}

/-- No failure is pending. -/
theorem anyFailure_events (h : Unbroken profile l) :
    anyFailure l.transfer.host.session.events = false := by
  refine List.any_eq_false.mpr fun e he => ?_
  rw [(h.inStep.told_events e he).failure]
  exact Bool.false_ne_true

theorem not_doomed (h : Unbroken profile l) : ¬ Doomed l.transfer.pending := by
  rintro ⟨pre, p, post, heq, hp, -⟩
  obtain ⟨ds, hc⟩ := h.sound.conserved
  have hm : p.1 ∈ l.transfer.host.session.events := by
    rw [hc.events, show l.transfer.host.log.emitted.drop _ = _ from heq]
    exact List.mem_map_of_mem (List.mem_append_right _ List.mem_cons_self)
  rw [(h.inStep.told_events p.1 hm).failure] at hp
  cases hp

/-- No ack is pending when what is pending is clear. -/
theorem no_ack_of_clear (h : Unbroken profile l) (hc : Clear l.transfer.pending) :
    ∀ e ∈ l.transfer.host.session.events, e.isAck = false := by
  intro e he
  obtain ⟨ds, hcons⟩ := h.sound.conserved
  rw [hcons.events] at he
  obtain ⟨p, hp, rfl⟩ := List.mem_map.mp he
  exact (hc p hp).1

/-- A transfer at rest has nothing outstanding. -/
theorem resting (h : Unbroken profile l) (hst : l.transfer.ft.state.awaited = none) :
    Clear l.transfer.pending ∧ OnlyHandshakes l.transfer.host := by
  cases h.sound.standing with
  | failed hf => exact absurd hf h.unfailed
  | doomed hd => exact absurd hd h.not_doomed
  | resting _ hc ho => exact ⟨hc, ho⟩
  | waiting op hop =>
    rw [hop, Operation.awaited_awaiting] at hst
    cases hst
  | acked op hop =>
    rw [hop, Operation.awaited_awaiting] at hst
    cases hst

theorem owed (h : Unbroken profile l) {op : Operation} (hst : l.transfer.ft.state = op.awaiting) :
    Owed l.transfer.host := by
  cases h.sound.standing with
  | failed hf => exact absurd hf h.unfailed
  | doomed hd => exact absurd hd h.not_doomed
  | resting hr =>
    rw [hst, Operation.awaited_awaiting] at hr
    cases hr
  | waiting op' _ hc ho =>
    refine ⟨fun _ => ho, fun e he hack => ?_⟩
    rw [h.no_ack_of_clear hc e he] at hack
    cases hack
  | acked op' _ pre post n packet hp hpre hpost ho =>
    refine ⟨fun hno => ?_, fun _ _ _ => ho⟩
    obtain ⟨ds, hcons⟩ := h.sound.conserved
    have := hno (.ack n) (by
      rw [hcons.events, show l.transfer.host.log.emitted.drop _ = _ from hp]
      simp)
    cases this

/-- A transfer just constructed, with nothing of anybody else's outstanding. -/
theorem start {s : Session} {d : UInt8} {k : Link UInt8} (h : CalmRun profile s d k)
    (hsy : k.host.session.isSynced = true)
    (hack : ∀ e ∈ k.host.session.events, e.isAck = false) (hoh : OnlyHandshakes k.host) :
    Unbroken profile (Line.start k) := by
  obtain ⟨hwf, hin⟩ := h.inStep
  obtain ⟨ds, hc⟩ := hin.conserved
  have hclear : Clear (k.host.log.emitted.drop k.host.log.polled) := by
    intro p hp
    have hm : p.1 ∈ k.host.session.events := by
      rw [show k.host.session.events = _ from hc.events]
      exact List.mem_map_of_mem hp
    exact ⟨hack _ hm, (hin.told_events _ hm).failure⟩
  exact
    { wellFormed := hwf
      inStep := hin
      sound := sound_start ⟨ds, hc⟩ hsy (.inr ⟨hclear, hoh⟩)
      ready := ready_start ⟨⟨ds, hc⟩, hsy⟩
      unfailed := fun hst => nomatch hst
      returned := fun _ hm => (List.not_mem_nil hm).elim
      kept := fun op hst => by cases op <;> cases hst }

/-- The link moved, and with it nothing but the host. -/
theorem of_link (h : Unbroken profile l) {k : Link UInt8} {act : Act}
    (hact : act.unattended = true) (hs : Step profile.device false act l.link k)
    (hg : Calm l.link.wire k.wire) : Unbroken profile (l.withLink k) := by
  obtain ⟨hwf', hm⟩ := hs.move h.wellFormed
  have hin' := h.inStep.step hm hg
  -- what the link does to the host is a call that the transfer could have made
  have hhost : ∃ c : Call, l.transfer.step c = some { l.transfer with host := k.host }
      ∨ k.host = l.transfer.host := by
    cases hs with
    | tick now => exact ⟨.tick now, .inl rfl⟩
    | transmit => exact ⟨.pollOutbound, .inl rfl⟩
    | read b rest now => exact ⟨.feed [b] now, .inl rfl⟩
    | hear => exact ⟨.poll, .inr rfl⟩
    | arrive => exact ⟨.poll, .inr rfl⟩
    | _ => cases hact
  have hsr : Sound { l.transfer with host := k.host } ∧ Ready { l.transfer with host := k.host } := by
    obtain ⟨c, hc | heq⟩ := hhost
    · exact ⟨h.sound.step hc, h.ready.step hc⟩
    · rw [heq]
      exact ⟨h.sound, h.ready⟩
  exact
    { wellFormed := hwf'
      inStep := hin'
      sound := hsr.1
      ready := hsr.2
      unfailed := h.unfailed
      returned := h.returned
      kept := fun op hst => (h.kept op hst).step h.inStep hin' (h.owed hst) hact hm hg }

/-- The packet of an operation just called goes out with nothing outstanding, or waits for it, and
what is heard from here on is heard of it. -/
theorem kept_of_call (h : Unbroken profile l) {c : Call} {op : Operation}
    (hop : c.operation = some op) (hc : c.Suits profile) {t : Transfer}
    (hs : l.transfer.step c = some t)
    (hin : InStep profile ({ l with transfer := t } : Line).link.wire)
    (hg : Calm l.link.wire ({ l with transfer := t } : Line).link.wire) :
    Kept profile op t.ft.requestedCompression t.ft.heard
      ({ l with transfer := t } : Line).link.wire := by
  have hcalls := calls_of_operation hop hs
  obtain ⟨payload, now, hsend⟩ := hcalls.sent
  obtain ⟨ds, hcons⟩ := h.sound.conserved
  obtain ⟨ds', hcons'⟩ := hcons.send hsend
  obtain ⟨-, -, -, b, hp, ht, -, hsub⟩ := submitted_send hcons hsend
  -- nothing was awaited, so no ack is pending and every packet out is a handshake
  have haw : l.transfer.ft.state.awaited = none := by
    rw [hcalls.required, Operation.awaited_required]
  obtain ⟨hclear, hoh⟩ := h.resting haw
  have hno := h.no_ack_of_clear hclear
  have hev : t.host.session.events = l.transfer.host.session.events := by
    cases hsub with
    | waits _ _ _ hl => exact events_same hcons hcons' (by rw [hl]) (by rw [hl])
    | launched _ _ _ _ _ hl => exact events_same hcons hcons' (by rw [hl]) (by rw [hl])
  -- nor is a verdict
  have hheard : t.ft.heard = none := by
    unfold FileTransfer.heard
    rw [hcalls.pendingAscii, h.sound.consistent.pending_none haw h.unfailed]
    rfl
  have hproto : b.protocol = protocolFileTransfer := hp.trans h.ready.prompt.protocol
  refine
    { flight := ?_
      queued := ?_
      inFavour := ?_
      supports := ?_
      acked := ?_
      coming := ?_ }
  · -- the packet in flight, unless it is the handshake, is this one
    intro f hf hflag
    cases hsub with
    | waits _ hf' =>
      have := hoh.1 f (hf' ▸ hf)
      rw [hflag] at this
      cases this
    | launched g _ hg' hcar =>
      obtain rfl : g = f := Option.some.inj (hg'.symm.trans hf)
      exact isOp_of_carries hcar hproto ht
  · -- and so is the one queued
    intro q hq hflag
    cases hsub with
    | waits _ _ hq' =>
      rcases List.mem_append.mp (hq' ▸ hq) with hq | hq
      · have := hoh.2 q hq
        rw [hflag] at this
        cases this
      · rw [List.mem_singleton.mp hq]
        exact ⟨hproto, ht⟩
    | launched _ _ _ _ hq' =>
      rw [show ({ l with transfer := t } : Line).link.wire.host.session.queued = [] from hq'] at hq
      cases hq
  · intro v hv
    rw [hheard] at hv
    cases hv
  · rintro rfl
    exact supports_of_query hop hc hs
  · intro pre n post heq
    have := hno (.ack n) (by
      rw [← hev, show t.host.session.events = _ from heq]
      simp)
    cases this
  · -- an ack under way would be for a packet of before the call
    intro _
    refine .inr fun pre n post heq => ?_
    have hm : Reply.ok n ∈ ({ l with transfer := t } : Line).link.wire.back := by
      rw [heq]
      simp
    cases hsub with
    | waits hbusy hf' =>
      obtain ⟨f, hf⟩ := Option.isSome_iff_exists.mp hbusy
      have hflag := ((hin.current f (hf'.trans hf)).back n hm).1
      rw [hoh.1 f hf] at hflag
      cases hflag
    | launched f _ _ _ _ hl =>
      refine absurd hm ((hg.2 ?_).back n)
      show t.host.log.counters.length ≠ l.transfer.host.log.counters.length
      rw [hl, List.length_append]
      exact Nat.ne_of_gt (Nat.lt_succ_self _)

/-- **An operation is called.** -/
theorem of_call (h : Unbroken profile l) {c : Call} {op : Operation} (hop : c.operation = some op)
    (hc : c.Suits profile) {t : Transfer} (hs : l.transfer.step c = some t)
    (hg : Calm l.link.wire ({ l with transfer := t } : Line).link.wire) :
    Unbroken profile { l with transfer := t } := by
  have hcalls := calls_of_operation hop hs
  obtain ⟨payload, now, hsend⟩ := hcalls.sent
  have hstep : Step profile.device false
      (.send l.transfer.ft.protocolId op.packetType payload now) l.link
      ({ l with transfer := t } : Line).link := .send _ _ _ _ _ hsend
  obtain ⟨hwf, hm⟩ := hstep.move h.wellFormed
  have hin := h.inStep.step hm hg
  refine
    { wellFormed := hwf
      inStep := hin
      sound := h.sound.step hs
      ready := h.ready.step hs
      unfailed := ?_
      returned := ?_
      kept := ?_ }
  · rw [show ({ l with transfer := t } : Line).transfer.ft.state = _ from hcalls.state]
    cases op <;> decide
  · rw [show ({ l with transfer := t } : Line).transfer.returned = _ from hcalls.returned]
    exact h.returned
  · intro op' hst
    obtain rfl : op = op' := Operation.awaiting_injective (hcalls.state.symm.trans hst)
    exact h.kept_of_call hop hc hs hin hg

/-- An operation with an ack pending is due. -/
theorem due (h : Unbroken profile l) {op : Operation} (hop : l.transfer.ft.state = op.awaiting)
    (hack : ¬ ∀ e ∈ l.transfer.host.session.events, e.isAck = false) :
    ∃ post ev, l.transfer.ft.Due l.transfer.host.session.events op post ev := by
  have hsplit := List.takeWhile_append_dropWhile (p := Event.idle)
    (l := l.transfer.host.session.events)
  have hpre : ∀ e ∈ l.transfer.host.session.events.takeWhile Event.idle, e.isAck = false :=
    fun e he => (Event.idle_iff.mp (List.mem_takeWhile_imp he)).1
  -- the first event that is not idle: a calm link has no failures, so it is the ack
  cases hdrop : l.transfer.host.session.events.dropWhile Event.idle with
  | nil =>
    rw [hdrop, List.append_nil] at hsplit
    rw [hsplit] at hpre
    exact absurd hpre hack
  | cons x post =>
    have hx : x.idle = false := by
      have hhead := List.head?_dropWhile_not Event.idle l.transfer.host.session.events
      rw [hdrop] at hhead
      simpa using hhead
    have hm : x ∈ l.transfer.host.session.events :=
      (List.dropWhile_suffix Event.idle).subset (hdrop ▸ List.mem_cons_self)
    have hf : x.failure = none := (h.inStep.told_events x hm).failure
    obtain ⟨n, rfl⟩ : ∃ n, x = .ack n := by
      unfold Event.idle at hx
      rw [hf] at hx
      cases x <;> simp [Event.isAck] at hx
      exact ⟨_, rfl⟩
    rw [hdrop] at hsplit
    exact ⟨post, _, hop, ⟨n, hdrop⟩, rfl, (h.kept op hop).acked _ n post hsplit.symm hpre⟩

/-- What a poll leaves, when it returns no failure and the machine waits for nothing the wire
does not hold. -/
theorem after_poll (h : Unbroken profile l) (hne : l.transfer.poll.ft.state ≠ .failed)
    (hret : ∀ err, (l.transfer.ft.poll l.transfer.host.session).1 ≠ some (.failed err))
    (hkept : ∀ op, l.transfer.poll.ft.state = op.awaiting →
      Kept profile op l.transfer.poll.ft.requestedCompression l.transfer.poll.ft.heard
        ({ l with transfer := l.transfer.poll } : Line).link.wire) :
    Unbroken profile { l with transfer := l.transfer.poll } := by
  obtain ⟨ds, hc⟩ := h.sound.conserved
  have hhost := Transfer.poll_host hc
  -- a poll takes events off the session and leaves both directions of the link alone
  have hback : ({ l with transfer := l.transfer.poll } : Line).link.wire.back = l.link.wire.back := by
    show replies (l.transfer.poll.host.session.inboundBuf ++ _) ++ _ = _
    rw [hhost]
    rfl
  have hforward : ({ l with transfer := l.transfer.poll } : Line).link.wire.forward
      = l.link.wire.forward := by
    show _ ++ l.transfer.poll.host.log.placed.drop l.transfer.poll.host.log.taken = _
    rw [hhost]
    rfl
  have hu : Untouched l.transfer.host l.transfer.poll.host := by
    rw [hhost]
    exact ⟨rfl, rfl, rfl, rfl, rfl, rfl, rfl, rfl⟩
  have hbuf : l.transfer.poll.host.session.inboundBuf = l.transfer.host.session.inboundBuf := by
    rw [hhost]
  obtain ⟨⟨-, hwhole, hlines⟩, hunfinished⟩ := h.wellFormed
  refine
    { wellFormed := ⟨⟨h.sound.poll.conserved, ?_, hlines⟩, ?_⟩
      inStep := h.inStep.of_untouched h.sound.poll.conserved hu (fun c hm => hforward ▸ hm)
        fun r hm => hback ▸ hm
      sound := h.sound.poll
      ready := h.ready.poll.2
      unfailed := hne
      returned := ?_
      kept := hkept }
  · show (Lines.cut 0x0A (l.transfer.poll.host.session.inboundBuf ++ _)).2 = []
    rw [hbuf]
    exact hwhole
  · show (0x0A : UInt8) ∉ l.transfer.poll.host.session.inboundBuf
    rw [hbuf]
    exact hunfinished
  · intro err hm
    rw [show ({ l with transfer := l.transfer.poll } : Line).transfer.returned = _
      from Transfer.poll_returned hc] at hm
    rcases List.mem_append.mp hm with hm | hm
    · exact h.returned err hm
    · exact hret err (Option.mem_toList.mp hm)

/-- **A poll** returns no failure. -/
theorem of_poll (h : Unbroken profile l) : Unbroken profile { l with transfer := l.transfer.poll } := by
  obtain ⟨ds, hc⟩ := h.sound.conserved
  have hft : l.transfer.poll.ft = (l.transfer.ft.poll l.transfer.host.session).2.1 := by
    rw [Transfer.poll_eq hc]
  cases haw : l.transfer.ft.state.awaited with
  | none =>
    -- nothing is awaited, and lines and acks pass
    obtain ⟨hnone, hst⟩ := FileTransfer.poll_resting h.ready.prompt haw h.unfailed h.anyFailure_events
    rw [← hft] at hst
    refine h.after_poll (by rw [hst]; exact h.unfailed) (by simp [hnone]) fun op hop => ?_
    rw [hst.symm.trans hop, Operation.awaited_awaiting] at haw
    cases haw
  | some op =>
    have hop := State.awaited_eq_some.mp haw
    have hk := h.kept op hop
    by_cases hack : ∀ e ∈ l.transfer.host.session.events, e.isAck = false
    · -- it goes on waiting, having heard what was pending
      obtain ⟨hnone, hi⟩ := FileTransfer.poll_waiting h.ready.prompt hop fun e he =>
        Event.idle_iff.mpr ⟨hack e he, (h.inStep.told_events e he).failure⟩
      rw [← hft] at hi
      refine h.after_poll ?_ (by simp [hnone]) fun op' hop' => ?_
      · rw [hi.state]
        exact h.unfailed
      · have hev : l.transfer.poll.host.session.events = [] := by rw [Transfer.poll_host hc]
        obtain rfl : op = op' := by
          rw [hi.state, hop] at hop'
          exact Operation.awaiting_injective hop'
        rw [hi.requested, hi.heard]
        have hhost := Transfer.poll_host hc
        refine hk.of_heard h.inStep.told_events hack hev ?_ ?_ ?_
        · show l.transfer.poll.host.session.inFlight = _
          rw [hhost]
          rfl
        · show l.transfer.poll.host.session.queued = _
          rw [hhost]
          rfl
        · show replies (l.transfer.poll.host.session.inboundBuf ++ _) ++ _ = _
          rw [hhost]
          rfl
    · -- the first ack that is pending settles it in success
      obtain ⟨post, ev, hdue⟩ := h.due hop hack
      have hp := h.ready.poll.1
      have hno := h.anyFailure_events
      generalize hret : (l.transfer.ft.poll l.transfer.host.session).1 = ret at hp
      generalize hst : l.transfer.poll.ft.state = st at hp
      cases hp with
      | nothing hnone => exact absurd hdue (hnone op post ev)
      | failed hnone => exact absurd hdue (hnone op post ev)
      | answered op' post' ev' hd =>
        obtain ⟨m, hm⟩ := hd.acked
        have hpost : anyFailure post' = false := by
          refine List.any_eq_false.mpr fun e he => List.any_eq_false.mp hno e ?_
          exact (List.dropWhile_suffix Event.idle).subset (hm ▸ List.mem_cons_of_mem _ he)
        rw [hpost] at hst
        have hst' : l.transfer.poll.ft.state = op'.done := hst
        refine h.after_poll ?_ ?_ fun op'' hop'' => ?_
        · rw [hst']
          cases op' <;> decide
        · intro err heq
          rw [hret] at heq
          have hans := hd.answers
          rw [Option.some.inj heq] at hans
          cases hans
        · rw [hst'] at hop''
          have := (Operation.awaited_done op').symm.trans (congrArg State.awaited hop'')
          rw [Operation.awaited_awaiting] at this
          cases this

/-- **One step.** -/
theorem step (h : Unbroken profile l) {act : FileAct} (hs : FileStep profile act l l')
    (hg : Calm l.link.wire l'.link.wire) : Unbroken profile l' := by
  cases hs with
  | call c op hop hc t hstep => exact h.of_call hop hc hstep hg
  | poll => exact h.of_poll
  | link act k hact hstep => exact h.of_link hact hstep hg

end Unbroken

theorem CalmFileRun.unbroken {profile : Profile} {k : Link UInt8} {l : Line}
    (h : CalmFileRun profile k l) (hk : Unbroken profile (Line.start k)) : Unbroken profile l :=
  h.invariant hk fun _ _ _ hu ⟨hs, hg⟩ => hu.step hs hg

/-- No event is out of sync. -/
def Watched.InSync (w : Watched) : Prop :=
  ∀ p ∈ w.log.emitted, ∀ expected got, p.1 ≠ .outOfSync expected got

theorem InStep.inSync {profile : Profile} {w : Wire UInt8} (h : InStep profile w) :
    w.host.InSync := by
  intro p hp expected got heq
  have := h.told p hp
  rw [heq] at this
  exact this

/--
**A slow link breaks nothing** as long as every packet is dispatched with no earlier `ok`
outstanding: the session stays in sync, and a transfer that is constructed with nothing of
anybody else's outstanding never fails, whatever is retransmitted in between.
-/
theorem slow_link_never_breaks {profile : Profile} {s : Session} {d : UInt8} {k : Link UInt8}
    (h : CalmRun profile s d k) :
    k.host.InSync
      ∧ (k.host.session.isSynced = true → (∀ e ∈ k.host.session.events, e.isAck = false) →
        OnlyHandshakes k.host → ∀ l, CalmFileRun profile k l →
          l.transfer.host.InSync ∧ (∀ err, .failed err ∉ l.transfer.returned)
            ∧ l.transfer.ft.state ≠ .failed) := by
  refine ⟨h.inStep.2.inSync, fun hsy hack hoh l hl => ?_⟩
  have hu := hl.unbroken (.start h hsy hack hoh)
  exact ⟨hu.inStep.inSync, hu.returned, hu.unfailed⟩

/-! ## A retransmitted packet -/

/-- A device without compression. -/
def plainProfile : Profile where
  block := 512
  version := ['1']
  compression := ['n', 'o', 'n', 'e']
  version_plain := by simp [isLineEnding]
  compression_plain := by simp [isLineEnding]

/-- The handshake. -/
def helloScript : List Act :=
  [.connect 0, .transmit, .hear, .arrive] ++ List.replicate 10 (.read 1)

/-- The answer to a copy of QUERY is read. -/
def versionScript : List FileAct :=
  [.link .arrive, .link .arrive] ++ List.replicate 23 (.link (.read 1500000000))

/-- QUERY is retransmitted, and both copies are answered. -/
def lateQueryScript : List FileAct :=
  [.call (.query .none 1), .link .transmit, .link (.tick 1200000000), .link .transmit, .link .hear,
    .link .hear]

/-- OPEN is called, answered and read. -/
def openScript : List FileAct :=
  [.call (.open ['f'] false 1500000000), .link .transmit, .link .hear, .link .arrive, .link .arrive]
    ++ List.replicate 16 (.link (.read 1500000000))

/-- Both answers to QUERY are read before OPEN is called. -/
theorem slow_link_never_breaks_late_query :
    ∃ k l, CalmRun plainProfile Session.new 0 k ∧ CalmFileRun plainProfile k l
      ∧ l.transfer.returned = [.negotiated ['1'] .none, .opened]
      ∧ l.transfer.host.log.placed.length = 4
      ∧ l.transfer.host.InSync ∧ l.transfer.ft.state ≠ .failed := by
  have hrun : ((Link.start Session.new 0).runScript plainProfile.conduct
      (fun _ l l' => Calm l.wire l'.wire) helloScript).bind (fun k =>
        (script (Line.exec plainProfile) (fun _ l l' => Calm l.link.wire l'.link.wire)
          (lateQueryScript ++ versionScript ++ [.poll] ++ versionScript ++ openScript ++ [.poll])
          (Line.start k)).map fun l => (k.host.session.isSynced && k.host.session.inFlight.isNone
            && k.host.session.queued.isEmpty, k.host.session.events, l.transfer.returned,
            l.transfer.host.log.placed.length))
      = some (true, [.synced 512 ['1']], [.negotiated ['1'] .none, .opened], 4) := by
    decide +kernel
  obtain ⟨k, hk, hrun⟩ := Option.bind_eq_some_iff.mp hrun
  obtain ⟨l, hl, hobs⟩ := Option.map_eq_some_iff.mp hrun
  obtain ⟨hhost, hobs⟩ := Prod.mk.inj hobs
  obtain ⟨hev, hobs⟩ := Prod.mk.inj hobs
  obtain ⟨hret, hplaced⟩ := Prod.mk.inj hobs
  obtain ⟨hhost, hq⟩ := Bool.and_eq_true_iff.mp hhost
  obtain ⟨hsy, hf⟩ := Bool.and_eq_true_iff.mp hhost
  have hcalm : CalmRun plainProfile Session.new 0 k :=
    runScript_reach plainProfile.conduct_fits .init hk
  have hfile : CalmFileRun plainProfile k l := script_reach exec_fileStep .init hl
  have hack : ∀ e ∈ k.host.session.events, e.isAck = false := by
    rw [hev]
    decide
  have hoh : OnlyHandshakes k.host := by
    unfold OnlyHandshakes
    rw [Option.isNone_iff_eq_none.mp hf, List.isEmpty_iff.mp hq]
    exact ⟨by simp, fun q hq => (List.not_mem_nil hq).elim⟩
  obtain ⟨hin, -, hst⟩ := (slow_link_never_breaks hcalm).2 hsy hack hoh l hfile
  exact ⟨k, l, hcalm, hfile, hret, hplaced, hin, hst⟩

/--
**The second `ok`.** QUERY is retransmitted, OPEN is called once the first answer is in, and
the second answer puts the session out of sync and fails the transfer; nothing was lost and
nothing timed out.
-/
theorem retransmit_breaks_transfer :
    ∃ k l, Reach (Step plainProfile.device false) (Link.start Session.new 0) k
      ∧ FileRun plainProfile (fun _ _ l' => l'.transfer.host.NoTimeout) k l
      ∧ (.outOfSync 1 0, none) ∈ l.transfer.host.log.emitted
      ∧ l.transfer.returned = [.negotiated ['1'] .none, .failed (.sessionOutOfSync 1 0)]
      ∧ l.transfer.ft.state = .failed := by
  have hrun : ((Link.start Session.new 0).runScript plainProfile.conduct (fun _ _ _ => True)
      helloScript).bind (fun k =>
        (script (Line.exec plainProfile) (fun _ _ l' => l'.transfer.host.NoTimeout)
          (lateQueryScript ++ versionScript ++ [.poll, .call (.open ['f'] false 1500000000)]
            ++ versionScript ++ [.poll])
          (Line.start k)).map fun l => (decide ((.outOfSync 1 0, none) ∈ l.transfer.host.log.emitted),
            l.transfer.returned, l.transfer.ft.state))
      = some (true, [.negotiated ['1'] .none, .failed (.sessionOutOfSync 1 0)], .failed) := by
    decide +kernel
  obtain ⟨k, hk, hrun⟩ := Option.bind_eq_some_iff.mp hrun
  obtain ⟨l, hl, hobs⟩ := Option.map_eq_some_iff.mp hrun
  obtain ⟨hev, hobs⟩ := Prod.mk.inj hobs
  obtain ⟨hret, hst⟩ := Prod.mk.inj hobs
  exact ⟨k, l, reach_of_guarded (runScript_reach plainProfile.conduct_fits .init hk),
    script_reach exec_fileStep .init hl, of_decide_eq_true hev, hret, hst⟩

end MarlinTransfer
