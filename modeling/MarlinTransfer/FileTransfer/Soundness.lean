import MarlinTransfer.FileTransfer.Ownership

/-!
# The invariant along a run

Every call keeps the invariant of a transfer, and it holds at the start on a session
whose pending events and outstanding packets cannot be taken for the transfer's own.
-/

namespace MarlinTransfer

open Codec Text Session

namespace Sound

variable {t t' : Transfer}

/-! ## Steps of the session -/

/-- Only the host moved. -/
theorem of_host (h : Sound t) {w : Watched} (hcons : ∃ ds, Conserved w ds)
    (hsy : w.session.isSynced = true) (hsub : w.log.submitted = t.host.log.submitted)
    (hst : Standing { t with host := w }) : Sound { t with host := w } where
  conserved := hcons
  synced := hsy
  consistent := h.consistent
  delivered := h.delivered
  legit := h.legit
  dialogue := by
    cases h.dialogue with
    | failed h1 h2 h3 => exact .failed h1 h2 h3
    | resting h1 h2 h3 h4 h5 => exact .resting h1 h2 h3 h4 h5
    | waiting op packet mid h1 h2 h3 h4 h5 h6 =>
      exact .waiting op packet mid h1 h2 h3 (by show _ = w.log.submitted.length; rw [hsub]; exact h4)
        h5 h6
  standing := hst

/-- What a step of the session adds to what is pending. -/
theorem pending_append (h : Sound t) {w : Watched} {es : List (Event × Option Nat)}
    (he : w.log.emitted = t.host.log.emitted ++ es) (hp : w.log.polled = t.host.log.polled) :
    Transfer.pending { t with host := w } = t.pending ++ es := by
  obtain ⟨ds, hc⟩ := h.conserved
  show w.log.emitted.drop w.log.polled = _
  rw [he, hp, List.drop_append_of_le_length hc.polled_le]
  rfl

theorem clear_or_doomed_append {ps es : List (Event × Option Nat)} (h : Clear ps ∨ Doomed ps)
    (hes : ∀ p ∈ es, p.1.isAck = false) : Clear (ps ++ es) ∨ Doomed (ps ++ es) := by
  rcases h with h | h
  · exact h.append hes
  · exact .inr (h.append es)

/-- Events that are no acks are told, and the packets stay as they were. -/
theorem standing_told (h : Sound t) {w : Watched} (es : List (Event × Option Nat))
    (he : w.log.emitted = t.host.log.emitted ++ es) (hp : w.log.polled = t.host.log.polled)
    (hes : ∀ p ∈ es, p.1.isAck = false) (hsub : w.log.submitted = t.host.log.submitted)
    (hoh : OnlyHandshakes t.host → OnlyHandshakes w) (hol : OnlyLast t.host → OnlyLast w) :
    Standing { t with host := w } := by
  have hpend := h.pending_append he hp
  cases h.standing with
  | failed hst => exact .failed hst
  | doomed hd => exact .doomed (by rw [hpend]; exact hd.append es)
  | resting hst hc ho =>
    rcases hc.append hes with hc' | hd
    · exact .resting hst (by rw [hpend]; exact hc') (hoh ho)
    · exact .doomed (by rw [hpend]; exact hd)
  | waiting op hst hc ho =>
    rcases hc.append hes with hc' | hd
    · exact .waiting op hst (by rw [hpend]; exact hc') (hol ho)
    · exact .doomed (by rw [hpend]; exact hd)
  | acked op hst pre post n packet hpe hpre hpost ho hl =>
    refine .acked op hst pre (post ++ es) n packet ?_ hpre (clear_or_doomed_append hpost hes)
      (hoh ho) ?_
    · rw [hpend, hpe]
      simp
    · show _ = w.log.submitted.length
      rw [hsub]
      exact hl

/-- A packet is given up: whoever waits is doomed. -/
theorem standing_expired (h : Sound t) {w : Watched} {f : InFlight}
    (hr : Retires f (.timeout f.sync) t.host w) : Standing { t with host := w } := by
  have hpend := h.pending_append hr.emitted hr.polled
  have hnack : ∀ p ∈ [(Event.timeout f.sync, some t.host.log.retired.length)],
      p.1.isAck = false := by simp [Event.isAck]
  have hdoom : Clear t.pending → Doomed (Transfer.pending { t with host := w }) := by
    intro hc
    rw [hpend]
    exact ⟨t.pending, _, [], rfl, rfl, fun p hp => (hc p hp).1⟩
  cases h.standing with
  | failed hst => exact .failed hst
  | doomed hd => exact .doomed (by rw [hpend]; exact hd.append _)
  | resting hst hc ho => exact .doomed (hdoom hc)
  | waiting op hst hc ho => exact .doomed (hdoom hc)
  | acked op hst pre post n packet hpe hpre hpost ho hl =>
    refine .acked op hst pre (post ++ _) n packet ?_ hpre (clear_or_doomed_append hpost hnack)
      (ho.resumes hr.resumes) ?_
    · rw [hpend, hpe]
      simp
    · show _ = w.log.submitted.length
      rw [hr.submitted]
      exact hl

/-- The data packet in flight is acked: it is the packet of the operation that waits. -/
theorem standing_acked (h : Sound t) {w : Watched} {f : InFlight} {n : UInt8}
    (hff : f.isSyncHandshake = false) (hr : Retires f (.ack n) t.host w) :
    Standing { t with host := w } := by
  obtain ⟨ds, hcons⟩ := h.conserved
  have hpend := h.pending_append hr.emitted hr.polled
  have hno : OnlyHandshakes t.host → False := by
    intro ho
    have := ho.1 f hr.was
    rw [hff] at this
    cases this
  cases h.standing with
  | failed hst => exact .failed hst
  | doomed hd => exact .doomed (by rw [hpend]; exact hd.append _)
  | resting hst hc ho => exact (hno ho).elim
  | acked op hst pre post n packet hpe hpre hpost ho hl => exact (hno ho).elim
  | waiting op hst hc ho =>
    cases ho with
    | queued g qs q hg hgg =>
      rw [Option.some.inj (hr.was.symm.trans hg), hgg] at hff
      cases hff
    | inFlight g hg hgg hq =>
      have hlen := hcons.submitted_length
      rw [hr.was, hq] at hlen
      refine .acked op hst t.pending [] n t.host.log.retired.length (by rw [hpend]) hc
        (.inl clear_nil) ?_ ?_
      · cases hr.resumes with
        | idle _ hq' hf' =>
          refine ⟨fun x hx => ?_, by rw [hq']; simp⟩
          rw [hf'] at hx
          cases hx
        | launch q f' hq' => rw [hq] at hq'; cases hq'
      · show _ = w.log.submitted.length
        rw [hr.submitted, hlen]
        simp

theorem take (h : Sound t) (r : Reply) (now : Instant) :
    Sound { t with host := t.host.take r now } := by
  obtain ⟨ds, hc⟩ := h.conserved
  cases taken hc r now with
  | quiet ht hsync hsy hok hss =>
    refine h.of_host (hc.take r now) (hsy h.synced) (by rw [ht.log]) ?_
    refine h.standing_told ((told r t.host.session.inFlight).map (·, none)) (by rw [ht.log])
      (by rw [ht.log]) ?_ (by rw [ht.log]) ?_ ?_
    · intro p hp
      obtain ⟨e, he, rfl⟩ := List.mem_map.mp hp
      exact told_not_ack r _ e he
    · intro ho
      unfold OnlyHandshakes
      rw [ht.inFlight, ht.queued]
      exact ho
    · intro ho
      cases ho with
      | queued f qs q h1 h2 h3 h4 h5 =>
        exact .queued f qs q (by rw [ht.inFlight]; exact h1) h2 (by rw [ht.queued]; exact h3) h4 h5
      | inFlight f h1 h2 h3 =>
        exact .inFlight f (by rw [ht.inFlight]; exact h1) h2 (by rw [ht.queued]; exact h3)
  | acked f hr hf ht hsync hsy =>
    exact h.of_host (hc.take r now) (hsy h.synced) ht.submitted (h.standing_acked hf ht)
  | synced f sync block version hr hf ht hsync hsy =>
    refine h.of_host (hc.take r now) hsy ht.submitted ?_
    refine h.standing_told _ ht.emitted ht.polled (by simp [Event.isAck]) ht.submitted
      (fun ho => ho.resumes ht.resumes) fun ho => ho.resumes ht.was hf ht.resumes

theorem takeAll (h : Sound t) (rs : List Reply) (now : Instant) :
    Sound { t with host := t.host.takeAll rs now } := by
  induction rs generalizing t with
  | nil => exact h
  | cons r rs ih => exact ih (h.take r now)

/-- A change the invariant does not see. -/
theorem of_unseen (h : Sound t) {w : Watched} (hcons : ∃ ds, Conserved w ds)
    (hsy : w.session.isSynced = t.host.session.isSynced)
    (hf : w.session.inFlight = t.host.session.inFlight)
    (hq : w.session.queued = t.host.session.queued)
    (he : w.log.emitted = t.host.log.emitted) (hp : w.log.polled = t.host.log.polled)
    (hsub : w.log.submitted = t.host.log.submitted) : Sound { t with host := w } := by
  refine h.of_host hcons (hsy.trans h.synced) hsub ?_
  refine h.standing_told [] (by rw [he, List.append_nil]) hp (by simp) hsub ?_ ?_
  · intro ho
    unfold OnlyHandshakes
    rw [hf, hq]
    exact ho
  · intro ho
    cases ho with
    | queued f qs q h1 h2 h3 h4 h5 =>
      exact .queued f qs q (by rw [hf]; exact h1) h2 (by rw [hq]; exact h3) h4 h5
    | inFlight f h1 h2 h3 => exact .inFlight f (by rw [hf]; exact h1) h2 (by rw [hq]; exact h3)

theorem feed (h : Sound t) (bytes : Bytes) (now : Instant) :
    Sound { t with host := t.host.feed bytes now } := by
  have h' := h.takeAll (replies (t.host.session.inboundBuf ++ bytes)) now
  obtain ⟨ds, hc⟩ := h'.conserved
  exact h'.of_unseen ⟨ds, hc.withBuf _⟩ rfl rfl rfl rfl rfl rfl

theorem tick (h : Sound t) (now : Instant) : Sound { t with host := t.host.tick now } := by
  obtain ⟨ds, hc⟩ := h.conserved
  cases ticked t.host now with
  | early heq => rw [heq]; exact h
  | late f now' hf hf' hq hsync hsy hl =>
    refine h.of_host (hc.tick now) (hsy.trans h.synced) (by rw [hl]) ?_
    refine h.standing_told [] (by rw [hl, List.append_nil]) (by rw [hl]) (by simp)
      (by rw [hl]) ?_ ?_
    · intro ho
      refine ⟨fun g hg => ?_, by rw [hq]; exact ho.2⟩
      rw [← Option.some.inj (hf'.symm.trans hg)]
      exact ho.1 f hf
    · intro ho
      cases ho with
      | queued g qs q h1 h2 h3 h4 h5 =>
        obtain rfl := Option.some.inj (hf.symm.trans h1)
        exact .queued _ qs q hf' h2 (by rw [hq]; exact h3) h4 h5
      | inFlight g h1 h2 h3 =>
        obtain rfl := Option.some.inj (hf.symm.trans h1)
        exact .inFlight _ hf' h2 (by rw [hq]; exact h3)
  | expired f ht hsync hsy =>
    exact h.of_host (hc.tick now) (hsy.trans h.synced) ht.submitted (h.standing_expired ht)

theorem pollOutbound (h : Sound t) : Sound { t with host := t.host.pollOutbound } := by
  obtain ⟨ds, hc⟩ := h.conserved
  have hsame : t.host.pollOutbound.session.isSynced = t.host.session.isSynced
      ∧ t.host.pollOutbound.session.inFlight = t.host.session.inFlight
      ∧ t.host.pollOutbound.session.queued = t.host.session.queued
      ∧ t.host.pollOutbound.log.emitted = t.host.log.emitted
      ∧ t.host.pollOutbound.log.polled = t.host.log.polled
      ∧ t.host.pollOutbound.log.submitted = t.host.log.submitted := by
    unfold Watched.pollOutbound Session.pollOutbound
    cases t.host.session.outbound <;> exact ⟨rfl, rfl, rfl, rfl, rfl, rfl⟩
  obtain ⟨h1, h2, h3, h4, h5, h6⟩ := hsame
  exact h.of_unseen ⟨ds, hc.pollOutbound⟩ h1 h2 h3 h4 h5 h6

/-! ## Calls -/

theorem drained (h : Sound t) : Sound t.drained := by
  have key : ∀ (ps : List (Event × Option Nat)) (t : Transfer), Sound t → t.pending = ps →
      Sound (ps.foldl Transfer.observe t) := by
    intro ps
    induction ps with
    | nil => intro t h _; exact h
    | cons p ps ih => intro t h hp; exact ih _ (h.observe hp) (h.observe_host hp).1
  exact key t.pending t h rfl

theorem poll (h : Sound t) : Sound t.poll := by
  have hd := h.drained
  obtain ⟨h1, h2, h3⟩ := FileTransfer.popEvent_keeps t.drained.ft
  have h4 := (FileTransfer.popEvent_told t.drained.ft).symm
  have hpoll : t.poll = { t.drained with
      ft := t.drained.ft.popEvent.2
      returned := t.drained.returned ++ t.drained.ft.popEvent.1.toList } := rfl
  rw [hpoll]
  refine ⟨hd.conserved, hd.synced, ?_, ?_, hd.legit, ?_, ?_⟩
  · intro p hp
    rw [h1]
    exact hd.consistent p (h2 ▸ hp)
  · rw [List.append_assoc, ← h4]
    exact hd.delivered
  · cases hd.dialogue with
    | failed g1 g2 g3 => exact .failed (h1.trans g1) g2 g3
    | resting g1 g2 g3 g4 g5 =>
      exact .resting (by rw [h1]; exact g1) (by rw [h1]; exact g2) (h2.trans g3) g4 g5
    | waiting op packet mid g1 g2 g3 g4 g5 g6 =>
      refine .waiting op packet mid (h1.trans g1) (by rw [h3]; exact g2) ?_ g4 g5 g6
      rw [h3, ← g3]
      unfold FileTransfer.heard
      rw [h2]
  · cases hd.standing with
    | failed g1 => exact .failed (h1.trans g1)
    | doomed g1 => exact .doomed g1
    | resting g1 g2 g3 => exact .resting (by rw [h1]; exact g1) g2 g3
    | waiting op g1 g2 g3 => exact .waiting op (h1.trans g1) g2 g3
    | acked op g1 pre post n packet g2 g3 g4 g5 g6 =>
      exact .acked op (h1.trans g1) pre post n packet g2 g3 g4 g5 g6

theorem call (h : Sound t) {op : Operation} (hc : Calls op t t') : Sound t' := by
  obtain ⟨ds, hcons⟩ := h.conserved
  obtain ⟨payload, now, hs⟩ := hc.sent
  obtain ⟨-, hsy, -, b, -, -, -, hsub⟩ := submitted_send hcons hs
  have haw : t.ft.state.awaited = none := by rw [hc.required, Operation.awaited_required]
  have hne : t.ft.state ≠ .failed := by
    rw [hc.required]
    cases op <;> decide
  have hst := hc.state
  have hpa : t.ft.pendingAscii = none := h.consistent.pending_none haw hne
  have hpa' : t'.ft.pendingAscii = none := hc.pendingAscii.trans hpa
  -- a submission tells no event: what is pending stays pending
  have hlog : t'.host.log.emitted = t.host.log.emitted ∧ t'.host.log.polled = t.host.log.polled
      ∧ t'.host.log.submitted.length = t.host.log.submitted.length + 1 := by
    cases hsub with
    | waits _ _ _ hl => rw [hl]; exact ⟨rfl, rfl, by simp⟩
    | launched _ _ _ _ _ hl => rw [hl]; exact ⟨rfl, rfl, by simp⟩
  have hpend : t'.pending = t.pending := by
    unfold Transfer.pending
    rw [hlog.1, hlog.2.1]
  have houts : outsOf t'.trace = outsOf t.trace := by
    rw [hc.trace, outsOf_append]
    simp [outsOf, Entry.outs]
  have hsucc : successesOf t'.trace = successesOf t.trace := by
    unfold successesOf
    rw [houts]
  refine ⟨hcons.send hs, hsy, FileTransfer.consistent_of_none hpa', ?_, ?_, ?_, ?_⟩
  · rw [houts, hc.returned, hc.outEvents]
    exact h.delivered
  · rw [hc.trace]
    exact h.legit.append fun e owner out heq => by cases heq
  · -- the wait begins, with nothing heard and nothing traced since
    cases h.dialogue with
    | failed g1 => exact absurd g1 hne
    | waiting op' _ _ g1 =>
      rw [g1, Operation.awaited_awaiting] at haw
      cases haw
    | resting g1 g2 g3 g4 g5 =>
      refine .waiting op t.host.log.submitted.length [] hst ⟨⟨t.trace, hc.trace⟩, rfl⟩ ?_
        hlog.2.2.symm (by rw [houts]; exact g4) ?_
      · unfold FileTransfer.heard
        rw [hpa']
        rfl
      · rw [hsucc, hc.trace, callsOf_append, g5]
        rfl
  · cases h.standing with
    | failed g1 => exact absurd g1 hne
    -- a failure that is pending comes before anything else
    | doomed g1 => exact .doomed (by rw [hpend]; exact g1)
    | resting g1 g2 g3 =>
      exact .waiting op hst (by rw [hpend]; exact g2) (onlyLast_of_submitted g3 hsub)
    | waiting op' g1 =>
      rw [g1, Operation.awaited_awaiting] at haw
      cases haw
    | acked op' g1 =>
      rw [g1, Operation.awaited_awaiting] at haw
      cases haw

/-- **One call.** -/
theorem step (h : Sound t) {c : Call} (hs : t.step c = some t') : Sound t' := by
  cases Transfer.steps hs with
  | call op hc => exact h.call hc
  | poll heq => rw [heq]; exact h.poll
  | feed bytes now heq => rw [heq]; exact h.feed bytes now
  | tick now heq => rw [heq]; exact h.tick now
  | pollOutbound heq => rw [heq]; exact h.pollOutbound

/-- **Every run.** -/
theorem run {cs : List Call} (h : Sound t) (hr : t.run cs = some t') : Sound t' :=
  Transfer.run_invariant (fun h hs => h.step hs) h hr

end Sound

/-- **The invariant at the start**: nothing pending or outstanding can be mistaken. -/
theorem sound_start {w : Watched} (hcons : ∃ ds, Conserved w ds)
    (hsy : w.session.isSynced = true)
    (h : Doomed (w.log.emitted.drop w.log.polled)
      ∨ Clear (w.log.emitted.drop w.log.polled) ∧ OnlyHandshakes w) :
    Sound (Transfer.start w) where
  conserved := hcons
  synced := hsy
  consistent := FileTransfer.consistent_new
  delivered := rfl
  legit := allLegit_nil
  dialogue := .resting rfl (fun h => by cases h) rfl (fun err hm => (List.not_mem_nil hm).elim) rfl
  standing := by
    rcases h with h | ⟨h1, h2⟩
    · exact .doomed h
    · exact .resting rfl h1 h2

end MarlinTransfer
