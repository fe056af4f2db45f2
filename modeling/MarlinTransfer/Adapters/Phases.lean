import MarlinTransfer.Adapters.Panics

/-!
# One packet of an upload

What the log says of a packet, from its first copy to the next packet's: copies of it and
lines that retire nothing, then the line that retires it, then lines that retire nothing
again (`Phase`). `Turn` is where a packet is in its phase, and every part of a drive loop
keeps it; a loop that returns what it waited for has completed the phase.
-/

namespace MarlinTransfer

open Codec Text Session Triple

/-- An entry that writes nothing and retires nothing. -/
def LogEntry.Quiet : LogEntry → Prop
  | .wrote _ => False
  | .heard _ done => done = none
  | .ticked done => done = none

/-- The line that retires a packet: the `ok` under its own sync number, or an `ss` when it is
the handshake. -/
def Retiring (handshake : Bool) (p : Packet) (r : Reply) : Prop :=
  if handshake then ∃ sync block version, r = .ss sync block version else r = .ok p.sync

/--
The phase of a packet in the log. It begins with its first copy; until the line that
retires it there are only further copies and entries that do nothing; and none of the
entries behind that line does anything.
-/
inductive Phase (handshake : Bool) (p : Packet) : List LogEntry → Prop where
  | mk (mid rest : List LogEntry) (r : Reply) (f : InFlight) (e : Event)
      (hmid : ∀ x ∈ mid, x = .wrote p.wire ∨ x.Quiet) (hr : Retiring handshake p r)
      (hbytes : f.bytes = p.wire) (hsync : f.sync = p.sync) (hrest : ∀ x ∈ rest, x.Quiet) :
      Phase handshake p (.wrote p.wire :: (mid ++ .heard r (some (f, e)) :: rest))

theorem Phase.append {handshake : Bool} {p : Packet} {seg : List LogEntry}
    (h : Phase handshake p seg) {x : LogEntry} (hx : x.Quiet) : Phase handshake p (seg ++ [x]) := by
  cases h with
  | mk mid rest r f e hmid hr hbytes hsync hrest =>
    have heq : (LogEntry.wrote p.wire :: (mid ++ .heard r (some (f, e)) :: rest)) ++ [x]
        = .wrote p.wire :: (mid ++ .heard r (some (f, e)) :: (rest ++ [x])) := by simp
    rw [heq]
    refine .mk mid (rest ++ [x]) r f e hmid hr hbytes hsync fun y hy => ?_
    rcases List.mem_append.mp hy with hy | hy
    · exact hrest y hy
    · rw [List.mem_singleton.mp hy]
      exact hx

/-- What was written, in order. -/
def written (log : List LogEntry) : List Bytes :=
  log.filterMap fun x => match x with
    | .wrote bytes => some bytes
    | _ => none

@[simp] theorem written_append (log log' : List LogEntry) :
    written (log ++ log') = written log ++ written log' := List.filterMap_append

theorem written_quiet {log : List LogEntry} (h : ∀ x ∈ log, x.Quiet) : written log = [] := by
  refine List.filterMap_eq_nil_iff.mpr fun x hx => ?_
  have := h x hx
  cases x with
  | wrote bytes => exact this.elim
  | heard r done => rfl
  | ticked done => rfl

/-- **A phase writes one packet**, once or more. -/
theorem Phase.written {handshake : Bool} {p : Packet} {seg : List LogEntry}
    (h : Phase handshake p seg) :
    ∃ k, 0 < k ∧ MarlinTransfer.written seg = List.replicate k p.wire := by
  cases h with
  | mk mid rest r f e hmid hr hbytes hsync hrest =>
    -- between the first copy and the line there are copies and entries that write nothing
    have hcopies : ∀ mid : List LogEntry, (∀ x ∈ mid, x = .wrote p.wire ∨ x.Quiet) →
        ∃ k, MarlinTransfer.written mid = List.replicate k p.wire := by
      intro mid
      induction mid with
      | nil => exact fun _ => ⟨0, rfl⟩
      | cons x mid ih =>
        intro hmid
        obtain ⟨k, hk⟩ := ih fun y hy => hmid y (List.mem_cons_of_mem _ hy)
        rcases hmid x List.mem_cons_self with rfl | hx
        · exact ⟨k + 1, by
            rw [show MarlinTransfer.written (.wrote p.wire :: mid)
              = p.wire :: MarlinTransfer.written mid from rfl, hk]
            rfl⟩
        · refine ⟨k, ?_⟩
          rw [← hk]
          exact List.filterMap_cons_none (by cases x <;> first | exact hx.elim | rfl)
    obtain ⟨k, hk⟩ := hcopies mid hmid
    refine ⟨k + 1, Nat.succ_pos k, ?_⟩
    rw [show MarlinTransfer.written (.wrote p.wire :: (mid ++ .heard r (some (f, e)) :: rest))
      = p.wire :: MarlinTransfer.written (mid ++ .heard r (some (f, e)) :: rest) from rfl,
      written_append, hk, show MarlinTransfer.written (.heard r (some (f, e)) :: rest)
      = MarlinTransfer.written rest from rfl, written_quiet hrest, List.append_nil]
    rfl

/-! ## Where a packet is -/

/-- The events that may tell that a packet was retired. -/
def Landing (handshake : Bool) : Event → Prop
  | .ack _ => True
  | .synced _ _ => handshake = true
  | _ => False

/-- Where the packet whose phase begins after `base` is. -/
inductive Turn (handshake : Bool) (p : Packet) (base : List LogEntry) (s : Session)
    (log : List LogEntry) : Prop where
  /-- It was dispatched, but no copy was written. -/
  | fresh (f : InFlight) (hf : s.inFlight = some f) (hflag : f.isSyncHandshake = handshake)
      (hbytes : f.bytes = p.wire) (hsync : f.sync = p.sync) (hq : s.queued = [])
      (ho : s.outbound = [p.wire]) (hlog : log = base)
      (hev : ∀ e ∈ s.events, ¬ Landing handshake e)
  /-- Copies were written, and it is in flight. -/
  | flying (f : InFlight) (mid : List LogEntry) (hf : s.inFlight = some f)
      (hflag : f.isSyncHandshake = handshake) (hbytes : f.bytes = p.wire) (hsync : f.sync = p.sync)
      (hq : s.queued = []) (ho : s.outbound = [] ∨ s.outbound = [p.wire])
      (hlog : log = base ++ .wrote p.wire :: mid) (hmid : ∀ x ∈ mid, x = .wrote p.wire ∨ x.Quiet)
      (hev : ∀ e ∈ s.events, ¬ Landing handshake e)
  /-- It was retired by the line it waits for. -/
  | landed (seg : List LogEntry) (hf : s.inFlight = none) (hq : s.queued = [])
      (ho : s.outbound = []) (hlog : log = base ++ seg) (hphase : Phase handshake p seg)
      (hev : handshake = true → ∀ e ∈ s.events, e.isAck = false)
  /-- It was given up, and a timeout is pending ahead of anything that could be mistaken. -/
  | lost (hf : s.inFlight = none) (hq : s.queued = []) (ho : s.outbound = [])
      (hev : ∃ pre sync post, s.events = pre ++ .timeout sync :: post
        ∧ ∀ e ∈ pre, ¬ Landing handshake e)

/-- What a step retired is what it adds to the retirements. -/
theorem retiredBy_of_retired {w : Watched} {s' : Session} (ps : List (InFlight × Event))
    (h : (w.after s').log.retired = w.log.retired ++ ps) : retiredBy w.session s' = ps.head? := by
  have : w.log.retired ++ closings w.session s' = w.log.retired ++ ps := h
  rw [retiredBy, List.append_cancel_left this]

namespace Turn

variable {handshake : Bool} {p : Packet} {base log : List LogEntry} {w : Watched}
  {ds : List Dispatch}

/-- What a reply tells when it retires nothing is no landing while the packet flies. -/
theorem told_not_landing {r : Reply} {f : InFlight} (hflag : f.isSyncHandshake = handshake)
    (hss : f.isSyncHandshake = true → ∀ sync block version, r ≠ .ss sync block version) :
    ∀ e ∈ told r (some f), ¬ Landing handshake e := by
  intro e he
  cases r with
  | ss sync block version =>
    rw [List.mem_singleton.mp he]
    intro hl
    exact hss (hflag.trans hl) sync block version rfl
  | noise => exact (List.not_mem_nil he).elim
  | _ => rw [List.mem_singleton.mp he]; exact id

/-- **A copy is written.** -/
theorem wrote (h : Turn handshake p base w.session log) {out : Bytes}
    (hout : w.session.pollOutbound.1 = some out) :
    Turn handshake p base w.pollOutbound.session (log ++ [.wrote out]) := by
  rw [Watched.pollOutbound_session]
  unfold Session.pollOutbound at hout ⊢
  cases h with
  | fresh f hf hflag hbytes hsync hq ho hlog hev =>
    rw [ho] at hout ⊢
    obtain rfl := Option.some.inj hout
    exact .flying f [] hf hflag hbytes hsync hq (.inl rfl) (by rw [hlog]) (by simp) hev
  | flying f mid hf hflag hbytes hsync hq ho hlog hmid hev =>
    rcases ho with ho | ho
    · rw [ho] at hout
      cases hout
    · rw [ho] at hout ⊢
      obtain rfl := Option.some.inj hout
      refine .flying f (mid ++ [.wrote p.wire]) hf hflag hbytes hsync hq (.inl rfl)
        (by rw [hlog]; simp) ?_ hev
      intro x hx
      rcases List.mem_append.mp hx with hx | hx
      · exact hmid x hx
      · exact .inl (List.mem_singleton.mp hx)
  | landed seg hf hq ho => rw [ho] at hout; cases hout
  | lost hf hq ho => rw [ho] at hout; cases hout

theorem not_ack_of_not_landing {e : Event} (h : ¬ Landing handshake e) : e.isAck = false := by
  cases e with
  | ack n => exact absurd trivial h
  | _ => rfl

/-- The line that retires the packet lands it. -/
theorem land (hc : Conserved w ds) (h : Turn handshake p base w.session log)
    (ho : w.session.outbound = []) {r : Reply} {f : InFlight} {e : Event} {now : Instant}
    (ht : Retires f e w (w.take r now))
    (hr : f.isSyncHandshake = handshake → f.sync = p.sync → Retiring handshake p r)
    (hack : f.isSyncHandshake = true → e.isAck = false) :
    Turn handshake p base (w.take r now).session
        (log ++ [.heard r (retiredBy w.session (w.session.take r now))])
      ∧ (w.take r now).session.outbound = [] := by
  obtain ⟨ds', hc'⟩ := hc.take r now
  have hret : retiredBy w.session (w.session.take r now) = some (f, e) :=
    retiredBy_of_retired [(f, e)] ht.retired
  cases h with
  | fresh g hg hflag hbytes hsync hq ho' => rw [ho] at ho'; cases ho'
  | landed seg hf => rw [ht.was] at hf; cases hf
  | lost hf => rw [ht.was] at hf; cases hf
  | flying g mid hg hflag hbytes hsync hq ho' hlog hmid hev =>
    obtain rfl := Option.some.inj (ht.was.symm.trans hg)
    -- nothing is queued behind it, so nothing goes out
    cases ht.resumes with
    | launch q g hq' => rw [hq] at hq'; cases hq'
    | idle _ hq' hf' hp hk =>
      have hob : (w.take r now).session.outbound = [] := by
        rw [outbound_same hc hc' hp ht.taken, ho]
      refine ⟨.landed (.wrote p.wire :: (mid ++ .heard r (some (f, e)) :: [])) hf' hq' hob ?_
        (.mk mid [] r f e hmid (hr hflag hsync) hbytes hsync (by simp)) ?_, hob⟩
      · rw [hret, hlog]
        simp
      · intro hh x hx
        rw [events_of_emitted hc hc' ht.emitted ht.polled] at hx
        rcases List.mem_append.mp hx with hx | hx
        · exact not_ack_of_not_landing (hev x hx)
        · rw [List.mem_singleton.mp hx]
          exact hack (hflag.trans hh)

/-- **A line is processed**, all copies written. -/
theorem take (hc : Conserved w ds) (h : Turn handshake p base w.session log)
    (ho : w.session.outbound = []) (r : Reply) (now : Instant) :
    Turn handshake p base (w.take r now).session
        (log ++ [.heard r (retiredBy w.session (w.session.take r now))])
      ∧ (w.take r now).session.outbound = [] := by
  obtain ⟨ds', hc'⟩ := hc.take r now
  cases taken hc r now with
  | quiet ht hsync hsy hok hss =>
    have hev := ht.events hc hc'
    have hob : (w.take r now).session.outbound = [] := by
      rw [outbound_same hc hc' (by rw [ht.log]) (by rw [ht.log]), ho]
    have hret : retiredBy w.session (w.session.take r now) = none :=
      retiredBy_of_retired [] (by
        show (w.take r now).log.retired = _
        rw [ht.log, List.append_nil])
    have hquiet : (LogEntry.heard r (retiredBy w.session (w.session.take r now))).Quiet := hret
    -- nothing is retired: the entry is quiet, and the packet is where it was
    refine ⟨?_, hob⟩
    cases h with
    | fresh f hf hflag hbytes hsync' hq ho' => rw [ho] at ho'; cases ho'
    | flying f mid hf hflag hbytes hsync' hq ho' hlog hmid hev' =>
      refine .flying f (mid ++ [_]) (by rw [ht.inFlight, hf]) hflag hbytes hsync'
        (by rw [ht.queued, hq]) (.inl hob) (by rw [hlog, List.append_assoc]; rfl) ?_ ?_
      · intro x hx
        rcases List.mem_append.mp hx with hx | hx
        · exact hmid x hx
        · rw [List.mem_singleton.mp hx]
          exact .inr hquiet
      · intro e he
        rw [hev, hf] at he
        rcases List.mem_append.mp he with he | he
        · exact hev' e he
        · exact told_not_landing hflag (hss f hf) e he
    | landed seg hf hq ho' hlog hphase hev' =>
      refine .landed (seg ++ [_]) (by rw [ht.inFlight, hf]) (by rw [ht.queued, hq]) hob
        (by rw [hlog, List.append_assoc]) (hphase.append hquiet) ?_
      intro hh e he
      rw [hev] at he
      rcases List.mem_append.mp he with he | he
      · exact hev' hh e he
      · exact told_not_ack _ _ e he
    | lost hf hq ho' hev' =>
      obtain ⟨pre, sync, post, heq, hpre⟩ := hev'
      refine .lost (by rw [ht.inFlight, hf]) (by rw [ht.queued, hq]) hob
        ⟨pre, sync, post ++ told r w.session.inFlight, ?_, hpre⟩
      rw [hev, heq, List.append_assoc]
      rfl
  | acked f hr hf ht hsync hsy =>
    -- an `ok` that matches retires a packet that is no handshake
    refine h.land hc ho ht (fun hflag hp => ?_) fun hh => ?_
    · rw [← hflag, hf, hr]
      unfold Retiring
      rw [if_neg (by decide), hp]
    · rw [hf] at hh
      cases hh
  | synced f sync block version hr hf ht hsync hsy =>
    -- an `ss` retires the handshake
    refine h.land hc ho ht (fun hflag _ => ?_) fun _ => rfl
    rw [← hflag, hf, hr]
    exact ⟨sync, block, version, rfl⟩

/-- **What a read completes is processed.** -/
theorem takeAll (now : Instant) :
    ∀ (rs : List Reply) {w : Watched} {ds : List Dispatch} {log : List LogEntry}, Conserved w ds →
      Turn handshake p base w.session log → w.session.outbound = [] →
      Turn handshake p base (w.takeAll rs now).session (log ++ hearings w.session now rs)
        ∧ (w.takeAll rs now).session.outbound = [] := by
  intro rs
  induction rs with
  | nil =>
    intro w ds log _ h ho
    exact ⟨by rw [hearings, List.append_nil]; exact h, ho⟩
  | cons r rs ih =>
    intro w ds log hc h ho
    obtain ⟨h1, ho1⟩ := h.take hc ho r now
    obtain ⟨ds', hc'⟩ := hc.take r now
    have := ih hc' h1 ho1
    rw [List.append_assoc] at this
    exact this

/-- The buffer of unfinished lines plays no part. -/
theorem withBuf {s : Session} (h : Turn handshake p base s log) (buf : Bytes) :
    Turn handshake p base (s.withBuf buf) log := by
  cases h with
  | fresh f hf hflag hbytes hsync hq ho hlog hev =>
    exact .fresh f hf hflag hbytes hsync hq ho hlog hev
  | flying f mid hf hflag hbytes hsync hq ho hlog hmid hev =>
    exact .flying f mid hf hflag hbytes hsync hq ho hlog hmid hev
  | landed seg hf hq ho hlog hphase hev => exact .landed seg hf hq ho hlog hphase hev
  | lost hf hq ho hev => exact .lost hf hq ho hev

theorem feed (hc : Conserved w ds) (h : Turn handshake p base w.session log)
    (ho : w.session.outbound = []) (bytes : Bytes) (now : Instant) :
    Turn handshake p base (w.feed bytes now).session
        (log ++ hearings w.session now (replies (w.session.inboundBuf ++ bytes)))
      ∧ (w.feed bytes now).session.outbound = [] := by
  obtain ⟨h1, ho1⟩ := takeAll now (replies (w.session.inboundBuf ++ bytes)) hc h ho
  exact ⟨h1.withBuf _, ho1⟩

/-- An entry that does nothing, all copies written. -/
theorem quiet {s : Session} (h : Turn handshake p base s log) (ho : s.outbound = [])
    {x : LogEntry} (hx : x.Quiet) : Turn handshake p base s (log ++ [x]) := by
  cases h with
  | fresh f hf hflag hbytes hsync hq ho' => rw [ho] at ho'; cases ho'
  | flying f mid hf hflag hbytes hsync hq ho' hlog hmid hev =>
    refine .flying f (mid ++ [x]) hf hflag hbytes hsync hq ho'
      (by rw [hlog, List.append_assoc]; rfl) ?_ hev
    intro y hy
    rcases List.mem_append.mp hy with hy | hy
    · exact hmid y hy
    · rw [List.mem_singleton.mp hy]
      exact .inr hx
  | landed seg hf hq ho' hlog hphase hev =>
    exact .landed (seg ++ [x]) hf hq ho' (by rw [hlog, List.append_assoc]) (hphase.append hx) hev
  | lost hf hq ho' hev => exact .lost hf hq ho' hev

/-- **Time passes**, all copies written. -/
theorem tick (hc : Conserved w ds) (h : Turn handshake p base w.session log)
    (ho : w.session.outbound = []) (now : Instant) :
    Turn handshake p base (w.tick now).session
      (log ++ [.ticked (retiredBy w.session (w.session.tick now))]) := by
  obtain ⟨ds', hc'⟩ := hc.tick now
  have hnone : (w.tick now).log.retired = w.log.retired →
      (LogEntry.ticked (retiredBy w.session (w.session.tick now))).Quiet := fun heq =>
    retiredBy_of_retired [] (by
      rw [List.append_nil]
      exact heq)
  cases ticked w now with
  | early heq =>
    have hquiet := hnone (by rw [heq])
    rw [heq]
    exact h.quiet ho hquiet
  | late f now' hf hf' hq' hsync' hsy hl =>
    -- one copy more waits to be written
    have hquiet := hnone (by rw [hl])
    have hev := events_same hc hc' (by rw [hl]) (by rw [hl])
    have hob := outbound_of_placed hc hc' (show (w.tick now).log.placed = _ ++ [_] by rw [hl])
      (by rw [hl])
    rw [ho] at hob
    cases h.quiet ho hquiet with
    | fresh g hg hflag hbytes hsync hq ho' => rw [ho] at ho'; cases ho'
    | landed seg hg => rw [hf] at hg; cases hg
    | lost hg => rw [hf] at hg; cases hg
    | flying g mid hg hflag hbytes hsync hq ho' hlog hmid hev' =>
      obtain rfl := Option.some.inj (hf.symm.trans hg)
      exact .flying _ mid hf' hflag hbytes hsync (by rw [hq', hq])
        (.inr (by rw [hob, ← hbytes]; rfl)) hlog hmid (by rw [hev]; exact hev')
  | expired f ht hsync' hsy =>
    cases h with
    | fresh g hg hflag hbytes hsync hq ho' => rw [ho] at ho'; cases ho'
    | landed seg hg => rw [ht.was] at hg; cases hg
    | lost hg => rw [ht.was] at hg; cases hg
    | flying g mid hg hflag hbytes hsync hq ho' hlog hmid hev =>
      cases ht.resumes with
      | launch q g hq' => rw [hq] at hq'; cases hq'
      | idle _ hq' hf' hp hk =>
        -- the timeout is the last event so far, and none before it is a landing
        refine .lost hf' hq' ?_ ⟨w.session.events, f.sync, [], ?_, hev⟩
        · rw [outbound_same hc hc' hp ht.taken, ho]
        · rw [events_of_emitted hc hc' ht.emitted ht.polled]
          rfl

/-! ## Events are taken off -/

/-- A session with fewer events pending. -/
theorem of_events {s s' : Session} (h : Turn handshake p base s log)
    (hf : s'.inFlight = s.inFlight) (hq : s'.queued = s.queued) (ho : s'.outbound = s.outbound)
    (hev : ∀ e ∈ s'.events, e ∈ s.events)
    (hlost : (∃ pre sync post, s.events = pre ++ .timeout sync :: post
        ∧ ∀ e ∈ pre, ¬ Landing handshake e) →
      ∃ pre sync post, s'.events = pre ++ .timeout sync :: post
        ∧ ∀ e ∈ pre, ¬ Landing handshake e) : Turn handshake p base s' log := by
  cases h with
  | fresh f hf' hflag hbytes hsync hq' ho' hlog hev' =>
    exact .fresh f (hf.trans hf') hflag hbytes hsync (hq.trans hq') (ho.trans ho') hlog
      fun e he => hev' e (hev e he)
  | flying f mid hf' hflag hbytes hsync hq' ho' hlog hmid hev' =>
    exact .flying f mid (hf.trans hf') hflag hbytes hsync (hq.trans hq') (by rw [ho]; exact ho')
      hlog hmid fun e he => hev' e (hev e he)
  | landed seg hf' hq' ho' hlog hphase hev' =>
    exact .landed seg (hf.trans hf') (hq.trans hq') (ho.trans ho') hlog hphase
      fun hh e he => hev' hh e (hev e he)
  | lost hf' hq' ho' hev' => exact .lost (hf.trans hf') (hq.trans hq') (ho.trans ho') (hlost hev')

/-- An event that is neither a landing nor a failure is taken off. -/
theorem pop {s s' : Session} {e : Event} {rest : List Event} (h : Turn handshake p base s log)
    (he : s.events = e :: rest) (hs : s' = { s with events := rest })
    (hfail : e.failure = none) : Turn handshake p base s' log := by
  subst hs
  refine h.of_events rfl rfl rfl (fun x hx => he ▸ List.mem_cons_of_mem e hx) ?_
  rintro ⟨pre, sync, post, heq, hpre⟩
  rw [he] at heq
  cases pre with
  | nil =>
    rw [(List.cons.inj heq).1] at hfail
    cases hfail
  | cons x pre =>
    obtain ⟨-, hrest⟩ := List.cons.inj heq
    exact ⟨pre, sync, post, hrest, fun y hy => hpre y (List.mem_cons_of_mem _ hy)⟩

/-- **A landing that comes first** is that of the packet. -/
theorem landed_of_head {s : Session} {e : Event} {rest : List Event}
    (h : Turn handshake p base s log) (he : s.events = e :: rest) (hl : Landing handshake e) :
    ∃ seg, log = base ++ seg ∧ Phase handshake p seg ∧ s.inFlight = none ∧ s.queued = []
      ∧ s.outbound = [] ∧ (handshake = true → ∀ x ∈ s.events, x.isAck = false) := by
  cases h with
  | fresh f hf hflag hbytes hsync hq ho hlog hev =>
    exact absurd hl (hev e (by rw [he]; exact List.mem_cons_self))
  | flying f mid hf hflag hbytes hsync hq ho hlog hmid hev =>
    exact absurd hl (hev e (by rw [he]; exact List.mem_cons_self))
  | landed seg hf hq ho hlog hphase hev => exact ⟨seg, hlog, hphase, hf, hq, ho, hev⟩
  | lost hf hq ho hev =>
    obtain ⟨pre, sync, post, heq, hpre⟩ := hev
    rw [he] at heq
    cases pre with
    | nil =>
      rw [(List.cons.inj heq).1] at hl
      exact hl.elim
    | cons x pre =>
      rw [(List.cons.inj heq).1] at hl
      exact absurd hl (hpre x List.mem_cons_self)

end Turn

end MarlinTransfer
