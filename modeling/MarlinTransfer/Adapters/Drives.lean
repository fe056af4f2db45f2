import MarlinTransfer.Adapters.Phases

/-!
# A packet driven to its ack

A drive loop that returns has completed the phase of the packet that was sent before it:
one rule for the loops over a session and over a transfer (`holds_drive_turn`), and what
each of the four loops ensures of the log by it.
-/

namespace MarlinTransfer

open Codec Text Session Triple

/-- Nothing is on the line, and no ack is pending. -/
structure Resting (s : Session) : Prop where
  inFlight : s.inFlight = none
  queued : s.queued = []
  outbound : s.outbound = []
  noAck : ∀ e ∈ s.events, e.isAck = false

theorem not_landing_of_not_ack {e : Event} (h : e.isAck = false) : ¬ Landing false e := by
  cases e with
  | ack n => cases h
  | synced block version => exact fun hl => nomatch hl
  | _ => exact id

/-- The phase of `p` began after `base`, and it is over. -/
structure Over (handshake : Bool) (p : Packet) (base : List LogEntry) (w : World) : Prop where
  resting : Resting w.session
  phase : ∃ seg, w.log = base ++ seg ∧ Phase handshake p seg

/-- **A packet is sent** over a line at rest. -/
theorem turn_submitted {w w' : Watched} {ds ds' : List Dispatch} {q : Queued} (hc : Conserved w ds)
    (hc' : Conserved w' ds') (h : Submitted q w w') (hidle : w.session.inFlight = none)
    (ho : w.session.outbound = [])
    (hev : ∀ e ∈ w.session.events, ¬ Landing q.isSyncHandshake e) (log : List LogEntry) :
    Turn q.isSyncHandshake (q.packet w.session.sync) log w'.session log := by
  cases h with
  | waits hbusy =>
    rw [hidle] at hbusy
    cases hbusy
  | launched f _ hf hcar hq hl =>
    have hevents := events_same hc hc' (by rw [hl]) (by rw [hl])
    have hout := outbound_of_placed hc hc' (show w'.log.placed = _ ++ [_] by rw [hl]) (by rw [hl])
    rw [ho] at hout
    refine .fresh f hf hcar.handshake_eq hcar.bytes_eq hcar.sync_eq hq ?_ rfl ?_
    · rw [hout, ← hcar.bytes_eq]
      rfl
    · rw [hevents]
      exact hev

namespace Blocking

variable (env : Env) {handshake : Bool} {p : Packet} {base : List LogEntry}

/-- **The rule of a drive loop for one packet**: what the parts of a turn keep, and the
events answered with the packet where it is. -/
theorem holds_drive_turn {γ α : Type} {next : Upload (Option γ)} {answer : γ → Answer α}
    {giveUp : UploadError} {K : World → Prop} {S : α → World → Prop} (hun : Untallied K)
    (hcons : ∀ w, K w → ∃ ds, Conserved w.transfer.host ds)
    (hwrote : ∀ w out, K w → K (w.wrote out))
    (hreceived : ∀ w bytes now, K w → K (w.received bytes now))
    (hticked : ∀ w now, K w → K (w.ticked now))
    (hanswer : Holds
      (fun w => (K w ∧ Turn handshake p base w.session w.log) ∧ w.session.outbound = [])
      (answerAll next answer)
      (Cases (fun w => (K w ∧ Turn handshake p base w.session w.log) ∧ w.session.outbound = []) S)
      Errs) :
    Holds (fun w => K w ∧ Turn handshake p base w.session w.log) (drive env next answer giveUp) S
      Errs := by
  have hunF : Untallied fun w =>
      (K w ∧ Turn handshake p base w.session w.log) ∧ w.session.outbound = [] :=
    fun w reads writes nows h => ⟨⟨hun w reads writes nows h.1.1, h.1.2⟩, h.2⟩
  refine holds_drive env (F := fun w => (K w ∧ Turn handshake p base w.session w.log)
      ∧ w.session.outbound = []) ?_ (holds_read env hunF) (fun bytes => ?_) hanswer ?_
  · exact holds_flush env
      (fun w reads writes nows h => ⟨hun w reads writes nows h.1, h.2⟩)
      fun w out h hout => ⟨hwrote w out h.1, h.2.wrote hout⟩
  · refine holds_feed env bytes hunF (fun _ h => h) fun w bytes now h => ?_
    obtain ⟨ds, hc⟩ := hcons w h.1.1
    obtain ⟨hturn, hout⟩ := Turn.feed hc h.1.2 h.2 bytes now
    exact ⟨⟨hreceived w bytes now h.1.1, hturn⟩, hout⟩
  · refine holds_tick env hunF fun w now h => ?_
    obtain ⟨ds, hc⟩ := hcons w h.1.1
    exact ⟨hticked w now h.1.1, Turn.tick hc h.1.2 h.2 now⟩

end Blocking

/-! ## The loops over a transfer -/

/-- The first event that is not idle is no ack when a failure comes ahead of every ack. -/
theorem head_not_ack {x e : Event} {rest post : List Event} (hx : x.failure.isSome) :
    ∀ {pre : List Event}, (∀ y ∈ pre, y.isAck = false) →
      (pre ++ x :: rest).dropWhile Event.idle = e :: post → e.isAck = false := by
  have hidle : ∀ y : Event, y.isAck = false → y.idle = false → y.failure.isSome := by
    intro y hack hy
    unfold Event.idle at hy
    rw [hack] at hy
    cases hf : y.failure with
    | none => rw [hf] at hy; cases hy
    | some err => rfl
  intro pre
  induction pre with
  | nil =>
    intro _ hdrop
    have hx' : ¬ x.idle = true := by
      intro hid
      rw [(Event.idle_iff.mp hid).2] at hx
      cases hx
    rw [List.nil_append, List.dropWhile_cons_of_neg hx'] at hdrop
    rw [← (List.cons.inj hdrop).1]
    cases x <;> first | rfl | cases hx
  | cons y pre ih =>
    intro hpre hdrop
    rw [List.cons_append] at hdrop
    by_cases hy : y.idle = true
    · rw [List.dropWhile_cons_of_pos hy] at hdrop
      exact ih (fun z hz => hpre z (List.mem_cons_of_mem _ hz)) hdrop
    · rw [List.dropWhile_cons_of_neg hy] at hdrop
      rw [← (List.cons.inj hdrop).1]
      exact hpre y List.mem_cons_self

theorem polledFile_session {w : World} (h : Ready w.transfer) :
    w.polledFile.session = { w.session with events := [] } := by
  obtain ⟨ds, hc⟩ := h.live.conserved
  exact congrArg Watched.session (Transfer.poll_host hc)

/-- **A poll that returns no failure** leaves the packet where it is, and its phase is over if
the poll returned something. -/
theorem Turn.polledFile {p : Packet} {base : List LogEntry} {w : World} (hr : Ready w.transfer)
    (h : Turn false p base w.session w.log)
    (hno : ∀ err, (w.ft.poll w.session).1 ≠ some (.failed err)) :
    Turn false p base w.polledFile.session w.polledFile.log
      ∧ (∀ ev, (w.ft.poll w.session).1 = some ev → Over false p base w.polledFile) := by
  obtain ⟨hp, -⟩ := hr.poll
  have hp' : FileTransfer.Polled w.ft w.session.events (w.ft.poll w.session).1
    w.transfer.poll.ft.state := hp
  have hsession := polledFile_session hr
  -- a packet that was not given up is where it was, the poll having taken only events
  have hkeep : (∀ pre sync post, w.session.events = pre ++ .timeout sync :: post →
      (∀ e ∈ pre, ¬ Landing false e) → False) →
      Turn false p base w.polledFile.session w.polledFile.log := by
    intro hlost
    rw [hsession]
    refine h.of_events rfl rfl rfl (fun e he => (List.not_mem_nil he).elim) ?_
    rintro ⟨pre, sync, post, heq, hpre⟩
    exact (hlost pre sync post heq hpre).elim
  generalize hret : (w.ft.poll w.session).1 = ret at hp'
  generalize w.transfer.poll.ft.state = st at hp'
  cases hp' with
  | failed _ err => exact absurd hret (hno err)
  -- nothing was returned: no failure was pending, so no timeout
  | nothing _ =>
    refine ⟨hkeep fun pre sync post heq _ => ?_, fun ev hev => nomatch hev⟩
    have hnf := FileTransfer.no_failure_of_poll hret
    have := List.any_eq_false.mp hnf (.timeout sync) (by rw [heq]; simp)
    exact this rfl
  -- an ack was pending, so the packet had landed
  | answered op post ev hd =>
    obtain ⟨n, hn⟩ := hd.acked
    have hlost : ∀ pre sync post', w.session.events = pre ++ .timeout sync :: post' →
        (∀ e ∈ pre, ¬ Landing false e) → False := by
      intro pre sync post' heq hpre
      rw [heq] at hn
      have := head_not_ack rfl (fun e he => not_ack_of_not_landing (hpre e he)) hn
      cases this
    have hmem : Event.ack n ∈ w.session.events :=
      (List.dropWhile_suffix Event.idle).subset (hn ▸ List.mem_cons_self)
    refine ⟨hkeep hlost, fun _ _ => ?_⟩
    cases h with
    | fresh f hf hflag hbytes hsync hq ho hlog hev => exact absurd trivial (hev _ hmem)
    | flying f mid hf hflag hbytes hsync hq ho hlog hmid hev => exact absurd trivial (hev _ hmem)
    | lost hf hq ho hev =>
      obtain ⟨pre, sync, post', heq, hpre⟩ := hev
      exact (hlost pre sync post' heq hpre).elim
    | landed seg hf hq ho hlog hphase hev =>
      refine ⟨?_, seg, hlog, hphase⟩
      rw [hsession]
      exact ⟨hf, hq, ho, fun e he => (List.not_mem_nil he).elim⟩

namespace Blocking

variable (env : Env) {p : Packet} {base : List LogEntry}

/-- A loop that takes a failure as an error returns once the phase is over. -/
theorem holds_drive_file_turn {α : Type} {answer : FileEvent → Answer α} {giveUp : UploadError}
    {S : α → World → Prop} (hfail : ∀ err, ∃ e, answer (.failed err) = some (.error e))
    (hans : ∀ (w : World) ev a, Ready w.transfer → (w.ft.poll w.session).1 = some ev →
      answer ev = some (.ok a) → S a w.polledFile) :
    Holds (fun w => Ready w.transfer ∧ Turn false p base w.session w.log)
      (drive env poll answer giveUp)
      (fun a w => Ready w.transfer ∧ Over false p base w ∧ S a w) Errs := by
  have hnot : ∀ (w : World) ev, (w.ft.poll w.session).1 = some ev →
      (∀ e, answer ev ≠ some (.error e)) → ∀ err, (w.ft.poll w.session).1 ≠ some (.failed err) := by
    intro w ev hev hne err herr
    rw [hev] at herr
    obtain ⟨e, he⟩ := hfail err
    exact hne e (Option.some.inj herr ▸ he)
  refine holds_drive_turn env (K := fun w => Ready w.transfer) (fun _ _ _ _ h => h)
    (fun _ h => h.live.conserved) (fun _ _ h => h.of_host h.live.pollOutbound)
    (fun _ bytes now h => h.of_host (h.live.feed bytes now))
    (fun _ now h => h.of_host (h.live.tick now)) ?_
  refine holds_answerAll (R := fun ev w => ∃ w0 : World, (Ready w0.transfer
    ∧ Turn false p base w0.session w0.log) ∧ w0.session.outbound = []
    ∧ (w0.ft.poll w0.session).1 = some ev ∧ w = w0.polledFile) (holds_poll
      (fun _ h => h.1.1.live.conserved) (fun w h hnone => ?_)
      fun w ev h hev => ⟨w, h.1, h.2, hev, rfl⟩) ?_ ?_
  · refine ⟨⟨h.1.1.poll.2, (h.1.2.polledFile h.1.1 (by simp [hnone])).1⟩, ?_⟩
    rw [polledFile_session h.1.1]
    exact h.2
  · rintro ev w ⟨w0, h, hout, hev, rfl⟩ hgo
    refine ⟨⟨h.1.poll.2, (h.2.polledFile h.1 (hnot w0 ev hev (by simp [hgo]))).1⟩, ?_⟩
    rw [polledFile_session h.1]
    exact hout
  · rintro ev a w ⟨w0, h, hout, hev, rfl⟩ ha
    exact ⟨h.1.poll.2, (h.2.polledFile h.1 (hnot w0 ev hev (by simp [ha]))).2 ev hev,
      hans w0 ev a h.1 hev ha⟩

/-- The transfer goes on with the compression that was negotiated. -/
theorem negotiated_polled {w : World} (h : Ready w.transfer) {version : Str} {c : Compression}
    (hev : (w.ft.poll w.session).1 = some (.negotiated version c)) :
    w.polledFile.ft.negotiated = some c := by
  obtain ⟨ds, hc⟩ := h.live.conserved
  have hneg := FileTransfer.negotiated_of_poll h.prompt hev
  have heq : (w.transfer.ft.poll w.transfer.host.session).2.1 = w.transfer.poll.ft := by
    rw [Transfer.poll_eq hc]
  rw [← show (w.transfer.ft.poll w.session).2.1 = w.polledFile.ft from heq]
  exact hneg

theorem holds_negotiated_turn :
    Holds (fun w => Ready w.transfer ∧ Turn false p base w.session w.log) (driveUntilNegotiated env)
      (fun c w => Ready w.transfer ∧ Over false p base w ∧ w.ft.negotiated = some c ∧ c ≠ .auto)
      Errs := by
  refine holds_drive_file_turn env (fun _ => ⟨_, rfl⟩) fun w ev a h hev hans => ?_
  cases ev with
  | negotiated version c =>
    obtain rfl : c = a := by simpa using hans
    exact ⟨negotiated_polled h hev, negotiated_ne_auto h hev⟩
  | _ => simp at hans

theorem holds_event_turn (pred : FileEvent → Bool) :
    Holds (fun w => Ready w.transfer ∧ Turn false p base w.session w.log) (driveUntilEvent env pred)
      (fun _ w => Ready w.transfer ∧ Over false p base w) Errs :=
  (holds_drive_file_turn env (S := fun _ _ => True) (fun _ => ⟨_, rfl⟩)
    fun _ _ _ _ _ _ => trivial).post fun _ _ h => ⟨h.1, h.2.1⟩

end Blocking

/-! ## The loops over a session -/

/-- The block size that an entry tells. -/
def LogEntry.block : LogEntry → Option UInt16
  | .heard (.ss _ block _) _ => some block
  | _ => none

/-- The block size that was told last. -/
def advertised (log : List LogEntry) : Option UInt16 := (log.filterMap LogEntry.block).getLast?

theorem advertised_append (log : List LogEntry) (x : LogEntry) :
    advertised (log ++ [x]) = x.block.or (advertised log) := by
  unfold advertised
  rw [List.filterMap_append]
  cases h : x.block with
  | none => simp [h]
  | some block => simp [h]

theorem dispatchIfIdle_maxBlockSize (s : Session) (now : Instant) :
    (s.dispatchIfIdle now).maxBlockSize = s.maxBlockSize := by
  unfold dispatchIfIdle
  split
  · rfl
  · split <;> rfl

theorem take_maxBlockSize (s : Session) (r : Reply) (done : Option (InFlight × Event))
    (now : Instant) :
    (s.take r now).maxBlockSize = (LogEntry.heard r done).block.or s.maxBlockSize := by
  cases r with
  | ok n =>
    show (s.handleOk n now).maxBlockSize = s.maxBlockSize
    unfold handleOk
    split
    · rfl
    · split_ifs
      · rfl
      · rfl
      · exact dispatchIfIdle_maxBlockSize _ now
  | ss sync block version => exact dispatchIfIdle_maxBlockSize _ now
  | _ => rfl

/-- The session knows the block size that was told last. -/
theorem takeAll_maxBlockSize (now : Instant) (rs : List Reply) :
    ∀ {w : Watched} {log : List LogEntry}, w.session.maxBlockSize = advertised log →
      (w.takeAll rs now).session.maxBlockSize
        = advertised (log ++ hearings w.session now rs) := by
  induction rs with
  | nil =>
    intro w log h
    rw [hearings, List.append_nil]
    exact h
  | cons r rs ih =>
    intro w log h
    have h1 : (w.take r now).session.maxBlockSize
        = advertised (log ++ [.heard r (retiredBy w.session (w.session.take r now))]) := by
      rw [advertised_append, ← h]
      exact take_maxBlockSize w.session r _ now
    have h2 := ih h1
    rw [List.append_assoc] at h2
    exact h2

theorem tick_maxBlockSize (s : Session) (now : Instant) :
    (s.tick now).maxBlockSize = s.maxBlockSize := by
  unfold tick
  split
  · rfl
  · split_ifs
    · exact dispatchIfIdle_maxBlockSize _ now
    · rfl
    · rfl

theorem pollOutbound_maxBlockSize (s : Session) :
    s.pollOutbound.2.maxBlockSize = s.maxBlockSize := by
  unfold Session.pollOutbound
  split <;> rfl

theorem pollEvent_maxBlockSize (s : Session) : s.pollEvent.2.maxBlockSize = s.maxBlockSize := by
  unfold Session.pollEvent
  split <;> rfl

namespace Blocking

variable (env : Env) {handshake : Bool} {p : Packet} {base : List LogEntry}

/-- What a session that greets keeps. -/
def Greets (w : World) : Prop :=
  Greeting w.transfer.host ∧ w.session.maxBlockSize = advertised w.log

/-- **A loop over a session** returns with the landing that it waits for. -/
theorem holds_drive_session_turn {answer : Event → Answer Unit} {giveUp : UploadError}
    {K : World → Prop} {S : Unit → World → Prop} (hun : Untallied K)
    (hcons : ∀ w, K w → ∃ ds, Conserved w.transfer.host ds)
    (hwrote : ∀ w out, K w → K (w.wrote out))
    (hreceived : ∀ w bytes now, K w → K (w.received bytes now))
    (hticked : ∀ w now, K w → K (w.ticked now)) (hpolled : ∀ w, K w → K w.polledEvent)
    (hgo : ∀ e, answer e = none → e.failure = none)
    (hret : ∀ w e rest, K w → Turn handshake p base w.session w.log →
      w.session.events = e :: rest → answer e = some (.ok ()) → S () w.polledEvent) :
    Holds (fun w => K w ∧ Turn handshake p base w.session w.log)
      (drive env pollEvent answer giveUp) S Errs := by
  have hsession : ∀ {w : World} {e rest}, w.session.events = e :: rest →
      w.polledEvent.session = { w.session with events := rest } := by
    intro w e rest he
    show w.transfer.host.pollEvent.session = _
    rw [Watched.pollEvent_session, Session.pollEvent,
      show w.transfer.host.session.events = e :: rest from he]
    rfl
  refine holds_drive_turn env hun hcons hwrote hreceived hticked (holds_answerAll
    (R := fun e w => ∃ w0 rest, ((K w0 ∧ Turn handshake p base w0.session w0.log)
      ∧ w0.session.outbound = []) ∧ w0.session.events = e :: rest ∧ w = w0.polledEvent)
    (holds_pollEvent (fun _ h _ => h) fun w e rest h he => ⟨w, rest, h, he, rfl⟩) ?_ ?_)
  · rintro e w ⟨w0, rest, h, he, rfl⟩ hans
    refine ⟨⟨hpolled w0 h.1.1, ?_⟩, ?_⟩
    · exact h.1.2.pop he (hsession he) (hgo e hans)
    · rw [hsession he]
      exact h.2
  · rintro e ⟨⟩ w ⟨w0, rest, h, he, rfl⟩ hans
    exact hret w0 e rest h.1.1 h.1.2 he hans

/-- The handshake. -/
theorem holds_synced_turn :
    Holds (fun w => Greets w ∧ Turn true p base w.session w.log) (driveSessionUntilSynced env)
      (fun _ w => Live w.transfer.host ∧ w.session.maxBlockSize = advertised w.log
        ∧ Over true p base w) Errs := by
  refine holds_drive_session_turn env (K := Greets) (fun _ _ _ _ h => h)
    (fun _ h => h.1.conserved) ?_ ?_ ?_ ?_ ?_ ?_
  · rintro w out ⟨hg, hb⟩
    refine ⟨hg.pollOutbound, ?_⟩
    show w.transfer.host.pollOutbound.session.maxBlockSize = advertised (w.log ++ [_])
    rw [Watched.pollOutbound_session, pollOutbound_maxBlockSize, advertised_append]
    exact hb
  · rintro w bytes now ⟨hg, hb⟩
    exact ⟨hg.feed bytes now, takeAll_maxBlockSize now _ hb⟩
  · rintro w now ⟨hg, hb⟩
    refine ⟨hg.tick now, ?_⟩
    show (w.session.tick now).maxBlockSize = advertised (w.log ++ [_])
    rw [tick_maxBlockSize, advertised_append]
    exact hb
  · rintro w ⟨hg, hb⟩
    refine ⟨hg.pollEvent, ?_⟩
    show w.transfer.host.pollEvent.session.maxBlockSize = _
    rw [Watched.pollEvent_session, pollEvent_maxBlockSize]
    exact hb
  · intro e hans
    cases e <;> simp [sessionError] at hans <;> rfl
  · rintro w e rest ⟨hg, hb⟩ h he hans
    cases e with
    -- the `Synced` at the head of the queue is what the packet was waiting for
    | synced block version =>
      obtain ⟨seg, hlog, hphase, hf, hq, ho, hev⟩ := h.landed_of_head he rfl
      have hsession : w.transfer.host.pollEvent.session = { w.session with events := rest } := by
        rw [Watched.pollEvent_session, Session.pollEvent,
          show w.transfer.host.session.events = _ :: rest from he]
        rfl
      have hsy := hg.told block version (show _ ∈ w.session.events by
        rw [he]
        exact List.mem_cons_self)
      refine ⟨⟨hg.pollEvent.conserved, ?_⟩, ?_, ?_, seg, hlog, hphase⟩
      · show w.transfer.host.pollEvent.session.isSynced = true
        rw [hsession]
        exact hsy
      · show w.transfer.host.pollEvent.session.maxBlockSize = _
        rw [hsession]
        exact hb
      · show Resting w.transfer.host.pollEvent.session
        rw [hsession]
        exact ⟨hf, hq, ho, fun x hx => hev rfl x (he ▸ List.mem_cons_of_mem _ hx)⟩
    -- no other event ends this loop
    | _ => simp [sessionError] at hans

/-- The control CLOSE. -/
theorem holds_idle_turn :
    Holds (fun w => (∃ ds, Conserved w.transfer.host ds) ∧ Turn false p base w.session w.log)
      (driveSessionUntilIdle env)
      (fun _ w => ∃ seg, w.log = base ++ seg ∧ Phase false p seg) Errs := by
  refine holds_drive_session_turn env (K := fun w => ∃ ds, Conserved w.transfer.host ds)
    (fun _ _ _ _ h => h) (fun _ h => h) (fun _ _ ⟨ds, hc⟩ => ⟨ds, hc.pollOutbound⟩) ?_
    (fun _ now ⟨ds, hc⟩ => hc.tick now) (fun _ ⟨ds, hc⟩ => ⟨ds, hc.pollEvent⟩) ?_ ?_
  · rintro w bytes now ⟨ds, hc⟩
    exact hc.feed bytes now
  · intro e hans
    cases e <;> simp [sessionError] at hans <;> rfl
  · rintro w e rest - h he hans
    cases e with
    | ack n =>
      obtain ⟨seg, hlog, hphase, -⟩ := h.landed_of_head he trivial
      exact ⟨seg, hlog, hphase⟩
    | _ => simp [sessionError] at hans

end Blocking

end MarlinTransfer
