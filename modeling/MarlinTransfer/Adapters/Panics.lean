import MarlinTransfer.Adapters.Loops
import MarlinTransfer.FileTransfer.Success

/-!
# When the upload helper panics

Every assertion on the way of an upload holds as long as no poll is overtaken and the name
fits into a packet, and every loop has fuel enough: the helper returns `Ok` or `Err`,
whatever the transport delivers.
-/

namespace MarlinTransfer

open Codec Text Session Triple

/-! ## Until the session is synced -/

/-- A `Synced` event that is pending was told by a session that is synced. -/
structure Greeting (w : Watched) : Prop where
  conserved : ∃ ds, Conserved w ds
  told : ∀ block version, .synced block version ∈ w.session.events → w.session.isSynced = true

namespace Greeting

variable {w : Watched}

/-- New events that are no `Synced` change nothing. -/
theorem told_of_append {s s' : Session} (es : List Event)
    (h : ∀ block version, .synced block version ∈ s.events → s.isSynced = true)
    (he : s'.events = s.events ++ es) (hes : ∀ block version, .synced block version ∉ es)
    (hsy : s'.isSynced = s.isSynced) :
    ∀ block version, .synced block version ∈ s'.events → s'.isSynced = true := by
  intro block version hm
  rw [he] at hm
  rw [hsy]
  exact h block version ((List.mem_append.mp hm).resolve_right (hes block version))

theorem take (h : Greeting w) (r : Reply) (now : Instant) : Greeting (w.take r now) := by
  obtain ⟨ds, hc⟩ := h.conserved
  refine ⟨hc.take r now, ?_⟩
  show ∀ block version, _ ∈ (w.session.take r now).events → (w.session.take r now).isSynced = true
  cases r with
  | ok n =>
    cases hf : w.session.inFlight with
    | none =>
      rw [take_ok_idle hf]
      exact told_of_append [_] h.told rfl (by simp) rfl
    | some f =>
      by_cases hn : f.isSyncHandshake = true ∨ n ≠ f.sync
      · rw [take_ok_refused hf hn]
        exact told_of_append [_] h.told rfl (by simp) rfl
      · obtain ⟨hh, hs⟩ := not_or.mp hn
        obtain rfl : n = f.sync := not_not.mp hs
        rw [take_ok_matching hf (Bool.eq_false_iff.mpr hh)]
        refine told_of_append [.ack f.sync] h.told ?_ (by simp) ?_
        · rw [dispatchIfIdle_events]
          rfl
        · rw [dispatchIfIdle_isSynced]
          rfl
  | ss sync block version =>
    intro _ _ _
    show ((w.session.adopt sync block version).dispatchIfIdle now).isSynced = true
    rw [dispatchIfIdle_isSynced]
    rfl
  | rs n => exact told_of_append [_] h.told rfl (by simp) rfl
  | fe => exact told_of_append [_] h.told rfl (by simp) rfl
  | text line => exact told_of_append [_] h.told rfl (by simp) rfl
  | noise => exact h.told

theorem takeAll (h : Greeting w) (rs : List Reply) (now : Instant) :
    Greeting (w.takeAll rs now) := by
  induction rs generalizing w with
  | nil => exact h
  | cons r rs ih => exact ih (h.take r now)

theorem feed (h : Greeting w) (bytes : Bytes) (now : Instant) : Greeting (w.feed bytes now) := by
  have h' := h.takeAll (replies (w.session.inboundBuf ++ bytes)) now
  obtain ⟨ds, hc⟩ := h'.conserved
  exact ⟨⟨ds, hc.withBuf _⟩, h'.told⟩

theorem tick (h : Greeting w) (now : Instant) : Greeting (w.tick now) := by
  obtain ⟨ds, hc⟩ := h.conserved
  refine ⟨hc.tick now, ?_⟩
  show ∀ block version, _ ∈ (w.session.tick now).events → (w.session.tick now).isSynced = true
  cases hf : w.session.inFlight with
  | none =>
    rw [tick_idle hf]
    exact h.told
  | some f =>
    by_cases ht : now - f.firstSent ≥ w.session.totalTimeout
    · rw [tick_expired hf ht]
      refine told_of_append [.timeout f.sync] h.told ?_ (by simp) ?_
      · rw [dispatchIfIdle_events]
        rfl
      · rw [dispatchIfIdle_isSynced]
        rfl
    · by_cases hr : now - f.lastSent ≥ w.session.responseTimeout
      · rw [tick_late hf ht hr]
        exact h.told
      · rw [tick_early hf ht hr]
        exact h.told

theorem pollOutbound (h : Greeting w) : Greeting w.pollOutbound := by
  obtain ⟨ds, hc⟩ := h.conserved
  refine ⟨⟨ds, hc.pollOutbound⟩, ?_⟩
  rw [Watched.pollOutbound_session, Session.pollOutbound]
  split <;> exact h.told

theorem pollEvent (h : Greeting w) : Greeting w.pollEvent := by
  obtain ⟨ds, hc⟩ := h.conserved
  refine ⟨⟨ds, hc.pollEvent⟩, ?_⟩
  rw [Watched.pollEvent_session, Session.pollEvent]
  split
  · exact h.told
  · rename_i e rest he
    exact fun block version hm => h.told block version (he ▸ List.mem_cons_of_mem e hm)

theorem connect_start (now : Instant) : Greeting ((Watched.start Session.new).connect now) := by
  refine ⟨(conserved_start Session.new).connect now, ?_⟩
  show ∀ block version, _ ∈ ((Session.new.queue syncPacket true).dispatchIfIdle now).events → _
  rw [dispatchIfIdle_events]
  exact fun _ _ hm => (List.not_mem_nil hm).elim

end Greeting

namespace Blocking

variable (env : Env)

theorem holds_driveSessionUntilSynced :
    Holds (fun w => Greeting w.transfer.host) (driveSessionUntilSynced env)
      (fun _ w => Live w.transfer.host) Errs := by
  have hun : Untallied fun w => Greeting w.transfer.host := fun _ _ _ _ h => h
  refine holds_drive env (F := fun w => Greeting w.transfer.host)
    (J := fun w => Greeting w.transfer.host) (T := fun w => Greeting w.transfer.host) ?_
    (holds_read env hun) (fun bytes => holds_feed env bytes hun (fun _ h => h)
      fun _ bytes now h => h.feed bytes now) ?_ (holds_tick env hun fun _ now h => h.tick now)
  · exact (holds_flush env hun fun _ _ h _ => h.pollOutbound).post fun _ _ h => h.1
  · refine holds_answerAll (R := fun e w => Greeting w.transfer.host
      ∧ ((∃ block version, e = .synced block version) → w.session.isSynced = true))
      (holds_pollEvent (fun _ h _ => h) fun w e rest h hev => ⟨h.pollEvent, ?_⟩)
      (fun _ _ h _ => h.1) ?_
    · rintro ⟨block, version, rfl⟩
      have hsy := h.told block version (show _ ∈ w.session.events by
        rw [hev]
        exact List.mem_cons_self)
      show w.transfer.host.pollEvent.session.isSynced = true
      rw [Watched.pollEvent_session, Session.pollEvent]
      split <;> exact hsy
    · intro e a w h hans
      cases e with
      | synced block version => exact ⟨h.1.conserved, h.2 ⟨block, version, rfl⟩⟩
      | _ => simp [sessionError] at hans

theorem holds_driveSessionUntilIdle :
    Holds (fun _ => True) (driveSessionUntilIdle env) (fun _ _ => True) Errs := by
  have hun : Untallied fun _ => True := fun _ _ _ _ h => h
  refine holds_drive env (F := fun _ => True) (J := fun _ => True) (T := fun _ => True) ?_
    (holds_read env hun) (fun bytes => holds_feed env bytes hun (fun _ h => h)
      fun _ _ _ h => h) ?_ (holds_tick env hun fun _ _ h => h)
  · exact (holds_flush env hun fun _ _ h _ => h).post fun _ _ _ => trivial
  · exact holds_answerAll (R := fun _ _ => True) (holds_pollEvent (fun _ h _ => h) fun _ _ _ h _ => h)
      (fun _ _ h _ => h) fun _ _ _ h _ => h

/-! ## With a transfer -/

/-- A drive loop over a transfer ends with the poll that returned what it waited for. -/
theorem holds_drive_file {α : Type} {answer : FileEvent → Answer α} {giveUp : UploadError}
    {S : α → World → Prop}
    (hans : ∀ (w : World) ev a, Ready w.transfer → (w.ft.poll w.session).1 = some ev →
      answer ev = some (.ok a) → S a w.polledFile) :
    Holds (fun w => Ready w.transfer) (drive env poll answer giveUp) S Errs := by
  have hun : Untallied fun w => Ready w.transfer := fun _ _ _ _ h => h
  refine holds_drive env (F := fun w => Ready w.transfer) (J := fun w => Ready w.transfer)
    (T := fun w => Ready w.transfer) ?_ (holds_read env hun)
    (fun bytes => holds_feed env bytes hun (fun _ h => h)
      fun _ bytes now h => h.of_host (h.live.feed bytes now)) ?_
    (holds_tick env hun fun _ now h => h.of_host (h.live.tick now))
  · exact (holds_flush env hun fun _ _ h _ => h.of_host h.live.pollOutbound).post fun _ _ h => h.1
  · refine holds_answerAll (R := fun ev w => ∃ w0 : World, Ready w0.transfer
      ∧ (w0.ft.poll w0.session).1 = some ev ∧ w = w0.polledFile)
      (holds_poll (fun _ h => h.live.conserved) (fun _ h _ => h.poll.2)
        fun w ev h hev => ⟨w, h, hev, rfl⟩) ?_ ?_
    · rintro ev w ⟨w0, h, -, rfl⟩ _
      exact h.poll.2
    · rintro ev a w ⟨w0, h, hev, rfl⟩ ha
      exact hans w0 ev a h hev ha

/-- The transfer is ready, and unless a poll was overtaken in this state. -/
def ReadyIn (st : State) (w : World) : Prop := Ready w.transfer ∧ (Clean w → w.ft.state = st)

/-- After the poll that returned the success of an operation. -/
theorem readyIn_polled {w : World} (h : Ready w.transfer) {ev : FileEvent} (op : Operation)
    (hev : (w.ft.poll w.session).1 = some ev) (hans : ev.answers = some op)
    (hlead : op.leadsOn = true) : ReadyIn op.done w.polledFile := by
  refine ⟨h.poll.2, fun hclean => ?_⟩
  have hno := hclean w.transfer (List.mem_append_right _ List.mem_cons_self)
  have hst := (matches_iff_not_overtaken h).mpr hno ev op hev hans hlead
  obtain ⟨ds, hc⟩ := h.live.conserved
  rw [Transfer.poll_eq hc] at hst
  exact hst

/-- The compression a query settles on is never `Auto`. -/
theorem negotiated_ne_auto {t : Transfer} (h : Ready t) {version : Str} {c : Compression}
    (hev : (t.ft.poll t.host.session).1 = some (.negotiated version c)) : c ≠ .auto := by
  obtain ⟨hp, -⟩ := FileTransfer.polled t.host.session h.prompt
  rw [hev] at hp
  generalize (t.ft.poll t.host.session).2.1.state = st at hp
  cases hp with
  | answered op post _ hd =>
    have hset := hd.settled
    generalize hv : (verdictIn op t.ft.requestedCompression _).or t.ft.heard = heard at hset
    have hacc : heard = some (.accept (.negotiated version c)) := by
      cases heard with
      | none =>
        unfold Operation.settle at hset
        dsimp only at hset
        split_ifs at hset
      | some v =>
        cases v with
        | accept e => rw [show e = .negotiated version c from hset]
        | refuse err => cases hset
    rw [hacc] at hv
    rcases Option.or_eq_some_iff.mp hv with hv | ⟨-, hv⟩
    · have hm := List.mem_of_getLast? hv
      obtain ⟨e, -, he⟩ := List.mem_filterMap.mp hm
      cases e with
      | asciiLine line => exact verdict_ne_auto he
      | _ => cases he
    · exact h.prompt.resolved version c hv

theorem holds_driveUntilNegotiated :
    Holds (fun w => Ready w.transfer) (driveUntilNegotiated env)
      (fun c w => ReadyIn .negotiated w ∧ c ≠ .auto) Errs := by
  refine holds_drive_file env fun w ev a h hev hans => ?_
  cases ev with
  | negotiated version c =>
    obtain rfl : c = a := by simpa using hans
    exact ⟨readyIn_polled h .query hev rfl rfl, negotiated_ne_auto h hev⟩
  | _ => simp at hans

theorem holds_driveUntilEvent {pred : FileEvent → Bool} (op : Operation)
    (hpred : ∀ ev, pred ev = true → ev.answers = some op) (hlead : op.leadsOn = true) :
    Holds (fun w => Ready w.transfer) (driveUntilEvent env pred) (fun _ => ReadyIn op.done)
      Errs := by
  refine holds_drive_file env fun w ev a h hev hans => readyIn_polled h op hev (hpred ev ?_) hlead
  cases ev with
  | failed err => simp at hans
  | _ =>
    by_contra hno
    simp [hno] at hans

/-- A call in the state it asserts. -/
theorem holds_call {c : Call} (op : Operation) (hop : c.operation = some op) (hfit : c.Fits) :
    Holds (ReadyIn op.required) (call c) (fun _ w => Ready w.transfer) Errs := by
  refine holds_bind (fun w0 w => ReadyIn op.required w ∧ w = w0) (holds_get fun w hw => ⟨hw, rfl⟩)
    fun w0 => ?_
  cases hs : w0.transfer.step c with
  | some t => exact holds_modify fun w ⟨hw, heq⟩ => (heq ▸ hw.1 : Ready w0.transfer).step hs
  | none =>
    refine holds_throw fun w ⟨hw, heq⟩ hclean => ?_
    subst heq
    have := step_isSome hw.1 op hop (hw.2 hclean) hfit
    rw [hs] at this
    cases this

/-! ## The helper -/

theorem holds_writeChunks (options : UploadOptions) :
    ∀ (chunks : List Bytes) (stats : UploadStats), (∀ chunk ∈ chunks, chunk.length ≤ maxPayload) →
      Holds (ReadyIn .opened) (writeChunks env options chunks stats) (fun _ => ReadyIn .opened)
        Errs := by
  intro chunks
  induction chunks with
  | nil => exact fun stats _ => holds_pure fun w hw => hw
  | cons chunk chunks ih =>
    intro stats hfit
    refine holds_bind (fun _ => ReadyIn .opened) (holds_now env fun _ _ _ _ h => h) fun now => ?_
    refine holds_bind _ (holds_call .write rfl (hfit chunk List.mem_cons_self)) fun _ => ?_
    refine holds_bind _ (holds_driveUntilEvent env .write ?_ rfl) fun _ => ?_
    · intro ev hev
      rw [of_decide_eq_true hev]
      rfl
    · have hrest := ih { stats with
        bytesSent := stats.bytesSent + chunk.length
        chunksSent := stats.chunksSent + 1 } fun c hc => hfit c (List.mem_cons_of_mem _ hc)
      dsimp only
      split_ifs
      · exact holds_bind (fun _ => ReadyIn .opened) (holds_modify fun w hw => hw) fun _ => hrest
      · exact hrest

theorem holds_payloadOf {P : World → Prop} (crate : Option HeatshrinkCrate) (source : Bytes)
    {c : Compression} (hc : c ≠ .auto) :
    Holds P (payloadOf crate source c) (fun _ => P) Errs := by
  cases c with
  | none => exact holds_pure fun w hw => hw
  | auto => exact absurd rfl hc
  | heatshrink window lookahead =>
    unfold payloadOf
    cases crate with
    | none => exact holds_throw fun w _ => errs_err _ w
    | some crate =>
      dsimp only
      cases compress crate source window lookahead with
      | ok payload => exact holds_pure fun w hw => hw
      | error e => exact holds_throw fun w _ => errs_err _ w

theorem holds_readToEnd {P : World → Prop} : Holds P (readToEnd env) (fun _ => P) Errs := by
  unfold readToEnd
  cases env.source with
  | ok bytes => exact holds_pure fun w hw => hw
  | error err => exact holds_throw fun w _ => errs_err _ w

/-- A session that is synced takes the control CLOSE. -/
theorem send_controlClose_isSome {w : Watched} (h : Live w) (now : Instant) :
    (w.send 0 2 [] now).isSome := by
  have hfits : ([] : Bytes).length ≤ maxPayload := Nat.zero_le _
  obtain ⟨s', hs'⟩ := exists_send h.synced (by decide : (0 : UInt8) ≤ 0xF)
    (by decide : (2 : UInt8) ≤ 0xF) hfits now
  unfold Watched.send
  rw [hs']
  rfl

theorem holds_sendControlClose :
    Holds (fun w => Live w.transfer.host) (sendControlClose env) (fun _ _ => True) Errs := by
  refine holds_bind (fun _ w => Live w.transfer.host) (holds_now env fun _ _ _ _ h => h) fun now => ?_
  refine holds_bind (fun w0 w => Live w.transfer.host ∧ w = w0) (holds_get fun w hw => ⟨hw, rfl⟩)
    fun w0 => ?_
  cases hs : w0.transfer.host.send 0 2 [] now with
  | some host => exact holds_modify fun _ _ => trivial
  | none =>
    refine holds_throw fun w ⟨hw, heq⟩ => ?_
    subst heq
    have hsome := send_controlClose_isSome hw now
    rw [hs] at hsome
    cases hsome

end Blocking

theorem resolveChunkSize_pos (requested : Nat) (deviceMax : UInt16) :
    0 < resolveChunkSize requested deviceMax := by
  have hne : deviceMax ≠ 0 → 0 < deviceMax.toNat := by
    intro h
    rcases Nat.eq_zero_or_pos deviceMax.toNat with h0 | h0
    · exact absurd (UInt16.toNat_inj.mp h0) h
    · exact h0
  unfold resolveChunkSize fallbackChunkSize
  dsimp only
  split_ifs with h1 h2 h2
  · decide
  · exact hne h2
  · omega
  · have := hne h2
    omega

/-- A chunk fits into a packet. -/
theorem resolveChunkSize_le (requested : Nat) (deviceMax : UInt16) :
    resolveChunkSize requested deviceMax ≤ maxPayload := by
  have hlt := deviceMax.toNat_lt
  have hmax : maxPayload = 65535 := rfl
  unfold resolveChunkSize fallbackChunkSize
  dsimp only
  split_ifs <;> omega

namespace Blocking

/-- **The upload helper stops with an error of its own**, or returns. -/
theorem holds_upload (env : Env) (crate : Option HeatshrinkCrate) (options : UploadOptions)
    (hname : (asBytes options.destFilename).length + 3 ≤ maxPayload) :
    Holds (fun w => w = World.start) (upload env crate options) (fun _ _ => True) Errs := by
  refine holds_bind (fun _ _ => True) ((holds_writeAll env binaryTrigger (P := fun _ => True)
    (Q := fun _ => True) (fun _ _ _ _ h => h) fun _ h => h).pre (fun _ _ => trivial)) fun _ => ?_
  refine holds_bind (fun _ w => w.transfer.host = Watched.start Session.new)
    (holds_modify fun _ _ => rfl) fun _ => ?_
  refine holds_bind (fun _ w => Greeting w.transfer.host) ?_ fun _ => ?_
  · refine holds_bind _ (holds_now env fun _ _ _ _ h => h) fun now => holds_modify fun w hw => ?_
    show Greeting (w.transfer.host.connect now)
    rw [hw]
    exact Greeting.connect_start now
  refine holds_bind _ (holds_driveSessionUntilSynced env) fun _ => ?_
  refine holds_bind (fun _ w => Live w.transfer.host) (holds_get fun w hw => hw) fun w0 => ?_
  refine holds_bind (fun _ => ReadyIn .idle)
    (holds_modify fun w hw => ⟨ready_start hw, fun _ => rfl⟩) fun _ => ?_
  refine holds_bind _ (holds_now env fun _ _ _ _ h => h) fun now => ?_
  refine holds_bind _ (holds_call .query rfl trivial) fun _ => ?_
  refine holds_bind _ (holds_driveUntilNegotiated env) fun c => ?_
  refine holds_of_state fun w0' hw0 => Holds.mono (P := fun w => ReadyIn .negotiated w) ?_
    (fun w hw => hw ▸ hw0.1) (fun _ _ h => h) fun _ _ h => h
  refine holds_bind _ (holds_now env fun _ _ _ _ h => h) fun now => ?_
  refine holds_bind _ (holds_call .open rfl hname) fun _ => ?_
  refine holds_bind _ (holds_driveUntilEvent env .open ?_ rfl) fun _ => ?_
  · intro ev hev
    rw [of_decide_eq_true hev]
    rfl
  refine holds_bind _ (holds_readToEnd env) fun source => ?_
  refine holds_bind _ (holds_payloadOf crate source hw0.2) fun payload => ?_
  refine holds_bind _ (holds_writeChunks env options _ _ ?_) fun stats => ?_
  · intro chunk hchunk
    exact (Chunks.mem_chunks (resolveChunkSize_pos _ _) hchunk).2.trans (resolveChunkSize_le _ _)
  refine holds_bind _ (holds_now env fun _ _ _ _ h => h) fun now => ?_
  refine holds_bind _ (holds_call .close rfl trivial) fun _ => ?_
  refine holds_bind (fun _ w => Live w.transfer.host)
    (holds_drive_file env fun w ev a h hev hans => h.poll.2.live) fun _ => ?_
  refine holds_bind _ (holds_sendControlClose env) fun _ => ?_
  exact holds_bind _ (holds_driveSessionUntilIdle env) fun _ => holds_pure fun _ _ => trivial

end Blocking

/-! ## The theorem -/

open Blocking in
/--
**Callers panic only when a poll is overtaken.** On every reachable synced session: the
event a poll returns matches the state it leaves if and only if the poll is not overtaken;
QUERY can be called on a fresh transfer; and in every run of a caller who follows the
documentation and whose polls are not overtaken, the assertions of the operation that the
last event leads to hold. An upload whose name fits into a packet and whose polls are not
overtaken returns `Ok` or `Err`.
-/
theorem callers_panic_only_when_overtaken (s : Session) (ops : List Op) (w : Watched)
    (hw : (Watched.start s.reset).run ops = some w) (hsy : w.session.isSynced = true) (env : Env)
    (crate : Option HeatshrinkCrate) (options : UploadOptions) :
    (∀ (calls : List Call) (t : Transfer), (Transfer.start w).run calls = some t →
      ((∀ ev op, (t.ft.poll t.host.session).1 = some ev → ev.answers = some op →
          op.leadsOn = true → (t.ft.poll t.host.session).2.1.state = op.done)
        ↔ ¬ Overtaken t.ft t.host.session.events))
    ∧ (∀ compression now, ((Transfer.start w).step (.query compression now)).isSome)
    ∧ (∀ (t : Transfer) (ev : FileEvent) (op op' : Operation) (c : Call),
        Documented w t (some ev) → ev.answers = some op → op.leadsOn = true →
        c.operation = some op' → op'.required = op.done →
          t.ft.state = op'.required ∧ t.host.session.isSynced = true
            ∧ (c.Fits → (t.step c).isSome))
    ∧ ((asBytes options.destFilename).length + 3 ≤ maxPayload →
        (∀ t ∈ (exec (upload env crate options) World.start).2.polls,
          ¬ Overtaken t.ft t.host.session.events) →
        (∃ stats, (exec (upload env crate options) World.start).1 = .ok stats)
          ∨ ∃ err, (exec (upload env crate options) World.start).1 = .error (.err err)) := by
  have hlive : Live w := ⟨conserved_run (conserved_start s) hw, hsy⟩
  refine ⟨fun calls t hr => matches_iff_not_overtaken ((ready_start hlive).run hr),
    fun compression now => ?_, ?_, ?_⟩
  · exact step_isSome (ready_start hlive) .query rfl rfl trivial
  · intro t ev op op' c hd hev hlead hop hreq
    have hf := hd.follows hlive
    have hst := (hf.matched ev op rfl hev hlead).trans hreq.symm
    exact ⟨hst, hf.ready.live.synced, step_isSome hf.ready op' hop hst⟩
  · intro hname hclean
    have h := holds_upload env crate options hname World.start rfl
    cases hr : exec (upload env crate options) World.start with
    | mk r w =>
      rw [hr] at h hclean
      cases r with
      | ok stats => exact .inl ⟨stats, rfl⟩
      | error e =>
        obtain ⟨err, rfl⟩ := h hclean
        exact .inr ⟨err, rfl⟩

/-- Text as a read delivers it. -/
def ReadResult.ofText (text : String) : ReadResult :=
  if h : text.toUTF8.data.toList.length ≤ readBufLen then .data text.toUTF8.data.toList h
  else .timedOut

/-- A transport that delivers some texts and is idle then, with a clock that ticks. -/
def Env.ofTexts (texts : List String) (source : Bytes) : Env where
  reads n := (texts[n]?).elim .timedOut .ofText
  writes _ := none
  clock n := n
  source := .ok source

/-- An upload of three bytes to a device that answers everything. -/
def goodEnv : Env :=
  .ofTexts ["ss0,512,1.0\n", "PFT:version:1:none\nok0\n", "PFT:success\nok1\n", "ok2\n",
    "ok3\n", "PFT:success\nok4\n", "ok5\n"] [7, 8, 9]

def goodOptions : UploadOptions := ⟨['a'], .none, false, 2, false⟩

/-- A QUERY that is answered in success. -/
def answeredCalls : List Call :=
  [.query .none 2, .feed ("PFT:version:1:none\nok5\n".toUTF8.data.toList) 3]

theorem answeredCalls_completes : ((Transfer.start handshaken).run answeredCalls).isSome := by
  decide +kernel

/-- The transfer before the poll. -/
def answeredTransfer : Transfer :=
  ((Transfer.start handshaken).run answeredCalls).get answeredCalls_completes

theorem answeredTransfer_documented :
    Documented handshaken answeredTransfer.poll (some (.negotiated ['1'] .none)) := by
  have hrun : (Transfer.start handshaken).run answeredCalls = some answeredTransfer :=
    (Option.some_get _).symm
  obtain ⟨t1, h1, hrest⟩ := Option.bind_eq_some_iff.mp hrun
  obtain ⟨t2, h2, h3⟩ := Option.bind_eq_some_iff.mp hrest
  obtain rfl := Option.some.inj h3
  have hret : (answeredTransfer.ft.poll answeredTransfer.host.session).1
      = some (.negotiated ['1'] .none) := by
    decide +kernel
  rw [← hret]
  exact .poll (.host (.query h1) rfl (by simp) h2)
    (not_overtaken_of_no_failure (by decide +kernel))

theorem callers_panic_only_when_overtaken_good :
    (∃ stats, (exec (Blocking.upload goodEnv none goodOptions) World.start).1 = .ok stats)
      ∧ (answeredTransfer.poll.step (.open ['a'] false 4)).isSome := by
  obtain ⟨-, -, hcalls, hupload⟩ := callers_panic_only_when_overtaken Session.new handshakeOps
    handshaken handshaken_run (by decide +kernel) goodEnv none goodOptions
  refine ⟨?_, ?_⟩
  · have hno : ∀ t ∈ (exec (Blocking.upload goodEnv none goodOptions) World.start).2.polls,
        anyFailure t.host.session.events = false := by
      decide +kernel
    have hok : (exec (Blocking.upload goodEnv none goodOptions) World.start).1.isOk = true := by
      decide +kernel
    rcases hupload (by decide) (fun t ht => not_overtaken_of_no_failure (hno t ht)) with
      h | ⟨err, herr⟩
    · exact h
    · rw [herr] at hok
      cases hok
  · have hfits : (asBytes ['a']).length + 3 ≤ maxPayload := by decide
    exact (hcalls _ _ .query .open (.open ['a'] false 4) answeredTransfer_documented rfl rfl rfl
      rfl).2.2 hfits

/-- A QUERY that is answered in success, with a fatal error in the same read. -/
def overtakenCalls : List Call :=
  [.query .none 2, .feed ("PFT:version:1:none\nok5\nfe\n".toUTF8.data.toList) 3]

theorem overtakenCalls_completes : ((Transfer.start handshaken).run overtakenCalls).isSome := by
  decide +kernel

/-- The transfer that is polled next. -/
def overtakenTransfer : Transfer :=
  ((Transfer.start handshaken).run overtakenCalls).get overtakenCalls_completes

/-- **`poll` returns `Negotiated` and `open` panics**, and so does an upload. -/
theorem overtaken_poll_panics :
    (Transfer.start handshaken).run overtakenCalls = some overtakenTransfer
      ∧ (overtakenTransfer.ft.poll overtakenTransfer.host.session).1
        = some (.negotiated ['1'] .none)
      ∧ overtakenTransfer.poll.ft.state = .failed
      ∧ overtakenTransfer.poll.step (.open ['a'] false 4) = none
      ∧ (exec (Blocking.upload (.ofTexts ["ss0,512,1.0\n", "PFT:version:1:none\nok0\nfe\n"] [7])
          none goodOptions) World.start).1 = .error .panic := by
  refine ⟨(Option.some_get _).symm, by decide +kernel, by decide +kernel, by decide +kernel, ?_⟩
  have hpanic : (match (exec (Blocking.upload (.ofTexts ["ss0,512,1.0\n",
      "PFT:version:1:none\nok0\nfe\n"] [7]) none goodOptions) World.start).1 with
      | .ok _ => none
      | .error e => some e) = some Stop.panic := by
    decide +kernel
  revert hpanic
  cases (exec (Blocking.upload (.ofTexts ["ss0,512,1.0\n",
      "PFT:version:1:none\nok0\nfe\n"] [7]) none goodOptions) World.start).1 with
  | ok stats => exact fun h => nomatch h
  | error e => exact fun h => congrArg Except.error (Option.some.inj h)

end MarlinTransfer
