import MarlinTransfer.Adapters.Upload

/-!
# How large the packets are

Between two calls of `send` nothing is submitted, whatever the transport delivers (`Mute`).
So the packets of an upload are the ones its calls hand over: QUERY, the CLOSEs and SYNC are
empty, a WRITE is a chunk and never longer than what the device advertised, and OPEN is the
name and three bytes, however little the device advertised.
-/

namespace MarlinTransfer

open Codec Text Session Triple

/-- What was submitted, with a flag for SYNC packets. -/
def World.submitted (w : World) : List (Content × Bool) := w.transfer.host.log.submitted

theorem submitted_poll (t : Transfer) : t.poll.host.log.submitted = t.host.log.submitted := by
  have key : ∀ (ps : List (Event × Option Nat)) (t : Transfer),
      (ps.foldl Transfer.observe t).host.log.submitted = t.host.log.submitted := by
    intro ps
    induction ps with
    | nil => exact fun _ => rfl
    | cons p ps ih => exact fun t => (ih (t.observe p)).trans (submitted_pollEvent t.host)
  exact key t.pending t

namespace Blocking

/-- A program that submits nothing and trips no assertion. -/
def Mute {α : Type} (x : Upload α) : Prop :=
  ∀ l, Holds (fun w => w.submitted = l) x (fun _ w => w.submitted = l)
    fun e w => w.submitted = l ∧ e ≠ .panic

section Rules

variable {α β γ : Type}

theorem mute_pure (a : α) : Mute (pure a) := fun _ => holds_pure fun _ h => h

theorem mute_throw {e : Stop} (he : e ≠ .panic) : Mute (throw e : Upload α) :=
  fun _ => holds_throw fun _ h => ⟨h, he⟩

theorem mute_get : Mute (get : Upload World) := fun _ => holds_get fun _ h => h

theorem mute_modify {f : World → World} (hf : ∀ w, (f w).submitted = w.submitted) :
    Mute (modify f : Upload PUnit) := fun _ => holds_modify fun w h => (hf w).trans h

theorem mute_bind {x : Upload α} {f : α → Upload β} (hx : Mute x) (hf : ∀ a, Mute (f a)) :
    Mute (x >>= f) := fun l => holds_bind _ (hx l) fun a => hf a l

theorem mute_whileSome {e : Stop} (he : e ≠ .panic) {next : Upload (Option γ)}
    {body : γ → Upload (Option α)} (hnext : Mute next) (hbody : ∀ x, Mute (body x)) (fuel : Nat) :
    Mute (whileSome e next body fuel) := by
  intro l
  have hcases : ∀ {β : Type} (r : Option β) (w : World), w.submitted = l →
      Cases (fun w => w.submitted = l) (fun _ w => w.submitted = l) r w := by
    intro β r w h
    cases r <;> exact h
  refine (holds_whileSome (fun _ w => w.submitted = l) (fun _ _ w => w.submitted = l)
    (fun _ => (hnext l).mono (fun _ h => h) hcases fun _ _ h => h)
    (fun _ x => (hbody x l).mono (fun _ h => h) hcases fun _ _ h => h)
    (fun _ h => ⟨h, he⟩) fuel).mono (fun _ h => h) (fun r w h => ?_) fun _ _ h => h
  cases r <;> exact h

theorem mute_repeatUpTo {e : Stop} (he : e ≠ .panic) {body : Upload (Option α)}
    (hbody : Mute body) (n : Nat) : Mute (repeatUpTo e body n) := by
  intro l
  refine holds_repeatUpTo (fun w => w.submitted = l)
    ((hbody l).mono (fun _ h => h) (fun r w h => ?_) fun _ _ h => h) (fun _ h => ⟨h, he⟩) n
  cases r <;> exact h

end Rules

section Parts

variable (env : Env)

theorem mute_now : Mute (now env) :=
  mute_bind mute_get fun _ => mute_bind (mute_modify fun _ => rfl) fun _ => mute_pure _

theorem mute_writeAll (bytes : Bytes) : Mute (writeAll env bytes) := by
  refine mute_bind mute_get fun w => mute_bind (mute_modify fun _ => rfl) fun _ => ?_
  cases env.writes w.writes with
  | some err => exact mute_throw (by simp)
  | none => exact mute_modify fun _ => rfl

theorem mute_read : Mute (read env) := by
  refine mute_bind mute_get fun w => mute_bind (mute_modify fun _ => rfl) fun _ => ?_
  cases env.reads w.reads with
  | data bytes _ => exact mute_pure _
  | timedOut => exact mute_pure _
  | failed err => exact mute_throw (by simp)

theorem mute_readToEnd : Mute (readToEnd env) := by
  unfold readToEnd
  cases env.source with
  | ok bytes => exact mute_pure _
  | error err => exact mute_throw (by simp)

theorem mute_feed (bytes : Bytes) : Mute (feed env bytes) := by
  unfold feed
  split_ifs
  · exact mute_bind (mute_now env) fun now =>
      mute_modify fun w => submitted_feed w.transfer.host bytes now
  · exact mute_pure _

theorem mute_tick : Mute (tick env) :=
  mute_bind (mute_now env) fun _ => mute_modify fun _ => rfl

theorem mute_pollOutbound : Mute pollOutbound :=
  mute_bind mute_get fun _ =>
    mute_bind (mute_modify fun w => submitted_pollOutbound w.transfer.host) fun _ => mute_pure _

theorem mute_pollEvent : Mute pollEvent :=
  mute_bind mute_get fun _ =>
    mute_bind (mute_modify fun w => submitted_pollEvent w.transfer.host) fun _ => mute_pure _

theorem mute_poll : Mute poll :=
  mute_bind mute_get fun _ =>
    mute_bind (mute_modify fun w => submitted_poll w.transfer) fun _ => mute_pure _

theorem mute_flush : Mute (flush env) :=
  mute_bind mute_get fun _ => mute_bind (mute_whileSome (by simp) mute_pollOutbound
    (fun out => mute_bind (mute_writeAll env out) fun _ => mute_pure _) _) fun _ => mute_pure _

theorem mute_answerAll {γ α : Type} {next : Upload (Option γ)} (hnext : Mute next)
    (answer : γ → Answer α) : Mute (answerAll next answer) := by
  refine mute_bind mute_get fun _ => mute_whileSome (by simp) hnext (fun e => ?_) _
  cases answer e with
  | none => exact mute_pure _
  | some r =>
    cases r with
    | ok a => exact mute_pure _
    | error err => exact mute_throw (by simp)

/-- **A drive loop submits nothing.** -/
theorem mute_drive {γ α : Type} {next : Upload (Option γ)} (hnext : Mute next)
    (answer : γ → Answer α) (giveUp : UploadError) : Mute (drive env next answer giveUp) := by
  refine mute_repeatUpTo (by simp) ?_ 200
  refine mute_bind (mute_flush env) fun _ => mute_bind (mute_read env) fun bytes =>
    mute_bind (mute_feed env bytes) fun _ => mute_bind (mute_answerAll hnext answer) fun r => ?_
  cases r with
  | none => exact mute_bind (mute_tick env) fun _ => mute_pure _
  | some a => exact mute_pure _

theorem mute_payloadOf (crate : Option HeatshrinkCrate) (source : Bytes) {c : Compression}
    (hc : c ≠ .auto) : Mute (payloadOf crate source c) := by
  cases c with
  | none => exact mute_pure _
  | auto => exact absurd rfl hc
  | heatshrink window lookahead =>
    unfold payloadOf
    cases crate with
    | none => exact mute_throw (by simp)
    | some crate =>
      dsimp only
      cases compress crate source window lookahead with
      | ok payload => exact mute_pure _
      | error e => exact mute_throw (by simp)

end Parts

end Blocking

/-! ## Packets that fit -/

/-- No packet so far is larger than the device can buffer. -/
def Small (m : UInt16) (w : World) : Prop := ∀ q ∈ w.submitted, q.1.payload.length ≤ m.toNat

/-- A run that stops has sent nothing larger, and if it panics, an operation was called on a
transfer that has failed. -/
def StopsSmall (m : UInt16) (e : Stop) (w : World) : Prop :=
  Small m w ∧ (e = .panic → w.ft.state = .failed)

theorem Small.of_submitted {m : UInt16} {w w' : World} (h : Small m w)
    (heq : w'.submitted = w.submitted) : Small m w' := fun q hq => h q (heq ▸ hq)

theorem Small.snoc {m : UInt16} {w w' : World} (h : Small m w) {q : Content × Bool}
    (heq : w'.submitted = w.submitted ++ [q]) (hq : q.1.payload.length ≤ m.toNat) :
    Small m w' := by
  intro x hx
  rw [heq] at hx
  rcases List.mem_append.mp hx with hx | hx
  · exact h x hx
  · rw [List.mem_singleton.mp hx]
    exact hq

theorem toNat_le_maxPayload (m : UInt16) : m.toNat ≤ maxPayload := by
  have hlt := m.toNat_lt
  have hmax : maxPayload = 65535 := rfl
  omega

theorem length_openPayload (ft : FileTransfer) (name : Str) (dummy : Bool) :
    (ft.openPayload name dummy).length = (asBytes name).length + 3 := by
  unfold FileTransfer.openPayload
  simp only [List.length_append, List.length_cons, List.length_nil]
  omega

/-- What fits into the device's buffer fits into a packet. -/
theorem Call.fits_of_payload {m : UInt16} {c : Call}
    (h : ∀ ft, (c.payload ft).length ≤ m.toNat) : c.Fits := by
  have hmax := toNat_le_maxPayload m
  cases c with
  | «open» name dummy now =>
    have := h FileTransfer.new
    rw [show Call.payload FileTransfer.new (.open name dummy now)
      = FileTransfer.new.openPayload name dummy from rfl, length_openPayload] at this
    exact this.trans hmax
  | write chunk now => exact (h FileTransfer.new).trans hmax
  | _ => trivial

/-- A WRITE is never larger than the device can buffer. -/
theorem resolveChunkSize_le_max (requested : Nat) {m : UInt16} (hm : m ≠ 0) :
    resolveChunkSize requested m ≤ m.toNat := by
  unfold resolveChunkSize
  rw [if_neg hm]
  dsimp only
  split_ifs
  · exact Nat.le_refl _
  · exact Nat.min_le_right _ _

/-- After the poll that returned the success of an operation. -/
theorem state_polled {w : World} (h : Ready w.transfer) {ev : FileEvent} {op : Operation}
    (hev : (w.ft.poll w.session).1 = some ev) (hans : ev.answers = some op) :
    w.polledFile.ft.state = .failed ∨ w.polledFile.ft.state = op.done := by
  obtain ⟨hp, -⟩ := h.poll
  show w.transfer.poll.ft.state = _ ∨ w.transfer.poll.ft.state = _
  rw [show (w.transfer.ft.poll w.transfer.host.session).1 = some ev from hev] at hp
  generalize w.transfer.poll.ft.state = st at hp
  cases hp with
  | failed _ err => cases hans
  | answered op' post _ hd =>
    obtain rfl := Option.some.inj (hd.answers.symm.trans hans)
    split_ifs
    · exact .inl rfl
    · exact .inr rfl

namespace Blocking

variable (env : Env) {m : UInt16}

/-- What a program that submits nothing ensures, and that it submits nothing. -/
theorem holds_small {α : Type} {x : Upload α} {P : World → Prop} {Q : α → World → Prop}
    (h : Holds P x Q Errs) (hx : Mute x) :
    Holds (fun w => P w ∧ Small m w) x (fun a w => Q a w ∧ Small m w) (StopsSmall m) := by
  refine holds_of_state fun w0 hw0 => ?_
  refine ((h.pre fun (w : World) (hw : w = w0) => hw ▸ hw0.1).and ((hx w0.submitted).pre
    fun (w : World) (hw : w = w0) => hw ▸ rfl)).mono (fun _ hw => hw) (fun a w hw => ?_)
      fun e w hw => ?_
  · exact ⟨hw.1, hw0.2.of_submitted hw.2⟩
  · exact ⟨hw0.2.of_submitted hw.2.1, fun hp => absurd hp hw.2.2⟩

/-- Before a call: the transfer has failed, or it is in the state that the call asserts and
what the call sends is small enough. -/
def Callable (m : UInt16) (op : Operation) (c : Call) (w : World) : Prop :=
  Ready w.transfer ∧ (w.ft.state = .failed
    ∨ w.ft.state = op.required ∧ ∀ ft, (c.payload ft).length ≤ m.toNat)

/-- **A call** of an operation. -/
theorem holds_call_small {c : Call} (op : Operation) (hop : c.operation = some op) :
    Holds (fun w => Callable m op c w ∧ Small m w) (call c)
      (fun _ w => Ready w.transfer ∧ Small m w) (StopsSmall m) := by
  refine holds_bind (fun w0 w => (Callable m op c w ∧ Small m w) ∧ w = w0)
    (holds_get fun w hw => ⟨hw, rfl⟩) fun w0 => ?_
  cases hs : w0.transfer.step c with
  | none =>
    refine holds_throw ?_
    rintro w ⟨⟨⟨hr, hst⟩, hsmall⟩, rfl⟩
    refine ⟨hsmall, fun _ => hst.resolve_right fun ⟨hreq, hfit⟩ => ?_⟩
    have := step_isSome hr op hop hreq (Call.fits_of_payload hfit)
    rw [hs] at this
    cases this
  | some t =>
    refine holds_modify ?_
    rintro w ⟨⟨⟨hr, hst⟩, hsmall⟩, rfl⟩
    refine ⟨hr.step hs, ?_⟩
    obtain ⟨now, hsent⟩ := sent_of_step hop hs
    refine hsmall.snoc (submitted_of_send hsent) ?_
    rcases hst with hfail | ⟨-, hfit⟩
    · -- nothing is called on a transfer that has failed
      have hreq := (calls_of_operation hop hs).required
      rw [show w.transfer.ft.state = .failed from hfail] at hreq
      cases op <;> cases hreq
    · exact hfit _

/-- **A drive loop** over a transfer, to the success of an operation. -/
theorem holds_event_small {pred : FileEvent → Bool} (op : Operation)
    (hpred : ∀ ev, pred ev = true → ev.answers = some op) :
    Holds (fun w => Ready w.transfer ∧ Small m w) (driveUntilEvent env pred)
      (fun _ w => (Ready w.transfer ∧ (w.ft.state = .failed ∨ w.ft.state = op.done)) ∧ Small m w)
      (StopsSmall m) := by
  refine holds_small (holds_drive_file env fun w ev a h hev hans => ⟨h.poll.2, ?_⟩)
    (mute_drive env mute_poll _ _)
  refine state_polled h hev (hpred ev ?_)
  cases ev with
  | failed err => simp at hans
  | _ =>
    by_contra hno
    simp [hno] at hans

theorem holds_negotiated_small :
    Holds (fun w => Ready w.transfer ∧ Small m w) (driveUntilNegotiated env)
      (fun c w => ((Ready w.transfer ∧ (w.ft.state = .failed ∨ w.ft.state = .negotiated))
        ∧ c ≠ .auto) ∧ Small m w) (StopsSmall m) := by
  refine holds_small (holds_drive_file env fun w ev a h hev hans => ?_)
    (mute_drive env mute_poll _ _)
  cases ev with
  | negotiated version c =>
    obtain rfl : c = a := by simpa using hans
    exact ⟨⟨h.poll.2, state_polled h hev rfl⟩, negotiated_ne_auto h hev⟩
  | _ => simp at hans

/-- The time of a call. -/
theorem holds_now_small {P : World → Prop} (hP : Untallied P) :
    Holds (fun w => P w ∧ Small m w) (now env) (fun _ w => P w ∧ Small m w) (StopsSmall m) :=
  holds_small (holds_now env hP) (mute_now env)

/-- In this state, or failed. -/
def Stands (st : State) (w : World) : Prop :=
  Ready w.transfer ∧ (w.ft.state = .failed ∨ w.ft.state = st)

theorem untallied_stands (st : State) : Untallied (Stands st) := fun _ _ _ _ h => h

theorem Stands.callable {st : State} {w : World} (h : Stands st w) (op : Operation) {c : Call}
    (hreq : op.required = st) (hfit : ∀ ft, (c.payload ft).length ≤ m.toNat) :
    Callable m op c w :=
  ⟨h.1, h.2.imp id fun hst => ⟨hst.trans hreq.symm, hfit⟩⟩

theorem holds_writeChunks_small (options : UploadOptions) :
    ∀ (chunks : List Bytes) (stats : UploadStats), (∀ chunk ∈ chunks, chunk.length ≤ m.toNat) →
      Holds (fun w => Stands .opened w ∧ Small m w) (writeChunks env options chunks stats)
        (fun _ w => Stands .opened w ∧ Small m w) (StopsSmall m) := by
  intro chunks
  induction chunks with
  | nil => exact fun stats _ => holds_pure fun w hw => hw
  | cons chunk chunks ih =>
    intro stats hfit
    have hrest := ih { stats with
      bytesSent := stats.bytesSent + chunk.length
      chunksSent := stats.chunksSent + 1 } fun c hc => hfit c (List.mem_cons_of_mem _ hc)
    refine holds_bind _ (holds_now_small env (untallied_stands _)) fun now => ?_
    refine holds_bind _ ((holds_call_small .write rfl).pre (fun w hw =>
      ⟨hw.1.callable .write rfl fun _ => hfit chunk List.mem_cons_self, hw.2⟩)) fun _ => ?_
    refine holds_bind _ (holds_event_small env .write fun ev hev => ?_) fun _ => ?_
    · rw [of_decide_eq_true hev]
      rfl
    · dsimp only
      split_ifs
      · exact holds_bind _ (holds_modify fun w hw => hw) fun _ => hrest
      · exact hrest

theorem holds_sendControlClose_small :
    Holds (fun w => Live w.transfer.host ∧ Small m w) (sendControlClose env)
      (fun _ w => Small m w) (StopsSmall m) := by
  refine holds_bind _ (holds_now_small env fun _ _ _ _ h => h) fun now => ?_
  refine holds_bind (fun w0 w => (Live w.transfer.host ∧ Small m w) ∧ w = w0)
    (holds_get fun w hw => ⟨hw, rfl⟩) fun w0 => ?_
  cases hs : w0.transfer.host.send 0 2 [] now with
  | some host =>
    refine holds_modify ?_
    rintro w ⟨⟨-, hsmall⟩, rfl⟩
    exact hsmall.snoc (submitted_of_send hs) (Nat.zero_le _)
  | none =>
    refine holds_throw ?_
    rintro w ⟨⟨hlive, -⟩, rfl⟩
    have hsome := send_controlClose_isSome hlive now
    rw [hs] at hsome
    cases hsome

/-! ## The helper in three parts -/

/-- `upload` up to the end of the handshake. -/
def handshake : Upload Unit := do
  writeAll env binaryTrigger
  modify fun w => { w with transfer := Transfer.start (Watched.start Session.new) }
  connect env
  driveSessionUntilSynced env

/-- `upload` up to OPEN, with the block size that the device advertised. -/
def negotiate (options : UploadOptions) : Upload (UInt16 × Compression) := do
  handshake env
  let deviceMax := (← get).session.maxBlockSize.getD 0
  modify fun w => { w with transfer := Transfer.start w.transfer.host }
  call (.query options.compression (← now env))
  let negotiated ← driveUntilNegotiated env
  pure (deviceMax, negotiated)

/-- `upload` from OPEN on. -/
def finish (crate : Option HeatshrinkCrate) (options : UploadOptions) (deviceMax : UInt16)
    (negotiated : Compression) : Upload UploadStats := do
  call (.open options.destFilename options.dummy (← now env))
  driveUntilEvent env fun e => e = .opened
  let chunkSize := resolveChunkSize options.chunkSize deviceMax
  let sourceBytes ← readToEnd env
  let payload ← payloadOf crate sourceBytes negotiated
  let stats ← writeChunks env options (Chunks.chunks chunkSize payload)
    { sourceBytes := sourceBytes.length, bytesSent := 0, chunksSent := 0, compression := negotiated }
  call (.close (← now env))
  driveUntilEvent env fun e => e = .closed
  sendControlClose env
  driveSessionUntilIdle env
  pure stats

theorem upload_eq (crate : Option HeatshrinkCrate) (options : UploadOptions) :
    upload env crate options
      = negotiate env options >>= fun p => finish env crate options p.1 p.2 := by
  unfold upload negotiate handshake finish
  simp only [bind_assoc, pure_bind]

/-- The handshake sends nothing through `send`. -/
theorem holds_handshake_small :
    Holds (fun w => w = World.start) (handshake env)
      (fun _ w => Live w.transfer.host ∧ Small m w) (StopsSmall m) := by
  have hempty : ∀ w : World, w.submitted = [] → Small m w := by
    intro w h q hq
    rw [h] at hq
    cases hq
  refine holds_bind (fun _ _ => True) ?_ fun _ => ?_
  · refine ((mute_writeAll env binaryTrigger []).mono
      (fun (w : World) (hw : w = World.start) => hw ▸ rfl) (fun _ _ _ => trivial) fun e w h => ?_)
    exact ⟨hempty w h.1, fun hp => absurd hp h.2⟩
  refine holds_bind (fun _ w => w.transfer.host = Watched.start Session.new ∧ Small m w)
    (holds_modify fun w _ => ⟨rfl, hempty _ rfl⟩) fun _ => ?_
  refine holds_bind (fun _ w => Greeting w.transfer.host ∧ Small m w) ?_ fun _ => ?_
  · refine holds_bind _ (holds_now_small env fun _ _ _ _ h => h) fun now => holds_modify ?_
    rintro w ⟨hhost, hsmall⟩
    refine ⟨?_, hsmall.snoc (q := (⟨0, 1, []⟩, true)) rfl (Nat.zero_le _)⟩
    show Greeting (w.transfer.host.connect now)
    rw [hhost]
    exact Greeting.connect_start now
  exact holds_small (holds_driveSessionUntilSynced env) (mute_drive env mute_pollEvent _ _)

/-- **Up to OPEN** everything is empty. -/
theorem holds_negotiate_small (options : UploadOptions) {w0 : World}
    (hs : exec (handshake env) World.start = (.ok (), w0)) :
    Holds (fun w => w = World.start) (negotiate env options)
      (fun p w => (Stands .negotiated w ∧ p.2 ≠ .auto) ∧ Small m w
        ∧ p.1 = w0.session.maxBlockSize.getD 0) (StopsSmall m) := by
  have h0 := holds_handshake_small env (m := m) World.start rfl
  rw [hs] at h0
  refine holds_bind (fun _ w => w = w0) ?_ fun _ => ?_
  · rintro w rfl
    rw [hs]
  refine holds_bind (fun w w' => w = w0 ∧ w' = w0) (holds_get fun w hw => ⟨hw, hw⟩) fun w => ?_
  refine holds_bind (fun _ w' => w = w0 ∧ Stands .idle w' ∧ Small m w') (holds_modify ?_)
    fun _ => ?_
  · rintro w' ⟨rfl, rfl⟩
    exact ⟨rfl, ⟨ready_start h0.1, .inr rfl⟩, h0.2⟩
  refine holds_of_state fun w' ⟨hw, hw'⟩ => ?_
  subst hw
  refine Holds.mono (P := fun w => Stands .idle w ∧ Small m w) ?_ (fun _ heq => heq ▸ hw')
    (fun _ _ hq => hq) fun _ _ he => he
  refine holds_bind _ (holds_now_small env (untallied_stands _)) fun now => ?_
  refine holds_bind _ ((holds_call_small .query rfl).pre (fun w hw =>
    ⟨hw.1.callable .query rfl fun _ => Nat.zero_le _, hw.2⟩)) fun _ => ?_
  refine holds_bind _ (holds_negotiated_small env) fun c => holds_pure fun w hw => ?_
  exact ⟨hw.1, hw.2, rfl⟩

/-- **From OPEN on** everything is small when the name is. -/
theorem holds_finish_small (crate : Option HeatshrinkCrate) (options : UploadOptions)
    (hm : m ≠ 0) {c : Compression} (hc : c ≠ .auto) :
    Holds (fun w => (Ready w.transfer ∧ (w.ft.state = .failed ∨ w.ft.state = .negotiated
        ∧ (asBytes options.destFilename).length + 3 ≤ m.toNat)) ∧ Small m w)
      (finish env crate options m c) (fun _ w => Small m w) (StopsSmall m) := by
  refine holds_bind _ (holds_now_small env fun _ _ _ _ h => h) fun now => ?_
  refine holds_bind _ ((holds_call_small .open rfl).pre (fun w hw => ?_)) fun _ => ?_
  · refine ⟨⟨hw.1.1, hw.1.2.imp id fun h => ⟨h.1, fun ft => ?_⟩⟩, hw.2⟩
    show (ft.openPayload _ _).length ≤ _
    rw [length_openPayload]
    exact h.2
  refine holds_bind _ (holds_event_small env .open fun ev hev => ?_) fun _ => ?_
  · rw [of_decide_eq_true hev]
    rfl
  refine holds_bind _ (holds_small (holds_readToEnd env) (mute_readToEnd env)) fun source => ?_
  refine holds_bind _ (holds_small (holds_payloadOf crate source hc)
    (mute_payloadOf crate source hc)) fun payload => ?_
  refine holds_bind _ (holds_writeChunks_small env options _ _ fun chunk hchunk => ?_)
    fun stats => ?_
  · exact (Chunks.mem_chunks (resolveChunkSize_pos _ _) hchunk).2.trans
      (resolveChunkSize_le_max _ hm)
  refine holds_bind _ (holds_now_small env (untallied_stands _)) fun now => ?_
  refine holds_bind _ ((holds_call_small .close rfl).pre (fun w hw =>
    ⟨hw.1.callable .close rfl fun _ => Nat.zero_le _, hw.2⟩)) fun _ => ?_
  refine holds_bind _ (holds_event_small env .close fun ev hev => ?_) fun _ => ?_
  · rw [of_decide_eq_true hev]
    rfl
  refine holds_bind _ ((holds_sendControlClose_small env).pre fun w hw => ⟨hw.1.1.live, hw.2⟩)
    fun _ => ?_
  refine holds_bind (fun _ w => Small m w) ?_ fun _ => holds_pure fun w hw => hw
  exact (holds_small (P := fun _ => True) (holds_driveSessionUntilIdle env)
    (mute_drive env mute_pollEvent _ _)).mono (fun _ hw => ⟨trivial, hw⟩) (fun _ _ hq => hq.2)
    fun _ _ he => he

end Blocking

/-! ## A packet that does not fit -/

/-- Some packet is larger than the device can buffer. -/
def Large (m : UInt16) (w : World) : Prop := ∃ q ∈ w.submitted, m.toNat < q.1.payload.length

theorem Large.mono {m : UInt16} {w w' : World} (h : Large m w)
    (hp : w.submitted <+: w'.submitted) : Large m w' := by
  obtain ⟨q, hq, hlt⟩ := h
  exact ⟨q, hp.subset hq, hlt⟩

namespace Blocking

variable (env : Env) {m : UInt16}

/-- A program that never takes back what was submitted. -/
def Remembers {α : Type} (x : Upload α) : Prop :=
  Holds (Large m) x (fun _ => Large m) fun _ => Large m

theorem remembers_of_mute {α : Type} {x : Upload α} (hx : Mute x) : Remembers (m := m) x := by
  refine holds_of_state fun w hw => ?_
  exact (hx w.submitted).mono (fun w' heq => heq ▸ rfl)
    (fun _ w' heq => hw.mono (heq ▸ List.prefix_rfl))
    fun _ w' h => hw.mono (h.1 ▸ List.prefix_rfl)

theorem remembers_bind {α β : Type} {x : Upload α} {f : α → Upload β} (hx : Remembers (m := m) x)
    (hf : ∀ a, Remembers (m := m) (f a)) : Remembers (m := m) (x >>= f) := holds_bind _ hx hf

theorem remembers_call {c : Call} (op : Operation) (hop : c.operation = some op) :
    Remembers (m := m) (call c) := by
  refine holds_bind (fun w0 w => Large m w ∧ w = w0) (holds_get fun w hw => ⟨hw, rfl⟩) fun w0 => ?_
  cases hs : w0.transfer.step c with
  | none => exact holds_throw fun w hw => hw.1
  | some t =>
    refine holds_modify ?_
    rintro w ⟨hw, rfl⟩
    obtain ⟨now, hsent⟩ := sent_of_step hop hs
    refine hw.mono ?_
    show w.submitted <+: t.host.log.submitted
    rw [submitted_of_send hsent]
    exact List.prefix_append _ _

theorem remembers_sendControlClose : Remembers (m := m) (sendControlClose env) := by
  refine remembers_bind (remembers_of_mute (mute_now env)) fun now => ?_
  refine holds_bind (fun w0 w => Large m w ∧ w = w0) (holds_get fun w hw => ⟨hw, rfl⟩) fun w0 => ?_
  cases hs : w0.transfer.host.send 0 2 [] now with
  | none => exact holds_throw fun w hw => hw.1
  | some host =>
    refine holds_modify ?_
    rintro w ⟨hw, rfl⟩
    refine hw.mono ?_
    show w.submitted <+: host.log.submitted
    rw [submitted_of_send hs]
    exact List.prefix_append _ _

theorem remembers_payloadOf (crate : Option HeatshrinkCrate) (source : Bytes) (c : Compression) :
    Remembers (m := m) (payloadOf crate source c) := by
  by_cases hc : c = .auto
  · subst hc
    exact holds_throw fun _ h => h
  · exact remembers_of_mute (mute_payloadOf crate source hc)

theorem remembers_writeChunks (options : UploadOptions) :
    ∀ (chunks : List Bytes) (stats : UploadStats),
      Remembers (m := m) (writeChunks env options chunks stats) := by
  intro chunks
  induction chunks with
  | nil => exact fun stats => holds_pure fun w hw => hw
  | cons chunk chunks ih =>
    intro stats
    refine remembers_bind (remembers_of_mute (mute_now env)) fun now => ?_
    refine remembers_bind (remembers_call .write rfl) fun _ => ?_
    refine remembers_bind (remembers_of_mute (mute_drive env mute_poll _ _)) fun _ => ?_
    dsimp only
    split_ifs
    · exact remembers_bind (holds_modify fun w hw => hw) fun _ => ih _
    · exact ih _

/-- **From OPEN on** something is too large, or does not even fit into a packet, when the
name is. -/
theorem holds_finish_large (crate : Option HeatshrinkCrate) (options : UploadOptions)
    (deviceMax : UInt16) (c : Compression)
    (hlong : m.toNat < (asBytes options.destFilename).length + 3) :
    Holds (fun w => w.ft.state = .negotiated) (finish env crate options deviceMax c)
      (fun _ w => Large m w)
      (fun e w => Large m w ∨ e = .panic ∧ w.ft.state = .negotiated) := by
  have hnow : Holds (fun w : World => w.ft.state = .negotiated) (now env)
      (fun _ w => w.ft.state = .negotiated)
      (fun e w => Large m w ∨ e = .panic ∧ w.ft.state = .negotiated) := fun w hw => hw
  refine holds_bind _ hnow fun t => ?_
  refine holds_bind (fun _ w => Large m w) ?_ fun _ => ?_
  · refine holds_bind (fun w0 w => w.ft.state = .negotiated ∧ w = w0)
      (holds_get fun w hw => ⟨hw, rfl⟩) fun w0 => ?_
    -- the length assertion fires, or the OPEN that is too large was handed to the session
    cases hs : w0.transfer.step (.open options.destFilename options.dummy t) with
    | none => exact holds_throw fun w hw => .inr ⟨rfl, hw.1⟩
    | some transfer =>
      refine holds_modify ?_
      rintro w ⟨-, rfl⟩
      have hop : (Call.open options.destFilename options.dummy t).operation = some .open := rfl
      obtain ⟨sent, hsent⟩ := sent_of_step hop hs
      refine ⟨(⟨w.transfer.ft.protocolId, ptOpen,
        w.transfer.ft.openPayload options.destFilename options.dummy⟩, false), ?_, ?_⟩
      · show _ ∈ transfer.host.log.submitted
        rw [submitted_of_send hsent]
        exact List.mem_append_right _ List.mem_cons_self
      · show m.toNat < (w.transfer.ft.openPayload _ _).length
        rw [length_openPayload]
        exact hlong
  -- and it stays submitted, whatever comes after
  have hrest : Remembers (m := m) (do
      driveUntilEvent env fun e => e = .opened
      let chunkSize := resolveChunkSize options.chunkSize deviceMax
      let sourceBytes ← readToEnd env
      let payload ← payloadOf crate sourceBytes c
      let stats ← writeChunks env options (Chunks.chunks chunkSize payload)
        { sourceBytes := sourceBytes.length, bytesSent := 0, chunksSent := 0, compression := c }
      call (.close (← now env))
      driveUntilEvent env fun e => e = .closed
      sendControlClose env
      driveSessionUntilIdle env
      pure stats) := by
    refine remembers_bind (remembers_of_mute (mute_drive env mute_poll _ _)) fun _ => ?_
    refine remembers_bind (remembers_of_mute (mute_readToEnd env)) fun source => ?_
    refine remembers_bind (remembers_payloadOf crate source c) fun payload => ?_
    refine remembers_bind (remembers_writeChunks env options _ _) fun stats => ?_
    refine remembers_bind (remembers_of_mute (mute_now env)) fun now => ?_
    refine remembers_bind (remembers_call .close rfl) fun _ => ?_
    refine remembers_bind (remembers_of_mute (mute_drive env mute_poll _ _)) fun _ => ?_
    refine remembers_bind (remembers_sendControlClose env) fun _ => ?_
    refine remembers_bind (remembers_of_mute (mute_drive env mute_pollEvent _ _)) fun _ => ?_
    exact remembers_of_mute (mute_pure _)
  exact hrest.stops fun _ _ h => .inl h

end Blocking

/-! ## The theorem -/

/-- Every packet of a run fits into the device's buffer and into a packet, and a run that panics
does so because an operation was called on a transfer that has failed: the assertion on the
length never fires. -/
def Bounded (m : UInt16) (r : Except Stop UploadStats × World) : Prop :=
  (∀ q ∈ r.2.submitted, q.1.payload.length ≤ m.toNat ∧ q.1.payload.length ≤ maxPayload)
    ∧ (r.1 = .error .panic → r.2.ft.state = .failed)

theorem Small.bounded {m : UInt16} {w : World} (h : Small m w) :
    ∀ q ∈ w.submitted, q.1.payload.length ≤ m.toNat ∧ q.1.payload.length ≤ maxPayload :=
  fun q hq => ⟨h q hq, (h q hq).trans (toNat_le_maxPayload m)⟩

open Blocking in
/--
**Packets fit when the name does.** In every upload whose handshake left the session with a
block size `m > 0`: no packet is larger than `m` or than a packet may be, and no assertion on
the length fires, if and only if OPEN is not reached or the name and three bytes fit into `m`.
-/
theorem payloads_bounded_iff_name_fits (env : Env) (crate : Option HeatshrinkCrate)
    (options : UploadOptions) (m : UInt16) (hm : 0 < m) (w0 : World)
    (hs : exec (handshake env) World.start = (.ok (), w0))
    (hadvertised : w0.session.maxBlockSize = some m) :
    Bounded m (exec (upload env crate options) World.start)
      ↔ ∀ p w1, exec (negotiate env options) World.start = (.ok p, w1) →
          w1.ft.state = .negotiated → (asBytes options.destFilename).length + 3 ≤ m.toNat := by
  have hm0 : m ≠ 0 := by
    rintro rfl
    exact absurd hm (by decide)
  have hneg := holds_negotiate_small env (m := m) options hs World.start rfl
  rw [upload_eq, exec_bind]
  cases hr : exec (negotiate env options) World.start with
  | mk r w1 =>
    rw [hr] at hneg
    cases r with
    | error e =>
      -- stopped before OPEN: everything fits
      refine ⟨fun _ p w2 h => ?_, fun _ => ⟨hneg.1.bounded, fun hp => hneg.2 ?_⟩⟩
      · cases (Prod.mk.inj h).1
      · exact Except.error.inj hp
    | ok p =>
      obtain ⟨⟨hst, hc⟩, hsmall, hp⟩ := hneg
      rw [hadvertised] at hp
      constructor
      · rintro ⟨hfits, hpanic⟩ _ _ heq hw1
        obtain ⟨-, rfl⟩ := Prod.mk.inj heq
        -- a name that does not fit leaves a packet too large, or a panic on a healthy transfer
        by_contra hlong
        have h := holds_finish_large env crate options p.1 p.2 (Nat.lt_of_not_le hlong) w1 hw1
        dsimp only at hfits hpanic
        cases hx : exec (finish env crate options p.1 p.2) w1 with
        | mk r w2 =>
          rw [hx] at h hfits hpanic
          have hlarge : ¬ Large m w2 := fun ⟨q, hq, hlt⟩ =>
            absurd (hfits q hq).1 (Nat.not_le_of_lt hlt)
          cases r with
          | ok stats => exact hlarge h
          | error e =>
            rcases h with h | ⟨rfl, h⟩
            · exact hlarge h
            · rw [hpanic rfl] at h
              cases h
      · -- a name that fits
        intro hname
        have h := holds_finish_small env crate options hm0 hc w1
          ⟨⟨hst.1, hst.2.imp id fun h => ⟨h, hname p w1 rfl h⟩⟩, hsmall⟩
        dsimp only
        rw [hp]
        show Bounded m (exec (finish env crate options m p.2) w1)
        cases hx : exec (finish env crate options m p.2) w1 with
        | mk r w2 =>
          rw [hx] at h
          cases r with
          | ok stats => exact ⟨Small.bounded h, fun hp => nomatch hp⟩
          | error e => exact ⟨h.1.bounded, fun hp => h.2 (Except.error.inj hp)⟩

open Blocking in
theorem payloads_bounded_iff_name_fits_good :
    ∃ w0, exec (handshake goodEnv) World.start = (.ok (), w0)
      ∧ w0.session.maxBlockSize = some 512
      ∧ Bounded 512 (exec (upload goodEnv none goodOptions) World.start) := by
  have hok : (exec (handshake goodEnv) World.start).1.isOk = true := by decide +kernel
  have hadv : (exec (handshake goodEnv) World.start).2.session.maxBlockSize = some 512 := by
    decide +kernel
  have hname : (asBytes goodOptions.destFilename).length + 3 ≤ (512 : UInt16).toNat := by decide
  cases hs : exec (handshake goodEnv) World.start with
  | mk r w0 =>
    rw [hs] at hok hadv
    cases r with
    | error e => cases hok
    | ok u => exact ⟨w0, rfl, hadv, (payloads_bounded_iff_name_fits goodEnv none goodOptions 512
        (by decide) w0 hs hadv).mpr fun _ _ _ _ => hname⟩

/-- A device that can buffer eight bytes, and answers everything. -/
def smallEnv : Env :=
  .ofTexts ["ss0,8,1.0\n", "PFT:version:1:none\nok0\n", "PFT:success\nok1\n", "ok2\n",
    "ok3\n", "PFT:success\nok4\n", "ok5\n"] [7, 8, 9]

def longNameOptions : UploadOptions := ⟨"model.gco".toList, .none, false, 2, false⟩

open Blocking in
/-- OPEN is twelve bytes long, for a device that can buffer eight. -/
theorem long_name_overflows :
    (exec (handshake smallEnv) World.start).1.isOk = true
      ∧ (exec (handshake smallEnv) World.start).2.session.maxBlockSize = some 8
      ∧ (exec (upload smallEnv none longNameOptions) World.start).1.isOk = true
      ∧ (∃ q ∈ (exec (upload smallEnv none longNameOptions) World.start).2.submitted,
          q.1.packetType = ptOpen ∧ q.1.payload.length = 12)
      ∧ ¬ Bounded 8 (exec (upload smallEnv none longNameOptions) World.start) := by
  have hopen : ∃ q ∈ (exec (upload smallEnv none longNameOptions) World.start).2.submitted,
      q.1.packetType = ptOpen ∧ q.1.payload.length = 12 := by
    decide +kernel
  refine ⟨by decide +kernel, by decide +kernel, by decide +kernel, hopen, fun hb => ?_⟩
  obtain ⟨q, hq, -, hlen⟩ := hopen
  have hle := (hb.1 q hq).1
  rw [hlen] at hle
  exact absurd hle (by decide)

end MarlinTransfer
