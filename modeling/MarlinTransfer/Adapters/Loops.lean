import MarlinTransfer.Adapters.Model
import MarlinTransfer.FileTransfer.Overtaken

/-!
# The drive loops

What each part of a drive loop keeps, for any property of the world that does not look at
the counters of the scripts. A loop that returns has polled the event it waited for, and it
stops with an error of its own unless an assertion fails: its fuel is always enough.
-/

namespace MarlinTransfer

open Codec Text Session Triple

namespace World

/-- The counters of the scripts. -/
def tally (w : World) (reads writes nows : Nat) : World := { w with reads, writes, nows }

/-- A packet copy left the queue and was written. -/
def wrote (w : World) (out : Bytes) : World :=
  { w.withHost w.transfer.host.pollOutbound with log := w.log ++ [.wrote out] }

/-- Bytes were read and fed. -/
def received (w : World) (bytes : Bytes) (now : Instant) : World :=
  { w.withHost (w.transfer.host.feed bytes now) with
    log := w.log ++ hearings w.session now (replies (w.session.inboundBuf ++ bytes)) }

/-- Time passed. -/
def ticked (w : World) (now : Instant) : World :=
  { w.withHost (w.transfer.host.tick now) with
    log := w.log ++ [.ticked (retiredBy w.session (w.session.tick now))] }

/-- The session was polled. -/
def polledEvent (w : World) : World := w.withHost w.transfer.host.pollEvent

/-- The transfer was polled. -/
def polledFile (w : World) : World :=
  { w with transfer := w.transfer.poll, polls := w.polls ++ [w.transfer] }

end World

/-- No poll so far was overtaken. -/
def Clean (w : World) : Prop := ∀ t ∈ w.polls, ¬ Overtaken t.ft t.host.session.events

/-- A run that stops stops with an error of its own, unless a poll was overtaken. -/
def Errs (e : Stop) (w : World) : Prop := Clean w → ∃ err, e = .err err

/-- A property that does not look at the counters. -/
def Untallied (P : World → Prop) : Prop := ∀ w reads writes nows, P w → P (w.tally reads writes nows)

theorem errs_err (err : UploadError) (w : World) : Errs (.err err) w := fun _ => ⟨err, rfl⟩

namespace Blocking

variable (env : Env) {P Q : World → Prop}

theorem holds_now (hP : Untallied P) :
    Holds P (now env) (fun _ w => P w) Errs := by
  refine holds_bind (fun w0 w => P w ∧ w = w0) (holds_get fun w hw => ⟨hw, rfl⟩) fun w0 => ?_
  refine holds_bind (fun _ => P) (holds_modify fun w hw => ?_) fun _ => holds_pure fun w hw => hw
  exact hP w w.reads w.writes (w.nows + 1) hw.1

/-- A write that succeeds leaves one entry in the log. -/
theorem holds_writeAll (bytes : Bytes) (hP : Untallied P)
    (h : ∀ w, P w → Q { w with log := w.log ++ [.wrote bytes] }) :
    Holds P (writeAll env bytes) (fun _ => Q) Errs := by
  refine holds_bind (fun w0 w => P w ∧ w = w0) (holds_get fun w hw => ⟨hw, rfl⟩) fun w0 => ?_
  refine holds_bind (fun _ => P) (holds_modify fun w hw => ?_) fun _ => ?_
  · exact hP w w.reads (w.writes + 1) w.nows hw.1
  · cases env.writes w0.writes with
    | some err => exact holds_throw fun w _ => errs_err _ w
    | none => exact holds_modify fun w hw => h w hw

/-- Taking a copy off the queue. -/
theorem holds_pollOutbound (n : Nat) :
    Holds (fun w => P w ∧ w.session.outbound.length < n + 1) pollOutbound
      (Cases (fun w => P w ∧ w.session.outbound = [])
        fun out w => ∃ w0, P w0 ∧ w0.session.pollOutbound.1 = some out
          ∧ w = w0.withHost w0.transfer.host.pollOutbound ∧ w.session.outbound.length < n)
      Errs := by
  refine holds_bind (fun w0 w => P w ∧ w.session.outbound.length < n + 1 ∧ w = w0)
    (holds_get fun w hw => ⟨hw.1, hw.2, rfl⟩) fun w0 => ?_
  refine holds_bind (fun _ w => P w0 ∧ w0.session.outbound.length < n + 1
    ∧ w = w0.withHost w0.transfer.host.pollOutbound) (holds_modify ?_) fun _ => holds_pure ?_
  · rintro w ⟨hw, hlen, rfl⟩
    exact ⟨hw, hlen, rfl⟩
  · rintro w ⟨hw, hlen, rfl⟩
    cases hob : w0.session.outbound with
    | nil =>
      have hnone : w0.session.pollOutbound = (none, w0.session) := by
        unfold Session.pollOutbound
        rw [hob]
      have hsame : w0.transfer.host.pollOutbound = w0.transfer.host := by
        unfold Watched.pollOutbound
        rw [show w0.transfer.host.session.pollOutbound = (none, w0.session) from hnone]
      rw [hnone, hsame]
      exact ⟨hw, hob⟩
    | cons b rest =>
      have hsome : w0.session.pollOutbound = (some b, { w0.session with outbound := rest }) := by
        unfold Session.pollOutbound
        rw [hob]
      rw [hsome]
      refine ⟨w0, hw, by rw [hsome], rfl, ?_⟩
      show w0.transfer.host.pollOutbound.session.outbound.length < n
      rw [Watched.pollOutbound_session, show w0.transfer.host.session.pollOutbound = _ from hsome]
      rw [hob, List.length_cons] at hlen
      exact Nat.lt_of_succ_lt_succ hlen

/-- **Flushing** empties the outbound queue. -/
theorem holds_flush (hP : Untallied P)
    (h : ∀ w out, P w → w.session.pollOutbound.1 = some out → P (w.wrote out)) :
    Holds P (flush env) (fun _ w => P w ∧ w.session.outbound = []) Errs := by
  refine holds_bind (fun w0 w => P w ∧ w = w0) (holds_get fun w hw => ⟨hw, rfl⟩) fun w0 => ?_
  refine holds_bind (Cases (fun w => P w ∧ w.session.outbound = [])
    fun _ w => P w ∧ w.session.outbound = []) ?_ fun r => ?_
  · refine (holds_whileSome (fun n w => P w ∧ w.session.outbound.length < n) _
      holds_pollOutbound ?_ ?_ (w0.session.outbound.length + 1)).pre ?_
    · intro n out
      refine holds_bind (fun _ w => P w ∧ w.session.outbound.length < n) ?_ fun _ =>
        holds_pure fun w hw => hw
      refine holds_of_state fun w ⟨w0, hw0, hout, hw, hlen⟩ => ?_
      refine (holds_writeAll env out (P := fun w' => ∃ r wr n, w' = w.tally r wr n) ?_ ?_).pre ?_
      · rintro w' r wr n ⟨r', wr', n', rfl⟩
        exact ⟨r, wr, n, rfl⟩
      · rintro w' ⟨r, wr, n', rfl⟩
        subst hw
        exact ⟨hP _ r wr n' (h w0 out hw0 hout), hlen⟩
      · rintro w' rfl
        exact ⟨_, _, _, rfl⟩
    · rintro w ⟨-, hlen⟩
      exact absurd hlen (Nat.not_lt_zero _)
    · rintro w ⟨hw, rfl⟩
      exact ⟨hw, Nat.lt_succ_self _⟩
  · cases r with
    | none => exact holds_pure fun w hw => hw
    | some u => exact holds_pure fun w hw => hw

theorem holds_read (hP : Untallied P) : Holds P (read env) (fun _ w => P w) Errs := by
  refine holds_bind (fun w0 w => P w ∧ w = w0) (holds_get fun w hw => ⟨hw, rfl⟩) fun w0 => ?_
  refine holds_bind (fun _ => P) (holds_modify fun w hw => ?_) fun _ => ?_
  · exact hP w (w.reads + 1) w.writes w.nows hw.1
  · cases env.reads w0.reads with
    | data bytes _ => exact holds_pure fun w hw => hw
    | timedOut => exact holds_pure fun w hw => hw
    | failed err => exact holds_throw fun w _ => errs_err _ w

/-- **Feeding** what was read; an idle read feeds nothing. -/
theorem holds_feed (bytes : Bytes) (hP : Untallied P) (hidle : ∀ w, P w → Q w)
    (h : ∀ w bytes now, P w → Q (w.received bytes now)) :
    Holds P (feed env bytes) (fun _ => Q) Errs := by
  unfold feed
  split_ifs
  · refine holds_bind (fun _ => P) (holds_now env hP) fun now => ?_
    exact holds_modify fun w hw => h w bytes now hw
  · exact holds_pure hidle

theorem holds_tick (hP : Untallied P) (h : ∀ w now, P w → Q (w.ticked now)) :
    Holds P (tick env) (fun _ => Q) Errs := by
  refine holds_bind (fun _ => P) (holds_now env hP) fun now => ?_
  exact holds_modify fun w hw => h w now hw

/-! ## Answering what is pending -/

/-- How many events there still are to answer, at most. -/
def pendingCount (w : World) : Nat := w.session.events.length + w.ft.outEvents.length

theorem holds_answerAll {γ α : Type} {next : Upload (Option γ)} {answer : γ → Answer α}
    {T : World → Prop} {R : γ → World → Prop} {S : α → World → Prop}
    (hnext : ∀ n, Holds (fun w => P w ∧ pendingCount w < n + 1) next
      (Cases T fun x w => R x w ∧ pendingCount w < n) Errs)
    (hgo : ∀ x w, R x w → answer x = none → P w)
    (hret : ∀ x a w, R x w → answer x = some (.ok a) → S a w) :
    Holds P (answerAll next answer) (Cases T S) Errs := by
  refine holds_bind (fun w0 w => P w ∧ w = w0) (holds_get fun w hw => ⟨hw, rfl⟩) fun w0 => ?_
  refine (holds_whileSome (fun n w => P w ∧ pendingCount w < n) _ hnext ?_ ?_ _).pre ?_
  · intro n x
    cases hans : answer x with
    | none => exact holds_pure fun w hw => ⟨hgo x w hw.1 hans, hw.2⟩
    | some r =>
      cases r with
      | ok a => exact holds_pure fun w hw => hret x a w hw.1 hans
      | error e => exact holds_throw fun w _ => errs_err _ w
  · rintro w ⟨-, hlen⟩
    exact absurd hlen (Nat.not_lt_zero _)
  · rintro w ⟨hw, rfl⟩
    exact ⟨hw, Nat.lt_succ_self _⟩

/-- Polling the session. -/
theorem holds_pollEvent {T : World → Prop} {R : Event → World → Prop}
    (hnone : ∀ w, P w → w.session.events = [] → T w)
    (hsome : ∀ w e rest, P w → w.session.events = e :: rest → R e w.polledEvent) (n : Nat) :
    Holds (fun w => P w ∧ pendingCount w < n + 1) pollEvent
      (Cases T fun x w => R x w ∧ pendingCount w < n) Errs := by
  refine holds_bind (fun w0 w => (P w ∧ pendingCount w < n + 1) ∧ w = w0)
    (holds_get fun w hw => ⟨hw, rfl⟩) fun w0 => ?_
  refine holds_bind (fun _ w => P w0 ∧ pendingCount w0 < n + 1 ∧ w = w0.polledEvent)
    (holds_modify ?_) fun _ => holds_pure ?_
  · rintro w ⟨⟨hw, hlen⟩, rfl⟩
    exact ⟨hw, hlen, rfl⟩
  · rintro w ⟨hw, hlen, rfl⟩
    cases hev : w0.session.events with
    | nil =>
      have hnil : w0.session.pollEvent = (none, w0.session) := by
        unfold Session.pollEvent
        rw [hev]
      have hsame : w0.transfer.host.pollEvent = w0.transfer.host := by
        unfold Watched.pollEvent
        rw [show w0.transfer.host.session.pollEvent = (none, w0.session) from hnil]
      unfold World.polledEvent
      rw [hnil, hsame]
      exact hnone w0 hw hev
    | cons e rest =>
      have hcons : w0.session.pollEvent = (some e, { w0.session with events := rest }) := by
        unfold Session.pollEvent
        rw [hev]
      rw [hcons]
      refine ⟨hsome w0 e rest hw hev, ?_⟩
      have hsession : w0.polledEvent.session = { w0.session with events := rest } := by
        show w0.transfer.host.pollEvent.session = _
        rw [Watched.pollEvent_session, show w0.transfer.host.session = w0.session from rfl, hcons]
      have hout : w0.polledEvent.ft.outEvents = w0.ft.outEvents := rfl
      unfold pendingCount at hlen ⊢
      rw [hev, List.length_cons] at hlen
      rw [hsession, hout]
      show rest.length + _ < n
      omega

end Blocking

namespace FileTransfer

/-- Handling an event tells at most one more. -/
theorem fold_outEvents_length (es : List Event) (ft : FileTransfer) :
    (es.foldl handleSessionEvent ft).outEvents.length ≤ ft.outEvents.length + es.length := by
  induction es generalizing ft with
  | nil => exact Nat.le_refl _
  | cons e es ih =>
    have h1 := ih (ft.handleSessionEvent e)
    obtain ⟨out, hout, hle, -⟩ := handle_told ft e
    rw [hout, List.length_append] at h1
    rw [List.foldl_cons, List.length_cons]
    omega

/-- A poll that returns an event leaves fewer to return. -/
theorem poll_count {ft : FileTransfer} {s : Session} {e : FileEvent} (h : (ft.poll s).1 = some e) :
    (ft.poll s).2.1.outEvents.length < ft.outEvents.length + s.events.length := by
  have hle := fold_outEvents_length s.events ft
  unfold poll at h ⊢
  rw [drain_eq] at h ⊢
  dsimp only at h ⊢
  cases hout : (s.events.foldl handleSessionEvent ft).outEvents with
  | nil => rw [popEvent_nil hout] at h; cases h
  | cons x rest =>
    rw [popEvent_cons hout]
    rw [hout, List.length_cons] at hle
    exact hle

end FileTransfer

namespace Blocking

variable (env : Env) {P Q : World → Prop}

/-- Polling the transfer. -/
theorem holds_poll {T : World → Prop} {R : FileEvent → World → Prop}
    (hcons : ∀ w, P w → ∃ ds, Conserved w.transfer.host ds)
    (hnone : ∀ w, P w → (w.ft.poll w.session).1 = none → T w.polledFile)
    (hsome : ∀ w e, P w → (w.ft.poll w.session).1 = some e → R e w.polledFile) (n : Nat) :
    Holds (fun w => P w ∧ pendingCount w < n + 1) poll
      (Cases T fun x w => R x w ∧ pendingCount w < n) Errs := by
  refine holds_bind (fun w0 w => (P w ∧ pendingCount w < n + 1) ∧ w = w0)
    (holds_get fun w hw => ⟨hw, rfl⟩) fun w0 => ?_
  refine holds_bind (fun _ w => P w0 ∧ pendingCount w0 < n + 1 ∧ w = w0.polledFile)
    (holds_modify ?_) fun _ => holds_pure ?_
  · rintro w ⟨⟨hw, hlen⟩, rfl⟩
    exact ⟨hw, hlen, rfl⟩
  · rintro w ⟨hw, hlen, rfl⟩
    cases he : (w0.ft.poll w0.session).1 with
    | none => exact hnone w0 hw he
    | some e =>
      refine ⟨hsome w0 e hw he, ?_⟩
      obtain ⟨ds, hc⟩ := hcons w0 hw
      have hft : w0.polledFile.ft = (w0.ft.poll w0.session).2.1 := by
        show w0.transfer.poll.ft = (w0.transfer.ft.poll w0.transfer.host.session).2.1
        rw [Transfer.poll_eq hc]
      have hsession : w0.polledFile.session.events = [] :=
        congrArg (fun w => w.session.events) (Transfer.poll_host hc)
      have hcount := FileTransfer.poll_count he
      unfold pendingCount at hlen ⊢
      rw [hft, hsession, List.length_nil]
      omega

/-! ## The loop -/

/-- **The rule of a drive loop**: `P` at the head, `F` once flushed, `J` once fed, `T` when
there is nothing left to answer. -/
theorem holds_drive {γ α : Type} {next : Upload (Option γ)} {answer : γ → Answer α}
    {giveUp : UploadError} {F J T : World → Prop} {S : α → World → Prop}
    (hflush : Holds P (flush env) (fun _ => F) Errs)
    (hread : Holds F (read env) (fun _ => F) Errs)
    (hfeed : ∀ bytes, Holds F (feed env bytes) (fun _ => J) Errs)
    (hanswer : Holds J (answerAll next answer) (Cases T S) Errs)
    (htick : Holds T (tick env) (fun _ => P) Errs) :
    Holds P (drive env next answer giveUp) S Errs := by
  refine holds_repeatUpTo P ?_ (fun w _ => errs_err _ w) 200
  refine holds_bind _ hflush fun _ => holds_bind _ hread fun bytes => holds_bind _ (hfeed bytes)
    fun _ => holds_bind _ hanswer fun r => ?_
  cases r with
  | none => exact holds_bind (fun _ => P) htick fun _ => holds_pure fun w hw => hw
  | some a => exact holds_pure fun w hw => hw

end Blocking

end MarlinTransfer
