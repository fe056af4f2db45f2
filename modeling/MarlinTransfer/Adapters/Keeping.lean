import MarlinTransfer.Adapters.Phases

/-!
# What the drive loops keep

A property of the world that every single step of a drive loop keeps is kept by the loop, and by
each of its parts, whether they return or stop.
-/

namespace MarlinTransfer

open Codec Text Session Triple

theorem written_hearings (now : Instant) (rs : List Reply) (s : Session) :
    written (hearings s now rs) = [] := by
  induction rs generalizing s with
  | nil => rfl
  | cons r rs ih => exact ih _

/-- A property that every step of a drive loop keeps. -/
structure Steady (I : World → Prop) : Prop where
  untallied : Untallied I
  /-- A copy is taken off the queue, and not written. -/
  dropped : ∀ w, I w → I (w.withHost w.transfer.host.pollOutbound)
  wrote : ∀ w out, I w → w.session.pollOutbound.1 = some out → I (w.wrote out)
  received : ∀ w input now, I w → I (w.received input now)
  ticked : ∀ w now, I w → I (w.ticked now)
  polledEvent : ∀ w, I w → I w.polledEvent
  polledFile : ∀ w, I w → I w.polledFile

namespace Blocking

variable (env : Env) {I : World → Prop}

theorem keeps_now (hI : Untallied I) : Keeps I (now env) := by
  refine holds_bind (fun w0 w => I w ∧ w = w0) (holds_get fun w hw => ⟨hw, rfl⟩) fun w0 => ?_
  refine holds_bind (fun _ => I) (holds_modify fun w hw => ?_) fun _ => holds_pure fun w hw => hw
  exact hI w w.reads w.writes (w.nows + 1) hw.1

/-- A write leaves one entry in the log, or stops. -/
theorem holds_write {P Q : World → Prop} {E : Stop → World → Prop} (out : Bytes)
    (hP : Untallied P) (hdone : ∀ w, P w → Q { w with log := w.log ++ [.wrote out] })
    (hstop : ∀ w e, P w → E e w) : Holds P (writeAll env out) (fun _ => Q) E := by
  refine holds_bind (fun w0 w => P w ∧ w = w0) (holds_get fun w hw => ⟨hw, rfl⟩) fun w0 => ?_
  refine holds_bind (fun _ => P) (holds_modify fun w hw => ?_) fun _ => ?_
  · exact hP w w.reads (w.writes + 1) w.nows hw.1
  · cases env.writes w0.writes with
    | some err => exact holds_throw fun w hw => hstop w _ hw
    | none => exact holds_modify fun w hw => hdone w hw

/-- A write on a transport that never fails one. -/
theorem exec_writeAll (hw : ∀ k, env.writes k = none) (bytes : Bytes) (w : World) :
    exec (writeAll env bytes) w
      = (.ok ⟨⟩, { w with writes := w.writes + 1, log := w.log ++ [.wrote bytes] }) := by
  unfold writeAll
  rw [exec_bind, exec_get]
  dsimp only
  rw [exec_bind, exec_modify]
  dsimp only
  rw [hw]
  rfl

theorem keeps_read (hI : Untallied I) : Keeps I (read env) := by
  refine holds_bind (fun w0 w => I w ∧ w = w0) (holds_get fun w hw => ⟨hw, rfl⟩) fun w0 => ?_
  refine holds_bind (fun _ => I) (holds_modify fun w hw => ?_) fun _ => ?_
  · exact hI w (w.reads + 1) w.writes w.nows hw.1
  · cases env.reads w0.reads with
    | data input _ => exact holds_pure fun w hw => hw
    | timedOut => exact holds_pure fun w hw => hw
    | failed err => exact holds_throw fun w hw => hw

end Blocking

namespace Steady

open Blocking

variable {I : World → Prop} (hI : Steady I) (env : Env)

include hI

theorem flush : Keeps I (flush env) := by
  refine holds_bind (fun _ => I) (holds_get fun w hw => hw) fun w0 => ?_
  refine holds_bind _ (keeps_whileSome (J := fun out w => ∃ w0 r wr n, I w0
    ∧ w0.session.pollOutbound.1 = some out
    ∧ w = (w0.withHost w0.transfer.host.pollOutbound).tally r wr n) ?_ ?_ _) fun _ =>
      holds_pure fun w hw => hw
  · refine holds_bind (fun w0 w => I w ∧ w = w0) (holds_get fun w hw => ⟨hw, rfl⟩) fun w0 => ?_
    refine holds_bind (fun _ w => I w0 ∧ w = w0.withHost w0.transfer.host.pollOutbound)
      (holds_modify ?_) fun _ => holds_pure ?_
    · rintro w ⟨hw, rfl⟩
      exact ⟨hw, rfl⟩
    · rintro w ⟨hw, rfl⟩
      cases hout : w0.session.pollOutbound.1 with
      | none => exact hI.dropped w0 hw
      | some out => exact ⟨w0, _, _, _, hw, hout, rfl⟩
  · intro out
    refine holds_bind (fun _ => I) ?_ fun _ => holds_pure fun w hw => hw
    refine holds_write env out ?_ ?_ ?_
    · rintro w r' wr' n' ⟨w0, r, wr, n, hw, hout, rfl⟩
      exact ⟨w0, r', wr', n', hw, hout, rfl⟩
    · rintro w ⟨w0, r, wr, n, hw, hout, rfl⟩
      exact hI.untallied (w0.wrote out) r wr n (hI.wrote w0 out hw hout)
    · rintro w e ⟨w0, r, wr, n, hw, hout, rfl⟩
      exact hI.untallied _ r wr n (hI.dropped w0 hw)

theorem feed (input : Bytes) : Keeps I (feed env input) := by
  unfold Blocking.feed
  split_ifs
  · refine holds_bind _ (keeps_now env hI.untallied) fun now => ?_
    exact holds_modify fun w hw => hI.received w input now hw
  · exact holds_pure fun w hw => hw

theorem tick : Keeps I (tick env) := by
  refine holds_bind _ (keeps_now env hI.untallied) fun now => ?_
  exact holds_modify fun w hw => hI.ticked w now hw

theorem pollEvent : Keeps I (pollEvent : Upload (Option Event)) := by
  refine holds_bind (fun _ => I) (holds_get fun w hw => hw) fun w0 => ?_
  refine holds_bind (fun _ => I) (holds_modify fun w hw => ?_) fun _ => holds_pure fun w hw => hw
  exact hI.polledEvent w hw

theorem poll : Keeps I (poll : Upload (Option FileEvent)) := by
  refine holds_bind (fun _ => I) (holds_get fun w hw => hw) fun w0 => ?_
  refine holds_bind (fun _ => I) (holds_modify fun w hw => ?_) fun _ => holds_pure fun w hw => hw
  exact hI.polledFile w hw

omit hI in
theorem answerAll {γ α : Type} {next : Upload (Option γ)} {answer : γ → Answer α}
    (hnext : Keeps I next) : Keeps I (answerAll next answer) := by
  refine holds_bind (fun _ => I) (holds_get fun w hw => hw) fun w0 => ?_
  refine keeps_whileSome (J := fun _ => I) (hnext.post fun _ _ => cases_const.mpr) (fun x => ?_) _
  cases answer x with
  | none => exact holds_pure fun w hw => hw
  | some r =>
    cases r with
    | ok a => exact holds_pure fun w hw => hw
    | error e => exact holds_throw fun w hw => hw

theorem turn {γ α : Type} {next : Upload (Option γ)} {answer : γ → Answer α}
    (hnext : Keeps I next) : Keeps I (turn env next answer) := by
  refine holds_bind _ (hI.flush env) fun _ => ?_
  refine holds_bind _ (keeps_read env hI.untallied) fun input => ?_
  refine holds_bind _ (hI.feed env input) fun _ => ?_
  refine holds_bind _ (answerAll hnext) fun r => ?_
  cases r with
  | none => exact holds_bind _ (hI.tick env) fun _ => holds_pure fun w hw => hw
  | some a => exact holds_pure fun w hw => hw

/-- **A drive loop keeps it**, whichever way it ends. -/
theorem drive {γ α : Type} {next : Upload (Option γ)} {answer : γ → Answer α}
    {giveUp : UploadError} (hnext : Keeps I next) : Keeps I (drive env next answer giveUp) :=
  keeps_repeatUpTo (hI.turn env hnext) 200

end Steady

end MarlinTransfer
