import MarlinTransfer.FileTransfer.Polls
import MarlinTransfer.FileTransfer.Resend

/-!
# The pending line

On any session, synced or not, whatever is called and whatever arrives: a line that is
pending belongs to the operation that waits, or the transfer has failed. It holds between
calls and between the events that one poll handles, so no ack ever meets a line that it
cannot interpret, and the ack that comes while an operation waits ends the wait.
-/

namespace MarlinTransfer

open Codec Text Session FileTransfer

namespace Transfer

variable {t t' : Transfer}

theorem popEvent_consistent {ft : FileTransfer} (hc : ft.Consistent) :
    ft.popEvent.2.Consistent := by
  obtain ⟨hst, hp, -⟩ := popEvent_keeps ft
  intro p h
  rw [hst]
  exact hc p (hp ▸ h)

/-- A call is made while nothing is pending, and so nothing is after it. -/
theorem consistent_call {op : Operation} (hc : t.ft.Consistent) (h : Calls op t t') :
    t'.ft.Consistent := by
  refine consistent_of_none (h.pendingAscii.trans (hc.pending_none ?_ ?_))
  · rw [h.required, Operation.awaited_required]
  · rw [h.required]
    cases op <;> decide

theorem consistent_lasts : Lasts Consistent where
  handle := fun e hc => handle_consistent hc e
  popEvent := popEvent_consistent
  call := consistent_call

theorem consistent_run {cs : List Call} (hc : t.ft.Consistent) (hr : t.run cs = some t') :
    t'.ft.Consistent := consistent_lasts.run hc hr

end Transfer

/-- A pending line and a state that match. -/
theorem consistent_iff {ft : FileTransfer} :
    ft.Consistent ↔ ∀ p, ft.pendingAscii = some p →
      ft.state = .failed ∨ ft.state = p.operation.awaiting := by
  unfold Consistent
  simp only [State.awaited_eq_some]

/--
**The pending-reply invariant.** In every run of a transfer on any session, between calls and,
`es` being what a poll has handled so far, between any two events of a poll: a pending line
belongs to the operation that waits, unless the transfer has failed; a WRITE that waits has
none pending; and an ack that is handled while an operation waits tells exactly one event and
ends the wait, in success or in failure.
-/
theorem pending_matches (w : Watched) (calls : List Call) (t : Transfer)
    (hr : (Transfer.start w).run calls = some t) (es : List Event) (ft : FileTransfer)
    (hft : es.foldl handleSessionEvent t.ft = ft) :
    (∀ p, ft.pendingAscii = some p → ft.state = .failed ∨ ft.state = p.operation.awaiting)
      ∧ (ft.state = .awaitingWriteAck → ft.pendingAscii = none)
      ∧ ∀ (op : Operation) (n : UInt8), ft.state = op.awaiting →
          (∃ ev, (ft.handleSessionEvent (.ack n)).outEvents = ft.outEvents ++ [ev])
            ∧ (ft.handleSessionEvent (.ack n)).state ≠ op.awaiting
            ∧ ((ft.handleSessionEvent (.ack n)).state = op.done
              ∨ (ft.handleSessionEvent (.ack n)).state = .failed) := by
  have hc : ft.Consistent := by
    rw [← hft]
    exact Transfer.consistent_lasts.fold (Transfer.consistent_run consistent_new hr) es
  refine ⟨consistent_iff.mp hc, ?_, fun op n hst => ?_⟩
  · intro hst
    cases hp : ft.pendingAscii with
    | none => rfl
    | some p =>
      -- no line is a verdict on a WRITE
      rcases consistent_iff.mp hc p hp with h | h <;> rw [hst] at h <;> cases p <;> cases h
  · have hset : Settles op ft (ft.handleSessionEvent (.ack n)) := handleAck_waiting hst hc
    refine ⟨⟨_, hset.outEvents⟩, ?_, ?_⟩
    · rcases hset.state with ⟨-, h⟩ | ⟨-, h⟩ <;> rw [h] <;> cases op <;> decide
    · rcases hset.state with ⟨-, h⟩ | ⟨-, h⟩
      · exact .inl h
      · exact .inr h

/-- A CLOSE that waits, with a verdict pending. -/
def closingCalls : List Call :=
  queryCalls ++ [.close 8, .feed ("PFT:ioerror\nfe\n".toUTF8.data.toList) 9]

theorem pending_matches_closing :
    ∃ t, (Transfer.start handshaken).run closingCalls = some t
      ∧ ([Event.asciiLine "PFT:ioerror".toList].foldl handleSessionEvent t.ft).pendingAscii
        = some .closeIoError
      ∧ ∃ ev, (([Event.asciiLine "PFT:ioerror".toList].foldl handleSessionEvent
          t.ft).handleSessionEvent (.ack 8)).outEvents
        = ([Event.asciiLine "PFT:ioerror".toList].foldl handleSessionEvent t.ft).outEvents
          ++ [ev] := by
  have hrun : ((Transfer.start handshaken).run closingCalls).map (fun t =>
      (([Event.asciiLine "PFT:ioerror".toList].foldl handleSessionEvent t.ft).pendingAscii,
        ([Event.asciiLine "PFT:ioerror".toList].foldl handleSessionEvent t.ft).state))
      = some (some .closeIoError, .awaitingCloseReply) := by
    decide +kernel
  obtain ⟨t, ht, hobs⟩ := Option.map_eq_some_iff.mp hrun
  obtain ⟨h1, h2⟩ := Prod.mk.inj hobs
  exact ⟨t, ht, h1, ((pending_matches handshaken closingCalls t ht _ _ rfl).2.2 .close 8 h2).1⟩

end MarlinTransfer
