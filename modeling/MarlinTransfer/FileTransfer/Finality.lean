import MarlinTransfer.FileTransfer.Pending

/-!
# After the end

A transfer that has been closed, aborted or has failed handles failures of its session like
one that is still going on, and tells each of them. So its first outcome is final exactly as
long as no such failure is handled after it: what a transfer tells is its events up to the
first outcome, and then every late failure.
-/

namespace MarlinTransfer

open Codec Text Session FileTransfer

/-- A transfer in this state has told its outcome. -/
def State.ended : State → Bool
  | .closed => true
  | .aborted => true
  | .failed => true
  | _ => false

/-- An event that says how a transfer ended. -/
def FileEvent.ending : FileEvent → Bool
  | .closed => true
  | .abortAcked => true
  | .failed _ => true
  | _ => false

/-- No event follows the first outcome. -/
def Final (outs : List FileEvent) : Prop :=
  ∀ pre ev post, outs = pre ++ ev :: post → ev.ending = true → post = []

/-- The failures among events that are handled when the transfer has ended already. -/
def lateFailures : List Event → FileTransfer → List FileError
  | [], _ => []
  | e :: es, ft =>
    (if ft.state.ended then e.failure.toList else []) ++ lateFailures es (ft.handleSessionEvent e)

namespace Transfer

/-- The late failures of a call: only a poll handles anything. -/
def late (t : Transfer) : Call → List FileError
  | .poll => lateFailures (t.pending.map Prod.fst) t.ft
  | _ => []

/-- The late failures of a run. -/
def lateRun : List Call → Transfer → List FileError
  | [], _ => []
  | c :: cs, t => t.late c ++ match t.step c with
    | none => []
    | some t' => lateRun cs t'

/-- What was told: returned by a poll, or still to be returned. -/
def told (t : Transfer) : List FileEvent := t.returned ++ t.ft.outEvents

end Transfer

theorem Final.mono {outs outs' : List FileEvent} (h : Final outs') (hp : outs <+: outs') :
    Final outs := by
  obtain ⟨rest, rfl⟩ := hp
  rintro pre ev post rfl hev
  have := h pre ev (post ++ rest) (by simp) hev
  exact (List.append_eq_nil_iff.mp this).1

/-- What holds of what was told, `errs` being the late failures so far. -/
structure Concluded (ft : FileTransfer) (told : List FileEvent) (errs : List FileError) :
    Prop where
  consistent : ft.Consistent
  going : ft.state.ended = false → errs = [] ∧ ∀ ev ∈ told, ev.ending = false
  ended : ft.state.ended = true → ∃ pre ev, told = pre ++ ev :: errs.map .failed
    ∧ ev.ending = true ∧ ∀ x ∈ pre, x.ending = false

namespace Concluded

variable {ft : FileTransfer} {told : List FileEvent} {errs : List FileError}

/-- An event that ends a transfer, told by one that is still going on. -/
theorem conclude (h : Concluded ft told errs) (hst : ft.state.ended = false) {ft' : FileTransfer}
    (hc : ft'.Consistent) {ev : FileEvent} (hev : ev.ending = true)
    (hst' : ft'.state.ended = true) : Concluded ft' (told ++ [ev]) errs where
  consistent := hc
  going := fun hno => by rw [hst'] at hno; cases hno
  ended := fun _ => by
    obtain ⟨rfl, hall⟩ := h.going hst
    exact ⟨told, ev, rfl, hev, hall⟩

/-- An event that leads on. -/
theorem proceed (h : Concluded ft told errs) (hst : ft.state.ended = false) {ft' : FileTransfer}
    (hc : ft'.Consistent) {out : List FileEvent} (hout : ∀ ev ∈ out, ev.ending = false)
    (hst' : ft'.state.ended = false) : Concluded ft' (told ++ out) errs where
  consistent := hc
  going := fun _ => by
    obtain ⟨rfl, hall⟩ := h.going hst
    refine ⟨rfl, fun ev hev => ?_⟩
    rcases List.mem_append.mp hev with hev | hev
    · exact hall ev hev
    · exact hout ev hev
  ended := fun hyes => by rw [hst'] at hyes; cases hyes

/-- **One event**, handled in any state. -/
theorem handle (h : Concluded ft told errs) (e : Event) :
    ∃ out, (ft.handleSessionEvent e).outEvents = ft.outEvents ++ out
      ∧ Concluded (ft.handleSessionEvent e) (told ++ out)
        (errs ++ if ft.state.ended then e.failure.toList else []) := by
  have hc := handle_consistent h.consistent e
  cases hf : e.failure with
  | some err =>
    -- a failure is told in every state
    rw [handle_failure hf] at hc ⊢
    refine ⟨[.failed err], rfl, ?_⟩
    cases hst : ft.state.ended with
    | false =>
      rw [if_neg (by decide), List.append_nil]
      exact h.conclude hst hc rfl rfl
    | true =>
      obtain ⟨pre, ev, htold, hev, hpre⟩ := h.ended hst
      refine ⟨hc, fun hno => (nomatch hno), fun _ => ⟨pre, ev, ?_, hev, hpre⟩⟩
      rw [htold, if_pos rfl, List.map_append]
      simp
  | none =>
    have hnil : (if ft.state.ended then (none : Option FileError).toList else []) = [] := by
      split_ifs <;> rfl
    rw [hnil, List.append_nil]
    cases hack : e.isAck with
    | false =>
      have he := Event.idle_iff.mpr ⟨hack, hf⟩
      cases haw : ft.state.awaited with
      | none =>
        rw [handle_idle_resting haw he]
        exact ⟨[], (List.append_nil _).symm, by rw [List.append_nil]; exact h⟩
      | some op =>
        have hi := idles_one (State.awaited_eq_some.mp haw) he
        refine ⟨[], by rw [hi.outEvents, List.append_nil], ?_⟩
        rw [List.append_nil]
        exact ⟨hc, by rw [hi.state]; exact h.going, by rw [hi.state]; exact h.ended⟩
    | true =>
      obtain ⟨n, rfl⟩ : ∃ n, e = .ack n := by
        cases e <;> cases hack
        exact ⟨_, rfl⟩
      cases haw : ft.state.awaited with
      | none =>
        have hsame : ft.handleSessionEvent (.ack n) = { ft with pendingAscii := none } :=
          handleAck_resting haw
        rw [hsame] at hc ⊢
        exact ⟨[], (List.append_nil _).symm, by rw [List.append_nil]; exact ⟨hc, h.going, h.ended⟩⟩
      | some op =>
        have hst := State.awaited_eq_some.mp haw
        have hgoing : ft.state.ended = false := by
          rw [hst]
          cases op <;> rfl
        have hset : Settles op ft (ft.handleSessionEvent (.ack n)) :=
          handleAck_waiting hst h.consistent
        refine ⟨_, hset.outEvents, ?_⟩
        rcases hset.state with ⟨hans, hdone⟩ | ⟨⟨err, herr⟩, hfail⟩
        · generalize op.settle ft.heard = ev at hans
          by_cases hlast : op = .close ∨ op = .abort
          · refine h.conclude hgoing hc ?_ ?_
            · rcases hlast with rfl | rfl <;> cases ev <;> first | rfl | cases hans
            · rw [hdone]
              rcases hlast with rfl | rfl <;> rfl
          · refine h.proceed hgoing hc ?_ ?_
            · rw [not_or] at hlast
              intro x hx
              rw [List.mem_singleton.mp hx]
              cases ev with
              | closed => exact absurd (Option.some.inj hans).symm hlast.1
              | abortAcked => exact absurd (Option.some.inj hans).symm hlast.2
              | failed err => cases hans
              | _ => rfl
            · rw [hdone]
              rw [not_or] at hlast
              cases op with
              | close => exact absurd rfl hlast.1
              | abort => exact absurd rfl hlast.2
              | _ => rfl
        · rw [herr]
          exact h.conclude hgoing hc rfl (by rw [hfail]; rfl)

/-- Every event that a poll handles. -/
theorem fold (es : List Event) (h : Concluded ft told errs) :
    ∃ out, (es.foldl handleSessionEvent ft).outEvents = ft.outEvents ++ out
      ∧ Concluded (es.foldl handleSessionEvent ft) (told ++ out) (errs ++ lateFailures es ft) := by
  induction es generalizing ft told errs with
  | nil =>
    refine ⟨[], (List.append_nil _).symm, ?_⟩
    rw [lateFailures, List.append_nil, List.append_nil]
    exact h
  | cons e es ih =>
    obtain ⟨out, h1, h2⟩ := h.handle e
    obtain ⟨out', h3, h4⟩ := ih h2
    refine ⟨out ++ out', by rw [List.foldl_cons, h3, h1, List.append_assoc], ?_⟩
    rw [List.foldl_cons, lateFailures, ← List.append_assoc, ← List.append_assoc]
    exact h4

end Concluded

namespace Transfer

variable {t t' : Transfer} {errs : List FileError}

theorem drained_returned (t : Transfer) : t.drained.returned = t.returned := by
  have key : ∀ (ps : List (Event × Option Nat)) (t : Transfer),
      (ps.foldl observe t).returned = t.returned := by
    intro ps
    induction ps with
    | nil => exact fun _ => rfl
    | cons p ps ih => exact fun t => ih (t.observe p)
  exact key t.pending t

theorem poll_told (t : Transfer) : t.poll.told = t.returned ++ t.drained.ft.outEvents := by
  show (t.drained.returned ++ t.drained.ft.popEvent.1.toList) ++ t.drained.ft.popEvent.2.outEvents
    = _
  rw [List.append_assoc, popEvent_told, drained_returned]

theorem concluded_poll (h : Concluded t.ft t.told errs) :
    Concluded t.poll.ft t.poll.told (errs ++ t.late .poll) := by
  obtain ⟨out, h1, h2⟩ := h.fold (t.pending.map Prod.fst)
  rw [← drained_ft] at h1 h2
  have htold : t.poll.told = t.told ++ out := by
    rw [poll_told, h1, ← List.append_assoc]
    rfl
  obtain ⟨hst, hp, -⟩ := popEvent_keeps t.drained.ft
  rw [htold]
  refine ⟨fun p hpend => ?_, ?_, ?_⟩
  · show t.drained.ft.popEvent.2.state = .failed ∨ _
    rw [show t.poll.ft = t.drained.ft.popEvent.2 from rfl, hst]
    exact h2.consistent p (hp ▸ hpend)
  · rw [show t.poll.ft = t.drained.ft.popEvent.2 from rfl, hst]
    exact h2.going
  · rw [show t.poll.ft = t.drained.ft.popEvent.2 from rfl, hst]
    exact h2.ended

theorem concluded_step (h : Concluded t.ft t.told errs) {c : Call} (hs : t.step c = some t') :
    Concluded t'.ft t'.told (errs ++ t.late c) := by
  have hcall : ∀ {op}, Calls op t t' → Concluded t'.ft t'.told errs := by
    intro op hc
    have htold : t'.told = t.told ++ [] := by
      rw [List.append_nil]
      unfold told
      rw [hc.returned, hc.outEvents]
    have hgoing : t.ft.state.ended = false := by
      rw [hc.required]
      cases op <;> rfl
    rw [htold]
    refine h.proceed hgoing (consistent_call h.consistent hc) (by simp) ?_
    rw [hc.state]
    cases op <;> rfl
  have hlate : c ≠ .poll → errs ++ t.late c = errs := by
    intro hne
    cases c with
    | poll => exact absurd rfl hne
    | _ => exact List.append_nil errs
  cases hop : c.operation with
  | some op =>
    rw [hlate fun heq => by rw [heq] at hop; cases hop]
    exact hcall (calls_of_operation hop hs)
  | none =>
    cases c with
    | poll => cases hs; exact concluded_poll h
    | feed bytes now => cases hs; rw [hlate (by simp)]; exact h
    | tick now => cases hs; rw [hlate (by simp)]; exact h
    | pollOutbound => cases hs; rw [hlate (by simp)]; exact h
    | _ => cases hop

theorem concluded_run {cs : List Call} (h : Concluded t.ft t.told errs)
    (hr : t.run cs = some t') : Concluded t'.ft t'.told (errs ++ lateRun cs t) := by
  induction cs generalizing t errs with
  | nil =>
    cases hr
    rw [lateRun, List.append_nil]
    exact h
  | cons c cs ih =>
    obtain ⟨t1, h1, h2⟩ := Option.bind_eq_some_iff.mp hr
    rw [lateRun, h1, ← List.append_assoc]
    exact ih (concluded_step h h1) h2

/-- Polling returns what was told, an event at a time. -/
theorem run_polls (n : Nat) (t : Transfer) (hn : n ≤ t.ft.outEvents.length) :
    ∃ t', t.run (List.replicate n .poll) = some t'
      ∧ t.returned ++ t.ft.outEvents.take n <+: t'.returned := by
  induction n generalizing t with
  | zero =>
    refine ⟨t, rfl, ?_⟩
    rw [List.take_zero, List.append_nil]
  | succ n ih =>
    obtain ⟨e, rest, hout⟩ : ∃ e rest, t.ft.outEvents = e :: rest := by
      cases h : t.ft.outEvents with
      | nil =>
        rw [h] at hn
        cases hn
      | cons e rest => exact ⟨e, rest, rfl⟩
    obtain ⟨out, htold, -⟩ := fold_told (t.pending.map Prod.fst) t.ft
    rw [← drained_ft, hout, List.cons_append] at htold
    have hpop : t.drained.ft.popEvent
        = (some e, { t.drained.ft with outEvents := rest ++ out }) := popEvent_cons htold
    have hret : t.poll.returned = t.returned ++ [e] := by
      show t.drained.returned ++ t.drained.ft.popEvent.1.toList = _
      rw [drained_returned, hpop]
      rfl
    have hrest : t.poll.ft.outEvents = rest ++ out := by
      show t.drained.ft.popEvent.2.outEvents = _
      rw [hpop]
    rw [hout, List.length_cons] at hn
    have hle : n ≤ rest.length := Nat.le_of_succ_le_succ hn
    obtain ⟨t', hrun, hpre⟩ := ih t.poll (by rw [hrest, List.length_append]; omega)
    refine ⟨t', hrun, ?_⟩
    rw [hret, hrest, List.take_append_of_le_length hle, List.append_assoc] at hpre
    rw [hout, List.take_succ_cons]
    exact hpre

end Transfer

/-- Something told after an outcome. -/
theorem Concluded.not_final {ft : FileTransfer} {told : List FileEvent} {errs : List FileError}
    (h : Concluded ft told errs) (hne : errs ≠ []) : ¬ Final told := by
  intro hfinal
  cases hst : ft.state.ended with
  | false => exact hne (h.going hst).1
  | true =>
    obtain ⟨pre, ev, htold, hev, -⟩ := h.ended hst
    exact hne (List.map_eq_nil_iff.mp (hfinal pre ev _ htold hev))

theorem Concluded.final {ft : FileTransfer} {told : List FileEvent}
    (h : Concluded ft told []) : Final told := by
  intro pre ev post heq hev
  cases hst : ft.state.ended with
  | false =>
    have := (h.going hst).2 ev (by rw [heq]; simp)
    rw [hev] at this
    cases this
  | true =>
    obtain ⟨pre', ev', htold, -, hpre'⟩ := h.ended hst
    rw [List.map_nil, heq] at htold
    rcases List.eq_nil_or_concat post with rfl | ⟨post', x, rfl⟩
    · rfl
    · -- the last event told is the only one that ends anything
      have hsplit : (pre ++ ev :: post') ++ [x] = pre' ++ [ev'] := by
        rw [← htold]
        simp [List.concat_eq_append]
      obtain ⟨hpre, -⟩ := List.append_inj' hsplit rfl
      have := hpre' ev (by rw [← hpre]; simp)
      rw [hev] at this
      cases this

/--
**The first outcome is final unless a failure comes late.** In every run of a transfer in which
no poll handles a `fe`, an ack that does not match or a timeout while the transfer is closed,
aborted or failed already, the polls return nothing after the first `Closed`, `AbortAcked` or
`Failed`. In every run in which one does, polling on returns something after it.
-/
theorem outcome_final_iff_none_late (w : Watched) (calls : List Call) (t : Transfer)
    (hr : (Transfer.start w).run calls = some t) :
    (Transfer.lateRun calls (Transfer.start w) = [] ↔ Final t.told)
      ∧ (Transfer.lateRun calls (Transfer.start w) = [] → Final t.returned)
      ∧ (Transfer.lateRun calls (Transfer.start w) ≠ [] →
          ∃ n t', t.run (List.replicate n .poll) = some t' ∧ ¬ Final t'.returned) := by
  have hstart : Concluded (Transfer.start w).ft (Transfer.start w).told [] :=
    ⟨consistent_new, fun _ => ⟨rfl, fun _ h => (List.not_mem_nil h).elim⟩, fun h => (nomatch h)⟩
  have h := Transfer.concluded_run hstart hr
  rw [List.nil_append] at h
  have hiff : Transfer.lateRun calls (Transfer.start w) = [] ↔ Final t.told := by
    refine ⟨fun hnone => ?_, fun hfinal => by_contra fun hne => h.not_final hne hfinal⟩
    rw [hnone] at h
    exact h.final
  refine ⟨hiff, fun hnone => (hiff.mp hnone).mono (List.prefix_append _ _), fun hne => ?_⟩
  obtain ⟨t', hrun, hpre⟩ := Transfer.run_polls t.ft.outEvents.length t (Nat.le_refl _)
  rw [List.take_length] at hpre
  exact ⟨_, t', hrun, fun hfinal => h.not_final hne (hfinal.mono hpre)⟩

/-- A transfer that is closed in good order, and a `fe` after that. -/
def closedCalls : List Call :=
  queryCalls ++ [.close 8, .feed ("PFT:success\nok8\n".toUTF8.data.toList) 9, .poll]

def brokenCalls : List Call :=
  closedCalls ++ [.feed ("fe\n".toUTF8.data.toList) 10, .poll]

theorem outcome_final_iff_none_late_closed :
    ∃ t, (Transfer.start handshaken).run closedCalls = some t
      ∧ t.returned.getLast? = some .closed ∧ Final t.returned := by
  have hrun : ((Transfer.start handshaken).run closedCalls).map (fun t => t.returned.getLast?)
      = some (some .closed) := by
    decide +kernel
  have hnone : Transfer.lateRun closedCalls (Transfer.start handshaken) = [] := by decide +kernel
  obtain ⟨t, ht, hlast⟩ := Option.map_eq_some_iff.mp hrun
  exact ⟨t, ht, hlast, (outcome_final_iff_none_late handshaken closedCalls t ht).2.1 hnone⟩

/-- `Closed` is returned, and then `Failed`. -/
theorem closed_then_failed :
    ∃ t, (Transfer.start handshaken).run brokenCalls = some t
      ∧ t.returned = [.negotiated ['1'] .none, .opened, .writeAcked, .closed,
        .failed .sessionFatalError]
      ∧ ¬ Final t.returned := by
  have hrun : ((Transfer.start handshaken).run brokenCalls).map (·.returned)
      = some [.negotiated ['1'] .none, .opened, .writeAcked, .closed,
        .failed .sessionFatalError] := by
    decide +kernel
  obtain ⟨t, ht, hret⟩ := Option.map_eq_some_iff.mp hrun
  refine ⟨t, ht, hret, fun hfinal => ?_⟩
  have := hfinal [.negotiated ['1'] .none, .opened, .writeAcked] .closed _ hret rfl
  cases this

end MarlinTransfer
