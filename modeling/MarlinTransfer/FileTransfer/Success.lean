import MarlinTransfer.FileTransfer.Soundness

/-!
# Success is never invented

What the invariant says of a transfer on a session that is synced and idle: the successes
it reports are those of the operations called, in call order, each told while the ack of
that operation's own packet is handled, and each but a WRITE's backed by the last verdict
among the lines handled since the call.
-/

namespace MarlinTransfer

open Codec Text Session

/-- A success that settles an operation was heard, unless the operation is a WRITE. -/
theorem settle_accepted {op : Operation} {heard : Option Verdict} {ev : FileEvent}
    {op' : Operation} (h : ev = op.settle heard) (ha : ev.answers = some op') (hop : op ≠ .write) :
    heard = some (.accept ev) := by
  cases heard with
  | none =>
    rw [Operation.settle, if_neg hop] at h
    rw [h] at ha
    cases ha
  | some v =>
    cases v with
    | accept e => rw [show ev = e from h]
    | refuse err =>
      rw [show ev = .failed err from h] at ha
      cases ha

/-- With nothing pending in the session, nothing is pending in the ledger. -/
theorem pending_nil {w : Watched} {ds : List Dispatch} (h : Conserved w ds)
    (he : w.session.events = []) : w.log.emitted.drop w.log.polled = [] := by
  have hev := h.events
  rw [he] at hev
  exact List.map_eq_nil_iff.mp hev.symm

/--
**File-level success is never invented.** A transfer is constructed on a synced, idle
session and used in any way its assertions allow. Then the operations reported as
successes are a prefix of the operations called; what was told is what `poll` returned
followed by what it still has to return; every success is told alone, at the ack of the
packet of the operation that waits, with the last verdict since the call accepting it;
and unless the transfer has failed, that ack settles the operation by the last verdict.
-/
theorem success_never_invented (s : Session) (ops : List Op) (w : Watched)
    (hw : (Watched.start s.reset).run ops = some w) (hsy : w.session.isSynced = true)
    (hf : w.session.inFlight = none) (hq : w.session.queued = []) (he : w.session.events = [])
    (calls : List Call) (t : Transfer) (hr : (Transfer.start w).run calls = some t) :
    successesOf t.trace <+: callsOf t.trace
      ∧ outsOf t.trace = t.returned ++ t.ft.outEvents
      ∧ ∀ pre e owner out post, t.trace = pre ++ .handled e owner out :: post →
          (∀ ev ∈ out, ∀ op, ev.answers = some op →
            ∃ requested packet mid, WaitsFor pre op requested packet mid ∧ e.isAck = true
              ∧ owner = some packet ∧ out = [ev]
              ∧ (op ≠ .write → lastVerdict op requested mid = some (.accept ev)))
          ∧ (∀ op requested packet mid, WaitsFor pre op requested packet mid → e.isAck = true →
              owner = some packet → (∀ err, .failed err ∉ outsOf pre) →
                out = [op.settle (lastVerdict op requested mid)]) := by
  obtain ⟨ds, hc⟩ := conserved_run (conserved_start s) hw
  have hstart : Sound (Transfer.start w) := by
    refine sound_start ⟨ds, hc⟩ hsy (.inr ⟨?_, ?_, ?_⟩)
    · rw [pending_nil hc he]
      exact clear_nil
    · intro f hf'
      rw [hf] at hf'
      cases hf'
    · rw [hq]
      simp
  have hs := hstart.run hr
  refine ⟨?_, hs.delivered, ?_⟩
  · cases hs.dialogue with
    | failed _ _ hpre => exact hpre
    | resting _ _ _ _ heq => exact heq ▸ List.prefix_refl _
    | waiting op _ _ _ _ _ _ _ heq => rw [heq]; exact List.prefix_append _ _
  · intro pre e owner out post htr
    have hl := hs.legit pre e owner out post htr
    refine ⟨?_, hl.settled⟩
    intro ev hev op hans
    -- a failure answers nothing, so it is the operation that waits
    rcases hl.own ev hev with ⟨err, -, heq⟩ | ⟨op', requested, packet, mid, hwf, hack, hown, hset,
      hout, hkind⟩
    · rw [heq] at hans
      cases hans
    · have hop : op' = op := by
        rcases hkind with h | ⟨err, h⟩
        · rw [hans] at h
          exact (Option.some.inj h).symm
        · rw [h] at hans
          cases hans
      subst hop
      exact ⟨requested, packet, mid, hwf, hack, hown, hout, settle_accepted hset hans⟩

/-- A handshake, its event polled. -/
def handshakeOps : List Op :=
  [.connect 0, .feed ("ss5,512,1.0\n".toUTF8.data.toList) 1, .pollEvent]

theorem handshakeOps_completes : ((Watched.start Session.new.reset).run handshakeOps).isSome := by
  decide +kernel

/-- The session it leaves. -/
def handshaken : Watched :=
  ((Watched.start Session.new.reset).run handshakeOps).get handshakeOps_completes

theorem handshaken_run : (Watched.start Session.new.reset).run handshakeOps = some handshaken :=
  (Option.some_get handshakeOps_completes).symm

/-- A QUERY, an OPEN and a WRITE, each answered. -/
def queryCalls : List Call :=
  [.query .none 2, .feed ("PFT:version:1:none\nok5\n".toUTF8.data.toList) 3, .poll,
    .open ['a'] false 4, .feed ("PFT:success\nok6\n".toUTF8.data.toList) 5, .poll,
    .write [1, 2] 6, .feed ("ok7\n".toUTF8.data.toList) 7, .poll]

theorem success_never_invented_query :
    ∃ t, (Transfer.start handshaken).run queryCalls = some t
      ∧ callsOf t.trace = [.query, .open, .write]
      ∧ successesOf t.trace <+: callsOf t.trace := by
  have hrun : ((Transfer.start handshaken).run queryCalls).map (fun t => callsOf t.trace)
      = some [.query, .open, .write] := by
    decide +kernel
  obtain ⟨t, ht, hcalls⟩ := Option.map_eq_some_iff.mp hrun
  exact ⟨t, ht, hcalls, (success_never_invented Session.new handshakeOps handshaken handshaken_run
    (by decide +kernel) (by decide +kernel) (by decide +kernel) (by decide +kernel) queryCalls t
    ht).1⟩

end MarlinTransfer
