import MarlinTransfer.FileTransfer.Run

/-!
# Whose ack it is

The invariant of a transfer's runs. It says where the packet of the operation that waits
is (queued behind handshakes, in flight, or acked with the ack still pending), what the
trace says of it, and that the machine has kept the last verdict on it. A transfer that
starts on a session without other people's packets keeps it forever; so does one that
starts with a failure pending before any ack, because it fails before it can mistake one.
-/

namespace MarlinTransfer

open Codec Text Session

/-! ## Pending events -/

/-- No ack and no failure is pending. -/
def Clear (ps : List (Event × Option Nat)) : Prop :=
  ∀ p ∈ ps, p.1.isAck = false ∧ p.1.failure = none

/-- A failure is pending, and no ack before it. -/
def Doomed (ps : List (Event × Option Nat)) : Prop :=
  ∃ pre p post, ps = pre ++ p :: post ∧ p.1.failure.isSome ∧ ∀ q ∈ pre, q.1.isAck = false

theorem clear_nil : Clear [] := fun _ h => by cases h

theorem Clear.tail {p : Event × Option Nat} {ps : List (Event × Option Nat)} (h : Clear (p :: ps)) :
    Clear ps := fun q hq => h q (List.mem_cons_of_mem _ hq)

/-- No failure is an ack. -/
theorem Event.isAck_of_failure {e : Event} (h : e.failure.isSome) : e.isAck = false := by
  cases e with
  | ack n => cases h
  | asciiLine line => rfl
  | synced block version => rfl
  | resendRequested n => rfl
  | fatalError => rfl
  | outOfSync expected got => rfl
  | timeout sync => rfl

theorem Doomed.head_not_ack {p : Event × Option Nat} {ps : List (Event × Option Nat)}
    (h : Doomed (p :: ps)) : p.1.isAck = false := by
  obtain ⟨pre, q, post, heq, hq, hpre⟩ := h
  cases pre with
  | nil =>
    obtain ⟨rfl, -⟩ := List.cons.inj heq
    exact Event.isAck_of_failure hq
  | cons r pre =>
    obtain ⟨rfl, -⟩ := List.cons.inj heq
    exact hpre _ List.mem_cons_self

theorem Doomed.tail {p : Event × Option Nat} {ps : List (Event × Option Nat)}
    (h : Doomed (p :: ps)) (hp : p.1.failure = none) : Doomed ps := by
  obtain ⟨pre, q, post, heq, hq, hpre⟩ := h
  cases pre with
  | nil =>
    obtain ⟨rfl, -⟩ := List.cons.inj heq
    rw [hp] at hq
    cases hq
  | cons r pre =>
    obtain ⟨-, rfl⟩ := List.cons.inj heq
    exact ⟨pre, q, post, rfl, hq, fun x hx => hpre x (List.mem_cons_of_mem _ hx)⟩

theorem Doomed.append {ps : List (Event × Option Nat)} (h : Doomed ps)
    (qs : List (Event × Option Nat)) : Doomed (ps ++ qs) := by
  obtain ⟨pre, p, post, rfl, hp, hpre⟩ := h
  exact ⟨pre, p, post ++ qs, by simp, hp, hpre⟩

/-- More events without an ack: still clear, or now doomed. -/
theorem Clear.append {ps qs : List (Event × Option Nat)} (h : Clear ps)
    (hq : ∀ q ∈ qs, q.1.isAck = false) : Clear (ps ++ qs) ∨ Doomed (ps ++ qs) := by
  induction qs generalizing ps with
  | nil => exact .inl (by rw [List.append_nil]; exact h)
  | cons q qs ih =>
    cases hf : q.1.failure with
    | none =>
      have hps : Clear (ps ++ [q]) := by
        intro p hp
        rcases List.mem_append.mp hp with hp | hp
        · exact h p hp
        · rw [List.mem_singleton.mp hp]
          exact ⟨hq q List.mem_cons_self, hf⟩
      have := ih hps fun r hr => hq r (List.mem_cons_of_mem _ hr)
      simpa using this
    | some err =>
      exact .inr ⟨ps, q, qs, rfl, by rw [hf]; rfl, fun p hp => (h p hp).1⟩

/-! ## Packets outstanding -/

/-- The one data packet that is not done with is the last one submitted. -/
inductive OnlyLast (w : Watched) : Prop where
  | queued (f : InFlight) (qs : List Queued) (q : Queued) (hf : w.session.inFlight = some f)
      (hff : f.isSyncHandshake = true) (hq : w.session.queued = qs ++ [q])
      (hqs : ∀ r ∈ qs, r.isSyncHandshake = true) (hqq : q.isSyncHandshake = false)
  | inFlight (f : InFlight) (hf : w.session.inFlight = some f) (hff : f.isSyncHandshake = false)
      (hq : w.session.queued = [])

theorem Conserved.submitted_length {w : Watched} {ds : List Dispatch} (h : Conserved w ds) :
    w.log.submitted.length
      = w.log.retired.length + w.session.inFlight.toList.length + w.session.queued.length := by
  have hlen := h.length_flights
  unfold Watched.flights at hlen
  rw [h.submitted, List.length_append, List.length_map, List.length_map, hlen, List.length_append,
    List.length_map]

/-- The packet sent from a session with only handshakes outstanding. -/
theorem onlyLast_of_submitted {w w' : Watched} {b : BytesBuilder} (h : OnlyHandshakes w)
    (hs : Submitted ⟨b, false⟩ w w') : OnlyLast w' := by
  cases hs with
  | waits hbusy hf hq hl =>
    obtain ⟨f, hf'⟩ := Option.isSome_iff_exists.mp hbusy
    exact .queued f w.session.queued ⟨b, false⟩ (by rw [hf, hf']) (h.1 f hf') hq h.2 rfl
  | launched f hidle hf hc hq hl => exact .inFlight f hf hc.handshake_eq hq

theorem OnlyLast.resumes {w w' : Watched} {f : InFlight} (h : OnlyLast w)
    (hf : w.session.inFlight = some f) (hff : f.isSyncHandshake = true) (hr : Resumes w w') :
    OnlyLast w' := by
  cases h with
  | inFlight g hg hgg =>
    rw [Option.some.inj (hf.symm.trans hg), hgg] at hff
    cases hff
  | queued g qs q _ _ hq hqs hqq =>
    cases hr with
    | idle hq' => rw [hq] at hq'; simp at hq'
    | launch q' f' hq' hf' hc =>
      rw [hq] at hq'
      cases qs with
      | nil =>
        obtain ⟨rfl, hnil⟩ := List.cons.inj hq'
        exact .inFlight f' hf' (by rw [hc.handshake_eq]; exact hqq) hnil.symm
      | cons r qs =>
        obtain ⟨rfl, hrest⟩ := List.cons.inj hq'
        exact .queued f' qs q hf' (by rw [hc.handshake_eq]; exact hqs _ List.mem_cons_self)
          hrest.symm (fun x hx => hqs x (List.mem_cons_of_mem _ hx)) hqq

/-! ## The trace -/

/-- A trace that ends in the wait for an operation. -/
structure WaitsFor (tr : List Entry) (op : Operation) (requested : Compression) (packet : Nat)
    (mid : List Entry) : Prop where
  trace : ∃ pre, tr = pre ++ .called op requested packet :: mid
  none_since : callsOf mid = []

/-- The last call of a trace is one. -/
theorem WaitsFor.unique {tr : List Entry} {op op' : Operation} {c c' : Compression} {m m' : Nat}
    {mid mid' : List Entry} (h : WaitsFor tr op c m mid) (h' : WaitsFor tr op' c' m' mid') :
    op = op' ∧ c = c' ∧ m = m' ∧ mid = mid' := by
  obtain ⟨pre, heq⟩ := h.trace
  obtain ⟨pre', heq'⟩ := h'.trace
  rw [heq] at heq'
  -- the longer tail would hold a call
  have hno : ∀ (x : Entry) (a b : List Entry), callsOf (a ++ x :: b) = [] → x.operation = none := by
    intro x a b hcalls
    rw [callsOf_append] at hcalls
    have := (List.append_eq_nil_iff.mp hcalls).2
    unfold callsOf at this
    cases hx : x.operation with
    | none => rfl
    | some op => rw [List.filterMap_cons_some hx] at this; cases this
  rcases List.append_eq_append_iff.mp heq' with ⟨a, ha1, ha2⟩ | ⟨a, ha1, ha2⟩
  · cases a with
    | nil =>
      obtain ⟨hx, hmid⟩ := List.cons.inj ha2
      injection hx with h1 h2 h3
      exact ⟨h1, h2, h3, hmid⟩
    | cons y a =>
      obtain ⟨-, hmid⟩ := List.cons.inj ha2
      have := hno _ a mid' (hmid ▸ h.none_since)
      cases this
  · cases a with
    | nil =>
      obtain ⟨hx, hmid⟩ := List.cons.inj ha2
      injection hx with h1 h2 h3
      exact ⟨h1.symm, h2.symm, h3.symm, hmid.symm⟩
    | cons y a =>
      obtain ⟨-, hmid⟩ := List.cons.inj ha2
      have := hno _ a mid (hmid ▸ h'.none_since)
      cases this

/-- What a trace has to say of an event it records, `pre` being what came before. -/
structure Legit (pre : List Entry) (e : Event) (owner : Option Nat) (out : List FileEvent) :
    Prop where
  /-- An event comes from a failure of the session, or from the ack of the packet of the
  operation that waits. -/
  own : ∀ ev ∈ out, (∃ err, e.failure = some err ∧ ev = .failed err)
    ∨ ∃ op requested packet mid, WaitsFor pre op requested packet mid ∧ e.isAck = true
      ∧ owner = some packet ∧ ev = op.settle (lastVerdict op requested mid) ∧ out = [ev]
      ∧ (ev.answers = some op ∨ ∃ err, ev = .failed err)
  /-- That ack settles the operation, unless the transfer has failed. -/
  settled : ∀ op requested packet mid, WaitsFor pre op requested packet mid → e.isAck = true →
    owner = some packet → (∀ err, .failed err ∉ outsOf pre) →
      out = [op.settle (lastVerdict op requested mid)]

/-- Every event of a trace is legitimate. -/
def AllLegit (tr : List Entry) : Prop :=
  ∀ pre e owner out post, tr = pre ++ .handled e owner out :: post → Legit pre e owner out

theorem allLegit_nil : AllLegit [] := by
  intro pre e owner out post h
  simp at h

theorem AllLegit.append {tr : List Entry} (h : AllLegit tr) {x : Entry}
    (hx : ∀ e owner out, x = .handled e owner out → Legit tr e owner out) :
    AllLegit (tr ++ [x]) := by
  intro pre e owner out post heq
  rcases List.eq_nil_or_concat post with rfl | ⟨post, y, rfl⟩
  · obtain ⟨rfl, hlast⟩ := List.append_inj' heq rfl
    exact hx e owner out (List.cons.inj hlast).1
  · rw [List.concat_eq_append, ← List.cons_append, ← List.append_assoc] at heq
    obtain ⟨rfl, -⟩ := List.append_inj' heq rfl
    exact h pre e owner out post rfl

/-! ## The invariant -/

/-- What the machine and the trace agree on. -/
inductive Dialogue (t : Transfer) : Prop where
  | failed (hst : t.ft.state = .failed) (hout : ∃ err, .failed err ∈ outsOf t.trace)
      (hpre : successesOf t.trace <+: callsOf t.trace)
  | resting (hst : t.ft.state.awaited = none) (hne : t.ft.state ≠ .failed)
      (hp : t.ft.pendingAscii = none) (hout : ∀ err, .failed err ∉ outsOf t.trace)
      (heq : successesOf t.trace = callsOf t.trace)
  | waiting (op : Operation) (packet : Nat) (mid : List Entry) (hst : t.ft.state = op.awaiting)
      (hw : WaitsFor t.trace op t.ft.requestedCompression packet mid)
      (hheard : t.ft.heard = lastVerdict op t.ft.requestedCompression mid)
      (hlast : packet + 1 = t.host.log.submitted.length)
      (hout : ∀ err, .failed err ∉ outsOf t.trace)
      (heq : callsOf t.trace = successesOf t.trace ++ [op])

/-- Where the packets are, and the acks. -/
inductive Standing (t : Transfer) : Prop where
  | failed (hst : t.ft.state = .failed)
  | doomed (hd : Doomed t.pending)
  | resting (hst : t.ft.state.awaited = none) (hc : Clear t.pending) (ho : OnlyHandshakes t.host)
  | waiting (op : Operation) (hst : t.ft.state = op.awaiting) (hc : Clear t.pending)
      (ho : OnlyLast t.host)
  | acked (op : Operation) (hst : t.ft.state = op.awaiting) (pre post : List (Event × Option Nat))
      (n : UInt8) (packet : Nat) (hp : t.pending = pre ++ (.ack n, some packet) :: post)
      (hpre : Clear pre) (hpost : Clear post ∨ Doomed post) (ho : OnlyHandshakes t.host)
      (hlast : packet + 1 = t.host.log.submitted.length)

/-- **The invariant of a transfer.** -/
structure Sound (t : Transfer) : Prop where
  conserved : ∃ ds, Conserved t.host ds
  synced : t.host.session.isSynced = true
  consistent : t.ft.Consistent
  /-- What was told is what `poll` returned, then what it still has to return. -/
  delivered : outsOf t.trace = t.returned ++ t.ft.outEvents
  legit : AllLegit t.trace
  dialogue : Dialogue t
  standing : Standing t

namespace Sound

variable {t t' : Transfer}

/-! ## Handling an event -/

/-- What handling an event adds to the trace. -/
theorem observe_out {p : Event × Option Nat} {out : List FileEvent}
    (h : (t.ft.handleSessionEvent p.1).outEvents = t.ft.outEvents ++ out) :
    (t.observe p).trace = t.trace ++ [.handled p.1 p.2 out] := by
  unfold Transfer.observe
  dsimp only
  rw [h, List.drop_left]

theorem observe_host {p : Event × Option Nat} {ps : List (Event × Option Nat)}
    (h : Sound t) (hp : t.pending = p :: ps) :
    (t.observe p).pending = ps ∧ (∃ ds, Conserved (t.observe p).host ds)
      ∧ (t.observe p).host.log.submitted = t.host.log.submitted
      ∧ (t.observe p).host.session.isSynced = t.host.session.isSynced
      ∧ (t.observe p).host.session.inFlight = t.host.session.inFlight
      ∧ (t.observe p).host.session.queued = t.host.session.queued := by
  obtain ⟨ds, hc⟩ := h.conserved
  obtain ⟨hpoll, hrest⟩ := Transfer.pollEvent_cons hc hp
  have hhost : (t.observe p).host = t.host.pollEvent := rfl
  refine ⟨hrest, ⟨ds, hc.pollEvent⟩, ?_, ?_, ?_, ?_⟩ <;> rw [hhost, hpoll]

theorem delivered_observe (h : Sound t) {p : Event × Option Nat} {out : List FileEvent}
    (hout : (t.ft.handleSessionEvent p.1).outEvents = t.ft.outEvents ++ out) :
    outsOf (t.observe p).trace = (t.observe p).returned ++ (t.observe p).ft.outEvents := by
  rw [observe_out hout, outsOf_append, h.delivered]
  show _ = t.returned ++ (t.ft.handleSessionEvent p.1).outEvents
  rw [hout, ← List.append_assoc]
  congr 1
  exact List.append_nil out

/-- A failure of the session fails the transfer. -/
theorem observe_failure (h : Sound t) {p : Event × Option Nat} {ps : List (Event × Option Nat)}
    (hp : t.pending = p :: ps) {err : FileError} (hf : p.1.failure = some err) :
    Sound (t.observe p) := by
  obtain ⟨-, hcons, hsub, hsy, -, -⟩ := h.observe_host hp
  have hft : t.ft.handleSessionEvent p.1 = t.ft.fail err := FileTransfer.handle_failure hf
  have hout : (t.ft.handleSessionEvent p.1).outEvents = t.ft.outEvents ++ [.failed err] := by
    rw [hft]
    rfl
  have htr := observe_out hout
  have hst : (t.observe p).ft.state = .failed := by
    show (t.ft.handleSessionEvent p.1).state = _
    rw [hft]
    rfl
  refine ⟨hcons, hsy.trans h.synced, ?_, h.delivered_observe hout, ?_, .failed hst ?_ ?_,
    .failed hst⟩
  · exact fun q _ => .inl hst
  · rw [htr]
    refine h.legit.append fun e owner out heq => ?_
    injection heq with h1 h2 h3
    subst h1 h2 h3
    refine ⟨?_, ?_⟩
    · -- the failure is told for its own sake, and no ack was handled
      intro ev hev
      exact .inl ⟨err, hf, List.mem_singleton.mp hev⟩
    · intro op c m mid _ hack
      rw [Event.isAck_of_failure (by rw [hf]; rfl)] at hack
      cases hack
  · rw [htr, outsOf_append]
    exact ⟨err, List.mem_append_right _ (by simp [outsOf, Entry.outs])⟩
  · rw [htr, successesOf_append, callsOf_append]
    have h1 : successesOf [.handled p.1 p.2 [.failed err]] = [] := by
      simp [successesOf, outsOf, Entry.outs, FileEvent.answers]
    have h2 : callsOf [.handled p.1 p.2 [.failed err]] = [] := by
      simp [callsOf, Entry.operation]
    rw [h1, h2, List.append_nil, List.append_nil]
    -- the successes stay a prefix of the calls
    cases h.dialogue with
    | failed _ _ hpre => exact hpre
    | resting _ _ _ _ heq => exact heq ▸ List.prefix_refl _
    | waiting op packet mid _ _ _ _ _ heq =>
      rw [heq]
      exact List.prefix_append _ _

/-- Behind an event that settles nothing and is no failure, what was pending is still there. -/
theorem standing_silent (h : Sound t) {p : Event × Option Nat} {ps : List (Event × Option Nat)}
    (hp : t.pending = p :: ps) (hf : p.1.failure = none)
    (hack : p.1.isAck = true → t.ft.state = .failed)
    (hst : (t.observe p).ft.state = t.ft.state) : Standing (t.observe p) := by
  obtain ⟨hps, -, hsub, -, hfl, hqu⟩ := h.observe_host hp
  cases h.standing with
  | failed hs => exact .failed (hst.trans hs)
  | doomed hd =>
    rw [hp] at hd
    exact .doomed (by rw [hps]; exact hd.tail hf)
  | resting hs hc ho =>
    rw [hp] at hc
    exact .resting (by rw [hst]; exact hs) (by rw [hps]; exact hc.tail)
      (by unfold OnlyHandshakes; rw [hfl, hqu]; exact ho)
  | waiting op hs hc ho =>
    rw [hp] at hc
    refine .waiting op (hst.trans hs) (by rw [hps]; exact hc.tail) ?_
    cases ho with
    | queued f qs q h1 h2 h3 h4 h5 =>
      exact .queued f qs q (by rw [hfl]; exact h1) h2 (by rw [hqu]; exact h3) h4 h5
    | inFlight f h1 h2 h3 => exact .inFlight f (by rw [hfl]; exact h1) h2 (by rw [hqu]; exact h3)
  | acked op hs pre post n packet hpend hpre hpost ho hl =>
    rw [hp] at hpend
    cases pre with
    | nil =>
      obtain ⟨rfl, -⟩ := List.cons.inj hpend
      have := hack rfl
      rw [hs] at this
      cases op <;> cases this
    | cons q pre =>
      obtain ⟨rfl, hrest⟩ := List.cons.inj hpend
      refine .acked op (hst.trans hs) pre post n packet ?_ hpre.tail hpost ?_ ?_
      · rw [hps]
        exact hrest
      · unfold OnlyHandshakes
        rw [hfl, hqu]
        exact ho
      · rw [hsub]
        exact hl

/-- An event that settles nothing and is no failure. -/
theorem observe_silent (h : Sound t) {p : Event × Option Nat} {ps : List (Event × Option Nat)}
    (hp : t.pending = p :: ps) (hf : p.1.failure = none)
    (hack : p.1.isAck = true → t.ft.state = .failed)
    (hst : (t.ft.handleSessionEvent p.1).state = t.ft.state)
    (hreq : (t.ft.handleSessionEvent p.1).requestedCompression = t.ft.requestedCompression)
    (hout : (t.ft.handleSessionEvent p.1).outEvents = t.ft.outEvents)
    (hcon : (t.ft.handleSessionEvent p.1).Consistent)
    (hrest : t.ft.state.awaited = none → t.ft.pendingAscii = none →
      (t.ft.handleSessionEvent p.1).pendingAscii = none)
    (hheard : ∀ op, t.ft.state = op.awaiting → (t.ft.handleSessionEvent p.1).heard
      = ((Entry.handled p.1 p.2 []).verdict op t.ft.requestedCompression).or t.ft.heard) :
    Sound (t.observe p) := by
  obtain ⟨-, hcons, hsub, hsy, -, -⟩ := h.observe_host hp
  have hout' : (t.ft.handleSessionEvent p.1).outEvents = t.ft.outEvents ++ [] := by
    rw [hout, List.append_nil]
  have htr := observe_out hout'
  have hst' : (t.observe p).ft.state = t.ft.state := hst
  have houts : outsOf (t.observe p).trace = outsOf t.trace := by
    rw [htr, outsOf_append]
    simp [outsOf, Entry.outs]
  have hcalls : callsOf (t.observe p).trace = callsOf t.trace := by
    rw [htr, callsOf_append]
    simp [callsOf, Entry.operation]
  have hsucc : successesOf (t.observe p).trace = successesOf t.trace := by
    unfold successesOf
    rw [houts]
  refine ⟨hcons, hsy.trans h.synced, hcon, h.delivered_observe hout', ?_, ?_, ?_⟩
  · rw [htr]
    refine h.legit.append fun e owner out heq => ?_
    injection heq with h1 h2 h3
    subst h1 h2 h3
    refine ⟨fun ev hev => (List.not_mem_nil hev).elim, ?_⟩
    -- an ack that settles nothing is handled by a failed transfer
    intro op c m mid _ hisack _ hno
    cases h.dialogue with
    | failed _ hf' => obtain ⟨err, herr⟩ := hf'; exact absurd herr (hno err)
    | resting _ hne => exact absurd (hack hisack) hne
    | waiting op' _ _ hw => rw [hack hisack] at hw; cases op' <;> cases hw
  · cases h.dialogue with
    | failed hs ho hpre =>
      exact .failed (hst'.trans hs) (by rw [houts]; exact ho) (by rw [hsucc, hcalls]; exact hpre)
    | resting hs hne hpa ho heq =>
      exact .resting (by rw [hst']; exact hs) (by rw [hst']; exact hne) (hrest hs hpa)
        (by rw [houts]; exact ho) (by rw [hsucc, hcalls]; exact heq)
    | waiting op packet mid hs hw hh hl ho heq =>
      obtain ⟨pre, hpre⟩ := hw.trace
      have hreq' : (t.observe p).ft.requestedCompression = t.ft.requestedCompression := hreq
      -- the event belongs to the time since the call
      refine .waiting op packet (mid ++ [.handled p.1 p.2 []]) (hst'.trans hs) ⟨⟨pre, ?_⟩, ?_⟩ ?_
        (by rw [hsub]; exact hl) (by rw [houts]; exact ho) (by rw [hsucc, hcalls]; exact heq)
      · rw [htr, hpre, hreq']
        simp
      · rw [callsOf_append, hw.none_since]
        rfl
      · rw [hreq', lastVerdict_append, ← hh]
        exact hheard op hs
  · exact h.standing_silent hp hf hack hst'

/-- An ack with nothing pending before it is that of the operation that waits. -/
theorem ack_pending (h : Sound t) {p : Event × Option Nat} {ps : List (Event × Option Nat)}
    (hp : t.pending = p :: ps) (hack : p.1.isAck = true) (hne : t.ft.state ≠ .failed) :
    ∃ op : Operation, t.ft.state = op.awaiting ∧ ∃ n packet, p = (.ack n, some packet)
      ∧ (Clear ps ∨ Doomed ps) ∧ OnlyHandshakes t.host
      ∧ packet + 1 = t.host.log.submitted.length := by
  cases h.standing with
  | failed hs => exact absurd hs hne
  | doomed hd =>
    rw [hp] at hd
    rw [hd.head_not_ack] at hack
    cases hack
  | resting _ hc =>
    rw [hp] at hc
    rw [(hc p List.mem_cons_self).1] at hack
    cases hack
  | waiting _ _ hc =>
    rw [hp] at hc
    rw [(hc p List.mem_cons_self).1] at hack
    cases hack
  | acked op hs pre post n packet hpend hpre hpost ho hl =>
    rw [hp] at hpend
    cases pre with
    | nil =>
      obtain ⟨rfl, rfl⟩ := List.cons.inj hpend
      exact ⟨op, hs, n, packet, rfl, hpost, ho, hl⟩
    | cons q pre =>
      obtain ⟨rfl, -⟩ := List.cons.inj hpend
      rw [(hpre _ List.mem_cons_self).1] at hack
      cases hack

/-- What settles an operation is one success more, or a failure that ends the dialogue. -/
theorem dialogue_settled {op : Operation} {n : UInt8} {packet : Nat}
    (hst : t.ft.state = op.awaiting) (hcon : t.ft.Consistent)
    (hno : ∀ err, .failed err ∉ outsOf t.trace)
    (heq : callsOf t.trace = successesOf t.trace ++ [op]) :
    Dialogue (t.observe (.ack n, some packet)) := by
  have hset := FileTransfer.handleAck_waiting hst hcon
  have hout : (t.ft.handleSessionEvent (.ack n)).outEvents
      = t.ft.outEvents ++ [op.settle t.ft.heard] := hset.outEvents
  have htr := observe_out (t := t) (p := (.ack n, some packet)) hout
  have hcalls : callsOf (t.observe (.ack n, some packet)).trace = callsOf t.trace := by
    rw [htr, callsOf_append]
    simp [callsOf, Entry.operation]
  have houts : outsOf (t.observe (.ack n, some packet)).trace
      = outsOf t.trace ++ [op.settle t.ft.heard] := by
    rw [htr, outsOf_append]
    simp [outsOf, Entry.outs]
  rcases hset.state with ⟨h1, h2⟩ | ⟨⟨err, h1⟩, h2⟩
  · refine .resting ?_ ?_ hset.pending ?_ ?_
    · show (t.ft.handleAck).state.awaited = none
      rw [h2, Operation.awaited_done]
    · show (t.ft.handleAck).state ≠ .failed
      rw [h2]
      cases op <;> decide
    · intro err hmem
      rw [houts] at hmem
      rcases List.mem_append.mp hmem with hmem | hmem
      · exact hno err hmem
      · rw [← List.mem_singleton.mp hmem] at h1
        cases h1
    · unfold successesOf
      rw [houts, List.filterMap_append, hcalls, heq]
      rw [show [op.settle t.ft.heard].filterMap FileEvent.answers = [op] by simp [h1]]
      rfl
  · refine .failed h2 ⟨err, ?_⟩ ?_
    · rw [houts, h1]
      exact List.mem_append_right _ List.mem_cons_self
    · unfold successesOf
      rw [houts, List.filterMap_append, hcalls, heq, h1]
      exact ⟨[op], by simp [FileEvent.answers, successesOf]⟩

/-- The ack of the packet of the operation that waits. -/
theorem observe_settling (h : Sound t) {p : Event × Option Nat} {ps : List (Event × Option Nat)}
    (hp : t.pending = p :: ps) (hack : p.1.isAck = true) (hne : t.ft.state ≠ .failed) :
    Sound (t.observe p) := by
  obtain ⟨hps, hcons, hsub, hsy, hfl, hqu⟩ := h.observe_host hp
  obtain ⟨op, hst, n, packet, rfl, hpost, ho, hlast⟩ := h.ack_pending hp hack hne
  have hset := FileTransfer.handleAck_waiting hst h.consistent
  have hout : (t.ft.handleSessionEvent (.ack n)).outEvents
      = t.ft.outEvents ++ [op.settle t.ft.heard] := hset.outEvents
  have htr := observe_out (t := t) (p := (.ack n, some packet)) hout
  cases h.dialogue with
  | failed hs => exact absurd hs hne
  | resting hs =>
    rw [hst, Operation.awaited_awaiting] at hs
    cases hs
  | waiting op' packet' mid hs hw hh hl hno heq =>
    obtain rfl : op = op' := Operation.awaiting_injective (hst.symm.trans hs)
    -- both are the last packet submitted
    have hpk : packet = packet' := by omega
    subst hpk
    have hans : (op.settle t.ft.heard).answers = some op ∨ ∃ err, op.settle t.ft.heard = .failed err := by
      rcases hset.state with ⟨h1, -⟩ | ⟨h1, -⟩
      · exact .inl h1
      · exact .inr h1
    refine ⟨hcons, hsy.trans h.synced, ?_, h.delivered_observe hout, ?_,
      dialogue_settled hst h.consistent hno heq, ?_⟩
    · exact FileTransfer.consistent_of_none hset.pending
    · rw [htr]
      refine h.legit.append fun e owner out heq' => ?_
      injection heq' with h1 h2 h3
      subst h1 h2 h3
      refine ⟨?_, ?_⟩
      · -- what is told is how the last verdict since the call settles it
        intro ev hev
        obtain rfl := List.mem_singleton.mp hev
        exact .inr ⟨op, _, packet, mid, hw, rfl, rfl, by rw [hh], rfl, hans⟩
      · intro op' c' m' mid' hw' _ howner _
        obtain ⟨rfl, rfl, -, rfl⟩ := hw.unique hw'
        rw [hh]
    · rcases hset.state with ⟨h1, h2⟩ | ⟨h1, h2⟩
      · rcases hpost with hc | hd
        · refine .resting ?_ (by rw [hps]; exact hc) ?_
          · show (t.ft.handleAck).state.awaited = none
            rw [h2, Operation.awaited_done]
          · unfold OnlyHandshakes
            rw [hfl, hqu]
            exact ho
        · exact .doomed (by rw [hps]; exact hd)
      · exact .failed h2

/-- **One event handled.** -/
theorem observe (h : Sound t) {p : Event × Option Nat} {ps : List (Event × Option Nat)}
    (hp : t.pending = p :: ps) : Sound (t.observe p) := by
  cases hf : p.1.failure with
  | some err => exact h.observe_failure hp hf
  | none =>
    by_cases hack : p.1.isAck = true
    · by_cases hst : t.ft.state = .failed
      · -- a failed transfer lets acks pass
        obtain ⟨n, hn⟩ : ∃ n, p.1 = .ack n := by
          cases hp1 : p.1 <;> rw [hp1] at hack <;> cases hack
          exact ⟨_, rfl⟩
        have hft : t.ft.handleSessionEvent p.1 = { t.ft with pendingAscii := none } := by
          rw [hn]
          exact FileTransfer.handleAck_resting (by rw [hst]; rfl)
        refine h.observe_silent hp hf (fun _ => hst) (by rw [hft]) (by rw [hft]) (by rw [hft]) ?_ ?_ ?_
        · exact FileTransfer.consistent_of_none (by rw [hft])
        · intro _ _
          rw [hft]
        · intro op hop
          rw [hst] at hop
          cases op <;> cases hop
      · exact h.observe_settling hp hack hst
    · by_cases hl : ∃ line, p.1 = .asciiLine line
      · obtain ⟨line, hline⟩ := hl
        have hft : t.ft.handleSessionEvent p.1 = t.ft.handleAsciiLine line := by
          rw [hline]
          rfl
        cases haw : t.ft.state.awaited with
        | none =>
          -- nothing waits, and the line passes
          have hsame := FileTransfer.handleAsciiLine_resting haw line
          rw [hsame] at hft
          refine h.observe_silent hp hf (fun hc => absurd hc hack) (by rw [hft]) (by rw [hft])
            (by rw [hft]) (by rw [hft]; exact h.consistent) (fun _ hn => by rw [hft]; exact hn) ?_
          intro op hop
          rw [State.awaited_eq_some.mpr hop] at haw
          cases haw
        | some op =>
          -- the line is what its verdict says it is
          have hop := State.awaited_eq_some.mp haw
          have hh := FileTransfer.handleAsciiLine_waiting hop line
          refine h.observe_silent hp hf (fun hc => absurd hc hack) (by rw [hft]; exact hh.state)
            (by rw [hft]; exact hh.requested) (by rw [hft]; exact hh.outEvents)
            (by rw [hft]; exact hh.consistent h.consistent) (fun hn => by rw [haw] at hn; cases hn) ?_
          intro op' hop'
          obtain rfl : op = op' := Operation.awaiting_injective (hop.symm.trans hop')
          rw [hft, hh.heard, hline]
          rfl
      · -- `Synced` and `ResendRequested` are ignored
        have hsame : t.ft.handleSessionEvent p.1 = t.ft :=
          FileTransfer.handle_other hf (by simpa using hack) (by simpa using hl)
        refine h.observe_silent hp hf (fun hc => absurd hc hack) (by rw [hsame]) (by rw [hsame])
          (by rw [hsame]) (by rw [hsame]; exact h.consistent) (fun _ hn => by rw [hsame]; exact hn) ?_
        intro op _
        rw [hsame]
        have hv : (Entry.handled p.1 p.2 []).verdict op t.ft.requestedCompression = none := by
          cases hp1 : p.1 with
          | asciiLine line => exact absurd ⟨line, hp1⟩ hl
          | _ => rfl
        rw [hv]
        rfl

end Sound

end MarlinTransfer
