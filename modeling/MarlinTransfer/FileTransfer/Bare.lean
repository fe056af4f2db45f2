import MarlinTransfer.FileTransfer.Pending
import MarlinTransfer.FileTransfer.Schedule

/-!
# A transfer without its ghosts

What the code has of a transfer: the machine, its session and what the polls returned. A run
of it is a run of the watched transfer with the ghosts forgotten (`bare_run`), so two runs
may be compared here by what the code computes alone.
-/

namespace MarlinTransfer

open Codec Text Session

structure Bare where
  ft : FileTransfer
  session : Session
  returned : List FileEvent
  deriving DecidableEq

namespace Bare

/-- What an operation leaves. -/
def called (b : Bare) (r : Option (FileTransfer × Session)) : Option Bare :=
  r.map fun (ft, s) => { b with ft, session := s }

def poll (b : Bare) : Bare :=
  let (e, ft, s) := b.ft.poll b.session
  ⟨ft, s, b.returned ++ e.toList⟩

/-- One call; `none` is a failed assertion. -/
def step (b : Bare) : Call → Option Bare
  | .query compression now => b.called (b.ft.query b.session compression now)
  | .open name dummy now => b.called (b.ft.open b.session name dummy now)
  | .write chunk now => b.called (b.ft.write b.session chunk now)
  | .close now => b.called (b.ft.close b.session now)
  | .abort now => b.called (b.ft.abort b.session now)
  | .feed bytes now => some { b with session := b.session.feed bytes now }
  | .tick now => some { b with session := b.session.tick now }
  | .pollOutbound => some { b with session := b.session.pollOutbound.2 }
  | .poll => some b.poll

def run : List Call → Bare → Option Bare
  | [], b => some b
  | c :: cs, b => (b.step c).bind (run cs)

/-- **Runs.** What every call keeps, a run keeps. -/
theorem run_invariant {P : Bare → Prop}
    (hstep : ∀ {b b' : Bare} {c : Call}, P b → b.step c = some b' → P b') {cs : List Call}
    {b b' : Bare} (h : P b) (hr : b.run cs = some b') : P b' := by
  induction cs generalizing b with
  | nil => cases hr; exact h
  | cons c cs ih =>
    obtain ⟨b1, h1, h2⟩ := Option.bind_eq_some_iff.mp hr
    exact ih (hstep h h1) h2

theorem poll_eq (b : Bare) :
    b.poll = ⟨(b.ft.handled b.session).popEvent.2, { b.session with events := [] },
      b.returned ++ (b.ft.handled b.session).popEvent.1.toList⟩ := by
  unfold poll
  rw [FileTransfer.poll_handled]

end Bare

namespace Transfer

/-- A transfer without its ghosts. -/
def bare (t : Transfer) : Bare := ⟨t.ft, t.host.session, t.returned⟩

variable {t t' : Transfer} {ds : List Dispatch}

theorem bare_called (op : Operation) (payload : Bytes) (r : Option (FileTransfer × Session)) :
    (t.called op payload r).map bare = t.bare.called r := by
  cases r <;> rfl

theorem bare_poll (hc : Conserved t.host ds) : t.poll.bare = t.bare.poll := by
  have h := poll_eq hc
  unfold Bare.poll bare
  dsimp only
  rw [poll_returned hc, h]

theorem bare_step (hc : Conserved t.host ds) (c : Call) :
    (t.step c).map bare = t.bare.step c := by
  cases c with
  | query compression now => exact bare_called _ _ _
  | «open» name dummy now => exact bare_called _ _ _
  | write chunk now => exact bare_called _ _ _
  | close now => exact bare_called _ _ _
  | abort now => exact bare_called _ _ _
  | feed bytes now =>
    show some (bare _) = some _
    unfold bare
    rw [Watched.feed_session]
  | tick now =>
    show some (bare _) = some _
    unfold bare
    rw [Watched.tick_session]
  | pollOutbound =>
    show some (bare _) = some _
    unfold bare
    rw [Watched.pollOutbound_session]
  | poll => exact congrArg some (bare_poll hc)

theorem conserved_step (hc : Conserved t.host ds) {c : Call} (h : t.step c = some t') :
    ∃ ds', Conserved t'.host ds' :=
  conserved_run hc (host_step h)

/-- **A run of the code** is a run of the watched transfer. -/
theorem bare_run {cs : List Call} (hc : Conserved t.host ds) :
    (t.run cs).map bare = t.bare.run cs := by
  induction cs generalizing t ds with
  | nil => rfl
  | cons c cs ih =>
    rw [run, Bare.run, ← bare_step hc]
    cases h : t.step c with
    | none => rfl
    | some t' =>
      obtain ⟨ds', hc'⟩ := conserved_step hc h
      exact ih hc'

end Transfer

/-! ## What a caller sees of a run -/

namespace Bare

/-- What was returned, what is still to be returned, and the state. -/
def face (b : Bare) : List FileEvent × List FileEvent × State :=
  (b.returned, b.ft.outEvents, b.ft.state)

/-- What was told: returned by a poll, or still to be returned. -/
def told (b : Bare) : List FileEvent := b.returned ++ b.ft.outEvents

/-- A call of the transfer that is one of its session only. -/
structure SessionCall (c : Call) (f : Session → Session) : Prop where
  step : ∀ b : Bare, b.step c = some { b with session := f b.session }
  ahead : ∀ es s, f (s.ahead es) = (f s).ahead es

/-- A call of an operation. -/
structure RequestCall (c : Call) (op : Operation) : Prop where
  step : ∀ b b' : Bare, b.step c = some b' → b.ft.state = op.required
    ∧ b'.ft.state = op.awaiting ∧ b'.ft.pendingAscii = b.ft.pendingAscii
    ∧ b'.ft.outEvents = b.ft.outEvents ∧ b'.returned = b.returned
  ahead : ∀ (b : Bare) es, ({ b with session := b.session.ahead es } : Bare).step c
    = (b.step c).map fun b => { b with session := b.session.ahead es }

theorem requestCall (c : Call) (op : Operation) (ft₀ : FileTransfer → FileTransfer)
    (payload : FileTransfer → Bytes) (now : Instant)
    (hkeep : ∀ ft, (ft₀ ft).state = ft.state ∧ (ft₀ ft).pendingAscii = ft.pendingAscii
      ∧ (ft₀ ft).outEvents = ft.outEvents)
    (hstep : ∀ b : Bare, b.step c = b.called ((ft₀ b.ft).request b.session op.required op.awaiting
      op.packetType (payload b.ft) now)) : RequestCall c op where
  step := by
    intro b b' h
    rw [hstep] at h
    obtain ⟨⟨ft', s'⟩, hr, rfl⟩ := Option.map_eq_some_iff.mp h
    obtain ⟨hst, -, rfl⟩ := FileTransfer.request_eq_some.mp hr
    obtain ⟨h1, h2, h3⟩ := hkeep b.ft
    exact ⟨h1 ▸ hst, rfl, h2, h3, rfl⟩
  ahead := by
    intro b es
    rw [hstep, hstep]
    unfold called FileTransfer.request
    dsimp only
    split_ifs with hst
    · rw [send_ahead]
      cases b.session.send (ft₀ b.ft).protocolId op.packetType (payload b.ft) now <;> rfl
    · rfl

/-- **Every call** but a poll is one of the session or one of an operation. -/
theorem call_cases {c : Call} (hc : c ≠ .poll) :
    (∃ f, SessionCall c f) ∨ ∃ op, RequestCall c op := by
  cases c with
  | query compression now =>
    exact .inr ⟨.query, requestCall _ .query (fun ft => { ft with requestedCompression := compression })
      (fun _ => []) now (fun _ => ⟨rfl, rfl, rfl⟩) fun _ => rfl⟩
  | «open» name dummy now =>
    exact .inr ⟨.open, requestCall _ .open id (fun ft => ft.openPayload name dummy) now
      (fun _ => ⟨rfl, rfl, rfl⟩) fun _ => rfl⟩
  | write chunk now =>
    exact .inr ⟨.write, requestCall _ .write id (fun _ => chunk) now (fun _ => ⟨rfl, rfl, rfl⟩)
      fun _ => rfl⟩
  | close now =>
    exact .inr ⟨.close, requestCall _ .close id (fun _ => []) now (fun _ => ⟨rfl, rfl, rfl⟩)
      fun _ => rfl⟩
  | abort now =>
    exact .inr ⟨.abort, requestCall _ .abort id (fun _ => []) now (fun _ => ⟨rfl, rfl, rfl⟩)
      fun _ => rfl⟩
  | feed bytes now =>
    exact .inl ⟨fun s => s.feed bytes now, fun _ => rfl, fun es s => feed_ahead es s now bytes⟩
  | tick now => exact .inl ⟨fun s => s.tick now, fun _ => rfl, fun es s => tick_ahead es s now⟩
  | pollOutbound =>
    refine .inl ⟨fun s => s.pollOutbound.2, fun _ => rfl, fun es s => ?_⟩
    rw [pollOutbound_ahead]
  | poll => exact absurd rfl hc

theorem RequestCall.none {c : Call} {op : Operation} (h : RequestCall c op) {b : Bare}
    (hst : b.ft.state ≠ op.required) : b.step c = none := by
  cases hs : b.step c with
  | none => rfl
  | some b' => exact absurd (h.step b b' hs).1 hst

theorem told_poll (b : Bare) :
    b.poll.told = b.returned ++ (b.ft.handled b.session).outEvents := by
  rw [poll_eq]
  show (b.returned ++ _) ++ _ = _
  rw [List.append_assoc, FileTransfer.popEvent_told]

/-- What was told stays told. -/
theorem told_step {b b' : Bare} {c : Call} (h : b.step c = some b') : b.told <+: b'.told := by
  by_cases hc : c = .poll
  · subst hc
    obtain rfl := Option.some.inj h
    obtain ⟨out, hout, -⟩ := FileTransfer.fold_told b.session.events b.ft
    rw [told_poll, FileTransfer.handled, hout, ← List.append_assoc]
    exact List.prefix_append _ _
  · rcases call_cases hc with ⟨f, hf⟩ | ⟨op, ho⟩
    · rw [hf.step] at h
      obtain rfl := Option.some.inj h
      exact List.prefix_rfl
    · obtain ⟨-, -, -, h1, h2⟩ := ho.step b b' h
      unfold told
      rw [h1, h2]

theorem told_run {cs : List Call} {b b' : Bare} (h : b.run cs = some b') :
    b.told <+: b'.told :=
  run_invariant (P := fun b1 => b.told <+: b1.told) (fun hp hs => hp.trans (told_step hs))
    List.prefix_rfl h

end Bare

end MarlinTransfer
