import MarlinTransfer.FileTransfer.Bare
import MarlinTransfer.Session.Lines

/-!
# Lines out of context

A `PFT:` line that nothing waits for waits itself, for the next poll, and is read in the
state the transfer is in then. So it is inert unless an operation that the line is a verdict
on was called in the meantime, and then it decides that operation unless a further verdict
or a failure is handled before the ack.
-/

namespace MarlinTransfer

open Codec Text Session

namespace FileTransfer

/-- An operation that the line accepts or refuses is not settled as it is without it. -/
theorem settle_ne {op : Operation} {requested : Compression} {line : Str} {v : Verdict}
    (hv : verdict op requested line = some v) : op.settle (some v) ≠ op.settle none := by
  cases op with
  | query =>
    obtain ⟨rest, -, hv⟩ := Option.bind_eq_some_iff.mp hv
    obtain ⟨⟨version, comp⟩, -, hv⟩ := Option.map_eq_some_iff.mp hv
    rw [← hv]
    dsimp only
    cases hch : chooseCompression requested (parseCompressionSpec comp) with
    | ok chosen => simp [Operation.settle]
    | error err =>
      have herr : err = .compressionUnsupported := by
        revert hch
        unfold chooseCompression
        split <;> intro hch <;> cases hch
        rfl
      rw [herr]
      simp [Operation.settle, Operation.violation]
  | write => cases hv
  | _ =>
    simp only [verdict] at hv
    split_ifs at hv <;> rw [← Option.some.inj hv] <;>
      simp [Operation.settle, Operation.violation]

end FileTransfer

/-! ## Events that decide -/

/-- An event that decides on an operation that waits: an ack, a failure, or a verdict. -/
def Event.decides (op : Operation) (requested : Compression) (e : Event) : Bool :=
  e.isAck || e.failure.isSome || (e.verdict op requested).isSome

namespace FileTransfer

variable {ft : FileTransfer} {op : Operation}

theorem handle_undecided (hst : ft.state = op.awaiting) {e : Event}
    (h : e.decides op ft.requestedCompression = false) : ft.handleSessionEvent e = ft := by
  unfold Event.decides at h
  rw [Bool.or_eq_false_iff, Bool.or_eq_false_iff] at h
  obtain ⟨⟨hack, hf⟩, hv⟩ := h
  cases e with
  | asciiLine line => exact handleAsciiLine_unjudged hst (by simpa [Event.verdict] using hv)
  | ack n => cases hack
  | synced block version => rfl
  | resendRequested n => rfl
  | fatalError => cases hf
  | outOfSync expected got => cases hf
  | timeout sync => cases hf

theorem fold_undecided (hst : ft.state = op.awaiting) {es : List Event}
    (h : ∀ e ∈ es, e.decides op ft.requestedCompression = false) :
    es.foldl handleSessionEvent ft = ft := by
  induction es with
  | nil => rfl
  | cons e es ih =>
    rw [List.foldl_cons, handle_undecided hst (h e List.mem_cons_self)]
    exact ih fun x hx => h x (List.mem_cons_of_mem _ hx)

theorem note_note {p p' : PendingAscii} {version version' : Option Str}
    (h : version.isSome ↔ op = .query) (h' : version'.isSome ↔ op = .query) :
    (ft.note p version).note p' version' = ft.note p' version' := by
  unfold note
  cases version' with
  | some v => rfl
  | none =>
    cases version with
    | some v => simp at h h'; exact absurd h h'
    | none => rfl

theorem popEvent_note (ft : FileTransfer) (p : PendingAscii) (version : Option Str) :
    (ft.note p version).popEvent = (ft.popEvent.1, ft.popEvent.2.note p version) := by
  unfold popEvent
  rw [show (ft.note p version).outEvents = ft.outEvents from rfl]
  cases ft.outEvents <;> rfl

end FileTransfer

/-! ## Runs with and without a line -/

namespace FileTransfer

/-- The operation that waits takes the line for a verdict. -/
def takes (line : Str) (ft : FileTransfer) : Bool :=
  match ft.state.awaited with
  | none => false
  | some op => (verdict op ft.requestedCompression line).isSome

theorem handleAsciiLine_of_not_takes {line : Str} {ft : FileTransfer} (h : ft.takes line = false) :
    ft.handleAsciiLine line = ft := by
  unfold takes at h
  cases haw : ft.state.awaited with
  | none => exact handleAsciiLine_resting haw line
  | some op =>
    rw [haw] at h
    exact handleAsciiLine_unjudged (State.awaited_eq_some.mp haw) (by simpa using h)

/-- An operation that takes the line has heard nothing yet. -/
structure Unheard (line : Str) (ft : FileTransfer) : Prop where
  consistent : ft.Consistent
  pending : ft.takes line = true → ft.pendingAscii = none

end FileTransfer

namespace Bare

/-- The session events that the polls of a run handle. -/
def heard : List Call → Bare → List Event
  | [], _ => []
  | c :: cs, b =>
    (match c with
      | .poll => b.session.events
      | _ => []) ++ match b.step c with
        | none => []
        | some b' => heard cs b'

theorem heard_step {c : Call} {cs : List Call} {b : Bare} (hc : c ≠ .poll) :
    b.heard (c :: cs) = match b.step c with
      | none => []
      | some b' => b'.heard cs := by
  cases c with
  | poll => exact absurd rfl hc
  | _ => rfl

/-- Where a run first polls, and what it does after that. -/
def atPoll : List Call → Bare → Option (Bare × List Call)
  | [], _ => none
  | c :: cs, b =>
    match c with
    | .poll => some (b, cs)
    | _ => (b.step c).bind (atPoll cs)

/-- The operation that waits when a run first polls takes the line for a verdict. -/
def overheard (line : Str) (cs : List Call) (b : Bare) : Bool :=
  match b.atPoll cs with
  | none => false
  | some (b, _) => b.ft.takes line

/-- And the first event handled from there on that decides anything is its ack. -/
def misled (line : Str) (cs : List Call) (b : Bare) : Bool :=
  match b.atPoll cs with
  | none => false
  | some (b, cs) =>
    match b.ft.state.awaited with
    | none => false
    | some op => b.ft.takes line
      && ((b.heard (.poll :: cs)).find? (Event.decides op b.ft.requestedCompression)).any
        Event.isAck

/-- A line that waits for the next poll. -/
def hearing (line : Str) (b : Bare) : Bare :=
  { b with session := b.session.ahead [.asciiLine line] }

variable {line : Str} {b b' : Bare}

theorem step_hearing {c : Call} (hc : c ≠ .poll) :
    (b.hearing line).step c = (b.step c).map (hearing line) := by
  rcases call_cases hc with ⟨f, hf⟩ | ⟨op, ho⟩
  · rw [hf.step, hf.step]
    show some { b with session := f (b.session.ahead _) } = _
    rw [hf.ahead]
    rfl
  · exact ho.ahead b _

/-- A poll reads the line before all else. -/
theorem poll_hearing (b : Bare) :
    (b.hearing line).poll = ({ b with ft := b.ft.handleAsciiLine line } : Bare).poll := by
  rw [poll_eq, poll_eq]
  rfl

theorem unheard_step {c : Call} (hc : c ≠ .poll) (hu : b.ft.Unheard line)
    (hs : b.step c = some b') : b'.ft.Unheard line := by
  rcases call_cases hc with ⟨f, hf⟩ | ⟨op, ho⟩
  · rw [hf.step] at hs
    obtain rfl := Option.some.inj hs
    exact hu
  · obtain ⟨hst, -, hp, -⟩ := ho.step b b' hs
    have hnone : b'.ft.pendingAscii = none := by
      refine hp.trans (hu.consistent.pending_none ?_ ?_)
      · rw [hst, Operation.awaited_required]
      · rw [hst]
        cases op <;> decide
    exact ⟨FileTransfer.consistent_of_none hnone, fun _ => hnone⟩

/-- **Up to the next poll** the line changes nothing. -/
theorem run_hearing (cs : List Call) (hu : b.ft.Unheard line) :
    match b.atPoll cs with
    | none => (b.hearing line).run cs = (b.run cs).map (hearing line)
    | some (b', post) => b'.ft.Unheard line ∧ b.run cs = b'.poll.run post
        ∧ (b.hearing line).run cs
          = ({ b' with ft := b'.ft.handleAsciiLine line } : Bare).poll.run post := by
  induction cs generalizing b with
  | nil => rfl
  | cons c cs ih =>
    by_cases hc : c = .poll
    · subst hc
      refine ⟨hu, rfl, ?_⟩
      rw [← poll_hearing]
      rfl
    · have hat : b.atPoll (c :: cs) = (b.step c).bind (atPoll cs) := by
        cases c with
        | poll => exact absurd rfl hc
        | _ => rfl
      rw [hat, run, run, step_hearing hc]
      cases hs : b.step c with
      | none => rfl
      | some b1 => exact ih (unheard_step hc hu hs)

/-- What is left of two runs after a failure that is told in both. -/
structure BothFailed (a b : Bare) : Prop where
  left : a.ft.state = .failed
  right : b.ft.state = .failed
  session : a.session = b.session
  returned : a.returned = b.returned
  outEvents : a.ft.outEvents = b.ft.outEvents

theorem BothFailed.face_eq {a b : Bare} (h : BothFailed a b) : a.face = b.face := by
  unfold face
  rw [h.returned, h.outEvents, h.left, h.right]

/-- A poll of two transfers that have failed, with events behind the failure. -/
theorem BothFailed.poll {a b : Bare} (h : BothFailed a b) : BothFailed a.poll b.poll := by
  have hdone : ∀ ft : FileTransfer, ft.state = .failed →
      (ft.handled b.session).state = .failed
        ∧ (ft.handled b.session).outEvents = ft.outEvents ++ failuresOf b.session.events := by
    intro ft hst
    obtain ⟨h1, h2⟩ := FileTransfer.fold_resting
      (show ft.state.awaited = none by rw [hst]; rfl) b.session.events
    refine ⟨?_, h1⟩
    show (b.session.events.foldl FileTransfer.handleSessionEvent ft).state = _
    rw [h2, hst]
    split_ifs <;> rfl
  obtain ⟨h1, h2⟩ := hdone a.ft h.left
  obtain ⟨h3, h4⟩ := hdone b.ft h.right
  have hout : (a.ft.handled b.session).outEvents = (b.ft.handled b.session).outEvents := by
    rw [h2, h4, h.outEvents]
  have hpop : (a.ft.handled b.session).popEvent.1 = (b.ft.handled b.session).popEvent.1
      ∧ (a.ft.handled b.session).popEvent.2.outEvents
        = (b.ft.handled b.session).popEvent.2.outEvents := by
    unfold FileTransfer.popEvent
    rw [← hout]
    cases hev : (a.ft.handled b.session).outEvents with
    | nil => exact ⟨rfl, by rw [hev, ← hout, hev]⟩
    | cons e rest => exact ⟨rfl, rfl⟩
  rw [poll_eq, poll_eq, h.session]
  refine ⟨?_, ?_, rfl, ?_, hpop.2⟩
  · exact (FileTransfer.popEvent_keeps _).1.trans h1
  · exact (FileTransfer.popEvent_keeps _).1.trans h3
  · show _ ++ _ = _ ++ _
    rw [h.returned, hpop.1]

theorem BothFailed.run {a b : Bare} (h : BothFailed a b) (cs : List Call) :
    (a.run cs).map face = (b.run cs).map face := by
  induction cs generalizing a b with
  | nil => exact congrArg some h.face_eq
  | cons c cs ih =>
    by_cases hc : c = .poll
    · subst hc
      exact ih h.poll
    · rcases call_cases hc with ⟨f, hf⟩ | ⟨op, ho⟩
      · rw [Bare.run, Bare.run, hf.step, hf.step]
        exact ih ⟨h.left, h.right, congrArg f h.session, h.returned, h.outEvents⟩
      · -- no operation is called on a transfer that has failed
        have hne : State.failed ≠ op.required := by cases op <;> decide
        rw [Bare.run, Bare.run, ho.none (by rw [h.left]; exact hne),
          ho.none (by rw [h.right]; exact hne)]

/-! ## A verdict too many -/

/-- The left run has put down a verdict that the right one has not heard. -/
structure Noted (line : Str) (op : Operation) (a b : Bare) : Prop where
  state : b.ft.state = op.awaiting
  pending : b.ft.pendingAscii = none
  note : ∃ p version, a = { b with ft := b.ft.note p version } ∧ p.operation = op
    ∧ (version.isSome ↔ op = .query)
    ∧ MarlinTransfer.verdict op b.ft.requestedCompression line = some p.verdict

/-- What was told parts at some point. -/
def Parted (l m : List FileEvent) : Prop :=
  ∃ told x y l' m', l = told ++ x :: l' ∧ m = told ++ y :: m' ∧ x ≠ y

theorem Parted.mono {l m l' m' : List FileEvent} (h : Parted l m) (hl : l <+: l')
    (hm : m <+: m') : l' ≠ m' := by
  obtain ⟨told, x, y, l1, m1, rfl, rfl, hne⟩ := h
  obtain ⟨l2, rfl⟩ := hl
  obtain ⟨m2, rfl⟩ := hm
  intro heq
  rw [List.append_assoc, List.append_assoc, List.append_cancel_left_eq] at heq
  exact hne (List.cons.inj heq).1

/-- How a poll leaves the two runs, by the first of the events it handles that decides. -/
inductive PolledApart (line : Str) (op : Operation) (a b : Bare) : Option Event → Prop where
  | still (h : Noted line op a b) : PolledApart line op a b none
  | same (e : Event) (he : e.isAck = false) (h : a = b) : PolledApart line op a b (some e)
  | failed (e : Event) (he : e.isAck = false) (h : BothFailed a b) :
      PolledApart line op a b (some e)
  | parted (n : UInt8) (h : Parted a.told b.told) : PolledApart line op a b (some (.ack n))

/-- Events that change nothing may be left out. -/
theorem poll_split {pre post : List Event} {e : Event} (he : b.session.events = pre ++ e :: post)
    (hpre : pre.foldl FileTransfer.handleSessionEvent b.ft = b.ft) :
    b.poll = ({ b with
      ft := b.ft.handleSessionEvent e
      session := { b.session with events := post } } : Bare).poll := by
  rw [poll_eq, poll_eq]
  have : b.ft.handled b.session
      = (b.ft.handleSessionEvent e).handled { b.session with events := post } := by
    unfold FileTransfer.handled
    rw [he, List.foldl_append, hpre]
    rfl
  rw [this]

/-- **A poll of the two runs.** -/
theorem Noted.poll {op : Operation} {a b : Bare} (h : Noted line op a b) :
    PolledApart line op a.poll b.poll
      (b.session.events.find? (Event.decides op b.ft.requestedCompression)) := by
  obtain ⟨p, version, rfl, hop, hver, hv⟩ := h.note
  have hsta : (b.ft.note p version).state = op.awaiting := h.state
  cases hfind : b.session.events.find? (Event.decides op b.ft.requestedCompression) with
  | none =>
    -- nothing decides: the note is still there, and so is the difference
    have hun : ∀ e ∈ b.session.events, e.decides op b.ft.requestedCompression = false :=
      fun e he => by simpa using List.find?_eq_none.mp hfind e he
    have h1 : b.ft.handled b.session = b.ft := FileTransfer.fold_undecided h.state hun
    have h2 : (b.ft.note p version).handled b.session = b.ft.note p version :=
      FileTransfer.fold_undecided hsta hun
    obtain ⟨hst, hp, hreq⟩ := FileTransfer.popEvent_keeps b.ft
    refine .still ⟨?_, ?_, p, version, ?_, hop, hver, ?_⟩
    · rw [poll_eq, h1]
      exact hst.trans h.state
    · rw [poll_eq, h1]
      exact hp.trans h.pending
    · rw [poll_eq, poll_eq]
      dsimp only
      rw [h1, h2, FileTransfer.popEvent_note]
    · rw [poll_eq, h1]
      dsimp only
      rw [hreq]
      exact hv
  | some e =>
    -- up to the first event that decides, the two handle nothing that matters
    obtain ⟨hdec, pre, post, hes, hpre⟩ := List.find?_eq_some_iff_append.mp hfind
    have hun : ∀ x ∈ pre, x.decides op b.ft.requestedCompression = false :=
      fun x hx => by simpa using hpre x hx
    have ha := poll_split (b := { b with ft := b.ft.note p version }) hes
      (FileTransfer.fold_undecided hsta hun)
    have hb := poll_split hes (FileTransfer.fold_undecided h.state hun)
    dsimp only at ha
    rw [ha, hb]
    cases hf : e.failure with
    | some err =>
      -- a failure overrides whatever was noted
      refine .failed e (by cases e <;> first | rfl | cases hf) (BothFailed.poll ?_)
      rw [FileTransfer.handle_failure hf, FileTransfer.handle_failure hf]
      exact ⟨rfl, rfl, rfl, rfl, rfl⟩
    | none =>
      cases e with
      | ack n =>
        -- the ack settles the one by the note and the other by nothing
        refine .parted n ?_
        have hca : (b.ft.note p version).Consistent := fun q hq => by
          obtain rfl := Option.some.inj hq
          exact .inr (by rw [hop]; exact State.awaited_eq_some.mpr h.state)
        have hsa := FileTransfer.handleAck_waiting hsta hca
        have hsb := FileTransfer.handleAck_waiting h.state
          (FileTransfer.consistent_of_none h.pending)
        have hheard : b.ft.heard = none := by
          unfold FileTransfer.heard
          rw [h.pending]
          rfl
        obtain ⟨outa, houta, -⟩ := FileTransfer.fold_told post (b.ft.note p version).handleAck
        obtain ⟨outb, houtb, -⟩ := FileTransfer.fold_told post b.ft.handleAck
        refine ⟨b.returned ++ b.ft.outEvents, op.settle (some p.verdict), op.settle none, outa,
          outb, ?_, ?_, FileTransfer.settle_ne hv⟩
        · rw [told_poll]
          show b.returned ++ (post.foldl _ (b.ft.note p version).handleAck).outEvents = _
          rw [houta, hsa.outEvents]
          simp [FileTransfer.note, FileTransfer.heard]
        · rw [told_poll]
          show b.returned ++ (post.foldl _ b.ft.handleAck).outEvents = _
          rw [houtb, hsb.outEvents, hheard]
          simp
      | asciiLine line' =>
        -- a further verdict takes the place of the note
        refine .same _ rfl ?_
        obtain ⟨v, hv'⟩ : ∃ v, verdict op b.ft.requestedCompression line' = some v := by
          refine Option.isSome_iff_exists.mp ?_
          simpa [Event.decides, Event.isAck, Event.failure, Event.verdict] using hdec
        obtain ⟨p', version', -, -, hver', hall⟩ := FileTransfer.handleAsciiLine_judged hv'
        have h1 : (b.ft.note p version).handleSessionEvent (.asciiLine line')
            = (b.ft.note p version).note p' version' := hall _ hsta rfl
        have h2 : b.ft.handleSessionEvent (.asciiLine line') = b.ft.note p' version' :=
          hall _ h.state rfl
        rw [h1, h2, FileTransfer.note_note hver hver']
      | synced block version => cases hdec
      | resendRequested n => cases hdec
      | fatalError => cases hf
      | outOfSync expected got => cases hf
      | timeout sync => cases hf

/-- **The two runs**: alike unless an ack decides first. -/
theorem Noted.run {op : Operation} {a b : Bare} (h : Noted line op a b) (cs : List Call) :
    (((b.heard cs).find? (Event.decides op b.ft.requestedCompression)).any Event.isAck = false →
        (a.run cs).map face = (b.run cs).map face)
      ∧ (((b.heard cs).find? (Event.decides op b.ft.requestedCompression)).any Event.isAck = true →
          ∀ a' b', a.run cs = some a' → b.run cs = some b' → a'.told ≠ b'.told) := by
  induction cs generalizing a b with
  | nil =>
    constructor
    · intro _
      obtain ⟨p, version, rfl, -⟩ := h.note
      rfl
    · intro hany
      cases hany
  | cons c cs ih =>
    by_cases hc : c = .poll
    · subst hc
      rw [show b.heard (.poll :: cs) = b.session.events ++ b.poll.heard cs from rfl,
        List.find?_append]
      have hrun : ∀ b : Bare, b.run (.poll :: cs) = b.poll.run cs := fun _ => rfl
      rw [hrun, hrun]
      have hpoll := h.poll
      cases hfind : b.session.events.find? (Event.decides op b.ft.requestedCompression) with
      | none =>
        rw [hfind] at hpoll
        cases hpoll with
        | still hn =>
          have hreq : b.poll.ft.requestedCompression = b.ft.requestedCompression := by
            have hun : ∀ e ∈ b.session.events, e.decides op b.ft.requestedCompression = false :=
              fun e he => by simpa using List.find?_eq_none.mp hfind e he
            rw [poll_eq, show b.ft.handled b.session = b.ft from
              FileTransfer.fold_undecided h.state hun]
            exact (FileTransfer.popEvent_keeps b.ft).2.2
          rw [Option.none_or, ← hreq]
          exact ih hn
      | some e =>
        rw [hfind] at hpoll
        rw [Option.some_or]
        cases hpoll with
        | same _ he heq => exact ⟨fun _ => by rw [heq], fun hany => by simp [he] at hany⟩
        | failed _ he hfail => exact ⟨fun _ => hfail.run cs, fun hany => by simp [he] at hany⟩
        | parted n hp =>
          refine ⟨fun hany => ?_, fun _ a' b' ha hb => hp.mono (told_run ha) (told_run hb)⟩
          cases hany
    · obtain ⟨p, version, rfl, hop, hver, hv⟩ := h.note
      rcases call_cases hc with ⟨f, hf⟩ | ⟨op', ho⟩
      · have hheard : b.heard (c :: cs) = ({ b with session := f b.session } : Bare).heard cs := by
          rw [heard_step hc, hf.step]
        have hn : Noted line op
            { b with ft := b.ft.note p version, session := f b.session }
            { b with session := f b.session } :=
          ⟨h.state, h.pending, p, version, rfl, hop, hver, hv⟩
        rw [hheard, Bare.run, Bare.run, hf.step, hf.step]
        exact ih hn
      · -- no operation is called while one waits
        have hne : op.awaiting ≠ op'.required := by cases op <;> cases op' <;> decide
        have hb : b.step c = none := ho.none fun heq => hne (h.state.symm.trans heq)
        have ha : ({ b with ft := b.ft.note p version } : Bare).step c = none :=
          ho.none fun heq => hne (h.state.symm.trans heq)
        rw [Bare.run, Bare.run, ha, hb]
        refine ⟨fun _ => rfl, fun _ a' b' ha' => ?_⟩
        cases ha'

/-- The operation that takes a line puts it down. -/
theorem noted_of_takes (hu : b.ft.Unheard line) (ht : b.ft.takes line = true) :
    ∃ op, b.ft.state.awaited = some op
      ∧ Noted line op { b with ft := b.ft.handleAsciiLine line } b := by
  have ht' := ht
  unfold FileTransfer.takes at ht'
  cases haw : b.ft.state.awaited with
  | none =>
    rw [haw] at ht'
    cases ht'
  | some op =>
    rw [haw] at ht'
    have hst := State.awaited_eq_some.mp haw
    obtain ⟨v, hv⟩ := Option.isSome_iff_exists.mp ht'
    obtain ⟨p, version, hop, hpv, hver, hall⟩ := FileTransfer.handleAsciiLine_judged hv
    refine ⟨op, rfl, hst, hu.pending ht, p, version, ?_, hop, hver, ?_⟩
    · rw [hall _ hst rfl]
    · rw [hpv]
      exact hv

/-- **A run with a line that waits for the next poll**, and the run without it. -/
theorem run_hearing_iff (hu : b.ft.Unheard line) (cs : List Call) :
    (b.overheard line cs = false →
        ((b.hearing line).run cs).map (fun b => (b.returned, b.ft))
          = (b.run cs).map fun b => (b.returned, b.ft))
      ∧ (b.misled line cs = false → ((b.hearing line).run cs).map face = (b.run cs).map face)
      ∧ (b.misled line cs = true →
          ∀ a' b', (b.hearing line).run cs = some a' → b.run cs = some b' → a'.told ≠ b'.told) := by
  have hrun := run_hearing cs hu
  unfold overheard misled
  cases hat : b.atPoll cs with
  | none =>
    rw [hat] at hrun
    dsimp only at hrun ⊢
    -- never polled again: the line was never looked at
    rw [hrun, Option.map_map, Option.map_map]
    exact ⟨fun _ => rfl, fun _ => rfl, fun h => nomatch h⟩
  | some x =>
    obtain ⟨b', post⟩ := x
    rw [hat] at hrun
    dsimp only at hrun ⊢
    obtain ⟨hu', hb, ha⟩ := hrun
    rw [ha, hb]
    cases ht : b'.ft.takes line with
    | false =>
      rw [FileTransfer.handleAsciiLine_of_not_takes ht]
      refine ⟨fun _ => rfl, fun _ => rfl, fun h => ?_⟩
      revert h
      split <;> simp
    | true =>
      obtain ⟨op, haw, hn⟩ := noted_of_takes hu' ht
      rw [haw]
      dsimp only
      rw [Bool.true_and]
      obtain ⟨h1, h2⟩ := hn.run (.poll :: post)
      exact ⟨fun h => (nomatch h), h1, h2⟩

end Bare

/-! ## The lines -/

/-- The lines that answer operations, as text. -/
def PftLine (line : Str) : Prop :=
  (∃ rest, line = "PFT:version:".toList ++ rest) ∨ line ∈ ["PFT:success".toList,
    "PFT:busy".toList, "PFT:fail".toList, "PFT:ioerror".toList, "PFT:invalid".toList]

theorem PftLine.cons {line : Str} (h : PftLine line) : ∃ rest, line = 'P' :: rest := by
  rcases h with ⟨rest, rfl⟩ | h
  · exact ⟨_, rfl⟩
  · simp only [List.mem_cons, List.not_mem_nil, or_false] at h
    rcases h with rfl | rfl | rfl | rfl | rfl <;> exact ⟨_, rfl⟩

/-- It waits for the next poll, and does nothing else. -/
theorem Session.feed_lineBytes {s : Session} (hbuf : s.inboundBuf = []) (hev : s.events = [])
    {line : Str} (h : PftLine line) (hlf : '\n' ∉ line) (hcr : line.getLast? ≠ some '\r')
    (returns : Nat) (now : Instant) :
    s.feed (lineBytes line returns) now = s.ahead [.asciiLine line] := by
  obtain ⟨rest, rfl⟩ := h.cons
  obtain ⟨h1, h2⟩ := replies_lineBytes (by decide) (by decide) hlf hcr returns
  rw [feed_eq, hbuf, List.nil_append, h1, h2, takeAll_cons, takeAll_nil, ← hbuf]
  show { s with events := s.events ++ [Event.asciiLine ('P' :: rest)] } = _
  unfold ahead
  rw [hev]
  rfl

/--
**A stray line is inert unless it misleads.** In every run of a transfer: a complete `PFT:`
line that is fed when everything pending was handled and that the operation that waits, if
any, does not take for a verdict. If no operation that takes it is called before the next
poll, the run with the line and the run without it return the same and leave the same
transfer. They tell the same and leave the same state unless such an operation is called and
its ack is handled before any further verdict or failure, and then they do not.
-/
theorem stray_line_inert_iff_not_misled (s : Session) (ops : List Op) (w : Watched)
    (hw : (Watched.start s.reset).run ops = some w) (calls : List Call) (t : Transfer)
    (hr : (Transfer.start w).run calls = some t) (hbuf : t.host.session.inboundBuf = [])
    (hpolled : t.host.session.events = []) (line : Str) (hline : PftLine line)
    (hlf : '\n' ∉ line) (hcr : line.getLast? ≠ some '\r') (hawaits : t.ft.takes line = false)
    (returns : Nat) (now : Instant) (rest : List Call) :
    (t.bare.overheard line rest = false →
        (t.run (.feed (lineBytes line returns) now :: rest)).map (fun t => (t.returned, t.ft))
          = (t.run rest).map fun t => (t.returned, t.ft))
      ∧ (t.bare.misled line rest = false →
        (t.run (.feed (lineBytes line returns) now :: rest)).map (fun t => t.bare.face)
          = (t.run rest).map fun t => t.bare.face)
      ∧ (t.bare.misled line rest = true → ∀ t' t'',
        t.run (.feed (lineBytes line returns) now :: rest) = some t' → t.run rest = some t'' →
          t'.bare.told ≠ t''.bare.told) := by
  obtain ⟨ds', hc'⟩ := Transfer.conserved hw hr
  have hcons : t.ft.Consistent := Transfer.consistent_run FileTransfer.consistent_new hr
  have hu : t.bare.ft.Unheard line :=
    ⟨hcons, fun h => absurd (hawaits.symm.trans h) Bool.false_ne_true⟩
  -- the run of the transfer is that of its bare part, and there the line is one event more
  have hwith : (t.run (.feed (lineBytes line returns) now :: rest)).map Transfer.bare
      = (t.bare.hearing line).run rest := by
    rw [Transfer.bare_run hc']
    show ({ t.bare with session := t.host.session.feed (lineBytes line returns) now } : Bare).run
      rest = _
    rw [feed_lineBytes hbuf hpolled hline hlf hcr]
    rfl
  have hwithout : (t.run rest).map Transfer.bare = t.bare.run rest := Transfer.bare_run hc'
  -- what is compared is seen on the bare part
  have hmap : ∀ {β : Type} (f : Bare → β) (x : Option Transfer),
      x.map (fun t => f t.bare) = (x.map Transfer.bare).map f := by
    intro β f x
    rw [Option.map_map]
    rfl
  obtain ⟨h1, h2, h3⟩ := Bare.run_hearing_iff hu rest
  refine ⟨fun h => ?_, fun h => ?_, fun h t' t'' ht' ht'' => ?_⟩
  · refine (hmap (fun b => (b.returned, b.ft)) _).trans ?_
    rw [hwith, h1 h, ← hwithout]
    exact (hmap (fun b => (b.returned, b.ft)) _).symm
  · rw [hmap Bare.face, hmap Bare.face, hwith, hwithout]
    exact h2 h
  · refine h3 h _ _ ?_ ?_
    · rw [← hwith, ht']
      rfl
    · rw [← hwithout, ht'']
      rfl

/-- A query that succeeds. -/
def negotiatedCalls : List Call :=
  [.query .none 2, .feed ("PFT:version:1:none\nok5\n".toUTF8.data.toList) 3, .poll]

/-- An OPEN that is acked without a verdict. -/
def bareOpenCalls : List Call := [.open ['a'] false 5, .feed ("ok6\n".toUTF8.data.toList) 6, .poll]

theorem stray_line_inert_iff_not_misled_polled :
    ∃ t, (Transfer.start handshaken).run negotiatedCalls = some t
      ∧ t.bare.overheard "PFT:success".toList (.poll :: bareOpenCalls) = false
      ∧ (t.run (.feed (lineBytes "PFT:success".toList 1) 4 :: .poll :: bareOpenCalls)).map
          (fun t => (t.returned, t.ft))
        = (t.run (.poll :: bareOpenCalls)).map fun t => (t.returned, t.ft) := by
  have hrun : ((Transfer.start handshaken).run negotiatedCalls).map (fun t =>
      (t.host.session.inboundBuf, t.host.session.events, t.ft.takes "PFT:success".toList,
        t.bare.overheard "PFT:success".toList (.poll :: bareOpenCalls)))
      = some ([], [], false, false) := by
    decide +kernel
  obtain ⟨t, ht, hobs⟩ := Option.map_eq_some_iff.mp hrun
  obtain ⟨h1, hobs⟩ := Prod.mk.inj hobs
  obtain ⟨h2, hobs⟩ := Prod.mk.inj hobs
  obtain ⟨h3, h4⟩ := Prod.mk.inj hobs
  exact ⟨t, ht, h4, (stray_line_inert_iff_not_misled Session.new handshakeOps handshaken
    handshaken_run negotiatedCalls t ht h1 h2 "PFT:success".toList (.inr (by simp))
    (by decide +kernel) (by decide +kernel) h3 1 4 (.poll :: bareOpenCalls)).1 h4⟩

/-- An OPEN succeeds by a `PFT:success` that came before it was called. -/
theorem stray_success_opens :
    ∃ t a b, (Transfer.start handshaken).run negotiatedCalls = some t
      ∧ t.ft.state = .negotiated ∧ t.host.session.events = [] ∧ t.host.session.inboundBuf = []
      ∧ t.run (.feed (lineBytes "PFT:success".toList 0) 4 :: bareOpenCalls) = some a
      ∧ t.run bareOpenCalls = some b
      ∧ a.returned = [.negotiated ['1'] .none, .opened] ∧ a.ft.state = .opened
      ∧ b.returned = [.negotiated ['1'] .none, .failed (.protocolViolation "AwaitingOpenReply"
        "PFT:success | PFT:busy | PFT:fail")] ∧ b.ft.state = .failed := by
  have hrun : ((Transfer.start handshaken).run negotiatedCalls).map (fun t =>
      (t.ft.state, t.host.session.events, t.host.session.inboundBuf))
      = some (.negotiated, [], []) := by
    decide +kernel
  have hwith : ((Transfer.start handshaken).run (negotiatedCalls
      ++ .feed (lineBytes "PFT:success".toList 0) 4 :: bareOpenCalls)).map
        (fun t => (t.returned, t.ft.state))
      = some ([.negotiated ['1'] .none, .opened], .opened) := by
    decide +kernel
  have hwithout : ((Transfer.start handshaken).run (negotiatedCalls ++ bareOpenCalls)).map
      (fun t => (t.returned, t.ft.state))
      = some ([.negotiated ['1'] .none, .failed (.protocolViolation "AwaitingOpenReply"
        "PFT:success | PFT:busy | PFT:fail")], .failed) := by
    decide +kernel
  obtain ⟨t, ht, hobs⟩ := Option.map_eq_some_iff.mp hrun
  obtain ⟨h1, hobs⟩ := Prod.mk.inj hobs
  obtain ⟨h2, h3⟩ := Prod.mk.inj hobs
  rw [Transfer.run_append, ht] at hwith hwithout
  obtain ⟨a, ha, hobsa⟩ := Option.map_eq_some_iff.mp hwith
  obtain ⟨b, hb, hobsb⟩ := Option.map_eq_some_iff.mp hwithout
  obtain ⟨h4, h5⟩ := Prod.mk.inj hobsa
  obtain ⟨h6, h7⟩ := Prod.mk.inj hobsb
  exact ⟨t, a, b, ht, h1, h2, h3, ha, hb, h4, h5, h6, h7⟩

end MarlinTransfer
