import MarlinTransfer.FileTransfer.Model

/-!
# What an operation is answered

The conversation behind the state machine, in its own terms. While an operation waits for
its ack, some lines are verdicts on it, and the ack settles it by the last one heard: as
a success, as the failure the line names, or as a protocol violation when there was none.
The machine does exactly this (`handleAsciiLine_waiting`, `handleAck_waiting`), and lets
lines and acks pass while nothing is waiting.
-/

namespace MarlinTransfer

open Codec Text

inductive Operation where
  | query
  | open
  | write
  | close
  | abort
  deriving DecidableEq, Repr

namespace Operation

/-- The state an operation is called in. -/
def required : Operation → State
  | query => .idle
  | .open => .negotiated
  | write => .opened
  | close => .opened
  | abort => .opened

/-- The state it waits in. -/
def awaiting : Operation → State
  | query => .awaitingQueryReply
  | .open => .awaitingOpenReply
  | write => .awaitingWriteAck
  | close => .awaitingCloseReply
  | abort => .awaitingAbortReply

/-- The state its success leads to. -/
def done : Operation → State
  | query => .negotiated
  | .open => .opened
  | write => .opened
  | close => .closed
  | abort => .aborted

/-- The packet type it is sent as. -/
def packetType : Operation → UInt8
  | query => ptQuery
  | .open => ptOpen
  | write => ptWrite
  | close => ptClose
  | abort => ptAbort

/-- The error of an ack that comes without a verdict. -/
def violation : Operation → FileError
  | query => .protocolViolation "AwaitingQueryReply" "PFT:version:<v>:<compression-spec>"
  | .open => .protocolViolation "AwaitingOpenReply" "PFT:success | PFT:busy | PFT:fail"
  | write => .protocolViolation "AwaitingWriteAck" "bare ok<n> (no PFT preamble)"
  | close => .protocolViolation "AwaitingCloseReply" "PFT:success | PFT:ioerror | PFT:invalid"
  | abort => .protocolViolation "AwaitingAbortReply" "PFT:success"

end Operation

/-- The operation a state waits on. -/
def State.awaited : State → Option Operation
  | .awaitingQueryReply => some .query
  | .awaitingOpenReply => some .open
  | .awaitingWriteAck => some .write
  | .awaitingCloseReply => some .close
  | .awaitingAbortReply => some .abort
  | _ => none

theorem State.awaited_eq_some {st : State} {op : Operation} :
    st.awaited = some op ↔ st = op.awaiting := by
  cases st <;> cases op <;> decide

@[simp] theorem Operation.awaited_awaiting (op : Operation) : op.awaiting.awaited = some op :=
  State.awaited_eq_some.mpr rfl

theorem Operation.awaiting_injective : Function.Injective Operation.awaiting :=
  fun op op' h => Option.some.inj ((awaited_awaiting op).symm.trans
    ((congrArg State.awaited h).trans (awaited_awaiting op')))

@[simp] theorem Operation.awaited_done (op : Operation) : op.done.awaited = none := by
  cases op <;> rfl

@[simp] theorem Operation.awaited_required (op : Operation) : op.required.awaited = none := by
  cases op <;> rfl

/-- How a line judges an operation. -/
inductive Verdict where
  | accept (e : FileEvent)
  | refuse (err : FileError)
  deriving DecidableEq

/-- The event that answers an operation in success. -/
def FileEvent.answers : FileEvent → Option Operation
  | .negotiated _ _ => some .query
  | .opened => some .open
  | .writeAcked => some .write
  | .closed => some .close
  | .abortAcked => some .abort
  | .failed _ => none

/-- What a line says of the operation that waits, if it says anything. -/
def verdict (op : Operation) (requested : Compression) (line : Str) : Option Verdict :=
  match op with
  | .query =>
    (stripPrefix line "PFT:version:".toList).bind fun rest =>
      (splitOnce ':' rest).map fun p =>
        match chooseCompression requested (parseCompressionSpec p.2) with
        | .ok chosen => .accept (.negotiated p.1 chosen)
        | .error err => .refuse err
  | .open =>
    if line = "PFT:success".toList then some (.accept .opened)
    else if line = "PFT:busy".toList then some (.refuse .openBusy)
    else if line = "PFT:fail".toList then some (.refuse .openFail)
    else none
  | .write => none
  | .close =>
    if line = "PFT:success".toList then some (.accept .closed)
    else if line = "PFT:ioerror".toList then some (.refuse .ioError)
    else if line = "PFT:invalid".toList then some (.refuse .noOpenFile)
    else none
  | .abort => if line = "PFT:success".toList then some (.accept .abortAcked) else none

/-- How an ack settles an operation, `heard` being the last verdict on it. -/
def Operation.settle (op : Operation) (heard : Option Verdict) : FileEvent :=
  match heard with
  | some (.accept e) => e
  | some (.refuse err) => .failed err
  | none => if op = .write then .writeAcked else .failed op.violation

namespace PendingAscii

/-- The operation a pending line is about. -/
def operation : PendingAscii → Operation
  | queryVersion _ _ => .query
  | queryFailed _ => .query
  | openSuccess => .open
  | openBusy => .open
  | openFail => .open
  | closeSuccess => .close
  | closeIoError => .close
  | closeInvalid => .close
  | abortSuccess => .abort

/-- The verdict it records. -/
def verdict : PendingAscii → Verdict
  | queryVersion version compression => .accept (.negotiated version compression)
  | queryFailed err => .refuse err
  | openSuccess => .accept .opened
  | openBusy => .refuse .openBusy
  | openFail => .refuse .openFail
  | closeSuccess => .accept .closed
  | closeIoError => .refuse .ioError
  | closeInvalid => .refuse .noOpenFile
  | abortSuccess => .accept .abortAcked

end PendingAscii

/-- No line is both a version and one of the fixed ones. -/
theorem stripPrefix_version {line : Str} {rest : Str}
    (h : stripPrefix line "PFT:version:".toList = some rest) :
    line ≠ "PFT:success".toList ∧ line ≠ "PFT:busy".toList ∧ line ≠ "PFT:fail".toList
      ∧ line ≠ "PFT:ioerror".toList ∧ line ≠ "PFT:invalid".toList := by
  refine ⟨?_, ?_, ?_, ?_, ?_⟩ <;>
  · rintro rfl
    revert h
    rw [show stripPrefix _ "PFT:version:".toList = none by decide +kernel]
    exact fun h => nomatch h

namespace FileTransfer

/-- The last verdict heard on the operation that waits. -/
def heard (ft : FileTransfer) : Option Verdict := ft.pendingAscii.map (·.verdict)

/-- A pending line is about the operation that waits, unless the transfer has failed. -/
def Consistent (ft : FileTransfer) : Prop :=
  ∀ p, ft.pendingAscii = some p → ft.state = .failed ∨ ft.state.awaited = some p.operation

theorem consistent_new : new.Consistent := fun p h => by cases h

theorem consistent_of_none {ft : FileTransfer} (h : ft.pendingAscii = none) : ft.Consistent :=
  fun p hp => by rw [h] at hp; cases hp

/-- Nothing is pending while nothing waits and nothing has failed. -/
theorem Consistent.pending_none {ft : FileTransfer} (h : ft.Consistent)
    (hr : ft.state.awaited = none) (hf : ft.state ≠ .failed) : ft.pendingAscii = none := by
  cases hp : ft.pendingAscii with
  | none => rfl
  | some p =>
    rcases h p hp with h1 | h1
    · exact absurd h1 hf
    · rw [hr] at h1
      cases h1

/-! ## Lines -/

theorem handleAsciiLine_version {ft : FileTransfer} {line rest : Str}
    (h : stripPrefix line "PFT:version:".toList = some rest) :
    ft.handleAsciiLine line = ft.handleVersion rest := by
  unfold handleAsciiLine
  rw [h]

/-- **All a line does** is to put something down. -/
theorem handleAsciiLine_puts (ft : FileTransfer) (line : Str) :
    ∃ pending version, ft.handleAsciiLine line
      = { ft with pendingAscii := pending, advertisedVersion := version } := by
  unfold handleAsciiLine handleVersion expectIn
  repeat' split
  all_goals exact ⟨_, _, rfl⟩

/-- While nothing waits, lines pass. -/
theorem handleAsciiLine_resting {ft : FileTransfer} (h : ft.state.awaited = none) (line : Str) :
    ft.handleAsciiLine line = ft := by
  have hne : ∀ op : Operation, ft.state ≠ op.awaiting := by
    intro op hst
    rw [State.awaited_eq_some.mpr hst] at h
    cases h
  have hq := hne .query
  have ho := hne .open
  have hc := hne .close
  have ha := hne .abort
  unfold handleAsciiLine
  split
  · exact if_pos hq
  · split_ifs
    · split
      · rename_i hst
        exact absurd hst ho
      · rename_i hst
        exact absurd hst hc
      · rename_i hst
        exact absurd hst ha
      · rfl
    · exact if_neg ho
    · exact if_neg ho
    · exact if_neg hc
    · exact if_neg hc
    · rfl

/-- What a line changes while an operation waits: the verdict, if it is one. -/
structure Hears (op : Operation) (line : Str) (ft ft' : FileTransfer) : Prop where
  state : ft'.state = ft.state
  requested : ft'.requestedCompression = ft.requestedCompression
  outEvents : ft'.outEvents = ft.outEvents
  protocolId : ft'.protocolId = ft.protocolId
  heard : ft'.heard = (verdict op ft.requestedCompression line).or ft.heard
  consistent : ft.Consistent → ft'.Consistent

/-- A line that is a verdict. -/
theorem hears_pending {op : Operation} (line : Str) {ft : FileTransfer} (p : PendingAscii)
    (hst : ft.state = op.awaiting) (hop : p.operation = op)
    (hv : verdict op ft.requestedCompression line = some p.verdict) (version : Option Str) :
    Hears op line ft { ft with pendingAscii := some p, advertisedVersion := version } where
  state := rfl
  requested := rfl
  outEvents := rfl
  protocolId := rfl
  heard := by
    rw [hv]
    rfl
  consistent := by
    intro _ p' hp'
    obtain rfl := Option.some.inj hp'
    exact .inr (by rw [hop]; exact State.awaited_eq_some.mpr hst)

/-- A line that is none. -/
theorem hears_nothing {op : Operation} {line : Str} {ft : FileTransfer}
    (hv : verdict op ft.requestedCompression line = none) : Hears op line ft ft where
  state := rfl
  requested := rfl
  outEvents := rfl
  protocolId := rfl
  heard := by
    rw [hv]
    rfl
  consistent := id

/-- A verdict is put down, for a query with the version it came with. -/
def note (ft : FileTransfer) (p : PendingAscii) (version : Option Str) : FileTransfer :=
  { ft with pendingAscii := some p, advertisedVersion := version.or ft.advertisedVersion }

/-- A line of fixed text that refuses counts in the state it is about. -/
theorem handleAsciiLine_refusal (ft : FileTransfer) :
    ft.handleAsciiLine "PFT:busy".toList = ft.expectIn .awaitingOpenReply .openBusy
      ∧ ft.handleAsciiLine "PFT:fail".toList = ft.expectIn .awaitingOpenReply .openFail
      ∧ ft.handleAsciiLine "PFT:ioerror".toList = ft.expectIn .awaitingCloseReply .closeIoError
      ∧ ft.handleAsciiLine "PFT:invalid".toList = ft.expectIn .awaitingCloseReply .closeInvalid := by
  have hpre : ∀ fixed ∈ ["PFT:busy", "PFT:fail", "PFT:ioerror", "PFT:invalid"],
      stripPrefix fixed.toList "PFT:version:".toList = none := by
    decide +kernel
  refine ⟨?_, ?_, ?_, ?_⟩ <;>
  · unfold handleAsciiLine
    rw [hpre _ (by simp)]
    rfl

/-- `PFT:success` is about whichever of three operations waits. -/
theorem handleAsciiLine_success (ft : FileTransfer) :
    (ft.state = .awaitingOpenReply → ft.handleAsciiLine "PFT:success".toList
        = { ft with pendingAscii := some .openSuccess })
      ∧ (ft.state = .awaitingCloseReply → ft.handleAsciiLine "PFT:success".toList
        = { ft with pendingAscii := some .closeSuccess })
      ∧ (ft.state = .awaitingAbortReply → ft.handleAsciiLine "PFT:success".toList
        = { ft with pendingAscii := some .abortSuccess }) := by
  have hpre : stripPrefix "PFT:success".toList "PFT:version:".toList = none := by decide +kernel
  refine ⟨fun hst => ?_, fun hst => ?_, fun hst => ?_⟩ <;>
  · unfold handleAsciiLine
    rw [hpre, hst]
    rfl

/-- A line that is no verdict on the operation that waits is passed over. -/
theorem handleAsciiLine_unjudged {ft : FileTransfer} {op : Operation} {line : Str}
    (hst : ft.state = op.awaiting) (hv : verdict op ft.requestedCompression line = none) :
    ft.handleAsciiLine line = ft := by
  -- a fixed line that another operation waits for
  have hexpect : ∀ (other : Operation) (p : PendingAscii), op ≠ other →
      ft.expectIn other.awaiting p = ft := by
    intro other p hne
    exact if_neg fun heq => hne (Operation.awaiting_injective (hst.symm.trans heq))
  cases hpre : stripPrefix line "PFT:version:".toList with
  -- a version line without a spec, or while no query waits
  | some rest =>
    rw [handleAsciiLine_version hpre]
    unfold handleVersion
    by_cases hop : op = .query
    · subst hop
      rw [if_neg (not_not.mpr (show ft.state = .awaitingQueryReply from hst))]
      cases hsp : splitOnce ':' rest with
      | none => rfl
      | some p =>
        unfold verdict at hv
        rw [hpre, Option.bind_some, hsp] at hv
        cases hv
    · rw [if_pos]
      rw [hst]
      revert hop
      cases op <;> decide
  | none =>
    unfold handleAsciiLine
    rw [hpre]
    dsimp only
    split_ifs with h1 h2 h3 h4 h5
    · subst h1
      rw [hst]
      cases op with
      | query => rfl
      | write => rfl
      | «open» => exact absurd hv (by simp [verdict])
      | close => exact absurd hv (by simp [verdict])
      | abort => exact absurd hv (by simp [verdict])
    · subst h2
      exact hexpect .open _ (by rintro rfl; revert hv; simp [verdict])
    · subst h3
      exact hexpect .open _ (by rintro rfl; revert hv; simp [verdict])
    · subst h4
      exact hexpect .close _ (by rintro rfl; revert hv; simp [verdict])
    · subst h5
      exact hexpect .close _ (by rintro rfl; revert hv; simp [verdict])
    · rfl

/-- What a version line puts down: the match, or that there is none. -/
theorem handleVersion_note {ft : FileTransfer} (hst : ft.state = .awaitingQueryReply)
    {rest version comp : Str} (hsp : splitOnce ':' rest = some (version, comp)) :
    (∀ chosen, chooseCompression ft.requestedCompression (parseCompressionSpec comp) = .ok chosen →
        ft.handleVersion rest = ft.note (.queryVersion version chosen) (some version))
      ∧ ∀ err, chooseCompression ft.requestedCompression (parseCompressionSpec comp) = .error err →
        ft.handleVersion rest = ft.note (.queryFailed err) (some version) := by
  unfold handleVersion
  rw [if_neg (not_not.mpr hst), hsp]
  dsimp only
  constructor
  · intro chosen h
    rw [h]
    rfl
  · intro err h
    rw [h]
    rfl

/-- A line that is one is put down, whatever was put down before. -/
theorem handleAsciiLine_judged {op : Operation} {requested : Compression} {line : Str}
    {v : Verdict} (hv : verdict op requested line = some v) :
    ∃ p version, p.operation = op ∧ p.verdict = v ∧ (version.isSome ↔ op = .query)
      ∧ ∀ ft : FileTransfer, ft.state = op.awaiting → ft.requestedCompression = requested →
          ft.handleAsciiLine line = ft.note p version := by
  have hfixed : ∀ p : PendingAscii, p.operation = op → p.verdict = v → op ≠ .query →
      (∀ ft : FileTransfer, ft.state = op.awaiting →
        ft.handleAsciiLine line = { ft with pendingAscii := some p }) →
      ∃ p version, p.operation = op ∧ p.verdict = v ∧ (version.isSome ↔ op = .query)
        ∧ ∀ ft : FileTransfer, ft.state = op.awaiting → ft.requestedCompression = requested →
            ft.handleAsciiLine line = ft.note p version :=
    fun p h1 h2 h3 h4 => ⟨p, none, h1, h2, by simp [h3], fun ft hst _ => h4 ft hst⟩
  cases op with
  | query =>
    -- the line carries a spec, which matches what was asked for or does not
    obtain ⟨rest, hrest, hv⟩ := Option.bind_eq_some_iff.mp hv
    obtain ⟨⟨version, comp⟩, hsp, hv⟩ := Option.map_eq_some_iff.mp hv
    cases hchoose : chooseCompression requested (parseCompressionSpec comp) with
    | ok chosen =>
      refine ⟨.queryVersion version chosen, some version, rfl, ?_, by simp, fun ft hst hreq => ?_⟩
      · rw [← hv]
        dsimp only
        rw [hchoose]
        rfl
      · rw [handleAsciiLine_version hrest]
        exact (handleVersion_note hst hsp).1 chosen (hreq ▸ hchoose)
    | error err =>
      refine ⟨.queryFailed err, some version, rfl, ?_, by simp, fun ft hst hreq => ?_⟩
      · rw [← hv]
        dsimp only
        rw [hchoose]
        rfl
      · rw [handleAsciiLine_version hrest]
        exact (handleVersion_note hst hsp).2 err (hreq ▸ hchoose)
  | «open» =>
    simp only [verdict] at hv
    split_ifs at hv with h1 h2 h3
    · refine hfixed .openSuccess rfl (Option.some.inj hv) (by simp) fun ft hst => ?_
      rw [h1]
      exact ft.handleAsciiLine_success.1 hst
    · refine hfixed .openBusy rfl (Option.some.inj hv) (by simp) fun ft hst => ?_
      rw [h2, ft.handleAsciiLine_refusal.1]
      exact if_pos hst
    · refine hfixed .openFail rfl (Option.some.inj hv) (by simp) fun ft hst => ?_
      rw [h3, ft.handleAsciiLine_refusal.2.1]
      exact if_pos hst
  | write => cases hv
  | close =>
    simp only [verdict] at hv
    split_ifs at hv with h1 h2 h3
    · refine hfixed .closeSuccess rfl (Option.some.inj hv) (by simp) fun ft hst => ?_
      rw [h1]
      exact ft.handleAsciiLine_success.2.1 hst
    · refine hfixed .closeIoError rfl (Option.some.inj hv) (by simp) fun ft hst => ?_
      rw [h2, ft.handleAsciiLine_refusal.2.2.1]
      exact if_pos hst
    · refine hfixed .closeInvalid rfl (Option.some.inj hv) (by simp) fun ft hst => ?_
      rw [h3, ft.handleAsciiLine_refusal.2.2.2]
      exact if_pos hst
  | abort =>
    simp only [verdict] at hv
    split_ifs at hv with h1
    refine hfixed .abortSuccess rfl (Option.some.inj hv) (by simp) fun ft hst => ?_
    rw [h1]
    exact ft.handleAsciiLine_success.2.2 hst

/-- **While an operation waits, a line is what the verdict says it is.** -/
theorem handleAsciiLine_waiting {ft : FileTransfer} {op : Operation}
    (hst : ft.state = op.awaiting) (line : Str) :
    Hears op line ft (ft.handleAsciiLine line) := by
  cases hv : verdict op ft.requestedCompression line with
  | none =>
    rw [handleAsciiLine_unjudged hst hv]
    exact hears_nothing hv
  | some v =>
    obtain ⟨p, version, hop, hpv, -, hall⟩ := handleAsciiLine_judged hv
    rw [hall ft hst rfl]
    exact hears_pending line p hst hop (by rw [hv, hpv]) _

/-! ## Acks -/

/-- While nothing waits, acks pass. -/
theorem handleAck_resting {ft : FileTransfer} (h : ft.state.awaited = none) :
    ft.handleAck = { ft with pendingAscii := none } := by
  unfold handleAck
  cases hst : ft.state <;> first | (rw [hst] at h; cases h) | rfl

/-- What an ack does to an operation that waits. -/
structure Settles (op : Operation) (ft ft' : FileTransfer) : Prop where
  outEvents : ft'.outEvents = ft.outEvents ++ [op.settle ft.heard]
  pending : ft'.pendingAscii = none
  requested : ft'.requestedCompression = ft.requestedCompression
  protocolId : ft'.protocolId = ft.protocolId
  /-- A success leads on, anything else to failure. -/
  state : ((op.settle ft.heard).answers = some op ∧ ft'.state = op.done)
    ∨ (∃ err, op.settle ft.heard = .failed err) ∧ ft'.state = .failed

/-- **The ack settles the operation that waits by the last verdict heard.** -/
theorem handleAck_waiting {ft : FileTransfer} {op : Operation} (hst : ft.state = op.awaiting)
    (hc : ft.Consistent) : Settles op ft ft.handleAck := by
  have hop : ∀ p, ft.pendingAscii = some p → p.operation = op := by
    intro p hp
    rcases hc p hp with h | h
    · rw [hst] at h
      cases op <;> cases h
    · rw [hst, Operation.awaited_awaiting] at h
      exact (Option.some.inj h).symm
  unfold handleAck
  cases hp : ft.pendingAscii with
  | none =>
    cases op <;> simp only [Operation.awaiting] at hst <;> rw [hst] <;>
      exact ⟨by simp [heard, hp, Operation.settle, Operation.violation, fail, succeed, pushEvent],
        rfl, rfl, rfl, by
          simp [heard, hp, Operation.settle, FileEvent.answers, fail, succeed, pushEvent,
            Operation.done]⟩
  | some p =>
    have hpop := hop p hp
    subst hpop
    cases p <;> simp only [PendingAscii.operation, Operation.awaiting] at hst <;> rw [hst] <;>
      exact ⟨by simp [heard, hp, Operation.settle, PendingAscii.verdict, fail, succeed, pushEvent],
        rfl, rfl, rfl, by
          simp [heard, hp, Operation.settle, PendingAscii.verdict, PendingAscii.operation,
            FileEvent.answers, fail, succeed, pushEvent, Operation.done]⟩

end FileTransfer

end MarlinTransfer
