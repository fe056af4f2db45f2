import MarlinTransfer.FileTransfer.Negotiation

/-!
# What was negotiated stays

A query is made by a transfer that was not used before, so it is answered as one that was
just made. The ack commits what its version line settled; no later event and no later call
changes it, and every OPEN says it.
-/

namespace MarlinTransfer

open Codec Text Session

/-! ## Until the query -/

namespace FileTransfer

/-- A transfer that is idle was not used. -/
def Fresh (ft : FileTransfer) : Prop := ft.state = .idle → ft = new

/-- No event makes a transfer idle or lets it wait for the answer to a query. -/
theorem handle_state (ft : FileTransfer) (e : Event) :
    (ft.handleSessionEvent e).state = ft.state
      ∨ (ft.handleSessionEvent e).state ≠ .idle
        ∧ (ft.handleSessionEvent e).state ≠ .awaitingQueryReply := by
  cases e with
  | asciiLine line =>
    obtain ⟨pending, version, hputs⟩ := handleAsciiLine_puts ft line
    exact .inl (show (ft.handleAsciiLine line).state = ft.state by rw [hputs])
  | ack n =>
    show ft.handleAck.state = ft.state
      ∨ ft.handleAck.state ≠ .idle ∧ ft.handleAck.state ≠ .awaitingQueryReply
    unfold handleAck
    dsimp only
    split <;> first
      | exact .inl rfl
      | exact .inr ⟨(fun h => nomatch h), fun h => nomatch h⟩
  | synced block version => exact .inl rfl
  | resendRequested n => exact .inl rfl
  | fatalError => exact .inr ⟨(fun h => nomatch h), fun h => nomatch h⟩
  | outOfSync expected got => exact .inr ⟨(fun h => nomatch h), fun h => nomatch h⟩
  | timeout sync => exact .inr ⟨(fun h => nomatch h), fun h => nomatch h⟩

theorem Fresh.handle {ft : FileTransfer} (h : ft.Fresh) (e : Event) :
    (ft.handleSessionEvent e).Fresh := by
  intro hidle
  rcases handle_state ft e with hst | ⟨hne, -⟩
  swap
  · exact absurd hidle hne
  obtain rfl := h (hst ▸ hidle)
  cases e with
  | asciiLine line => exact handleAsciiLine_resting rfl line
  | ack n => rfl
  | synced block version => rfl
  | resendRequested n => rfl
  | _ => cases hidle

theorem Fresh.popEvent {ft : FileTransfer} (h : ft.Fresh) : ft.popEvent.2.Fresh := by
  intro hidle
  have hnew := h ((popEvent_keeps ft).1 ▸ hidle)
  rw [hnew]
  rfl

end FileTransfer

/-- No operation leaves a transfer idle. -/
theorem FileTransfer.fresh_lasts : Lasts Fresh where
  handle := fun e h => h.handle e
  popEvent := fun h => h.popEvent
  call := fun {op t t'} _ hc hidle => by
    rw [hc.state] at hidle
    cases op <;> cases hidle

/-- A transfer speaks the file protocol, and one that may open has negotiated. -/
structure FileTransfer.Versed (ft : FileTransfer) : Prop where
  protocol : ft.protocolId = protocolFileTransfer
  settled : ft.state = .negotiated → ∃ c, ft.negotiated = some c

theorem FileTransfer.versed_new : new.Versed := ⟨rfl, fun h => by cases h⟩

/-- Only the ack of a query that was answered leads to `Negotiated`. -/
theorem FileTransfer.versed_lasts : Lasts Versed where
  handle := fun {ft} e h => by
    refine ⟨(handle_protocolId ft e).trans h.protocol, ?_⟩
    cases e with
    | asciiLine line =>
      obtain ⟨pending, version, hputs⟩ := handleAsciiLine_puts ft line
      show (ft.handleAsciiLine line).state = _ → ∃ c, (ft.handleAsciiLine line).negotiated = some c
      rw [hputs]
      exact h.settled
    | ack n =>
      show ft.handleAck.state = _ → ∃ c, ft.handleAck.negotiated = some c
      unfold handleAck
      dsimp only
      split <;> first
        | exact fun _ => ⟨_, rfl⟩
        | exact h.settled
        | exact fun hst => by cases hst
    | synced block version => exact h.settled
    | resendRequested n => exact h.settled
    | _ => exact fun hst => by cases hst
  popEvent := fun {ft} h => by
    unfold FileTransfer.popEvent
    split
    · exact h
    · exact ⟨h.protocol, h.settled⟩
  call := fun {op t t'} h hc => by
    refine ⟨hc.protocolId.trans h.protocol, fun hst => ?_⟩
    rw [hc.state] at hst
    cases op <;> cases hst

/-! ## After the answer -/

/-- The negotiation is over, and this is what came of it. -/
structure FileTransfer.Committed (c : Option Compression) (ft : FileTransfer) : Prop where
  negotiated : ft.negotiated = c
  not_idle : ft.state ≠ .idle
  not_asking : ft.state ≠ .awaitingQueryReply

namespace FileTransfer.Committed

variable {c : Option Compression} {ft : FileTransfer}

theorem handle (h : ft.Committed c) (e : Event) : (ft.handleSessionEvent e).Committed c := by
  have hneg : (ft.handleSessionEvent e).negotiated = ft.negotiated := by
    cases e with
    | asciiLine line =>
      obtain ⟨pending, version, hputs⟩ := handleAsciiLine_puts ft line
      show (ft.handleAsciiLine line).negotiated = _
      rw [hputs]
    | ack n =>
      show ft.handleAck.negotiated = _
      unfold handleAck
      dsimp only
      split <;> first
        | rfl
        | exact absurd (by assumption) h.not_asking
    | _ => rfl
  rcases handle_state ft e with hst | ⟨h1, h2⟩
  · exact ⟨hneg.trans h.negotiated, hst ▸ h.not_idle, hst ▸ h.not_asking⟩
  · exact ⟨hneg.trans h.negotiated, h1, h2⟩

theorem fold (h : ft.Committed c) (es : List Event) :
    (es.foldl handleSessionEvent ft).Committed c := by
  induction es generalizing ft with
  | nil => exact h
  | cons e es ih => exact ih (h.handle e)

theorem popEvent (h : ft.Committed c) : ft.popEvent.2.Committed c := by
  unfold FileTransfer.popEvent
  split
  · exact h
  · exact ⟨h.negotiated, h.not_idle, h.not_asking⟩

/-- **An OPEN says what was negotiated.** -/
theorem openPayload (h : ft.Committed c) (name : Str) (dummy : Bool) :
    (ft.openPayload name dummy)[1]?
      = some (match c with
        | some (.heatshrink _ _) => (1 : UInt8)
        | _ => 0) := by
  unfold FileTransfer.openPayload
  rw [h.negotiated]
  rfl

end FileTransfer.Committed

/-- Only a poll settles a query. -/
theorem negotiated_step {b b' : Bare} {c : Call} (hc : c ≠ .poll) (hs : b.step c = some b') :
    b'.ft.negotiated = b.ft.negotiated := by
  have hcalled : ∀ (ft : FileTransfer) {required next : State} {packetType : UInt8}
      {payload : Bytes} {now : Instant},
      b.called (ft.request b.session required next packetType payload now) = some b' →
        b'.ft.negotiated = ft.negotiated := by
    intro ft required next packetType payload now h
    obtain ⟨⟨ft', s'⟩, hr, rfl⟩ := Option.map_eq_some_iff.mp h
    obtain ⟨-, -, rfl⟩ := FileTransfer.request_eq_some.mp hr
    rfl
  cases c with
  | query compression now => exact hcalled { b.ft with requestedCompression := compression } hs
  | «open» name dummy now => exact hcalled b.ft hs
  | write chunk now => exact hcalled b.ft hs
  | close now => exact hcalled b.ft hs
  | abort now => exact hcalled b.ft hs
  | poll => exact absurd rfl hc
  | _ =>
    obtain rfl := Option.some.inj hs
    rfl

theorem committed_step {c : Option Compression} {b b' : Bare} (h : b.ft.Committed c) {call : Call}
    (hs : b.step call = some b') : b'.ft.Committed c := by
  by_cases hc : call = .poll
  · subst hc
    obtain rfl := Option.some.inj hs
    rw [Bare.poll_eq]
    exact (h.fold b.session.events).popEvent
  · have hneg := (negotiated_step hc hs).trans h.negotiated
    rcases Bare.call_cases hc with ⟨f, hf⟩ | ⟨op, ho⟩
    · rw [hf.step] at hs
      obtain rfl := Option.some.inj hs
      exact h
    · obtain ⟨hreq, hst, -⟩ := ho.step b b' hs
      -- a query is only made by a transfer that is idle
      have hop : op ≠ .query := by
        rintro rfl
        exact h.not_idle hreq
      refine ⟨hneg, ?_, ?_⟩
      · rw [hst]
        cases op <;> decide
      · rw [hst]
        cases op with
        | query => exact absurd rfl hop
        | _ => decide

theorem committed_run {c : Option Compression} {cs : List Call} {b b' : Bare}
    (h : b.ft.Committed c) (hr : b.run cs = some b') : b'.ft.Committed c :=
  Bare.run_invariant (P := fun b => b.ft.Committed c) (fun h hs => committed_step h hs) h hr

/-! ## What the lines settle -/

namespace FileTransfer

/-- The version line is read after its prefix. -/
theorem hear_version (ft : FileTransfer) (version spec : Str) :
    ft.hear (.text (versionText version spec)) = ft.handleVersion (version ++ ':' :: spec) :=
  handleAsciiLine_version (stripPrefix_append _ _)

end FileTransfer

section Outcome

variable (b : Bare) (requested : Compression) (now : Instant) {pre mid : List Reply}

/-- **With a version line**: what the caller and the device agree on. -/
theorem enquiry_version {version spec : Str} {device : CompressionSpec} (hv : ':' ∉ version)
    (hspec : parseCompressionSpec spec = device.compression)
    (hpre : ∀ r ∈ pre, r.other = true) (hmid : ∀ r ∈ mid, r.other = true) :
    let q := b.enquiry requested now (pre ++ .text (versionText version spec) :: mid)
    match agree requested device with
    | some c => q.outcome = .negotiated version c ∧ q.final.state = .negotiated
        ∧ q.final.Committed (some c)
    | none => q.outcome = .failed .compressionUnsupported ∧ q.final.state = .failed
        ∧ q.final.Committed none := by
  intro q
  have htarget : q.target
      = (FileTransfer.asked requested).handleVersion (version ++ ':' :: spec) := by
    show (pre ++ _ :: mid).foldl FileTransfer.hear (.asked requested) = _
    rw [List.foldl_append, FileTransfer.foldl_hear_other rfl hpre, List.foldl_cons,
      FileTransfer.foldl_hear_other (FileTransfer.hear_waiting rfl _).1 hmid,
      FileTransfer.hear_version]
  have hst : (FileTransfer.asked requested).state = .awaitingQueryReply := rfl
  obtain ⟨hok, herr⟩ := FileTransfer.handleVersion_note hst (splitOnce_append spec hv)
  have hchoose := chooseCompression_eq requested device
  rw [← hspec] at hchoose
  unfold Enquiry.outcome Enquiry.final
  cases ha : agree requested device with
  | some c =>
    rw [ha] at hchoose
    rw [htarget, hok c hchoose]
    exact ⟨rfl, rfl, rfl, (fun h => nomatch h), fun h => nomatch h⟩
  | none =>
    rw [ha] at hchoose
    rw [htarget, herr _ hchoose]
    exact ⟨rfl, rfl, rfl, (fun h => nomatch h), fun h => nomatch h⟩

/-- **Without one**: a violation of the protocol. -/
theorem enquiry_silent (hpre : ∀ r ∈ pre, r.other = true) :
    let q := b.enquiry requested now pre
    q.outcome = .failed (.protocolViolation "AwaitingQueryReply"
      "PFT:version:<v>:<compression-spec>")
      ∧ q.final.state = .failed ∧ q.final.Committed none := by
  intro q
  have htarget : q.target = .asked requested := FileTransfer.foldl_hear_other rfl hpre
  unfold Enquiry.outcome Enquiry.final
  rw [htarget]
  exact ⟨rfl, rfl, rfl, (fun h => nomatch h), fun h => nomatch h⟩

end Outcome

/-! ## On the wire -/

/-- A line that is no `ok<n>`, no `ss`, not the `fe` and no version line. -/
def OtherLine (line : Bytes) : Prop := (0x0A : UInt8) ∉ line ∧ (reply line).other = true

/-- A version line as it is sent, without its line feed. -/
def versionLine (version spec : Str) (returns : Nat) : Bytes :=
  asBytes (versionText version spec ++ List.replicate returns '\r')

theorem lf_notMem_versionText {version spec : Str} (hv : '\n' ∉ version) (hs : '\n' ∉ spec) :
    '\n' ∉ versionText version spec := by
  intro hm
  rcases List.mem_append.mp hm with hm | hm
  · revert hm
    decide
  · rcases List.mem_append.mp hm with hm | hm
    · exact hv hm
    · rcases List.mem_cons.mp hm with hm | hm
      · cases hm
      · exact hs hm

theorem lf_notMem_versionLine {version spec : Str} (hv : '\n' ∉ version) (hs : '\n' ∉ spec)
    (returns : Nat) : (0x0A : UInt8) ∉ versionLine version spec returns :=
  lf_notMem_returns (lf_notMem_versionText hv hs) returns

theorem reply_versionLine {version spec : Str} (hv : '\n' ∉ version) (hs : '\n' ∉ spec)
    (hcr : spec.getLast? ≠ some '\r') (returns : Nat) :
    reply (versionLine version spec returns) = .text (versionText version spec) := by
  have hlast : (versionText version spec).getLast? ≠ some '\r' := by
    unfold versionText
    rw [List.getLast?_append, List.getLast?_append]
    cases spec with
    | nil => simp
    | cons c spec =>
      rw [List.getLast?_cons_cons]
      rw [List.getLast?_eq_some_getLast (List.cons_ne_nil c spec)] at hcr ⊢
      exact hcr
  unfold versionLine
  rw [reply_returns]
  exact reply_text (c := 'P') (by decide) (by decide)
    (rdropWhile_of_complete (lf_notMem_versionText hv hs) hlast)

/-- A spec that a device renders ends as it is read. -/
theorem render_complete (device : CompressionSpec) :
    '\n' ∉ device.render ∧ device.render.getLast? ≠ some '\r' := by
  cases device with
  | none => exact ⟨by decide, by decide⟩
  | heatshrink window lookahead =>
    have hdigits : ∀ n, '\n' ∉ decimal n := fun n => notMem_decimal (by decide) n
    refine ⟨fun hm => ?_, fun hl => ?_⟩
    · rcases List.mem_append.mp hm with hm | hm
      · revert hm
        decide
      · rcases List.mem_append.mp hm with hm | hm
        · exact hdigits _ hm
        · rcases List.mem_cons.mp hm with hm | hm
          · cases hm
          · exact hdigits _ hm
    · have hr : '\r' ∉ decimal lookahead.toNat := notMem_decimal (by decide) _
      refine hr (List.mem_of_getLast? ?_)
      obtain ⟨d, ds, hd⟩ := List.exists_cons_of_ne_nil (decimal_ne_nil lookahead.toNat)
      unfold CompressionSpec.render at hl
      rw [List.getLast?_append_of_ne_nil _ (by simp), List.getLast?_append_of_ne_nil _ (by simp),
        hd, List.getLast?_cons_cons] at hl
      rw [hd]
      exact hl

/-- A version line that says no spec, as it is sent. -/
def bareVersionLine (version : Str) (returns : Nat) : Bytes :=
  asBytes ("PFT:version:".toList ++ version ++ List.replicate returns '\r')

/-- **Without a second colon** a version line is like any other. -/
theorem otherLine_bareVersion {version : Str} (hv : ':' ∉ version) (hlf : '\n' ∉ version)
    (hcr : version.getLast? ≠ some '\r') (returns : Nat) :
    OtherLine (bareVersionLine version returns) := by
  have hlf' : '\n' ∉ "PFT:version:".toList ++ version := by
    intro hm
    rcases List.mem_append.mp hm with hm | hm
    · revert hm
      decide
    · exact hlf hm
  have hlast : ("PFT:version:".toList ++ version).getLast? ≠ some '\r' := by
    cases version with
    | nil => decide
    | cons c version =>
      rw [List.getLast?_append_of_ne_nil _ (by simp)]
      exact hcr
  have hreply : reply (bareVersionLine version returns)
      = .text ("PFT:version:".toList ++ version) := by
    unfold bareVersionLine
    rw [reply_returns]
    exact reply_text (c := 'P') (by decide) (by decide) (rdropWhile_of_complete hlf' hlast)
  refine ⟨lf_notMem_returns hlf' returns, ?_⟩
  rw [hreply]
  unfold Reply.other isVersionLine
  dsimp only
  rw [stripPrefix_append]
  simpa using hv

/-- The ack of a packet as it is sent, without its line feed. -/
def ackLine (n : UInt8) (returns : Nat) : Bytes :=
  asBytes (okText n ++ List.replicate returns '\r')

/-! ## A dialogue -/

/-- A query and the lines that answer it. The transfer is idle, on a synced session whose line
is free and where nothing is pending that would be taken for an answer. The caller feeds, polls
and ticks while there is time, and what it feeds are the lines: some before the ack of the query,
the ack, some after it. Where the bytes are cut is up to the transport. -/
structure QueryDialogue (t : Transfer) (requested : Compression) (now : Instant) (calls : List Call)
    (before after : List Bytes) : Prop where
  idle : t.ft.state = .idle
  synced : t.host.session.isSynced = true
  free : t.host.session.inFlight = none
  pending : ∀ e ∈ t.host.session.events, e.decides .query requested = false
  waits : ∀ c ∈ calls, c.awaits now t.host.session.totalTimeout = true
  fed : ∃ returns rest, (0x0A : UInt8) ∉ rest ∧ t.host.session.inboundBuf ++ fedBy calls
    = Lines.unlines 0x0A (before ++ ackLine t.host.session.sync returns :: after) ++ rest

section Answer

variable {s : Session} {ops : List Op} {w : Watched} {earlier : List Call} {t : Transfer}
variable {requested : Compression} {now : Instant} {calls : List Call} {before after : List Bytes}

theorem QueryDialogue.replies (h : QueryDialogue t requested now calls before after)
    (hbefore : ∀ l ∈ before, (0x0A : UInt8) ∉ l) (hafter : ∀ l ∈ after, (0x0A : UInt8) ∉ l) :
    Session.replies (t.host.session.inboundBuf ++ fedBy calls)
      = before.map reply ++ .ok t.host.session.sync :: after.map reply := by
  obtain ⟨returns, rest, hrest, hfed⟩ := h.fed
  have hack : reply (ackLine t.host.session.sync returns) = .ok t.host.session.sync := by
    unfold ackLine
    rw [reply_returns]
    exact reply_okLine _
  have hlines : ∀ l ∈ before ++ ackLine t.host.session.sync returns :: after,
      (0x0A : UInt8) ∉ l := by
    intro l hl
    rcases List.mem_append.mp hl with hl | hl
    · exact hbefore l hl
    · rcases List.mem_cons.mp hl with rfl | hl
      · exact lf_notMem_returns (lf_notMem_okText _) returns
      · exact hafter l hl
  unfold Session.replies
  rw [hfed, Lines.cut_unlines hlines hrest, List.map_append, List.map_cons, hack]

/-- **The dialogue is answered**, once, and as the lines before the ack say. -/
theorem QueryDialogue.answered (hw : (Watched.start s.reset).run ops = some w)
    (hr : (Transfer.start w).run earlier = some t)
    (h : QueryDialogue t requested now calls before after)
    (hbefore : ∀ l ∈ before, (0x0A : UInt8) ∉ l ∧ (reply l).quiet = true)
    (hafter : ∀ l ∈ after, (0x0A : UInt8) ∉ l ∧ (reply l).quiet = true) :
    ∃ t', t.run (.query requested now :: (calls ++ [.poll])) = some t'
      ∧ t'.returned = t.returned ++ [(t.bare.enquiry requested now (before.map reply)).outcome]
      ∧ t'.ft = (t.bare.enquiry requested now (before.map reply)).final := by
  obtain ⟨ds, hc⟩ := Transfer.conserved hw hr
  have hfresh : t.ft.Fresh :=
    FileTransfer.fresh_lasts.run (t := Transfer.start w) (fun _ => rfl) hr
  have hfree : t.bare.Free requested :=
    ⟨hfresh h.idle, h.synced, h.free, hc.idle h.free, h.pending⟩
  have hbuf : (0x0A : UInt8) ∉ t.host.session.inboundBuf :=
    unfinished_run (unfinished_run (w := Watched.start s.reset) List.not_mem_nil hw)
      (Transfer.host_run hr)
  have hquiet : ∀ {ls : List Bytes}, (∀ l ∈ ls, (0x0A : UInt8) ∉ l ∧ (reply l).quiet = true) →
      ∀ r ∈ ls.map reply, r.quiet = true := by
    intro ls hls r hm
    obtain ⟨l, hl, rfl⟩ := List.mem_map.mp hm
    exact (hls l hl).2
  obtain ⟨b', hrun, hret, hft⟩ := hfree.answered hbuf (hquiet hbefore) (hquiet hafter) h.waits
    (h.replies (fun l hl => (hbefore l hl).1) fun l hl => (hafter l hl).1)
  rw [← Transfer.bare_run hc] at hrun
  obtain ⟨t', ht', rfl⟩ := Option.map_eq_some_iff.mp hrun
  exact ⟨t', ht', hret, hft⟩

end Answer

end MarlinTransfer
