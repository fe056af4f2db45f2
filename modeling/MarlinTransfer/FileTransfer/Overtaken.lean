import MarlinTransfer.FileTransfer.Polls

/-!
# Polls that are overtaken

A poll returns the success of an operation from a state that leads on, unless a failure was
pending behind the ack: then the transfer has failed already, and the caller who goes on as
the event says trips an assertion. `Overtaken` is that condition, on what is pending before
the poll. A caller who follows the documentation and none of whose polls is overtaken trips
no assertion.
-/

namespace MarlinTransfer

open Codec Text Session

/-- The operations whose success is followed by another one: QUERY, OPEN and WRITE. -/
def Operation.leadsOn : Operation → Bool
  | .query => true
  | .open => true
  | .write => true
  | _ => false

/-- The operation that waits succeeds with what is pending, and a failure is pending behind
its ack. -/
def Overtaken (ft : FileTransfer) (es : List Event) : Prop :=
  ∃ op post ev, ft.Due es op post ev ∧ op.leadsOn = true ∧ anyFailure post = true

/-! ## The invariant of a transfer's runs -/

/-- A session that is synced. -/
structure Live (w : Watched) : Prop where
  conserved : ∃ ds, Conserved w ds
  synced : w.session.isSynced = true

namespace Live

variable {w w' : Watched}

theorem take (h : Live w) (r : Reply) (now : Instant) : Live (w.take r now) := by
  obtain ⟨ds, hc⟩ := h.conserved
  refine ⟨hc.take r now, ?_⟩
  cases taken hc r now with
  | quiet ht hsync hsy hok hss => exact hsy h.synced
  | acked f hr hf ht hsync hsy => exact hsy h.synced
  | synced f sync block version hr hf ht hsync hsy => exact hsy

theorem takeAll (h : Live w) (rs : List Reply) (now : Instant) : Live (w.takeAll rs now) := by
  induction rs generalizing w with
  | nil => exact h
  | cons r rs ih => exact ih (h.take r now)

theorem feed (h : Live w) (bytes : Bytes) (now : Instant) : Live (w.feed bytes now) := by
  have h' := h.takeAll (replies (w.session.inboundBuf ++ bytes)) now
  obtain ⟨ds, hc⟩ := h'.conserved
  exact ⟨⟨ds, hc.withBuf _⟩, h'.synced⟩

theorem tick (h : Live w) (now : Instant) : Live (w.tick now) := by
  obtain ⟨ds, hc⟩ := h.conserved
  refine ⟨hc.tick now, ?_⟩
  cases ticked w now with
  | early heq => rw [heq]; exact h.synced
  | late f now' hf hf' hq hsync hsy hl => exact hsy.trans h.synced
  | expired f ht hsync hsy => exact hsy.trans h.synced

theorem pollOutbound (h : Live w) : Live w.pollOutbound := by
  obtain ⟨ds, hc⟩ := h.conserved
  refine ⟨⟨ds, hc.pollOutbound⟩, ?_⟩
  rw [Watched.pollOutbound_session, Session.pollOutbound]
  split <;> exact h.synced

theorem send (h : Live w) {protocol packetType : UInt8} {payload : Bytes} {now : Instant}
    (hs : w.send protocol packetType payload now = some w') : Live w' := by
  obtain ⟨ds, hc⟩ := h.conserved
  exact ⟨hc.send hs, (submitted_send hc hs).2.1⟩

end Live

/-- A transfer between calls. -/
structure Ready (t : Transfer) : Prop where
  live : Live t.host
  prompt : t.ft.Prompt

theorem ready_start {w : Watched} (h : Live w) : Ready (Transfer.start w) :=
  ⟨h, FileTransfer.prompt_new⟩

namespace Ready

variable {t t' : Transfer}

theorem of_host (h : Ready t) {w : Watched} (hw : Live w) : Ready { t with host := w } :=
  ⟨hw, h.prompt⟩

/-- What a poll of a transfer that is ready returns, and leaves. -/
theorem poll (h : Ready t) :
    FileTransfer.Polled t.ft t.host.session.events (t.ft.poll t.host.session).1 t.poll.ft.state
      ∧ Ready t.poll := by
  obtain ⟨ds, hc⟩ := h.live.conserved
  obtain ⟨hp, hprompt⟩ := FileTransfer.polled t.host.session h.prompt
  have hft : (t.ft.poll t.host.session).2.1 = t.poll.ft := by rw [Transfer.poll_eq hc]
  rw [hft] at hp hprompt
  refine ⟨hp, ⟨?_, ?_⟩, hprompt⟩
  · have key : ∀ (ps : List (Event × Option Nat)) (t : Transfer), (∃ ds, Conserved t.host ds) →
        ∃ ds, Conserved (ps.foldl Transfer.observe t).host ds := by
      intro ps
      induction ps with
      | nil => exact fun t h => h
      | cons p ps ih =>
        rintro t ⟨ds, hc⟩
        exact ih _ ⟨ds, hc.pollEvent⟩
    exact key t.pending t ⟨ds, hc⟩
  · rw [Transfer.poll_host hc]
    exact h.live.synced

theorem call (h : Ready t) {op : Operation} (hc : Calls op t t') : Ready t' := by
  obtain ⟨payload, now, hs⟩ := hc.sent
  have haw : t.ft.state.awaited = none := by rw [hc.required, Operation.awaited_required]
  have hne : t.ft.state ≠ .failed := by
    rw [hc.required]
    cases op <;> decide
  have hout : t'.ft.outEvents = [] := by
    rw [hc.outEvents]
    by_contra hout
    exact hne (h.prompt.failed hout)
  have hpa : t'.ft.pendingAscii = none :=
    hc.pendingAscii.trans (h.prompt.consistent.pending_none haw hne)
  refine ⟨h.live.send hs, FileTransfer.consistent_of_none hpa, ?_, fun hne => absurd hout hne,
    FileTransfer.resolved_of_none hpa, hc.protocolId.trans h.prompt.protocol⟩
  rw [hout]
  exact fun _ hm => (List.not_mem_nil hm).elim

theorem step (h : Ready t) {c : Call} (hs : t.step c = some t') : Ready t' := by
  cases Transfer.steps hs with
  | call op hc => exact h.call hc
  | poll heq => rw [heq]; exact h.poll.2
  | feed bytes now heq => rw [heq]; exact h.of_host (h.live.feed bytes now)
  | tick now heq => rw [heq]; exact h.of_host (h.live.tick now)
  | pollOutbound heq => rw [heq]; exact h.of_host h.live.pollOutbound

theorem run {cs : List Call} (h : Ready t) (hr : t.run cs = some t') : Ready t' :=
  Transfer.run_invariant (fun h hs => h.step hs) h hr

end Ready

/-! ## Which polls are overtaken -/

/-- Pending events are cut in one way. -/
theorem FileTransfer.Due.unique {ft : FileTransfer} {es : List Event} {op op' : Operation}
    {post post' : List Event} {ev ev' : FileEvent} (h : ft.Due es op post ev)
    (h' : ft.Due es op' post' ev') : op = op' ∧ post = post' ∧ ev = ev' := by
  obtain rfl : op = op' := Operation.awaiting_injective (h.state.symm.trans h'.state)
  obtain ⟨n, hn⟩ := h.acked
  obtain ⟨n', hn'⟩ := h'.acked
  exact ⟨rfl, (List.cons.inj (hn.symm.trans hn')).2, h.settled.symm.trans h'.settled⟩

/-- A poll with no failure pending is not overtaken. -/
theorem not_overtaken_of_no_failure {ft : FileTransfer} {es : List Event}
    (h : anyFailure es = false) : ¬ Overtaken ft es := by
  rintro ⟨op, post, ev, hd, -, hfail⟩
  obtain ⟨e, he, hf⟩ := List.any_eq_true.mp hfail
  obtain ⟨n, hn⟩ := hd.acked
  have hmem : e ∈ es := (List.dropWhile_suffix Event.idle).subset (hn ▸ List.mem_cons_of_mem _ he)
  exact List.any_eq_false.mp h e hmem hf

/-- **The event a poll returns matches the state it leaves exactly when it is not overtaken.** -/
theorem matches_iff_not_overtaken {t : Transfer} (h : Ready t) :
    (∀ ev op, (t.ft.poll t.host.session).1 = some ev → ev.answers = some op →
        op.leadsOn = true → (t.ft.poll t.host.session).2.1.state = op.done)
      ↔ ¬ Overtaken t.ft t.host.session.events := by
  obtain ⟨hp, -⟩ := FileTransfer.polled t.host.session h.prompt
  generalize (t.ft.poll t.host.session).1 = ret at *
  generalize (t.ft.poll t.host.session).2.1.state = st at *
  cases hp with
  | nothing hno =>
    refine iff_of_true (fun ev op hev => nomatch hev) ?_
    rintro ⟨op, post, ev, hd, -⟩
    exact hno op post ev hd
  | failed hno err =>
    refine iff_of_true (fun ev op hev hans => ?_) ?_
    · rw [← Option.some.inj hev] at hans
      cases hans
    · rintro ⟨op, post, ev, hd, -⟩
      exact hno op post ev hd
  | answered op post ev hd =>
    constructor
    · rintro hall ⟨op', post', ev', hd', hlead, hfail⟩
      obtain ⟨rfl, rfl, rfl⟩ := hd.unique hd'
      have := hall ev op rfl hd.answers hlead
      rw [hfail] at this
      cases op <;> cases this
    · intro hno ev' op' hev hans hlead
      obtain rfl := Option.some.inj hev
      obtain rfl := Option.some.inj (hd.answers.symm.trans hans)
      rw [if_neg]
      exact fun hfail => hno ⟨op, post, ev, hd, hlead, hfail⟩

/-! ## Callers who follow the documentation -/

/-- The payload a call sends fits into a packet. -/
def Call.Fits : Call → Prop
  | .open name _ _ => (asBytes name).length + 3 ≤ maxPayload
  | .write chunk _ => chunk.length ≤ maxPayload
  | _ => True

/--
The runs of a caller who follows the documentation, with the event the last poll returned,
if nothing was sent since. QUERY is sent to a fresh transfer, and another operation only
after a poll that returned the success which leads to it. No poll of the run is overtaken.
-/
inductive Documented (w : Watched) : Transfer → Option FileEvent → Prop where
  | start : Documented w (Transfer.start w) none
  | query {t : Transfer} {compression : Compression} {now : Instant}
      (hs : (Transfer.start w).step (.query compression now) = some t) : Documented w t none
  | call {t t' : Transfer} {ev : FileEvent} {op op' : Operation} {c : Call}
      (h : Documented w t (some ev)) (hev : ev.answers = some op) (hlead : op.leadsOn = true)
      (hop : c.operation = some op') (hreq : op'.required = op.done) (hs : t.step c = some t') :
      Documented w t' none
  | poll {t : Transfer} {last : Option FileEvent} (h : Documented w t last)
      (hno : ¬ Overtaken t.ft t.host.session.events) :
      Documented w t.poll (t.ft.poll t.host.session).1
  | host {t t' : Transfer} {last : Option FileEvent} {c : Call} (h : Documented w t last)
      (hop : c.operation = none) (hpoll : c ≠ .poll) (hs : t.step c = some t') :
      Documented w t' last

/-- What the event polled last says of the state. -/
structure Follows (t : Transfer) (last : Option FileEvent) : Prop where
  ready : Ready t
  matched : ∀ ev op, last = some ev → ev.answers = some op → op.leadsOn = true →
    t.ft.state = op.done

theorem Documented.follows {w : Watched} (hw : Live w) {t : Transfer} {last : Option FileEvent}
    (h : Documented w t last) : Follows t last := by
  induction h with
  | start => exact ⟨ready_start hw, fun ev op hev => nomatch hev⟩
  | query hs => exact ⟨(ready_start hw).step hs, fun ev op hev => nomatch hev⟩
  | call _ _ _ _ _ hs ih => exact ⟨ih.ready.step hs, fun ev op hev => nomatch hev⟩
  | poll _ hno ih =>
    refine ⟨ih.ready.poll.2, fun ev op hev hans hlead => ?_⟩
    obtain ⟨ds, hc⟩ := ih.ready.live.conserved
    have hst := (matches_iff_not_overtaken ih.ready).mpr hno ev op hev hans hlead
    rw [Transfer.poll_eq hc] at hst
    exact hst
  | @host t t' last c _ hop hpoll hs ih =>
    refine ⟨ih.ready.step hs, ?_⟩
    cases c with
    | feed bytes now =>
      obtain rfl := Option.some.inj hs
      exact ih.matched
    | tick now =>
      obtain rfl := Option.some.inj hs
      exact ih.matched
    | pollOutbound =>
      obtain rfl := Option.some.inj hs
      exact ih.matched
    | poll => exact absurd rfl hpoll
    | _ => cases hop

/-- A call whose assertion on the state holds succeeds. -/
theorem step_isSome {t : Transfer} (h : Ready t) {c : Call} (op : Operation)
    (hop : c.operation = some op) (hst : t.ft.state = op.required) (hfit : c.Fits) :
    (t.step c).isSome := by
  -- a packet that fits is accepted by a session that is synced
  have hsend : ∀ (ft : FileTransfer) (next : State) (packetType : UInt8) (payload : Bytes)
      (now : Instant), ft.state = op.required → ft.protocolId = protocolFileTransfer →
      packetType ≤ 0xF → payload.length ≤ maxPayload →
      (t.called op payload (ft.request t.host.session op.required next packetType payload
        now)).isSome := by
    intro ft next packetType payload now hreq hproto htype hlen
    have hp : ft.protocolId ≤ 0xF := by
      rw [hproto]
      decide
    obtain ⟨s', hs⟩ := exists_send h.live.synced hp htype hlen now
    rw [FileTransfer.request_eq_some.mpr ⟨hreq, hs, rfl⟩]
    rfl
  cases c with
  | query compression now =>
    obtain rfl := Option.some.inj hop
    exact hsend { t.ft with requestedCompression := compression } _ ptQuery [] now hst
      h.prompt.protocol (by decide) (by decide)
  | «open» name dummy now =>
    obtain rfl := Option.some.inj hop
    refine hsend t.ft _ ptOpen _ now hst h.prompt.protocol (by decide) ?_
    show ([_, _] ++ asBytes name ++ [(0 : UInt8)]).length ≤ maxPayload
    rw [List.length_append, List.length_append]
    have : (asBytes name).length + 3 ≤ maxPayload := hfit
    simp only [List.length_cons, List.length_nil]
    omega
  | write chunk now =>
    obtain rfl := Option.some.inj hop
    exact hsend t.ft _ ptWrite chunk now hst h.prompt.protocol (by decide) hfit
  | close now =>
    obtain rfl := Option.some.inj hop
    exact hsend t.ft _ ptClose [] now hst h.prompt.protocol (by decide) (by decide)
  | abort now =>
    obtain rfl := Option.some.inj hop
    exact hsend t.ft _ ptAbort [] now hst h.prompt.protocol (by decide) (by decide)
  | _ => cases hop

end MarlinTransfer
