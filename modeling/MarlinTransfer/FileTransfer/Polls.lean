import MarlinTransfer.FileTransfer.Run

/-!
# What a poll returns

`poll` handles every session event that is pending before it returns a file event, so the
state it leaves may be ahead of the event it returns. `polled` says which event that is and
which state it leaves, by what is pending: everything up to the first ack or failure, that
one, and the failures behind it.
-/

namespace MarlinTransfer

open Codec Text Session

/-- An event that neither settles nor fails anything. -/
def Event.idle (e : Event) : Bool := !e.isAck && e.failure.isNone

theorem Event.idle_iff {e : Event} : e.idle = true ↔ e.isAck = false ∧ e.failure = none := by
  unfold idle
  simp

/-- The verdict an event is on an operation, if it is one. -/
def Event.verdict (op : Operation) (requested : Compression) : Event → Option Verdict
  | .asciiLine line => MarlinTransfer.verdict op requested line
  | _ => none

/-- The last verdict on an operation among events. -/
def verdictIn (op : Operation) (requested : Compression) (es : List Event) : Option Verdict :=
  (es.filterMap (Event.verdict op requested)).getLast?

theorem verdictIn_cons (op : Operation) (requested : Compression) (e : Event) (es : List Event) :
    verdictIn op requested (e :: es) = (verdictIn op requested es).or (e.verdict op requested) := by
  unfold verdictIn
  cases hv : e.verdict op requested with
  | none => rw [List.filterMap_cons_none hv, Option.or_none]
  | some v =>
    rw [List.filterMap_cons_some hv]
    cases es.filterMap (Event.verdict op requested) with
    | nil => rfl
    | cons x xs =>
      rw [List.getLast?_cons_cons, List.getLast?_eq_some_getLast (List.cons_ne_nil x xs)]
      rfl

/-- A failure among events. -/
def anyFailure (es : List Event) : Bool := es.any (·.failure.isSome)

/-- The failures among events, as a transfer tells them. -/
def failuresOf (es : List Event) : List FileEvent :=
  es.filterMap fun e => e.failure.map .failed

theorem failed_of_mem_failuresOf {es : List Event} {ev : FileEvent} (h : ev ∈ failuresOf es) :
    ∃ err, ev = .failed err := by
  obtain ⟨e, -, he⟩ := List.mem_filterMap.mp h
  obtain ⟨err, -, rfl⟩ := Option.map_eq_some_iff.mp he
  exact ⟨err, rfl⟩

theorem failuresOf_nil {es : List Event} (h : anyFailure es = false) : failuresOf es = [] := by
  refine List.filterMap_eq_nil_iff.mpr fun e he => ?_
  have := List.any_eq_false.mp h e he
  simpa using this

/-- No verdict negotiates `Auto`. -/
theorem chooseCompression_ne_auto {requested device chosen : Compression}
    (h : chooseCompression requested device = .ok chosen) : chosen ≠ .auto := by
  rintro rfl
  cases requested with
  | none => cases h
  | heatshrink window lookahead => cases device <;> cases h
  | auto => cases device <;> cases h

theorem verdict_ne_auto {op : Operation} {requested c : Compression} {line version : Str}
    (h : verdict op requested line = some (.accept (.negotiated version c))) : c ≠ .auto := by
  cases op with
  | query =>
    obtain ⟨rest, -, h⟩ := Option.bind_eq_some_iff.mp h
    obtain ⟨p, -, h⟩ := Option.map_eq_some_iff.mp h
    cases hch : chooseCompression requested (parseCompressionSpec p.2) with
    | error err => rw [hch] at h; cases h
    | ok chosen =>
      rw [hch] at h
      cases h
      exact chooseCompression_ne_auto hch
  | «open» =>
    unfold verdict at h
    split_ifs at h <;> cases h
  | write => cases h
  | close =>
    unfold verdict at h
    split_ifs at h <;> cases h
  | abort =>
    unfold verdict at h
    split_ifs at h
    cases h

namespace FileTransfer

/-- `Auto` is not what a version line has settled on. -/
def Resolved (ft : FileTransfer) : Prop :=
  ∀ version c, ft.heard = some (.accept (.negotiated version c)) → c ≠ .auto

/-- What holds of a transfer between calls: what it has not told yet are failures, and it
never settles on `Auto`. -/
structure Prompt (ft : FileTransfer) : Prop where
  consistent : ft.Consistent
  untold : ∀ ev ∈ ft.outEvents, ∃ err, ev = .failed err
  failed : ft.outEvents ≠ [] → ft.state = .failed
  resolved : ft.Resolved
  protocol : ft.protocolId = protocolFileTransfer

theorem prompt_new : new.Prompt where
  consistent := consistent_new
  untold := fun _ h => (List.not_mem_nil h).elim
  failed := fun h => absurd rfl h
  resolved := fun _ _ h => nomatch h
  protocol := rfl

/-! ## Events while nothing waits -/

theorem handle_resting {ft : FileTransfer} (h : ft.state.awaited = none) (e : Event) :
    (ft.handleSessionEvent e).outEvents = ft.outEvents ++ failuresOf [e]
      ∧ (ft.handleSessionEvent e).state = (if anyFailure [e] then .failed else ft.state) := by
  cases e with
  | asciiLine line =>
    rw [show ft.handleSessionEvent (.asciiLine line) = ft from handleAsciiLine_resting h line]
    exact ⟨(List.append_nil _).symm, rfl⟩
  | ack n =>
    rw [show ft.handleSessionEvent (.ack n) = _ from handleAck_resting h]
    exact ⟨(List.append_nil _).symm, rfl⟩
  | synced block version => exact ⟨(List.append_nil _).symm, rfl⟩
  | resendRequested n => exact ⟨(List.append_nil _).symm, rfl⟩
  | fatalError => exact ⟨rfl, rfl⟩
  | outOfSync expected got => exact ⟨rfl, rfl⟩
  | timeout sync => exact ⟨rfl, rfl⟩

theorem fold_resting {ft : FileTransfer} (h : ft.state.awaited = none) (es : List Event) :
    (es.foldl handleSessionEvent ft).outEvents = ft.outEvents ++ failuresOf es
      ∧ (es.foldl handleSessionEvent ft).state
        = (if anyFailure es then .failed else ft.state) := by
  induction es generalizing ft with
  | nil => exact ⟨(List.append_nil _).symm, rfl⟩
  | cons e es ih =>
    obtain ⟨h1, h2⟩ := handle_resting h e
    have h' : (ft.handleSessionEvent e).state.awaited = none := by
      rw [h2]
      split_ifs
      · rfl
      · exact h
    obtain ⟨h3, h4⟩ := ih h'
    rw [List.foldl_cons, h3, h4, h1, h2]
    refine ⟨?_, ?_⟩
    · rw [List.append_assoc]
      congr 1
      exact List.filterMap_append.symm
    · have hany : anyFailure (e :: es) = (anyFailure [e] || anyFailure es) := by
        simp [anyFailure]
      rw [hany]
      cases anyFailure [e] <;> cases anyFailure es <;> rfl

/-! ## Events while an operation waits -/

/-- What idle events may change. -/
structure Idles (op : Operation) (es : List Event) (ft ft' : FileTransfer) : Prop where
  state : ft'.state = ft.state
  requested : ft'.requestedCompression = ft.requestedCompression
  outEvents : ft'.outEvents = ft.outEvents
  heard : ft'.heard = (verdictIn op ft.requestedCompression es).or ft.heard
  consistent : ft.Consistent → ft'.Consistent

theorem idles_one {ft : FileTransfer} {op : Operation} (hst : ft.state = op.awaiting) {e : Event}
    (he : e.idle = true) : Idles op [e] ft (ft.handleSessionEvent e) := by
  obtain ⟨hack, hf⟩ := Event.idle_iff.mp he
  by_cases hl : ∃ line, e = .asciiLine line
  · obtain ⟨line, rfl⟩ := hl
    have hh := handleAsciiLine_waiting hst line
    refine ⟨hh.state, hh.requested, hh.outEvents, ?_, hh.consistent⟩
    rw [verdictIn_cons]
    exact hh.heard
  · rw [handle_other hf hack (by simpa using hl)]
    refine ⟨rfl, rfl, rfl, ?_, id⟩
    cases e with
    | asciiLine line => exact absurd ⟨line, rfl⟩ hl
    | _ => rfl

theorem fold_idle {ft : FileTransfer} {op : Operation} (hst : ft.state = op.awaiting)
    {es : List Event} (hes : ∀ e ∈ es, e.idle = true) :
    Idles op es ft (es.foldl handleSessionEvent ft) := by
  induction es generalizing ft with
  | nil => exact ⟨rfl, rfl, rfl, rfl, id⟩
  | cons e es ih =>
    have h1 := idles_one hst (hes e List.mem_cons_self)
    have h2 := ih (h1.state.trans hst) fun x hx => hes x (List.mem_cons_of_mem _ hx)
    refine ⟨h2.state.trans h1.state, h2.requested.trans h1.requested,
      h2.outEvents.trans h1.outEvents, ?_, fun hc => h2.consistent (h1.consistent hc)⟩
    rw [List.foldl_cons, h2.heard, h1.heard, h1.requested, verdictIn_cons op _ e es,
      verdictIn_cons op _ e [], ← Option.or_assoc]
    rfl

/-! ## Any event -/

theorem handle_protocolId (ft : FileTransfer) (e : Event) :
    (ft.handleSessionEvent e).protocolId = ft.protocolId := by
  cases e with
  | asciiLine line =>
    show (ft.handleAsciiLine line).protocolId = _
    obtain ⟨pending, version, hputs⟩ := handleAsciiLine_puts ft line
    rw [hputs]
  | ack n =>
    show ft.handleAck.protocolId = _
    unfold handleAck
    dsimp only
    split <;> rfl
  | _ => rfl

theorem fold_protocolId (es : List Event) (ft : FileTransfer) :
    (es.foldl handleSessionEvent ft).protocolId = ft.protocolId := by
  induction es generalizing ft with
  | nil => rfl
  | cons e es ih => rw [List.foldl_cons, ih, handle_protocolId]

theorem resolved_of_none {ft : FileTransfer} (h : ft.pendingAscii = none) : ft.Resolved := by
  intro version c hh
  unfold heard at hh
  rw [h] at hh
  cases hh

/-- An ack takes the pending line. -/
theorem handleAck_pendingAscii {ft : FileTransfer} (hc : ft.Consistent) :
    ft.handleAck.pendingAscii = none := by
  cases haw : ft.state.awaited with
  | none => rw [handleAck_resting haw]
  | some op => exact (handleAck_waiting (State.awaited_eq_some.mp haw) hc).pending

/-- While nothing waits, what is neither an ack nor a failure passes. -/
theorem handle_idle_resting {ft : FileTransfer} (haw : ft.state.awaited = none) {e : Event}
    (he : e.idle = true) : ft.handleSessionEvent e = ft := by
  obtain ⟨hack, hf⟩ := Event.idle_iff.mp he
  cases e with
  | asciiLine line => exact handleAsciiLine_resting haw line
  | ack n => cases hack
  | _ => exact handle_other hf hack (by simp)

/-- **The pending line stays one of the operation that waits.** -/
theorem handle_consistent {ft : FileTransfer} (hc : ft.Consistent) (e : Event) :
    (ft.handleSessionEvent e).Consistent := by
  cases hf : e.failure with
  | some err =>
    rw [handle_failure hf]
    exact fun p _ => .inl rfl
  | none =>
    cases hack : e.isAck with
    | true =>
      cases e <;> cases hack
      exact consistent_of_none (handleAck_pendingAscii hc)
    | false =>
      have he := Event.idle_iff.mpr ⟨hack, hf⟩
      cases haw : ft.state.awaited with
      | none =>
        rw [handle_idle_resting haw he]
        exact hc
      | some op => exact (idles_one (State.awaited_eq_some.mp haw) he).consistent hc

/-- And it never settles on `Auto`. -/
theorem handle_resolved {ft : FileTransfer} (hc : ft.Consistent) (hr : ft.Resolved) (e : Event) :
    (ft.handleSessionEvent e).Resolved := by
  cases hf : e.failure with
  | some err =>
    rw [handle_failure hf]
    exact hr
  | none =>
    cases hack : e.isAck with
    | true =>
      cases e <;> cases hack
      exact resolved_of_none (handleAck_pendingAscii hc)
    | false =>
      have he := Event.idle_iff.mpr ⟨hack, hf⟩
      cases haw : ft.state.awaited with
      | none =>
        rw [handle_idle_resting haw he]
        exact hr
      | some op =>
        -- what is pending is a verdict, and no verdict is `Auto`
        intro version c hh
        rw [(idles_one (State.awaited_eq_some.mp haw) he).heard, verdictIn_cons] at hh
        cases hv : e.verdict op ft.requestedCompression with
        | none =>
          rw [hv] at hh
          exact hr version c hh
        | some v =>
          rw [hv] at hh
          cases e with
          | asciiLine line => exact verdict_ne_auto (hv.trans hh)
          | _ => cases hv

theorem fold_sane {ft : FileTransfer} (hc : ft.Consistent) (hr : ft.Resolved) (es : List Event) :
    (es.foldl handleSessionEvent ft).Consistent ∧ (es.foldl handleSessionEvent ft).Resolved := by
  induction es generalizing ft with
  | nil => exact ⟨hc, hr⟩
  | cons e es ih =>
    exact ih (handle_consistent hc e) (handle_resolved hc hr e)

/-! ## The poll -/

/-- The operation that waits succeeds: the first event that is not idle is an ack, and what
was heard before it is accepted. -/
structure Due (ft : FileTransfer) (es : List Event) (op : Operation) (post : List Event)
    (ev : FileEvent) : Prop where
  state : ft.state = op.awaiting
  acked : ∃ n, es.dropWhile Event.idle = .ack n :: post
  settled : op.settle ((verdictIn op ft.requestedCompression (es.takeWhile Event.idle)).or ft.heard)
    = ev
  answers : ev.answers = some op

/-- What handling all that is pending leaves untold, and the state. -/
inductive Drained (ft : FileTransfer) (es : List Event) : List FileEvent → State → Prop where
  | nothing (hno : ∀ op post ev, ¬ Due ft es op post ev) : Drained ft es [] ft.state
  | failed (hno : ∀ op post ev, ¬ Due ft es op post ev) (err : FileError) (rest : List FileEvent)
      (hrest : ∀ ev ∈ rest, ∃ err, ev = .failed err) : Drained ft es (.failed err :: rest) .failed
  | answered (op : Operation) (post : List Event) (ev : FileEvent) (hd : Due ft es op post ev) :
      Drained ft es (ev :: failuresOf post) (if anyFailure post then .failed else op.done)

theorem head_failuresOf {es : List Event} (h : anyFailure es = true) :
    ∃ err rest, failuresOf es = .failed err :: rest ∧ ∀ ev ∈ rest, ∃ err, ev = .failed err := by
  cases hfs : failuresOf es with
  | nil =>
    obtain ⟨e, he, hf⟩ := List.any_eq_true.mp h
    obtain ⟨err, herr⟩ := Option.isSome_iff_exists.mp hf
    have hnone := List.filterMap_eq_nil_iff.mp hfs e he
    rw [herr] at hnone
    cases hnone
  | cons ev rest =>
    have hall : ∀ x ∈ ev :: rest, ∃ err, x = .failed err := fun x hx =>
      failed_of_mem_failuresOf (hfs ▸ hx)
    obtain ⟨err, rfl⟩ := hall ev List.mem_cons_self
    exact ⟨err, rest, rfl, fun x hx => hall x (List.mem_cons_of_mem _ hx)⟩

/-- While nothing waits, only failures are told. -/
theorem drained_resting {ft : FileTransfer} (haw : ft.state.awaited = none)
    (hout : ft.outEvents = []) (es : List Event) :
    Drained ft es (es.foldl handleSessionEvent ft).outEvents
      (es.foldl handleSessionEvent ft).state := by
  have hno : ∀ op post ev, ¬ Due ft es op post ev := by
    intro op post ev hd
    rw [hd.state, Operation.awaited_awaiting] at haw
    cases haw
  obtain ⟨h1, h2⟩ := fold_resting haw es
  rw [h1, h2, hout, List.nil_append]
  cases hany : anyFailure es with
  | false =>
    rw [failuresOf_nil hany]
    exact .nothing hno
  | true =>
    obtain ⟨err, rest, hfs, hrest⟩ := head_failuresOf hany
    rw [hfs]
    exact .failed hno err rest hrest

/-- While an operation waits, the first event that is not idle decides. -/
theorem drained_waiting {ft : FileTransfer} {op : Operation} (hst : ft.state = op.awaiting)
    (hout : ft.outEvents = []) (hc : ft.Consistent) (es : List Event) :
    Drained ft es (es.foldl handleSessionEvent ft).outEvents
      (es.foldl handleSessionEvent ft).state := by
  have hi : Idles op (es.takeWhile Event.idle) ft _ :=
    fold_idle hst fun e he => List.mem_takeWhile_imp he
  have hst1 := hi.state.trans hst
  have hout1 := hi.outEvents.trans hout
  have hheard := hi.heard
  have hc1 := hi.consistent hc
  have hop : ∀ {op' post ev}, Due ft es op' post ev → op' = op :=
    fun hd => Operation.awaiting_injective (hd.state.symm.trans hst)
  rw [show es.foldl handleSessionEvent ft = (es.dropWhile Event.idle).foldl handleSessionEvent
      ((es.takeWhile Event.idle).foldl handleSessionEvent ft) by
    rw [← List.foldl_append, List.takeWhile_append_dropWhile]]
  generalize hft1 : (es.takeWhile Event.idle).foldl handleSessionEvent ft = ft1 at *
  cases hdrop : es.dropWhile Event.idle with
  | nil =>
    rw [List.foldl_nil, hout1, hi.state]
    refine .nothing fun op' post ev hd => ?_
    obtain ⟨n, hn⟩ := hd.acked
    rw [hdrop] at hn
    cases hn
  | cons x post =>
    have hx : x.idle = false := by
      have hhead := List.head?_dropWhile_not Event.idle es
      rw [hdrop] at hhead
      simpa using hhead
    rw [List.foldl_cons]
    cases hf : x.failure with
    | some err =>
      -- a failure comes first
      rw [handle_failure hf]
      obtain ⟨h1, h2⟩ := fold_resting (show (ft1.fail err).state.awaited = none from rfl) post
      rw [h1, h2]
      have hnil : (ft1.fail err).outEvents = [.failed err] := by
        show ft1.outEvents ++ [.failed err] = _
        rw [hout1]
        rfl
      rw [hnil, show (if anyFailure post then State.failed else (ft1.fail err).state) = .failed by
        split_ifs <;> rfl]
      refine .failed (fun op' post' ev hd => ?_) err _ fun ev hev => failed_of_mem_failuresOf hev
      obtain ⟨n, hn⟩ := hd.acked
      rw [hdrop] at hn
      rw [(List.cons.inj hn).1] at hf
      cases hf
    | none =>
      -- an ack does
      obtain ⟨n, rfl⟩ : ∃ n, x = .ack n := by
        unfold Event.idle at hx
        rw [hf] at hx
        cases x <;> simp [Event.isAck] at hx
        exact ⟨_, rfl⟩
      have hset := handleAck_waiting hst1 hc1
      have hout2 : (ft1.handleSessionEvent (.ack n)).outEvents = [op.settle ft1.heard] := by
        rw [show ft1.handleSessionEvent (.ack n) = ft1.handleAck from rfl, hset.outEvents, hout1]
        rfl
      rcases hset.state with ⟨hans, hst2⟩ | ⟨⟨err, herr⟩, hst2⟩
      · have hst2' : (ft1.handleSessionEvent (.ack n)).state = op.done := hst2
        have haw2 : (ft1.handleSessionEvent (.ack n)).state.awaited = none := by
          rw [hst2', Operation.awaited_done]
        obtain ⟨h1, h2⟩ := fold_resting haw2 post
        rw [h1, h2, hout2, hst2']
        refine .answered op post _ ⟨hst, ⟨n, hdrop⟩, ?_, hans⟩
        rw [hheard]
      · have hst2' : (ft1.handleSessionEvent (.ack n)).state = .failed := hst2
        have haw2 : (ft1.handleSessionEvent (.ack n)).state.awaited = none := by rw [hst2']; rfl
        obtain ⟨h1, h2⟩ := fold_resting haw2 post
        rw [h1, h2, hout2, hst2', herr, show (if anyFailure post then State.failed else .failed)
          = .failed by split_ifs <;> rfl]
        refine .failed (fun op' post' ev hd => ?_) err _ fun ev hev => failed_of_mem_failuresOf hev
        obtain rfl := hop hd
        have hev := hd.settled
        rw [← hheard, herr] at hev
        have hans := hd.answers
        rw [← hev] at hans
        cases hans

/-- **Everything a poll can return**, and the state it leaves. -/
inductive Polled (ft : FileTransfer) (es : List Event) : Option FileEvent → State → Prop where
  | nothing (hno : ∀ op post ev, ¬ Due ft es op post ev) : Polled ft es none ft.state
  | failed (hno : ∀ op post ev, ¬ Due ft es op post ev) (err : FileError) :
      Polled ft es (some (.failed err)) .failed
  | answered (op : Operation) (post : List Event) (ev : FileEvent) (hd : Due ft es op post ev) :
      Polled ft es (some ev) (if anyFailure post then .failed else op.done)

theorem polled {ft : FileTransfer} (s : Session) (h : ft.Prompt) :
    Polled ft s.events (ft.poll s).1 (ft.poll s).2.1.state ∧ (ft.poll s).2.1.Prompt := by
  obtain ⟨hc, hr⟩ := fold_sane h.consistent h.resolved s.events
  have hproto := (fold_protocolId s.events ft).trans h.protocol
  have hpoll : ft.poll s = ((s.events.foldl handleSessionEvent ft).popEvent.1,
      (s.events.foldl handleSessionEvent ft).popEvent.2, { s with events := [] }) := by
    unfold poll
    rw [drain_eq]
  rw [hpoll]
  dsimp only
  generalize hft : s.events.foldl handleSessionEvent ft = ft' at *
  by_cases hout : ft.outEvents = []
  · -- nothing untold: what the poll returns is the first thing told now
    have hd : Drained ft s.events ft'.outEvents ft'.state := by
      rw [← hft]
      cases haw : ft.state.awaited with
      | none => exact drained_resting haw hout s.events
      | some op => exact drained_waiting (State.awaited_eq_some.mp haw) hout h.consistent s.events
    generalize ho' : ft'.outEvents = out at hd
    generalize hs' : ft'.state = st at hd
    cases hd with
    | nothing hno =>
      rw [popEvent_nil ho']
      refine ⟨by rw [hs']; exact .nothing hno, hc, ?_, fun hne => absurd ho' hne, hr, hproto⟩
      rw [ho']
      exact fun _ hm => (List.not_mem_nil hm).elim
    | failed hno err rest hrest =>
      rw [popEvent_cons ho']
      exact ⟨by rw [hs']; exact .failed hno err, hc, hrest, fun _ => hs', hr, hproto⟩
    | answered op post ev hd =>
      rw [popEvent_cons ho']
      refine ⟨by rw [hs']; exact .answered op post ev hd, hc,
        fun x hx => failed_of_mem_failuresOf hx, ?_, hr, hproto⟩
      intro hne
      -- a failure behind the ack stays untold, and the state shows it already
      cases hany : anyFailure post with
      | false => exact absurd (failuresOf_nil hany) hne
      | true =>
        rw [hany] at hs'
        exact hs'
  · -- what is untold is a failure, and the transfer has failed
    have hst := h.failed hout
    have hno : ∀ op post ev, ¬ Due ft s.events op post ev := by
      intro op post ev hd
      have := hd.state
      rw [hst] at this
      cases op <;> cases this
    obtain ⟨h1, h2⟩ := fold_resting (show ft.state.awaited = none by rw [hst]; rfl) s.events
    rw [hft] at h1 h2
    have hst' : ft'.state = .failed := by
      rw [h2, hst]
      split_ifs <;> rfl
    obtain ⟨ev, rest, hev⟩ := List.exists_cons_of_ne_nil hout
    have huntold := h.untold
    rw [hev] at h1 huntold
    obtain ⟨err, rfl⟩ := huntold ev List.mem_cons_self
    rw [popEvent_cons (show ft'.outEvents = .failed err :: (rest ++ failuresOf s.events) from h1)]
    refine ⟨by rw [hst']; exact .failed hno err, hc, ?_, fun _ => hst', hr, hproto⟩
    intro x hx
    rcases List.mem_append.mp hx with hx | hx
    · exact huntold x (List.mem_cons_of_mem _ hx)
    · exact failed_of_mem_failuresOf hx

/-! ## What a poll tells for certain -/

/-- An event tells at most one thing, and a failure is told. -/
theorem handle_told (ft : FileTransfer) (e : Event) :
    ∃ out, (ft.handleSessionEvent e).outEvents = ft.outEvents ++ out
      ∧ out.length ≤ 1 ∧ (e.failure.isSome → out ≠ []) := by
  have hnone : ∀ {ft' : FileTransfer}, ft'.outEvents = ft.outEvents →
      ∃ out, ft'.outEvents = ft.outEvents ++ out ∧ out.length ≤ 1
        ∧ ((none : Option FileError).isSome → out ≠ []) :=
    fun h => ⟨[], h.trans (List.append_nil _).symm, Nat.zero_le _, fun h => nomatch h⟩
  have hone : ∀ {p : Prop} {ft' : FileTransfer} (ev : FileEvent),
      ft'.outEvents = ft.outEvents ++ [ev] → ∃ out, ft'.outEvents = ft.outEvents ++ out
        ∧ out.length ≤ 1 ∧ (p → out ≠ []) :=
    fun ev h => ⟨[ev], h, Nat.le_refl _, fun _ => List.cons_ne_nil _ _⟩
  cases e with
  | asciiLine line =>
    obtain ⟨pending, version, hputs⟩ := handleAsciiLine_puts ft line
    exact hnone (show (ft.handleAsciiLine line).outEvents = ft.outEvents by rw [hputs])
  | ack n =>
    show ∃ out, ft.handleAck.outEvents = _ ∧ _
    unfold handleAck
    dsimp only
    split <;> first
      | exact hone _ rfl
      | exact hnone rfl
  | synced block version => exact hnone rfl
  | resendRequested n => exact hnone rfl
  | fatalError => exact hone _ rfl
  | outOfSync expected got => exact hone _ rfl
  | timeout sync => exact hone _ rfl

theorem fold_told (es : List Event) (ft : FileTransfer) :
    ∃ out, (es.foldl handleSessionEvent ft).outEvents = ft.outEvents ++ out
      ∧ (anyFailure es = true → out ≠ []) := by
  induction es generalizing ft with
  | nil => exact ⟨[], (List.append_nil _).symm, fun h => nomatch h⟩
  | cons e es ih =>
    obtain ⟨out, h1, -, h2⟩ := handle_told ft e
    obtain ⟨out', h3, h4⟩ := ih (ft.handleSessionEvent e)
    refine ⟨out ++ out', by rw [List.foldl_cons, h3, h1, List.append_assoc], ?_⟩
    intro hany hnil
    obtain ⟨hout, hout'⟩ := List.append_eq_nil_iff.mp hnil
    rcases Bool.or_eq_true_iff.mp (show (e.failure.isSome || anyFailure es) = true from hany)
      with h | h
    · exact h2 h hout
    · exact h4 h hout'

/-- A poll that returns nothing had no failure to tell. -/
theorem no_failure_of_poll {ft : FileTransfer} {s : Session} (h : (ft.poll s).1 = none) :
    anyFailure s.events = false := by
  obtain ⟨out, h1, h2⟩ := fold_told s.events ft
  unfold poll at h
  rw [drain_eq] at h
  dsimp only at h
  cases hout : (s.events.foldl handleSessionEvent ft).outEvents with
  | cons x rest => rw [popEvent_cons hout] at h; cases h
  | nil =>
    rw [hout] at h1
    by_contra hany
    exact h2 (Bool.not_eq_false _ ▸ hany) (List.append_eq_nil_iff.mp h1.symm).2

/-- What is told as negotiated is what the transfer goes on with. -/
def Agreed (ft : FileTransfer) : Prop :=
  ∀ version c, .negotiated version c ∈ ft.outEvents →
    ft.negotiated = some c ∧ ft.state ≠ .awaitingQueryReply

theorem handle_agreed {ft : FileTransfer} (h : ft.Agreed) (e : Event) :
    (ft.handleSessionEvent e).Agreed := by
  have hfail : ∀ err, (ft.fail err).Agreed := by
    intro err version c hm
    rcases List.mem_append.mp hm with hm | hm
    · exact ⟨(h version c hm).1, fun hst => nomatch hst⟩
    · cases List.mem_singleton.mp hm
  cases e with
  | asciiLine line =>
    show (ft.handleAsciiLine line).Agreed
    obtain ⟨pending, version, hputs⟩ := handleAsciiLine_puts ft line
    rw [hputs]
    exact h
  | ack n =>
    show ft.handleAck.Agreed
    -- the one ack that settles on a compression comes while the query waits
    have hpush : ∀ (st : State) (ev : FileEvent), st ≠ .awaitingQueryReply →
        (∀ version c, ev ≠ .negotiated version c) →
        ({ ft with pendingAscii := none }.succeed st ev).Agreed := by
      intro st ev hst hev version c hm
      rcases List.mem_append.mp hm with hm | hm
      · exact ⟨(h version c hm).1, hst⟩
      · exact absurd (List.mem_singleton.mp hm).symm (hev version c)
    have hfail' : ∀ err, ({ ft with pendingAscii := none }.fail err).Agreed := hfail
    unfold handleAck
    dsimp only
    split <;> first
      | exact hfail' _
      | exact hpush _ _ (by decide) (by simp)
      | exact h
      | skip
    rename_i hst _
    intro version c hm
    rcases List.mem_append.mp hm with hm | hm
    · exact absurd hst (h version c hm).2
    · obtain ⟨rfl, rfl⟩ := FileEvent.negotiated.inj (List.mem_singleton.mp hm)
      exact ⟨rfl, fun hst => nomatch hst⟩
  | synced block version => exact h
  | resendRequested n => exact h
  | fatalError => exact hfail _
  | outOfSync expected got => exact hfail _
  | timeout sync => exact hfail _

theorem fold_agreed (es : List Event) {ft : FileTransfer} (h : ft.Agreed) :
    (es.foldl handleSessionEvent ft).Agreed := by
  induction es generalizing ft with
  | nil => exact h
  | cons e es ih => exact ih (handle_agreed h e)

/-- **What a poll tells as negotiated** is what the transfer goes on with. -/
theorem negotiated_of_poll {ft : FileTransfer} {s : Session} (h : ft.Prompt) {version : Str}
    {c : Compression} (hev : (ft.poll s).1 = some (.negotiated version c)) :
    (ft.poll s).2.1.negotiated = some c := by
  have hag : ft.Agreed := by
    intro version c hm
    obtain ⟨err, herr⟩ := h.untold _ hm
    cases herr
  have hag' := fold_agreed s.events hag
  unfold poll at hev ⊢
  rw [drain_eq] at hev ⊢
  dsimp only at hev ⊢
  cases hout : (s.events.foldl handleSessionEvent ft).outEvents with
  | nil => rw [popEvent_nil hout] at hev; cases hev
  | cons x rest =>
    rw [popEvent_cons hout] at hev ⊢
    refine (hag' version c ?_).1
    rw [hout, ← Option.some.inj hev]
    exact List.mem_cons_self

/-! ## Polls with nothing but idle events pending -/

theorem poll_of_outEvents_nil {ft : FileTransfer} {s : Session}
    (h : (s.events.foldl handleSessionEvent ft).outEvents = []) :
    ft.poll s = (none, s.events.foldl handleSessionEvent ft, { s with events := [] }) := by
  unfold poll
  rw [drain_eq]
  dsimp only
  rw [popEvent_nil h]

/-- An operation that waits goes on waiting. -/
theorem poll_waiting {ft : FileTransfer} {s : Session} {op : Operation} (h : ft.Prompt)
    (hst : ft.state = op.awaiting) (hes : ∀ e ∈ s.events, e.idle = true) :
    (ft.poll s).1 = none ∧ Idles op s.events ft (ft.poll s).2.1 := by
  have hi := fold_idle hst hes
  have hout : ft.outEvents = [] := by
    by_contra hne
    have := h.failed hne
    rw [hst] at this
    cases op <;> cases this
  rw [poll_of_outEvents_nil (hi.outEvents.trans hout)]
  exact ⟨rfl, hi⟩

/-- And a transfer at rest stays where it is. -/
theorem poll_resting {ft : FileTransfer} {s : Session} (h : ft.Prompt)
    (hst : ft.state.awaited = none) (hne : ft.state ≠ .failed) (hes : anyFailure s.events = false) :
    (ft.poll s).1 = none ∧ (ft.poll s).2.1.state = ft.state := by
  obtain ⟨h1, h2⟩ := fold_resting hst s.events
  have hout : ft.outEvents = [] := by
    by_contra hout
    exact hne (h.failed hout)
  rw [failuresOf_nil hes, hout] at h1
  rw [poll_of_outEvents_nil h1]
  refine ⟨rfl, ?_⟩
  rw [h2, hes]
  rfl

end FileTransfer

end MarlinTransfer
