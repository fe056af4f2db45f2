import MarlinTransfer.FileTransfer.Success
import MarlinTransfer.Session.Buffer
import MarlinTransfer.Session.Lines

/-!
# Leftovers of an earlier transfer

A transfer answers to any ack the session tells, its own packet's or not. On a session
that still holds a data packet of somebody else, or a pending ack of one, a device can
make it take that ack for its own; the condition `Undisturbed` on the session is exactly
what rules this out.
-/

namespace MarlinTransfer

open Codec Text Session

/-- The events that are outcomes of an operation. -/
def FileEvent.isOutcome : FileEvent → Bool
  | .failed (.protocolViolation _ _) => true
  | .failed _ => false
  | _ => true

/-- Every outcome is told at the ack of the packet which the operation itself sent. -/
def OwnOutcomes (tr : List Entry) : Prop :=
  ∀ pre e owner out post, tr = pre ++ .handled e owner out :: post →
    ∀ ev ∈ out, ev.isOutcome = true → ∃ op requested packet mid,
      WaitsFor pre op requested packet mid ∧ e.isAck = true ∧ owner = some packet

/--
What the session must not hold when a transfer is constructed on it. Either a failure is
pending ahead of any ack, so that the transfer fails before it can take one; or neither an
ack nor a failure is pending, and every packet that is not done with is a handshake.
-/
def Session.Undisturbed (s : Session) : Prop :=
  (∃ pre e post, s.events = pre ++ e :: post ∧ e.failure.isSome ∧ ∀ x ∈ pre, x.isAck = false)
    ∨ (∀ e ∈ s.events, e.isAck = false ∧ e.failure = none)
      ∧ (∀ f, s.inFlight = some f → f.isSyncHandshake = true)
      ∧ ∀ q ∈ s.queued, q.isSyncHandshake = true

/-! ## An undisturbed session -/

theorem doomed_iff {ps : List (Event × Option Nat)} :
    Doomed ps ↔ ∃ pre e post, ps.map Prod.fst = pre ++ e :: post ∧ e.failure.isSome
      ∧ ∀ x ∈ pre, x.isAck = false := by
  constructor
  · rintro ⟨pre, p, post, rfl, hp, hpre⟩
    refine ⟨pre.map Prod.fst, p.1, post.map Prod.fst, by simp, hp, ?_⟩
    intro x hx
    obtain ⟨q, hq, rfl⟩ := List.mem_map.mp hx
    exact hpre q hq
  · rintro ⟨pre, e, post, heq, he, hpre⟩
    obtain ⟨l1, l2, rfl, rfl, h2⟩ := List.map_eq_append_iff.mp heq
    obtain ⟨p, l3, rfl, rfl, rfl⟩ := List.map_eq_cons_iff.mp h2
    exact ⟨l1, p, l3, rfl, he, fun q hq => hpre q.1 (List.mem_map_of_mem hq)⟩

theorem clear_iff {ps : List (Event × Option Nat)} :
    Clear ps ↔ ∀ e ∈ ps.map Prod.fst, e.isAck = false ∧ e.failure = none := by
  constructor
  · intro h e he
    obtain ⟨p, hp, rfl⟩ := List.mem_map.mp he
    exact h p hp
  · exact fun h p hp => h p.1 (List.mem_map_of_mem hp)

theorem undisturbed_iff {w : Watched} {ds : List Dispatch} (hc : Conserved w ds) :
    w.session.Undisturbed ↔ Doomed (w.log.emitted.drop w.log.polled)
      ∨ Clear (w.log.emitted.drop w.log.polled) ∧ OnlyHandshakes w := by
  unfold Session.Undisturbed
  rw [doomed_iff, clear_iff, ← hc.events]
  rfl

/-- The invariant of a transfer says whose ack told each outcome. -/
theorem AllLegit.ownOutcomes {tr : List Entry} (h : AllLegit tr) : OwnOutcomes tr := by
  intro pre e owner out post htr ev hev hout
  rcases (h pre e owner out post htr).own ev hev with ⟨err, hf, rfl⟩ | ⟨op, c, m, mid, hw, ha, ho, -⟩
  · cases e <;> cases hf <;> cases hout
  · exact ⟨op, c, m, mid, hw, ha, ho⟩

/-! ## Pending events, by their first ack or failure -/

/-- Nothing of interest is pending, a failure comes first, or an ack does. -/
theorem pending_cases (ps : List (Event × Option Nat)) :
    Clear ps ∨ Doomed ps ∨ ∃ pre n owner post, ps = pre ++ (.ack n, owner) :: post ∧ Clear pre := by
  induction ps with
  | nil => exact .inl clear_nil
  | cons p ps ih =>
    cases hf : p.1.failure with
    | some err => exact .inr (.inl ⟨[], p, ps, rfl, by rw [hf]; rfl, by simp⟩)
    | none =>
      cases hack : p.1.isAck with
      | true =>
        obtain ⟨e, owner⟩ := p
        cases e <;> cases hack
        exact .inr (.inr ⟨[], _, owner, ps, rfl, clear_nil⟩)
      | false =>
        rcases ih with hc | ⟨pre, q, post, rfl, hq, hpre⟩ | ⟨pre, n, owner, post, rfl, hpre⟩
        · refine .inl fun q hq => ?_
          rcases List.mem_cons.mp hq with rfl | hq
          · exact ⟨hack, hf⟩
          · exact hc q hq
        · refine .inr (.inl ⟨p :: pre, q, post, rfl, hq, fun x hx => ?_⟩)
          rcases List.mem_cons.mp hx with rfl | hx
          · exact hack
          · exact hpre x hx
        · refine .inr (.inr ⟨p :: pre, n, owner, post, rfl, fun x hx => ?_⟩)
          rcases List.mem_cons.mp hx with rfl | hx
          · exact ⟨hack, hf⟩
          · exact hpre x hx

/-- The owner of an ack is a packet that was retired. -/
theorem Conserved.ack_owner {w : Watched} {ds : List Dispatch} (hc : Conserved w ds) {n : UInt8}
    {owner : Option Nat} (hm : (Event.ack n, owner) ∈ w.log.emitted) :
    ∃ m, owner = some m ∧ m < w.log.retired.length := by
  obtain ⟨m, rfl⟩ := Option.isSome_iff_exists.mp (hc.unowned _ hm trivial)
  refine ⟨m, rfl, ?_⟩
  have hin : (Event.ack n, m) ∈ w.log.emitted.filterMap fun p => p.2.map (p.1, ·) :=
    List.mem_filterMap.mpr ⟨_, hm, rfl⟩
  rw [hc.owned] at hin
  obtain ⟨⟨p, i⟩, hp, heq⟩ := List.mem_map.mp hin
  obtain ⟨-, rfl⟩ := Prod.mk.inj heq
  have := (List.mem_zipIdx hp).2.1
  omega

/-! ## A query that hears somebody else's ack -/

theorem observe_trace (t : Transfer) (p : Event × Option Nat) :
    ∃ out, (t.observe p).trace = t.trace ++ [.handled p.1 p.2 out] := ⟨_, rfl⟩

/-- A transfer that has sent its query, as packet `m`, and waits for the answer. -/
structure Querying (m : Nat) (t : Transfer) : Prop where
  state : t.ft.state = .awaitingQueryReply
  requested : t.ft.requestedCompression = .none
  consistent : t.ft.Consistent
  /-- No answer to a query without compression is a refusal. -/
  heard : t.ft.heard = none ∨ ∃ ev, t.ft.heard = some (.accept ev) ∧ ev.isOutcome = true
  trace : ∃ requested mid, WaitsFor t.trace .query requested m mid

/-- No version is refused when no compression is asked for. -/
theorem verdict_query_none {line : Str} {v : Verdict} (h : verdict .query .none line = some v) :
    ∃ ev, v = .accept ev ∧ ev.isOutcome = true := by
  obtain ⟨rest, -, h⟩ := Option.bind_eq_some_iff.mp h
  obtain ⟨p, -, rfl⟩ := Option.map_eq_some_iff.mp h
  exact ⟨_, rfl, rfl⟩

namespace Querying

variable {m : Nat} {t : Transfer}

/-- An event that settles nothing leaves the query waiting. -/
theorem observe (h : Querying m t) {p : Event × Option Nat} (hack : p.1.isAck = false)
    (hf : p.1.failure = none) : Querying m (t.observe p) := by
  have hft : (t.ft.handleSessionEvent p.1).state = t.ft.state
      ∧ (t.ft.handleSessionEvent p.1).requestedCompression = t.ft.requestedCompression
      ∧ (t.ft.handleSessionEvent p.1).Consistent
      ∧ ((t.ft.handleSessionEvent p.1).heard = none
        ∨ ∃ ev, (t.ft.handleSessionEvent p.1).heard = some (.accept ev) ∧ ev.isOutcome = true) := by
    by_cases hl : ∃ line, p.1 = .asciiLine line
    · obtain ⟨line, hline⟩ := hl
      have hh : FileTransfer.Hears .query line t.ft (t.ft.handleSessionEvent p.1) := by
        rw [hline]
        exact FileTransfer.handleAsciiLine_waiting h.state line
      refine ⟨hh.state, hh.requested, hh.consistent h.consistent, ?_⟩
      rw [hh.heard, h.requested]
      cases hv : verdict .query .none line with
      | none => exact h.heard
      | some v =>
        obtain ⟨ev, rfl, hev⟩ := verdict_query_none hv
        exact .inr ⟨ev, rfl, hev⟩
    · rw [FileTransfer.handle_other hf hack (by simpa using hl)]
      exact ⟨rfl, rfl, h.consistent, h.heard⟩
  obtain ⟨h1, h2, h3, h4⟩ := hft
  obtain ⟨c, mid, hw⟩ := h.trace
  obtain ⟨pre, hpre⟩ := hw.trace
  obtain ⟨out, hout⟩ := observe_trace t p
  refine ⟨h1.trans h.state, h2.trans h.requested, h3, h4, c, mid ++ [.handled p.1 p.2 out],
    ⟨pre, ?_⟩, ?_⟩
  · rw [hout, hpre, List.append_assoc]
    rfl
  · rw [callsOf_append, hw.none_since]
    rfl

theorem run (h : Querying m t) {ps : List (Event × Option Nat)} (hps : Clear ps) :
    Querying m (ps.foldl Transfer.observe t) := by
  induction ps generalizing t with
  | nil => exact h
  | cons p ps ih =>
    exact ih (h.observe (hps p List.mem_cons_self).1 (hps p List.mem_cons_self).2) hps.tail

/-- The next ack settles the query, whoever's it is. -/
theorem settled (h : Querying m t) (n : UInt8) (owner : Option Nat) :
    ∃ ev, ev.isOutcome = true
      ∧ (t.observe (.ack n, owner)).trace = t.trace ++ [.handled (.ack n) owner [ev]] := by
  have hset := FileTransfer.handleAck_waiting (show t.ft.state = Operation.query.awaiting from h.state)
    h.consistent
  have hout : (t.ft.handleSessionEvent (.ack n)).outEvents
      = t.ft.outEvents ++ [Operation.query.settle t.ft.heard] := hset.outEvents
  refine ⟨Operation.query.settle t.ft.heard, ?_, Sound.observe_out (p := (.ack n, owner)) hout⟩
  rcases h.heard with hh | ⟨ev, hh, hev⟩
  · rw [hh]
    rfl
  · rw [hh]
    exact hev

end Querying

/-- Handling events only adds to the trace. -/
theorem foldl_observe_trace (ps : List (Event × Option Nat)) (t : Transfer) :
    ∃ more, (ps.foldl Transfer.observe t).trace = t.trace ++ more := by
  induction ps generalizing t with
  | nil => exact ⟨[], (List.append_nil _).symm⟩
  | cons p ps ih =>
    obtain ⟨more, hmore⟩ := ih (t.observe p)
    obtain ⟨out, hout⟩ := observe_trace t p
    refine ⟨.handled p.1 p.2 out :: more, ?_⟩
    rw [List.foldl_cons, hmore, hout, List.append_assoc]
    rfl

/-- **An ack that is not the query's own, pending while it waits, is taken for it.** -/
theorem not_ownOutcomes {t : Transfer} {m k : Nat} {n : UInt8}
    {pre post : List (Event × Option Nat)} (h : Querying m t)
    (hp : t.pending = pre ++ (.ack n, some k) :: post) (hpre : Clear pre) (hk : k ≠ m) :
    ¬ OwnOutcomes t.poll.trace := by
  intro hown
  have hq := h.run hpre
  obtain ⟨ev, hev, htr⟩ := hq.settled n (some k)
  have hall : t.poll.trace
      = ((post.foldl Transfer.observe ((pre.foldl Transfer.observe t).observe (.ack n, some k)))).trace := by
    show (t.pending.foldl Transfer.observe t).trace = _
    rw [hp, List.foldl_append, List.foldl_cons]
  obtain ⟨more, hmore⟩ := foldl_observe_trace post
    ((pre.foldl Transfer.observe t).observe (.ack n, some k))
  rw [hmore, htr, List.append_assoc] at hall
  obtain ⟨op, c, packet, mid, hw, -, hpk⟩ :=
    hown _ _ _ _ _ hall ev (List.mem_singleton.mpr rfl) hev
  obtain ⟨c', mid', hw'⟩ := hq.trace
  obtain ⟨-, -, rfl, -⟩ := hw.unique hw'
  exact hk (Option.some.inj hpk)

/-! ## A device that acks somebody else's packet -/

/-- What a device can make a session tell, and which packet is acked last. -/
structure Elicits (w : Watched) (k : Nat) (ls : List Bytes) (now : Instant) : Prop where
  whole : ∀ x ∈ ls, (0x0A : UInt8) ∉ x
  told : ∃ es n, (w.takeAll (ls.map reply) now).log.emitted
      = w.log.emitted ++ es ++ [(.ack n, some k)] ∧ Clear es
  polled : (w.takeAll (ls.map reply) now).log.polled = w.log.polled

/-- The data packet in flight is acked by its own `ok`. -/
theorem elicits_inFlight {w : Watched} {ds : List Dispatch} (hc : Conserved w ds) {f : InFlight}
    (hf : w.session.inFlight = some f) (hff : f.isSyncHandshake = false) (now : Instant) :
    Elicits w w.log.retired.length [okLine f.sync] now := by
  have htake : w.takeAll ([okLine f.sync].map reply) now = w.take (.ok f.sync) now := by
    rw [List.map_singleton, reply_okLine]
    rfl
  have hret : Retires f (.ack f.sync) w (w.take (.ok f.sync) now) := by
    cases taken hc (.ok f.sync) now with
    | quiet ht hsync hsy hok hss => exact absurd rfl (hok f hf hff)
    | acked g hr hg ht =>
      obtain rfl := Option.some.inj (hf.symm.trans ht.was)
      exact ht
    | synced g sync block version hr => cases hr
  refine ⟨?_, ⟨[], f.sync, ?_, clear_nil⟩, ?_⟩
  · intro x hx
    rw [List.mem_singleton.mp hx]
    exact lf_notMem_okLine f.sync
  · rw [htake, hret.emitted, List.append_nil]
  · rw [htake, hret.polled]

/-- The answer to the handshake in flight. -/
def anySs : Bytes := ssLine 0 512 ['1']

/-- It lets the next packet go out, and tells nothing of interest. -/
theorem handshake_answered {w : Watched} {ds : List Dispatch} (hc : Conserved w ds) {f : InFlight}
    (hf : w.session.inFlight = some f) (hff : f.isSyncHandshake = true) (now : Instant) :
    Retires f (.synced 512 ['1']) w (w.take (reply anySs) now) := by
  have hreply : reply anySs = .ss 0 512 ['1'] := by
    rw [anySs, reply_ssLine]
    rw [show trim ['1'] = ['1'] by decide]
  rw [hreply]
  cases taken hc (.ss 0 512 ['1']) now with
  | quiet ht hsync hsy hok hss => exact absurd rfl (hss f hf hff 0 512 ['1'])
  | acked g hr => cases hr
  | synced g sync block version hr hg ht =>
    obtain rfl := Option.some.inj (hf.symm.trans ht.was)
    cases hr
    exact ht

theorem Elicits.cons {w : Watched} {k : Nat} {ls : List Bytes} {now : Instant} {f : InFlight}
    (h : Elicits (w.take (reply anySs) now) k ls now)
    (hr : Retires f (.synced 512 ['1']) w (w.take (reply anySs) now)) :
    Elicits w k (anySs :: ls) now := by
  obtain ⟨es, n, htold, hes⟩ := h.told
  refine ⟨?_, ⟨(.synced 512 ['1'], some w.log.retired.length) :: es, n, ?_, ?_⟩, ?_⟩
  · intro x hx
    rcases List.mem_cons.mp hx with rfl | hx
    · exact lf_notMem_ssLine 0 512 (by decide)
    · exact h.whole x hx
  · rw [List.map_cons, Watched.takeAll_cons, htold, hr.emitted]
    simp
  · intro p hp
    rcases List.mem_cons.mp hp with rfl | hp
    · exact ⟨rfl, rfl⟩
    · exact hes p hp
  · rw [List.map_cons, Watched.takeAll_cons, h.polled, hr.polled]

/-- The handshakes ahead of a data packet are answered first. -/
theorem elicits_queued (now : Instant) {q : Queued} (hqq : q.isSyncHandshake = false)
    {rest : List Queued} :
    ∀ (qs : List Queued) {w : Watched} {ds : List Dispatch} {f : InFlight}, Conserved w ds →
      w.session.inFlight = some f → f.isSyncHandshake = true →
      w.session.queued = qs ++ q :: rest → (∀ r ∈ qs, r.isSyncHandshake = true) →
      ∃ ls, Elicits w (w.log.retired.length + 1 + qs.length) ls now := by
  intro qs
  induction qs with
  -- the packet is next: answering the handshake in flight sends it
  | nil =>
    intro w ds f hc hf hff hq _
    have hr := handshake_answered hc hf hff now
    obtain ⟨ds', hc'⟩ := hc.take (reply anySs) now
    cases hr.resumes with
    | idle hq' => rw [hq] at hq'; cases hq'
    | launch q' f' hq' hf' hcar =>
      rw [hq] at hq'
      obtain ⟨rfl, -⟩ := List.cons.inj hq'
      have hnext := elicits_inFlight hc' hf' (hcar.handshake_eq.trans hqq) now
      rw [hr.retired, List.length_append] at hnext
      exact ⟨_, hnext.cons hr⟩
  -- another handshake is next: answering this one leaves one fewer in front
  | cons r qs ih =>
    intro w ds f hc hf hff hq hqs
    have hr := handshake_answered hc hf hff now
    obtain ⟨ds', hc'⟩ := hc.take (reply anySs) now
    cases hr.resumes with
    | idle hq' => rw [hq] at hq'; cases hq'
    | launch q' f' hq' hf' hcar =>
      rw [hq] at hq'
      obtain ⟨rfl, hrest⟩ := List.cons.inj hq'
      obtain ⟨ls, hls⟩ := ih hc' hf' (hcar.handshake_eq.trans (hqs _ List.mem_cons_self))
        hrest.symm fun x hx => hqs x (List.mem_cons_of_mem _ hx)
      rw [hr.retired, List.length_append] at hls
      refine ⟨anySs :: ls, ?_⟩
      have hcons := hls.cons hr
      rw [show w.log.retired.length + 1 + (r :: qs).length
        = w.log.retired.length + [(f, Event.synced 512 ['1'])].length + 1 + qs.length by
          simp only [List.length_cons, List.length_nil]; omega]
      exact hcons

/-- The first data packet of a queue. -/
theorem exists_first_data {qs : List Queued} (h : ¬ ∀ q ∈ qs, q.isSyncHandshake = true) :
    ∃ pre q post, qs = pre ++ q :: post ∧ q.isSyncHandshake = false
      ∧ ∀ r ∈ pre, r.isSyncHandshake = true := by
  induction qs with
  | nil => exact absurd (fun q hq => by cases hq) h
  | cons q qs ih =>
    cases hq : q.isSyncHandshake with
    | false => exact ⟨[], q, qs, rfl, hq, by simp⟩
    | true =>
      have hqs : ¬ ∀ r ∈ qs, r.isSyncHandshake = true := by
        intro hall
        refine h fun r hr => ?_
        rcases List.mem_cons.mp hr with rfl | hr
        · exact hq
        · exact hall r hr
      obtain ⟨pre, r, post, rfl, hr, hpre⟩ := ih hqs
      refine ⟨q :: pre, r, post, rfl, hr, fun x hx => ?_⟩
      rcases List.mem_cons.mp hx with rfl | hx
      · exact hq
      · exact hpre x hx

/-- **Somebody else's data packet can be acked while a query waits behind it.** -/
theorem elicits_of_outstanding {w w' : Watched} {ds ds' : List Dispatch} {b : BytesBuilder}
    (hc : Conserved w ds) (hc' : Conserved w' ds') (hs : Submitted ⟨b, false⟩ w w')
    (ho : ¬ OnlyHandshakes w) (now : Instant) :
    ∃ k ls, k < w.log.submitted.length ∧ Elicits w' k ls now := by
  -- with nothing in flight nothing would be outstanding at all
  obtain ⟨f, hf⟩ : ∃ f, w.session.inFlight = some f := by
    cases hf : w.session.inFlight with
    | some f => exact ⟨f, rfl⟩
    | none =>
      refine absurd ⟨fun g hg => ?_, ?_⟩ ho
      · rw [hf] at hg
        cases hg
      · rw [hc.idle hf]
        simp
  have hlen := hc.submitted_length
  rw [hf] at hlen
  cases hs with
  | launched _ hidle => rw [hf] at hidle; cases hidle
  | waits hbusy hf' hq' hl =>
    have hret : w'.log.retired = w.log.retired := by rw [hl]
    rw [hf] at hf'
    cases hff : f.isSyncHandshake with
    -- a data packet in flight is answered at once
    | false =>
      refine ⟨_, _, ?_, elicits_inFlight hc' hf' hff now⟩
      rw [hret, hlen]
      show w.log.retired.length < w.log.retired.length + 1 + w.session.queued.length
      omega
    -- otherwise one waits behind handshakes
    | true =>
      have hqs : ¬ ∀ q ∈ w.session.queued, q.isSyncHandshake = true := by
        intro hall
        refine ho ⟨fun g hg => ?_, hall⟩
        rw [← Option.some.inj (hf.symm.trans hg)]
        exact hff
      obtain ⟨pre, q, post, hsplit, hqq, hpre⟩ := exists_first_data hqs
      rw [hsplit, List.append_assoc] at hq'
      obtain ⟨ls, hls⟩ := elicits_queued now hqq pre hc' hf' hff hq' hpre
      refine ⟨_, ls, ?_, hls⟩
      rw [hret, hlen, hsplit]
      simp

/-! ## The theorem -/

/-- A query on a synced session. -/
theorem query_start {w : Watched} {ds : List Dispatch} (hc : Conserved w ds)
    (hsy : w.session.isSynced = true) (now : Instant) :
    ∃ t, (Transfer.start w).step (.query .none now) = some t
      ∧ Querying w.log.submitted.length t
      ∧ t.pending = w.log.emitted.drop w.log.polled
      ∧ (∃ ds', Conserved t.host ds') ∧ (∃ b, Submitted ⟨b, false⟩ w t.host)
      ∧ t.host.session.inboundBuf = w.session.inboundBuf := by
  have hfits : ([] : Bytes).length ≤ maxPayload := Nat.zero_le _
  obtain ⟨s', hs'⟩ := exists_send hsy (by decide : protocolFileTransfer ≤ 0xF)
    (by decide : ptQuery ≤ 0xF) hfits now
  have hreq : FileTransfer.new.request w.session .idle .awaitingQueryReply ptQuery [] now
      = some ({ FileTransfer.new with state := .awaitingQueryReply }, s') :=
    FileTransfer.request_eq_some.mpr ⟨rfl, hs', rfl⟩
  have hstep : (Transfer.start w).step (.query .none now)
      = some ⟨{ FileTransfer.new with state := .awaitingQueryReply },
          (w.enter (⟨protocolFileTransfer, ptQuery, []⟩, false)).after s',
          [.called .query .none w.log.submitted.length], []⟩ := by
    show (Transfer.start w).called .query [] (FileTransfer.new.request w.session .idle
      .awaitingQueryReply ptQuery [] now) = _
    rw [hreq]
    rfl
  have hsend : w.send protocolFileTransfer ptQuery [] now
      = some ((w.enter (⟨protocolFileTransfer, ptQuery, []⟩, false)).after s') := by
    unfold Watched.send
    rw [hs']
    rfl
  obtain ⟨-, -, -, b, -, -, -, hsub⟩ := submitted_send hc hsend
  refine ⟨_, hstep, ⟨rfl, rfl, ?_, .inl rfl, .none, [], ⟨[], rfl⟩, rfl⟩, ?_, hc.send hsend,
    ⟨b, hsub⟩, send_inboundBuf hs'⟩
  · exact FileTransfer.consistent_of_none rfl
  · unfold Transfer.pending
    cases hsub with
    | waits _ _ _ hl => rw [hl]
    | launched _ _ _ _ _ hl => rw [hl]

/--
**A transfer answers only to its own packets exactly when the session is undisturbed.**
For every reachable synced session: every run of every transfer constructed on it tells
its outcomes at the acks of the packets its own operations sent if and only if the session
was left without other people's acks and data packets, or with a failure ahead of them.
-/
theorem outcomes_own_iff_undisturbed (s : Session) (ops : List Op) (w : Watched)
    (hw : (Watched.start s.reset).run ops = some w) (hsy : w.session.isSynced = true) :
    (∀ (calls : List Call) (t : Transfer), (Transfer.start w).run calls = some t →
        OwnOutcomes t.trace)
      ↔ w.session.Undisturbed := by
  obtain ⟨ds, hc⟩ := conserved_run (conserved_start s) hw
  have hbuf : (0x0A : UInt8) ∉ w.session.inboundBuf :=
    unfinished_run (w := Watched.start s.reset) (by simp [Session.reset]) hw
  rw [undisturbed_iff hc]
  constructor
  · intro hall
    obtain ⟨t, hstep, hq, hpend, ⟨ds', hc'⟩, ⟨b, hsub⟩, hbuf'⟩ := query_start hc hsy 0
    have hlen := hc.submitted_length
    rcases pending_cases (w.log.emitted.drop w.log.polled) with hcl | hd | ⟨pre, n, owner, post, hp, hpre⟩
    · by_contra hno
      have ho : ¬ OnlyHandshakes w := fun ho => hno (.inr ⟨hcl, ho⟩)
      obtain ⟨k, ls, hk, hel⟩ := elicits_of_outstanding hc hc' hsub ho 0
      obtain ⟨es, n, htold, hes⟩ := hel.told
      -- the device answers what is outstanding, then the transfer polls
      have hfeed := Watched.feed_lines (w := t.host) (by rw [hbuf']; exact hbuf) hel.whole 0
      let t' : Transfer := { t with host := t.host.feed (Lines.unlines 0x0A ([0xFF] :: ls)) 0 }
      have hq' : Querying w.log.submitted.length t' :=
        ⟨hq.state, hq.requested, hq.consistent, hq.heard, hq.trace⟩
      have hpend' : t'.pending = (t.pending ++ es) ++ (.ack n, some k) :: [] := by
        show (t.host.feed _ 0).log.emitted.drop (t.host.feed _ 0).log.polled = _
        rw [hfeed, Watched.withBuf_log, htold, hel.polled, List.append_assoc,
          List.drop_append_of_le_length hc'.polled_le, List.append_assoc]
        rfl
      have hclear : Clear (t.pending ++ es) := by
        intro p hp
        rcases List.mem_append.mp hp with hp | hp
        · rw [hpend] at hp
          exact hcl p hp
        · exact hes p hp
      refine not_ownOutcomes hq' hpend' hclear (by omega) (hall
        [.query .none 0, .feed (Lines.unlines 0x0A ([0xFF] :: ls)) 0, .poll] t'.poll ?_)
      rw [Transfer.run, hstep]
      rfl
    · exact .inl hd
    · have hmem : (Event.ack n, owner) ∈ w.log.emitted :=
        List.mem_of_mem_drop (by rw [hp]; simp)
      obtain ⟨k, rfl, hk⟩ := hc.ack_owner hmem
      refine (not_ownOutcomes hq (hpend.trans hp) hpre (by omega)
        (hall [.query .none 0, .poll] t.poll ?_)).elim
      rw [Transfer.run, hstep]
      rfl
  · intro hun calls t hr
    exact ((sound_start ⟨ds, hc⟩ hsy hun).run hr).legit.ownOutcomes

theorem outcomes_own_iff_undisturbed_handshaken :
    handshaken.session.Undisturbed
      ∧ ∀ (calls : List Call) (t : Transfer), (Transfer.start handshaken).run calls = some t →
          OwnOutcomes t.trace := by
  have hun : handshaken.session.Undisturbed := by
    refine .inr ⟨?_, ?_, ?_⟩
    · rw [show handshaken.session.events = [] by decide +kernel]
      simp
    · rw [show handshaken.session.inFlight = none by decide +kernel]
      simp
    · rw [show handshaken.session.queued = [] by decide +kernel]
      simp
  exact ⟨hun, (outcomes_own_iff_undisturbed Session.new handshakeOps handshaken handshaken_run
    (by decide +kernel)).mpr hun⟩

/-- A transfer that fails while its QUERY is in flight. -/
def failingCalls : List Call :=
  [.query .none 2, .feed ("fe\n".toUTF8.data.toList) 3, .poll]

theorem failingCalls_completes : ((Transfer.start handshaken).run failingCalls).isSome := by
  decide +kernel

/-- The transfer that failed. -/
def failing : Transfer := ((Transfer.start handshaken).run failingCalls).get failingCalls_completes

/-- The transfer that is constructed next, on the same session. -/
def retryCalls : List Call :=
  [.query .none 4, .feed ("ok5\n".toUTF8.data.toList) 5, .poll]

theorem retryCalls_completes : ((Transfer.start failing.host).run retryCalls).isSome := by
  decide +kernel

/-- The second transfer. -/
def retry : Transfer := ((Transfer.start failing.host).run retryCalls).get retryCalls_completes

/-- **The second transfer fails at the ack of the first one's QUERY**, its own still queued. -/
theorem retry_answered_by_leftover :
    (Watched.start Session.new.reset).run (handshakeOps ++
        [.send 1 0 [] 2, .feed ("fe\n".toUTF8.data.toList) 3, .pollEvent]) = some failing.host
      ∧ (Transfer.start handshaken).run failingCalls = some failing
      ∧ failing.ft.state = .failed ∧ failing.host.session.isSynced = true
      ∧ (Transfer.start failing.host).run retryCalls = some retry
      ∧ retry.returned = [.failed Operation.query.violation]
      ∧ ¬ OwnOutcomes retry.trace := by
  refine ⟨by decide +kernel, (Option.some_get _).symm, by decide +kernel, by decide +kernel,
    (Option.some_get _).symm, by decide +kernel, ?_⟩
  intro hown
  have htr : retry.trace = [.called .query .none 2]
      ++ .handled (.ack 5) (some 1) [.failed Operation.query.violation] :: [] := by
    decide +kernel
  obtain ⟨op, c, packet, mid, hw, -, hpk⟩ :=
    hown _ _ _ _ _ htr _ (List.mem_singleton.mpr rfl) rfl
  have hcall : WaitsFor [.called .query .none 2] .query .none 2 [] := ⟨⟨[], rfl⟩, rfl⟩
  obtain ⟨-, -, rfl, -⟩ := hw.unique hcall
  exact absurd hpk (by decide)

end MarlinTransfer
