import MarlinTransfer.Link.Line

/-!
# While an operation waits

What the wire of a calm run holds while a transfer waits for an ack: the data packet under
way is the operation's, and every `ok` on its way back comes behind a line that accepts it,
unless one was heard already.
-/

namespace MarlinTransfer

open Codec Text Runs Session

/-- Every `ok` on its way back comes behind a verdict on the operation. -/
def Covered (op : Operation) (requested : Compression) (back : List Reply) : Prop :=
  ∀ pre n post, back = pre ++ .ok n :: post →
    ∃ line v, .text line ∈ pre ∧ verdict op requested line = some v

/-- Where the packet of the operation that waits is, by what is pending. -/
structure Owed (w : Watched) : Prop where
  /-- It is still to be acked. -/
  coming : (∀ e ∈ w.session.events, e.isAck = false) → OnlyLast w
  acked : ∀ e ∈ w.session.events, e.isAck = true → OnlyHandshakes w

/-- What the wire holds while an operation waits, the machine having heard `heard`. -/
structure Kept (profile : Profile) (op : Operation) (requested : Compression)
    (heard : Option Verdict) (w : Wire UInt8) : Prop where
  /-- The data packet in flight is the operation's. -/
  flight : ∀ f, w.host.session.inFlight = some f → f.isSyncHandshake = false → IsOp op f.bytes
  queued : ∀ q ∈ w.host.session.queued, q.isSyncHandshake = false →
    q.content.protocol = protocolFileTransfer ∧ q.content.packetType = op.packetType
  inFavour : ∀ v, heard = some v → v.Accepts op
  supports : op = .query → profile.supports requested = true
  /-- An ack that is pending finds the operation accepted. -/
  acked : ∀ pre n post, w.host.session.events = pre ++ .ack n :: post →
    (∀ e ∈ pre, e.isAck = false) → Accepted op ((verdictIn op requested pre).or heard)
  /-- And so will the one that is coming. -/
  coming : (∀ e ∈ w.host.session.events, e.isAck = false) →
    Accepted op ((verdictIn op requested w.host.session.events).or heard)
      ∨ Covered op requested w.back

theorem isOp_of_carries {op : Operation} {f : InFlight} {q : Queued} {sync : UInt8}
    (hc : Carries f q sync) (hp : q.content.protocol = protocolFileTransfer)
    (ht : q.content.packetType = op.packetType) : IsOp op f.bytes := by
  have hdec := decode_wire (q.packet_valid sync) []
  rw [List.append_nil, ← hc.bytes_eq] at hdec
  exact ⟨q.packet sync, _, hdec, hp, ht⟩

theorem InStep.told_events {profile : Profile} {w : Wire UInt8} (h : InStep profile w) :
    ∀ e ∈ w.host.session.events, profile.Told e := by
  intro e he
  obtain ⟨ds, hc⟩ := h.conserved
  rw [hc.events] at he
  obtain ⟨p, hp, rfl⟩ := List.mem_map.mp he
  exact h.told p (List.mem_of_mem_drop hp)

theorem Profile.Told.failure {profile : Profile} {e : Event} (h : profile.Told e) :
    e.failure = none := by
  cases e <;> first | rfl | exact h.elim

/-- A verdict among more events comes later. -/
theorem verdictIn_append (op : Operation) (requested : Compression) (es es' : List Event) :
    verdictIn op requested (es ++ es')
      = (verdictIn op requested es').or (verdictIn op requested es) := by
  induction es with
  | nil =>
    rw [List.nil_append, show verdictIn op requested [] = none from rfl, Option.or_none]
  | cons e es ih =>
    rw [List.cons_append, verdictIn_cons, ih, verdictIn_cons, Option.or_assoc]

/-- An ack among events with none in front is the same one when more follow. -/
theorem ack_of_append {es es' pre post : List Event} {n : UInt8}
    (h : es ++ es' = pre ++ .ack n :: post) (hes : ∀ e ∈ es', e.isAck = false) :
    ∃ post', es = pre ++ .ack n :: post' := by
  rcases List.append_eq_append_iff.mp h with ⟨a, ha1, ha2⟩ | ⟨a, ha1, ha2⟩
  · have := hes (.ack n) (by rw [ha2]; simp)
    cases this
  · cases a with
    | nil =>
      have := hes (.ack n) (by rw [← (List.nil_append es'), ← ha2]; exact List.mem_cons_self)
      cases this
    | cons x a =>
      obtain ⟨rfl, -⟩ := List.cons.inj ha2
      exact ⟨a, ha1⟩

theorem Covered.append {op : Operation} {requested : Compression} {back back' : List Reply}
    (h : Covered op requested back) (h' : Covered op requested back') :
    Covered op requested (back ++ back') := by
  intro pre n post heq
  have hlast : ∀ {a b}, pre = back ++ a → back' = a ++ .ok n :: b →
      ∃ line v, .text line ∈ pre ∧ verdict op requested line = some v := by
    intro a b hpre hback
    obtain ⟨line, v, hm, hv⟩ := h' a n b hback
    exact ⟨line, v, by rw [hpre]; exact List.mem_append_right _ hm, hv⟩
  rcases List.append_eq_append_iff.mp heq with ⟨a, ha1, ha2⟩ | ⟨a, ha1, ha2⟩
  · exact hlast ha1 ha2
  · cases a with
    | nil =>
      rw [List.append_nil] at ha1
      exact hlast (a := []) (by rw [ha1, List.append_nil]) ha2.symm
    | cons x a =>
      obtain ⟨rfl, -⟩ := List.cons.inj ha2
      exact h pre n a ha1

/-- What a device answers a copy of the operation's packet. -/
theorem covered_answer {profile : Profile} {op : Operation} {requested : Compression}
    {current : UInt8} {bytes : Bytes} (hbytes : okFor bytes ≠ none → IsOp op bytes)
    (hop : op ≠ .write) (hreq : op = .query → profile.supports requested = true) :
    Covered op requested ((profile.answer current bytes).map reply) := by
  intro pre n post heq
  rcases profile.reply_answer current bytes with ⟨block, version, hans, -⟩ | ⟨hans, -⟩ |
    ⟨p, m, hdec, hfor, hans⟩
  · rw [hans] at heq
    have hm : Reply.ok n ∈ [Reply.ss current block version] := by
      rw [heq]
      exact List.mem_append_right _ List.mem_cons_self
    cases List.mem_singleton.mp hm
  · rw [hans] at heq
    cases (List.append_eq_nil_iff.mp heq.symm).2
  · obtain ⟨p', m', hdec', hp, ht⟩ := hbytes (by rw [hfor]; exact Option.some_ne_none _)
    obtain ⟨rfl, -⟩ := Prod.mk.inj (Except.ok.inj (Option.some.inj (hdec'.symm.trans hdec)))
    obtain ⟨line, v, hline, hv⟩ := announced_verdict hp ht hop hreq
    refine ⟨line, v, ?_, hv⟩
    rw [hans] at heq
    have hm : Reply.text line ∈ (profile.announced p').map Reply.text := List.mem_map_of_mem hline
    rcases List.append_eq_append_iff.mp heq with ⟨a, ha1, -⟩ | ⟨a, ha1, ha2⟩
    · rw [ha1]
      exact List.mem_append_left _ hm
    · cases a with
      | nil =>
        rw [List.append_nil] at ha1
        rw [← ha1]
        exact hm
      | cons x a =>
        -- no `ok` is among the lines ahead
        have hx : Reply.ok n ∈ (profile.announced p').map Reply.text := by
          rw [ha1, (List.cons.inj ha2).1]
          exact List.mem_append_right _ List.mem_cons_self
        obtain ⟨_, -, hx⟩ := List.mem_map.mp hx
        cases hx

namespace Kept

variable {profile : Profile} {op : Operation} {requested : Compression} {heard : Option Verdict}
  {w w' : Wire UInt8}

/-- WRITE is accepted by its ack alone. -/
theorem accepted_write (h : Kept profile .write requested heard w) (es : List Event) :
    Accepted .write ((verdictIn .write requested es).or heard) := by
  have hnone : es.filterMap (Event.verdict .write requested) = [] := by
    refine List.filterMap_eq_nil_iff.mpr fun e _ => ?_
    cases e <;> rfl
  rw [verdictIn, hnone]
  cases hh : heard with
  | none => rfl
  | some v => exact (h.inFavour v hh).accepted

/-- Nothing came back. -/
theorem of_same (h : Kept profile op requested heard w)
    (hflight : ∀ f, w'.host.session.inFlight = some f → f.isSyncHandshake = false →
      IsOp op f.bytes)
    (hqueue : w'.host.session.queued = w.host.session.queued)
    (hev : w'.host.session.events = w.host.session.events) (hb : w'.back = w.back) :
    Kept profile op requested heard w' where
  flight := hflight
  queued := by rw [hqueue]; exact h.queued
  inFavour := h.inFavour
  supports := h.supports
  acked := by rw [hev]; exact h.acked
  coming := by rw [hev, hb]; exact h.coming

/-- A reply came back that is no ack of the operation. -/
theorem of_told (h : Kept profile op requested heard w) (hin' : InStep profile w')
    (hflight : ∀ f, w'.host.session.inFlight = some f → f.isSyncHandshake = false →
      IsOp op f.bytes)
    (hqueue : ∀ q ∈ w'.host.session.queued, q ∈ w.host.session.queued) {es : List Event}
    (hev : w'.host.session.events = w.host.session.events ++ es)
    (hes : ∀ e ∈ es, e.isAck = false) {r : Reply} {rest : List Reply} (hb : w.back = r :: rest)
    (hb' : w'.back = rest) (hline : ∀ line, r = .text line → .asciiLine line ∈ es) :
    Kept profile op requested heard w' where
  flight := hflight
  queued := fun q hq => h.queued q (hqueue q hq)
  inFavour := h.inFavour
  supports := h.supports
  acked := by
    intro pre n post heq hpre
    rw [hev] at heq
    obtain ⟨post', heq'⟩ := ack_of_append heq hes
    exact h.acked pre n post' heq' hpre
  coming := by
    intro hno
    have htold := hin'.told_events
    rw [hev] at hno htold ⊢
    rcases h.coming fun e he => hno e (List.mem_append_left _ he) with hacc | hcov
    · rw [verdictIn_append, Option.or_assoc]
      exact .inl (hacc.or h.supports fun e he => htold e (List.mem_append_right _ he))
    · -- either this was the line that accepts, or it is still on its way
      by_cases hv : ∃ line v, r = .text line ∧ verdict op requested line = some v
      · obtain ⟨line, v, hr, hv⟩ := hv
        exact .inl (accepted_of_mem h.supports htold (List.mem_append_right _ (hline line hr)) hv)
      · refine .inr fun pre n post heq => ?_
        obtain ⟨line, v, hm, hv'⟩ := hcov (r :: pre) n post (by rw [hb, ← hb', heq]; rfl)
        rcases List.mem_cons.mp hm with hr | hm
        · exact absurd ⟨line, v, hr.symm, hv'⟩ hv
        · exact ⟨line, v, hm, hv'⟩

/-- The packet of the operation is acked. -/
theorem of_acked (h : Kept profile op requested heard w) (hno : ∀ e ∈ w.host.session.events, e.isAck = false)
    (hidle : w'.host.session.inFlight = none) (hqueue : w'.host.session.queued = []) {n : UInt8}
    (hev : w'.host.session.events = w.host.session.events ++ [.ack n]) {rest : List Reply}
    (hb : w.back = .ok n :: rest) : Kept profile op requested heard w' where
  flight := by
    intro f hf
    rw [hidle] at hf
    cases hf
  queued := by
    rw [hqueue]
    exact fun q hq => (List.not_mem_nil hq).elim
  inFavour := h.inFavour
  supports := h.supports
  acked := by
    intro pre m post heq hpre
    rw [hev] at heq
    -- the ack is the only one pending
    have hpre' : pre = w.host.session.events := by
      rcases List.append_eq_append_iff.mp heq with ⟨a, ha1, ha2⟩ | ⟨a, ha1, ha2⟩
      · cases a with
        | nil => rw [ha1, List.append_nil]
        | cons x a =>
          have := hpre (.ack n) (by rw [ha1, (List.cons.inj ha2).1]; simp)
          cases this
      · cases a with
        | nil => rw [ha1, List.append_nil]
        | cons x a =>
          have := hno (.ack m) (by rw [ha1, ← (List.cons.inj ha2).1]; simp)
          cases this
    rw [hpre']
    rcases h.coming hno with hacc | hcov
    · exact hacc
    · -- nothing is ahead of the `ok` that came
      obtain ⟨line, v, hm, -⟩ := hcov [] n rest hb
      cases hm
  coming := by
    intro hno'
    have := hno' (.ack n) (by rw [hev]; simp)
    cases this

/-- The packet that goes out next is the operation's, if it is no handshake. -/
theorem flight_of_resumes (h : Kept profile op requested heard w) {host : Watched}
    (hr : Resumes w.host host) :
    ∀ f, host.session.inFlight = some f → f.isSyncHandshake = false → IsOp op f.bytes := by
  intro g hg hflag
  cases hr with
  | idle _ _ hf =>
    rw [hf] at hg
    cases hg
  | launch q f hq hf hc =>
    obtain rfl : f = g := Option.some.inj (hf.symm.trans hg)
    obtain ⟨hp, ht⟩ := h.queued q (by rw [hq]; exact List.mem_cons_self)
      (hc.handshake_eq.symm.trans hflag)
    exact isOp_of_carries hc hp ht

theorem after_tick (h : Kept profile op requested heard w) (hin : InStep profile w)
    (now : Instant) (hg : (w.host.tick now).NoTimeout) :
    Kept profile op requested heard (w.act (w.host.tick now)) := by
  obtain ⟨ds, hc⟩ := hin.conserved
  obtain ⟨ds', hc'⟩ := hc.tick now
  cases ticked w.host now with
  | early heq =>
    refine h.of_same ?_ ?_ ?_ rfl
    · intro f hf
      exact h.flight f (by rw [← heq]; exact hf)
    · rw [show (w.act (w.host.tick now)).host = w.host from heq]
    · rw [show (w.act (w.host.tick now)).host = w.host from heq]
  | late f now' hf hf' hq hsync hsy hl =>
    have hev := events_same hc hc' (by rw [hl]) (by rw [hl])
    refine h.of_same ?_ hq hev rfl
    intro g hg' hflag
    obtain rfl : { f with lastSent := now' } = g := Option.some.inj (hf'.symm.trans hg')
    exact h.flight f hf hflag
  | expired f ht =>
    -- a calm link sees no timeout
    refine absurd rfl (hg (.timeout f.sync, some w.host.log.retired.length) ?_ f.sync)
    rw [ht.emitted]
    exact List.mem_append_right _ List.mem_cons_self

/-- **A copy is heard**: the line that accepts the operation goes ahead of its `ok`. -/
theorem after_hear (h : Kept profile op requested heard w) (hin : InStep profile w)
    (ho : Owed w.host) {c : Nat × Bytes} {rest : List (Nat × Bytes)} {d : UInt8}
    (hq : w.forward = c :: rest) :
    Kept profile op requested heard { w with
      forward := rest
      device := d
      back := w.back ++ (profile.answer w.device c.2).map reply } where
  flight := h.flight
  queued := h.queued
  inFavour := h.inFavour
  supports := h.supports
  acked := h.acked
  coming := by
    intro hno
    rcases h.coming hno with hacc | hcov
    · exact .inl hacc
    · by_cases hop : op = .write
      · subst hop
        exact .inl (h.accepted_write _)
      · refine .inr (hcov.append (covered_answer (fun hok => ?_) hop h.supports))
        have hbytes : ∀ f, w.host.session.inFlight = some f →
            f.isSyncHandshake = false ∧ c.2 = f.bytes := by
          intro f hf
          obtain ⟨h1, h2, -⟩ := hin.current f hf
          have heq := (h2 c (by rw [hq]; exact List.mem_cons_self)).resolve_left hok
          rw [heq] at hok
          obtain ⟨n, hn⟩ := Option.ne_none_iff_exists'.mp hok
          exact ⟨(h1 n hn).1, heq⟩
        cases ho.coming hno with
        | queued f qs q hf hff =>
          rw [(hbytes f hf).1] at hff
          cases hff
        | inFlight f hf hff =>
          rw [(hbytes f hf).2]
          exact h.flight f hf hff

/-- The machine heard what was pending. -/
theorem of_heard (h : Kept profile op requested heard w)
    (htold : ∀ e ∈ w.host.session.events, profile.Told e)
    (hno : ∀ e ∈ w.host.session.events, e.isAck = false) (hev : w'.host.session.events = [])
    (hf : w'.host.session.inFlight = w.host.session.inFlight)
    (hq : w'.host.session.queued = w.host.session.queued) (hb : w'.back = w.back) :
    Kept profile op requested ((verdictIn op requested w.host.session.events).or heard) w' where
  flight := by rw [hf]; exact h.flight
  queued := by rw [hq]; exact h.queued
  inFavour := by
    intro v hv
    cases hin : verdictIn op requested w.host.session.events with
    | some v' =>
      rw [hin] at hv
      obtain rfl : v' = v := Option.some.inj hv
      exact accepts_of_verdictIn h.supports htold hin
    | none =>
      rw [hin] at hv
      exact h.inFavour v hv
  supports := h.supports
  acked := by
    intro pre n post heq
    rw [hev] at heq
    exact absurd heq.symm (by simp)
  coming := by
    intro _
    rw [hev, hb]
    exact h.coming hno

/-- **A reply is read.** -/
theorem after_read (h : Kept profile op requested heard w) (hin : InStep profile w)
    (ho : Owed w.host) {r : Reply} {rest : List Reply} {buf : Bytes} {now : Instant}
    (hb : w.back = r :: rest)
    (hin' : InStep profile { w.act ((w.host.take r now).withBuf buf) with back := rest }) :
    Kept profile op requested heard
      { w.act ((w.host.take r now).withBuf buf) with back := rest } := by
  obtain ⟨ds, hc⟩ := hin.conserved
  obtain ⟨ds', hc'⟩ := hc.take r now
  cases taken hc r now with
  | quiet ht =>
    -- no event of a reply that retires nothing is an ack
    refine h.of_told hin' ?_ ?_ (ht.events hc hc') (told_not_ack r _) hb rfl ?_
    · intro f hf
      exact h.flight f (by rw [← ht.inFlight]; exact hf)
    · intro q hq
      rw [← ht.queued]
      exact hq
    · rintro line rfl
      exact List.mem_singleton.mpr rfl
  | acked f hr hf ht =>
    subst hr
    -- the packet is still owed, so its ack is the first one
    have hno : ∀ e ∈ w.host.session.events, e.isAck = false := by
      intro e he
      refine Bool.eq_false_iff.mpr fun hack => ?_
      have := (ho.acked e he hack).1 f ht.was
      rw [hf] at this
      cases this
    have hqueue : w.host.session.queued = [] := by
      cases ho.coming hno with
      | queued g qs q hg hgg =>
        rw [Option.some.inj (ht.was.symm.trans hg), hgg] at hf
        cases hf
      | inFlight g _ _ hq => exact hq
    have hev := events_of_emitted hc hc' ht.emitted ht.polled
    cases ht.resumes with
    | idle _ hq hidle => exact h.of_acked hno hidle hq hev hb
    | launch q g hq =>
      rw [hqueue] at hq
      cases hq
  | synced f sync block version hr hf ht =>
    -- the handshake is done, and the packet of the operation may go out
    have hev := events_of_emitted hc hc' ht.emitted ht.polled
    refine h.of_told hin' (h.flight_of_resumes (ht.withBuf buf).resumes) ?_ hev ?_ hb rfl ?_
    · intro q hq
      cases ht.resumes with
      | idle _ hq' =>
        rw [show ({ w.act ((w.host.take r now).withBuf buf) with back := rest }
          : Wire UInt8).host.session.queued = [] from hq'] at hq
        cases hq
      | launch q' g hq' =>
        rw [hq']
        exact List.mem_cons_of_mem _ hq
    · intro e he
      rw [List.mem_singleton.mp he]
      rfl
    · rintro line rfl
      cases hr

/-- **One move**, nobody touching the session. -/
theorem step (h : Kept profile op requested heard w) (hin : InStep profile w)
    (hin' : InStep profile w') (ho : Owed w.host) {act : Act} (hact : act.unattended = true)
    (hm : Move profile.device false act w w') (hg : Calm w w') :
    Kept profile op requested heard w' := by
  obtain ⟨ds, hc⟩ := hin.conserved
  cases hm with
  | connect now => cases hact
  | send protocol packetType payload now host hs => cases hact
  | tick now => exact h.after_tick hin now hg.1
  | pollEvent => cases hact
  | transmit =>
    have hu := untouched_pollOutbound w.host
    refine h.of_same ?_ hu.queued ?_ rfl
    · intro f hf
      exact h.flight f (by rw [← hu.inFlight]; exact hf)
    · show w.host.pollOutbound.session.events = _
      rw [Watched.pollOutbound_session, Session.pollOutbound]
      split <;> rfl
  | loseCopy a b c hl => cases hact
  | loseLine a b r hl => cases hact
  | hear c rest d lines hq hd =>
    rw [show lines = profile.answer w.device c.2 from hd]
    exact h.after_hear hin ho hq
  | speak d lines hd => cases hact
  | arrive => exact h
  | buffer buf now => exact h.of_same h.flight rfl rfl rfl
  | read r rest buf now hb => exact h.after_read hin ho hb hin'

end Kept

end MarlinTransfer
