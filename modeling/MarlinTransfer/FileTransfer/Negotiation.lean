import MarlinTransfer.FileTransfer.Stray
import MarlinTransfer.Fixtures.FakeDevice

/-!
# Negotiating the compression

A query is answered by a version line and then by its ack. The spec on the line is matched
with what the caller requested, the match waits for the ack, and the ack commits it. What
else the device says in between, how its bytes are cut and when the caller polls makes no
difference; and what was committed is what every later OPEN says.
-/

namespace MarlinTransfer

open Codec Text Session

/-! ## The spec -/

/-- The parameters a device advertises. -/
def CompressionSpec.compression : CompressionSpec → Compression
  | .none => .none
  | .heatshrink window lookahead => .heatshrink window lookahead

/-- What host and device agree on, if they do: a caller may do without compression, leave it
to the device, or insist on parameters of its own. -/
def agree (requested : Compression) (device : CompressionSpec) : Option Compression :=
  match requested, device with
  | .none, _ => some .none
  | .auto, .none => some .none
  | .auto, .heatshrink window lookahead => some (.heatshrink window lookahead)
  | .heatshrink window lookahead, .heatshrink _ _ => some (.heatshrink window lookahead)
  | .heatshrink _ _, .none => none

theorem chooseCompression_eq (requested : Compression) (device : CompressionSpec) :
    chooseCompression requested device.compression
      = match agree requested device with
        | some c => .ok c
        | none => .error .compressionUnsupported := by
  cases requested <;> cases device <;> rfl

theorem agree_ne_auto {requested c : Compression} {device : CompressionSpec}
    (h : agree requested device = some c) : c ≠ .auto := by
  have hchoose : chooseCompression requested device.compression = .ok c := by
    rw [chooseCompression_eq, h]
  exact chooseCompression_ne_auto hchoose

/-- A spec that can be read: `heatshrink,<window>,<lookahead>`, and anything after another
comma. -/
def ReadsHeatshrink (spec : Str) (window lookahead : UInt8) : Prop :=
  ∃ a b, trim spec = "heatshrink,".toList ++ (a ++ ',' :: b) ∧ ',' ∉ a
    ∧ parseUnsigned (2 ^ 8) (trim a) = some window.toNat
    ∧ parseUnsigned (2 ^ 8) (trim (b.takeWhile (· != ','))) = some lookahead.toNat

theorem toNat_ofNat_of_parse {s : Str} {n : Nat} (h : parseUnsigned (2 ^ 8) s = some n) :
    (UInt8.ofNat n).toNat = n := by
  have hlt := parseUnsigned_lt (by decide) h
  rw [UInt8.toNat_ofNat']
  omega

theorem parseCompressionSpec_eq_heatshrink {spec : Str} {window lookahead : UInt8} :
    parseCompressionSpec spec = .heatshrink window lookahead
      ↔ ReadsHeatshrink spec window lookahead := by
  unfold parseCompressionSpec ReadsHeatshrink
  dsimp only
  constructor
  · intro h
    split_ifs at h with hnone
    cases hpre : stripPrefix (trim spec) "heatshrink,".toList with
    | none =>
      rw [hpre] at h
      cases h
    | some rest =>
      rw [hpre] at h
      dsimp only at h
      by_cases hcomma : ',' ∈ rest
      swap
      · -- one part only: there is no lookahead
        rw [split_of_notMem hcomma, List.getElem?_cons_zero, Option.bind_some] at h
        cases hw : parseUnsigned (2 ^ 8) (trim rest) with
        | none =>
          rw [hw] at h
          cases h
        | some w =>
          rw [hw] at h
          cases h
      obtain ⟨a, b, rfl, ha⟩ := List.eq_append_cons_of_mem hcomma
      rw [split_append b ha, List.getElem?_cons_zero, List.getElem?_cons_succ, split_head,
        Option.bind_some, Option.bind_some] at h
      refine ⟨a, b, stripPrefix_eq_some.mp hpre, ha, ?_⟩
      cases hw : parseUnsigned (2 ^ 8) (trim a) with
      | none =>
        rw [hw] at h
        cases h
      | some w =>
        cases hl : parseUnsigned (2 ^ 8) (trim (b.takeWhile (· != ','))) with
        | none =>
          rw [hw, hl] at h
          cases h
        | some l =>
          rw [hw, hl] at h
          obtain ⟨rfl, rfl⟩ := Compression.heatshrink.inj h
          exact ⟨by rw [toNat_ofNat_of_parse hw], by rw [toNat_ofNat_of_parse hl]⟩
  · rintro ⟨a, b, htrim, ha, hw, hl⟩
    have hne : trim spec ≠ "none".toList := by
      rw [htrim]
      simp
    rw [if_neg hne, htrim, stripPrefix_append]
    dsimp only
    rw [split_append b ha, List.getElem?_cons_zero, List.getElem?_cons_succ, split_head,
      Option.bind_some, Option.bind_some, hw, hl]
    dsimp only
    rw [UInt8.ofNat_toNat, UInt8.ofNat_toNat]

/-- What cannot be read counts as no compression. -/
theorem parseCompressionSpec_unreadable {spec : Str}
    (h : ∀ window lookahead, ¬ ReadsHeatshrink spec window lookahead) :
    parseCompressionSpec spec = .none := by
  cases hs : parseCompressionSpec spec with
  | none => rfl
  | heatshrink window lookahead =>
    exact absurd (parseCompressionSpec_eq_heatshrink.mp hs) (h window lookahead)
  | auto =>
    unfold parseCompressionSpec at hs
    dsimp only at hs
    split_ifs at hs
    split at hs
    · cases hs
    · split at hs <;> cases hs

/-- **What a device renders is read back.** -/
theorem parseCompressionSpec_render (device : CompressionSpec) :
    parseCompressionSpec device.render = device.compression := by
  cases device with
  | none => decide +kernel
  | heatshrink window lookahead =>
    have hw := window.toNat_lt
    have hl := lookahead.toNat_lt
    have hcomma : ∀ n, ',' ∉ decimal n := fun n => notMem_decimal (by decide) n
    have hname : ∀ c ∈ "heatshrink,".toList, isWhitespace c = false := by simp [isWhitespace]
    have hdigits : ∀ n, ∀ c ∈ decimal n, isWhitespace c = false := by
      intro n c hc
      have := isDigit_of_mem_decimal hc
      simp only [isWhitespace, Bool.or_eq_false_iff, Bool.and_eq_false_iff, beq_eq_false_iff_ne,
        decide_eq_false_iff_not]
      omega
    refine parseCompressionSpec_eq_heatshrink.mpr ⟨decimal window.toNat, decimal lookahead.toNat,
      trim_eq_self fun c hc => ?_, hcomma _, ?_, ?_⟩
    · rcases List.mem_append.mp hc with hc | hc
      · exact hname c hc
      · rcases List.mem_append.mp hc with hc | hc
        · exact hdigits _ c hc
        · rcases List.mem_cons.mp hc with rfl | hc
          · decide
          · exact hdigits _ c hc
    · rw [trim_decimal, parseUnsigned_decimal (by omega)]
    · have htake : (decimal lookahead.toNat).takeWhile (· != ',') = decimal lookahead.toNat := by
        rw [List.takeWhile_eq_self_iff]
        intro c hc
        simp only [bne_iff_ne]
        rintro rfl
        exact hcomma _ hc
      rw [htake, trim_decimal, parseUnsigned_decimal (by omega)]

/-! ## The lines around it -/

/-- A version line with a spec on it. -/
def isVersionLine (line : Str) : Bool :=
  match stripPrefix line "PFT:version:".toList with
  | some rest => ':' ∈ rest
  | none => false

theorem verdict_query_other {line : Str} (h : isVersionLine line = false)
    (requested : Compression) : verdict .query requested line = none := by
  unfold isVersionLine at h
  unfold verdict
  cases hpre : stripPrefix line "PFT:version:".toList with
  | none => rfl
  | some rest =>
    rw [hpre] at h
    rw [Option.bind_some, splitOnce_eq_none.mpr (of_decide_eq_false h)]
    rfl

namespace Reply

/-- Not an `ok<n>`, an `ss` or the `fe`. -/
def quiet : Reply → Bool
  | .ok _ => false
  | .ss _ _ _ => false
  | .fe => false
  | _ => true

/-- And not a version line either. -/
def other : Reply → Bool
  | .text line => !isVersionLine line
  | r => r.quiet

theorem quiet_of_other {r : Reply} (h : r.other = true) : r.quiet = true := by
  cases r with
  | text line => rfl
  | _ => exact h

end Reply

theorem Session.take_quiet {s : Session} {r : Reply} (h : r.quiet = true) (now : Instant) :
    s.take r now = { s with events := s.events ++ told r none } := by
  cases r with
  | ok n => cases h
  | ss sync block version => cases h
  | fe => cases h
  | rs n => rfl
  | text line => rfl
  | noise => exact congrArg (fun es => { s with events := es }) (List.append_nil _).symm

namespace FileTransfer

/-- What a quiet line does to a transfer once it is handled. -/
def hear (ft : FileTransfer) : Reply → FileTransfer
  | .text line => ft.handleAsciiLine line
  | _ => ft

theorem fold_told_quiet {r : Reply} (h : r.quiet = true) (ft : FileTransfer) :
    (told r none).foldl handleSessionEvent ft = ft.hear r := by
  cases r with
  | ok n => cases h
  | ss sync block version => cases h
  | fe => cases h
  | _ => rfl

/-- What is heard while a query waits. -/
theorem hear_waiting {ft : FileTransfer} (hst : ft.state = .awaitingQueryReply) (r : Reply) :
    (ft.hear r).state = .awaitingQueryReply ∧ (ft.hear r).outEvents = ft.outEvents
      ∧ (ft.Consistent → (ft.hear r).Consistent) := by
  cases r with
  | text line =>
    have h : Hears .query line ft (ft.handleAsciiLine line) := handleAsciiLine_waiting hst line
    exact ⟨h.state.trans hst, h.outEvents, h.consistent⟩
  | _ => exact ⟨hst, rfl, id⟩

theorem hear_resting {ft : FileTransfer} (h : ft.state.awaited = none) (r : Reply) :
    ft.hear r = ft := by
  cases r with
  | text line => exact handleAsciiLine_resting h line
  | _ => rfl

/-- Other lines are passed over. -/
theorem hear_other {ft : FileTransfer} (hst : ft.state = .awaitingQueryReply) {r : Reply}
    (h : r.other = true) : ft.hear r = ft := by
  cases r with
  | text line =>
    have hst' : ft.state = Operation.query.awaiting := hst
    refine handleAsciiLine_unjudged hst' (verdict_query_other ?_ _)
    simpa [Reply.other] using h
  | _ => rfl

theorem foldl_hear_other {ft : FileTransfer} (hst : ft.state = .awaitingQueryReply)
    {rs : List Reply} (h : ∀ r ∈ rs, r.other = true) : rs.foldl hear ft = ft := by
  induction rs with
  | nil => rfl
  | cons r rs ih =>
    rw [List.foldl_cons, hear_other hst (h r List.mem_cons_self)]
    exact ih fun x hx => h x (List.mem_cons_of_mem _ hx)

end FileTransfer

/-! ## From the query to its ack -/

/-- A query on its way. -/
structure Enquiry where
  sync : UInt8
  sent : Instant
  limit : Duration
  /-- What the polls had returned before. -/
  returned : List FileEvent
  /-- The transfer as it will be when the ack comes. -/
  target : FileTransfer
  waiting : target.state = .awaitingQueryReply
  silent : target.outEvents = []
  consistent : target.Consistent

namespace Enquiry

/-- What its ack settles. -/
def outcome (q : Enquiry) : FileEvent := Operation.query.settle q.target.heard

/-- The transfer it leaves. -/
def final (q : Enquiry) : FileTransfer := { q.target.handleAck with outEvents := [] }

theorem settles (q : Enquiry) : FileTransfer.Settles .query q.target q.target.handleAck :=
  FileTransfer.handleAck_waiting q.waiting q.consistent

theorem outEvents_ack (q : Enquiry) : q.target.handleAck.outEvents = [q.outcome] := by
  rw [q.settles.outEvents, q.silent]
  rfl

theorem resting_ack (q : Enquiry) : q.target.handleAck.state.awaited = none := by
  rcases q.settles.state with ⟨-, h⟩ | ⟨-, h⟩ <;> rw [h] <;> rfl

end Enquiry

/-- The transfer once everything that waits in its session was handled. -/
def Bare.handled (b : Bare) : FileTransfer := b.ft.handled b.session

/-- The query is in flight, and these lines are still to come before its ack. -/
structure Asking (q : Enquiry) (rs : List Reply) (b : Bare) : Prop where
  flight : ∃ f, b.session.inFlight = some f ∧ f.sync = q.sync ∧ f.isSyncHandshake = false
    ∧ f.firstSent = q.sent
  queued : b.session.queued = []
  limit : b.session.totalTimeout = q.limit
  returned : b.returned = q.returned
  waiting : b.handled.state = .awaitingQueryReply
  silent : b.handled.outEvents = []
  heard : rs.foldl FileTransfer.hear b.handled = q.target

/-- The ack has come, and its outcome was returned or will be. -/
structure Answered (q : Enquiry) (b : Bare) : Prop where
  idle : b.session.inFlight = none
  queued : b.session.queued = []
  told : b.returned = q.returned ∧ b.handled.outEvents = [q.outcome]
    ∨ b.returned = q.returned ++ [q.outcome] ∧ b.handled.outEvents = []
  ft : { b.handled with outEvents := [] } = q.final

/-- Where a query stands, with the lines that are still to come. -/
inductive Stage (q : Enquiry) (rs : List Reply) (b : Bare) : Prop where
  | asking (before after : List Reply) (hrs : rs = before ++ .ok q.sync :: after)
      (hbefore : ∀ r ∈ before, r.quiet = true) (hafter : ∀ r ∈ after, r.quiet = true)
      (h : Asking q before b)
  | answered (hquiet : ∀ r ∈ rs, r.quiet = true) (h : Answered q b)

section Steps

variable {q : Enquiry} {b : Bare} {rs : List Reply}

theorem handled_events (b : Bare) {s : Session} {es : List Event}
    (h : s.events = b.session.events ++ es) :
    ({ b with session := s } : Bare).handled
      = es.foldl FileTransfer.handleSessionEvent b.handled := by
  show s.events.foldl _ b.ft = _
  rw [h, List.foldl_append]
  rfl

theorem Asking.take_quiet {r : Reply} (h : Asking q (r :: rs) b) (hr : r.quiet = true)
    (now : Instant) : Asking q rs { b with session := b.session.take r now } := by
  have hh : ({ b with session := b.session.take r now } : Bare).handled = b.handled.hear r := by
    rw [handled_events b (by rw [Session.take_quiet hr]), FileTransfer.fold_told_quiet hr]
  obtain ⟨h1, h2, -⟩ := FileTransfer.hear_waiting h.waiting r
  refine ⟨?_, ?_, ?_, h.returned, hh ▸ h1, (congrArg _ hh).trans (h2.trans h.silent), ?_⟩
  · rw [Session.take_quiet hr]
    exact h.flight
  · rw [Session.take_quiet hr]
    exact h.queued
  · rw [Session.take_quiet hr]
    exact h.limit
  · rw [hh]
    exact h.heard

/-- **The ack** settles the query. -/
theorem Asking.take_ok (h : Asking q [] b) (now : Instant) :
    Answered q { b with session := b.session.take (.ok q.sync) now } := by
  obtain ⟨f, hf, hsync, hhs, -⟩ := h.flight
  have htake : b.session.take (.ok q.sync) now = b.session.advance q.sync := by
    rw [← hsync, take_ok_matching hf hhs]
    exact dispatchIfIdle_empty (s := b.session.advance f.sync) h.queued now
  have hh : ({ b with session := b.session.take (.ok q.sync) now } : Bare).handled
      = q.target.handleAck := by
    have hevents : (b.session.take (.ok q.sync) now).events
        = b.session.events ++ [.ack q.sync] := by
      rw [htake]
      rfl
    rw [handled_events b hevents, show b.handled = q.target from h.heard]
    rfl
  refine ⟨by rw [htake]; rfl, by rw [htake]; exact h.queued, .inl ⟨h.returned, ?_⟩, ?_⟩
  · rw [hh, q.outEvents_ack]
  · rw [hh]
    rfl

theorem Answered.resting (h : Answered q b) : b.handled.state.awaited = none := by
  have := congrArg FileTransfer.state h.ft
  rw [show b.handled.state = q.final.state from this]
  exact q.resting_ack

theorem Answered.take_quiet (h : Answered q b) {r : Reply} (hr : r.quiet = true)
    (now : Instant) : Answered q { b with session := b.session.take r now } := by
  have hh : ({ b with session := b.session.take r now } : Bare).handled = b.handled := by
    rw [handled_events b (by rw [Session.take_quiet hr]), FileTransfer.fold_told_quiet hr,
      FileTransfer.hear_resting h.resting]
  refine ⟨?_, ?_, ?_, ?_⟩
  · rw [Session.take_quiet hr]
    exact h.idle
  · rw [Session.take_quiet hr]
    exact h.queued
  · rw [hh]
    exact h.told
  · rw [hh]
    exact h.ft

theorem Stage.take {r : Reply} (h : Stage q (r :: rs) b) (now : Instant) :
    Stage q rs { b with session := b.session.take r now } := by
  cases h with
  | asking before after hrs hbefore hafter h =>
    cases before with
    | nil =>
      obtain ⟨rfl, rfl⟩ := List.cons.inj hrs
      exact .answered hafter (h.take_ok now)
    | cons r' before =>
      obtain ⟨rfl, rfl⟩ := List.cons.inj hrs
      exact .asking before after rfl (fun x hx => hbefore x (List.mem_cons_of_mem _ hx)) hafter
        (h.take_quiet (hbefore _ List.mem_cons_self) now)
  | answered hquiet h =>
    exact .answered (fun x hx => hquiet x (List.mem_cons_of_mem _ hx))
      (h.take_quiet (hquiet r List.mem_cons_self) now)

theorem Stage.takeAll {rs' : List Reply} (h : Stage q (rs ++ rs') b) (now : Instant) :
    Stage q rs' { b with session := b.session.takeAll rs now } := by
  induction rs generalizing b with
  | nil => exact h
  | cons r rs ih => exact ih (h.take now)

/-- What is in the buffer does not matter. -/
theorem Stage.withBuf (h : Stage q rs b) (buf : Bytes) :
    Stage q rs { b with session := b.session.withBuf buf } := by
  cases h with
  | asking before after hrs hbefore hafter h =>
    exact .asking before after hrs hbefore hafter
      ⟨h.flight, h.queued, h.limit, h.returned, h.waiting, h.silent, h.heard⟩
  | answered hquiet h => exact .answered hquiet ⟨h.idle, h.queued, h.told, h.ft⟩

/-- A tick may send the query again, but does not give it up in time. -/
theorem Stage.tick (h : Stage q rs b) {now : Instant} (hlt : now - q.sent < q.limit) :
    Stage q rs { b with session := b.session.tick now } := by
  cases h with
  | answered hquiet h =>
    rw [tick_idle h.idle]
    exact .answered hquiet h
  | asking before after hrs hbefore hafter h =>
    obtain ⟨f, hf, hsync, hhs, hsent⟩ := h.flight
    have hin : ¬ now - f.firstSent ≥ b.session.totalTimeout := by
      rw [hsent, h.limit]
      exact Nat.not_le_of_lt hlt
    by_cases hlate : now - f.lastSent ≥ b.session.responseTimeout
    · rw [tick_late hf hin hlate]
      exact .asking before after hrs hbefore hafter
        ⟨⟨_, rfl, hsync, hhs, hsent⟩, h.queued, h.limit, h.returned, h.waiting, h.silent, h.heard⟩
    · rw [tick_early hf hin hlate]
      exact .asking before after hrs hbefore hafter h

theorem Stage.pollOutbound (h : Stage q rs b) :
    Stage q rs { b with session := b.session.pollOutbound.2 } := by
  have hs : ∃ out, b.session.pollOutbound.2 = { b.session with outbound := out } := by
    unfold Session.pollOutbound
    split
    · exact ⟨b.session.outbound, rfl⟩
    · exact ⟨_, rfl⟩
  obtain ⟨out, hs⟩ := hs
  rw [hs]
  cases h with
  | asking before after hrs hbefore hafter h =>
    exact .asking before after hrs hbefore hafter
      ⟨h.flight, h.queued, h.limit, h.returned, h.waiting, h.silent, h.heard⟩
  | answered hquiet h => exact .answered hquiet ⟨h.idle, h.queued, h.told, h.ft⟩

/-- A poll while the query is in flight returns nothing. -/
theorem Asking.poll (h : Asking q rs b) : Asking q rs b.poll := by
  have hpoll : b.poll = ⟨b.handled, { b.session with events := [] }, b.returned⟩ := by
    rw [Bare.poll_eq, show b.ft.handled b.session = b.handled from rfl,
      FileTransfer.popEvent_nil h.silent]
    show (⟨_, _, b.returned ++ []⟩ : Bare) = _
    rw [List.append_nil]
  rw [hpoll]
  exact ⟨h.flight, h.queued, h.limit, h.returned, h.waiting, h.silent, h.heard⟩

/-- The first poll after the ack returns what it settled. -/
theorem Answered.poll (h : Answered q b) :
    Answered q b.poll ∧ b.poll.returned = q.returned ++ [q.outcome] ∧ b.poll.ft = q.final := by
  rw [Bare.poll_eq, show b.ft.handled b.session = b.handled from rfl]
  rcases h.told with ⟨hret, hout⟩ | ⟨hret, hout⟩
  · rw [FileTransfer.popEvent_cons hout]
    have hret' : b.returned ++ [q.outcome] = q.returned ++ [q.outcome] := by rw [hret]
    exact ⟨⟨h.idle, h.queued, .inr ⟨hret', rfl⟩, h.ft⟩, hret', h.ft⟩
  · rw [FileTransfer.popEvent_nil hout]
    have hret' : b.returned ++ [] = q.returned ++ [q.outcome] := by rw [List.append_nil, hret]
    have hft : b.handled = q.final := by
      rw [← h.ft, ← hout]
    exact ⟨⟨h.idle, h.queued, .inr ⟨hret', hout⟩, h.ft⟩, hret', hft⟩

theorem Stage.poll (h : Stage q rs b) : Stage q rs b.poll := by
  cases h with
  | asking before after hrs hbefore hafter h => exact .asking before after hrs hbefore hafter h.poll
  | answered hquiet h => exact .answered hquiet h.poll.1

end Steps

/-! ## A caller that waits for the answer -/

/-- The bytes that a run is fed. -/
def fedBy (cs : List Call) : Bytes :=
  cs.flatMap fun
    | .feed bytes _ => bytes
    | _ => []

/-- What a caller does while it waits: it feeds and polls, and it ticks while there is time. -/
def Call.awaits (sent : Instant) (limit : Duration) : Call → Bool
  | .feed _ _ => true
  | .tick now => decide (now - sent < limit)
  | .pollOutbound => true
  | .poll => true
  | _ => false

section Runs

variable {q : Enquiry} {b : Bare}

theorem replies_append (a more : Bytes) :
    replies (a ++ more) = replies a ++ replies ((Lines.cut 0x0A a).2 ++ more) := by
  unfold replies
  rw [Lines.cut_append, List.map_append]

theorem Stage.feed {bytes more : Bytes}
    (h : Stage q (replies (b.session.inboundBuf ++ (bytes ++ more))) b) (now : Instant) :
    Stage q (replies ((b.session.feed bytes now).inboundBuf ++ more))
      { b with session := b.session.feed bytes now } := by
  rw [← List.append_assoc, replies_append] at h
  rw [feed_eq]
  exact (h.takeAll now).withBuf _

/-- The lines are all there. -/
theorem Stage.answered_of_nil (h : Stage q [] b) : Answered q b := by
  cases h with
  | asking before after hrs _ _ _ => simp at hrs
  | answered _ h => exact h

/-- **However it was fed and polled**, the query is answered, once. -/
theorem Stage.run {cs : List Call} (hbuf : (0x0A : UInt8) ∉ b.session.inboundBuf)
    (h : Stage q (replies (b.session.inboundBuf ++ fedBy cs)) b)
    (hcs : ∀ c ∈ cs, c.awaits q.sent q.limit = true) :
    ∃ b', b.run (cs ++ [.poll]) = some b' ∧ b'.returned = q.returned ++ [q.outcome]
      ∧ b'.ft = q.final := by
  induction cs generalizing b with
  | nil =>
    have hnil : replies (b.session.inboundBuf ++ fedBy []) = [] := by
      rw [show fedBy [] = [] from rfl, List.append_nil, replies, Lines.cut_of_notMem hbuf]
      rfl
    rw [hnil] at h
    obtain ⟨-, h1, h2⟩ := h.answered_of_nil.poll
    exact ⟨b.poll, rfl, h1, h2⟩
  | cons c cs ih =>
    have hc := hcs c List.mem_cons_self
    have hcs' : ∀ c ∈ cs, c.awaits q.sent q.limit = true :=
      fun x hx => hcs x (List.mem_cons_of_mem _ hx)
    cases c with
    | feed bytes now => exact ih (unfinished_feed _ bytes now) (h.feed now) hcs'
    | tick now =>
      have hb := tick_inboundBuf b.session now
      exact ih (b := { b with session := b.session.tick now }) (hb ▸ hbuf)
        (by rw [hb]; exact h.tick (of_decide_eq_true hc)) hcs'
    | pollOutbound =>
      have hb := pollOutbound_inboundBuf b.session
      exact ih (b := { b with session := b.session.pollOutbound.2 }) (hb ▸ hbuf)
        (by rw [hb]; exact h.pollOutbound) hcs'
    | poll =>
      have hb : b.poll.session.inboundBuf = b.session.inboundBuf := by
        rw [Bare.poll_eq]
      exact ih (b := b.poll) (hb ▸ hbuf) (by rw [hb]; exact h.poll) hcs'
    | _ => cases hc

end Runs

/-! ## The query -/

namespace FileTransfer

/-- A transfer that has just asked. -/
def asked (requested : Compression) : FileTransfer :=
  { new with state := .awaitingQueryReply, requestedCompression := requested }

theorem foldl_hear_waiting {ft : FileTransfer} (hst : ft.state = .awaitingQueryReply)
    (rs : List Reply) : (rs.foldl hear ft).state = .awaitingQueryReply
      ∧ (rs.foldl hear ft).outEvents = ft.outEvents
      ∧ (ft.Consistent → (rs.foldl hear ft).Consistent) := by
  induction rs generalizing ft with
  | nil => exact ⟨hst, rfl, id⟩
  | cons r rs ih =>
    obtain ⟨h1, h2, h3⟩ := hear_waiting hst r
    obtain ⟨h4, h5, h6⟩ := ih h1
    exact ⟨h4, h5.trans h2, fun hc => h6 (h3 hc)⟩

end FileTransfer

/-- The query that a transfer makes, with the lines that will come before its ack. -/
def Bare.enquiry (b : Bare) (requested : Compression) (now : Instant) (before : List Reply) :
    Enquiry where
  sync := b.session.sync
  sent := now
  limit := b.session.totalTimeout
  returned := b.returned
  target := before.foldl FileTransfer.hear (.asked requested)
  waiting := (FileTransfer.foldl_hear_waiting rfl before).1
  silent := (FileTransfer.foldl_hear_waiting rfl before).2.1
  consistent := (FileTransfer.foldl_hear_waiting rfl before).2.2
    (FileTransfer.consistent_of_none rfl)

/-- A transfer that can ask: it was not used, the session is synced and its line is free, and
nothing is pending that would be taken for an answer. -/
structure Bare.Free (b : Bare) (requested : Compression) : Prop where
  ft : b.ft = FileTransfer.new
  synced : b.session.isSynced = true
  idle : b.session.inFlight = none
  queued : b.session.queued = []
  pending : ∀ e ∈ b.session.events, e.decides .query requested = false

/-- **A query over a free line** is in flight at once. -/
theorem Bare.Free.query {b : Bare} {requested : Compression} (h : b.Free requested)
    (now : Instant) (before : List Reply) :
    ∃ b', b.step (.query requested now) = some b'
      ∧ b'.session.inboundBuf = b.session.inboundBuf
      ∧ Asking (b.enquiry requested now before) before b' := by
  obtain ⟨s', hs⟩ : ∃ s', b.session.send protocolFileTransfer ptQuery [] now = some s' :=
    exists_send h.synced (by decide) (by decide) (Nat.zero_le _) now
  have hreq : b.ft.query b.session requested now = some (.asked requested, s') := by
    refine FileTransfer.request_eq_some.mpr ⟨?_, ?_, ?_⟩
    · show b.ft.state = .idle
      rw [h.ft]
      rfl
    · show b.session.send b.ft.protocolId ptQuery [] now = some s'
      rw [h.ft]
      exact hs
    · rw [h.ft]
      rfl
  refine ⟨⟨.asked requested, s', b.returned⟩, ?_, send_inboundBuf hs, ?_⟩
  · show b.called (b.ft.query b.session requested now) = _
    rw [hreq]
    rfl
  obtain ⟨bytes, -, -, -, -, rfl⟩ := send_eq_some.mp hs
  have hqueue : (b.session.queue bytes false).queued = [⟨bytes, false⟩] := by
    show b.session.queued ++ _ = _
    rw [h.queued]
    rfl
  rw [dispatchIfIdle_cons (s := b.session.queue bytes false) h.idle hqueue now]
  have hhandled : (⟨.asked requested, _, b.returned⟩ : Bare).handled
      = FileTransfer.asked requested :=
    FileTransfer.fold_undecided (show (FileTransfer.asked requested).state
      = Operation.query.awaiting from rfl) h.pending
  exact ⟨⟨_, rfl, rfl, rfl, rfl⟩, rfl, rfl, rfl, congrArg _ hhandled, congrArg _ hhandled,
    congrArg (before.foldl FileTransfer.hear) hhandled⟩

/-- **From a query to its answer**: the lines that come before its ack decide it, and the ack
commits. -/
theorem Bare.Free.answered {b : Bare} {requested : Compression} (h : b.Free requested)
    (hbuf : (0x0A : UInt8) ∉ b.session.inboundBuf) {now : Instant} {before after : List Reply}
    (hbefore : ∀ r ∈ before, r.quiet = true) (hafter : ∀ r ∈ after, r.quiet = true)
    {cs : List Call} (hcs : ∀ c ∈ cs, c.awaits now b.session.totalTimeout = true)
    (hfed : replies (b.session.inboundBuf ++ fedBy cs) = before ++ .ok b.session.sync :: after) :
    ∃ b', b.run (.query requested now :: (cs ++ [.poll])) = some b'
      ∧ b'.returned = b.returned ++ [(b.enquiry requested now before).outcome]
      ∧ b'.ft = (b.enquiry requested now before).final := by
  obtain ⟨b1, hstep, hb1, hask⟩ := h.query now before
  have hstage : Stage (b.enquiry requested now before)
      (replies (b1.session.inboundBuf ++ fedBy cs)) b1 :=
    .asking before after (by rw [hb1]; exact hfed) hbefore hafter hask
  obtain ⟨b2, hrun, h1, h2⟩ := hstage.run (hb1 ▸ hbuf) hcs
  refine ⟨b2, ?_, h1, h2⟩
  rw [Bare.run, hstep]
  exact hrun

end MarlinTransfer
