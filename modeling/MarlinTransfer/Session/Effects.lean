import MarlinTransfer.Session.Conservation

/-!
# A step, with its ledger

The inversion lemmas that runs are reasoned about with: what a reply, a tick or a
submission may have done to a watched session, told as facts about the fields of the
session and of the ledger, with the cause of each. Nothing above this file unfolds
an operation of the session again.
-/

namespace MarlinTransfer

open Codec Text Session

/-- After a retirement the head of the queue goes out, or nothing waits. -/
inductive Resumes (w w' : Watched) : Prop where
  | idle (hq : w.session.queued = []) (hq' : w'.session.queued = [])
      (hf : w'.session.inFlight = none) (hp : w'.log.placed = w.log.placed)
      (hk : w'.log.counters = w.log.counters)
  | launch (q : Queued) (f : InFlight) (hq : w.session.queued = q :: w'.session.queued)
      (hf : w'.session.inFlight = some f) (hc : Carries f q w'.session.sync)
      (hp : w'.log.placed = w.log.placed ++ [(w'.log.retired.length, f.bytes)])
      (hk : w'.log.counters = w.log.counters ++ [w'.session.sync])

/-- The packet in flight was retired. -/
structure Retires (f : InFlight) (e : Event) (w w' : Watched) : Prop where
  was : w.session.inFlight = some f
  retired : w'.log.retired = w.log.retired ++ [(f, e)]
  emitted : w'.log.emitted = w.log.emitted ++ [(e, some w.log.retired.length)]
  submitted : w'.log.submitted = w.log.submitted
  taken : w'.log.taken = w.log.taken
  polled : w'.log.polled = w.log.polled
  resumes : Resumes w w'

/-- The buffer of unfinished bytes plays no part. -/
theorem Retires.withBuf {f : InFlight} {e : Event} {w w' : Watched} (h : Retires f e w w')
    (buf : Bytes) : Retires f e w (w'.withBuf buf) :=
  { h with
    resumes := by
      cases h.resumes with
      | idle h1 h2 h3 h4 h5 => exact .idle h1 h2 h3 h4 h5
      | launch q g h1 h2 h3 h4 h5 => exact .launch q g h1 h2 h3 h4 h5 }

/-- Nothing moved; some events were told. -/
structure Tells (es : List Event) (w w' : Watched) : Prop where
  inFlight : w'.session.inFlight = w.session.inFlight
  queued : w'.session.queued = w.session.queued
  log : w'.log = { w.log with emitted := w.log.emitted ++ es.map (·, none) }

/-- Only what waits to be polled, or the buffer of unfinished bytes, changed. -/
structure Untouched (w w' : Watched) : Prop where
  inFlight : w'.session.inFlight = w.session.inFlight
  queued : w'.session.queued = w.session.queued
  isSynced : w'.session.isSynced = w.session.isSynced
  sync : w'.session.sync = w.session.sync
  submitted : w'.log.submitted = w.log.submitted
  counters : w'.log.counters = w.log.counters
  retired : w'.log.retired = w.log.retired
  emitted : w'.log.emitted = w.log.emitted

theorem Untouched.refl (w : Watched) : Untouched w w := ⟨rfl, rfl, rfl, rfl, rfl, rfl, rfl, rfl⟩

theorem untouched_pollEvent (w : Watched) : Untouched w w.pollEvent := by
  unfold Watched.pollEvent Session.pollEvent
  cases w.session.events <;> exact ⟨rfl, rfl, rfl, rfl, rfl, rfl, rfl, rfl⟩

theorem untouched_pollOutbound (w : Watched) : Untouched w w.pollOutbound := by
  unfold Watched.pollOutbound Session.pollOutbound
  cases w.session.outbound <;> exact ⟨rfl, rfl, rfl, rfl, rfl, rfl, rfl, rfl⟩

theorem untouched_withBuf (w : Watched) (buf : Bytes) : Untouched w (w.withBuf buf) :=
  ⟨rfl, rfl, rfl, rfl, rfl, rfl, rfl, rfl⟩

section Ledger

variable {w w' : Watched} {ds ds' : List Dispatch}

/-- The events that wait, by what was told since. -/
theorem events_of_emitted (hc : Conserved w ds) (hc' : Conserved w' ds')
    {es : List (Event × Option Nat)} (he : w'.log.emitted = w.log.emitted ++ es)
    (hp : w'.log.polled = w.log.polled) :
    w'.session.events = w.session.events ++ es.map Prod.fst := by
  rw [hc'.events, hc.events, he, hp, List.drop_append_of_le_length hc.polled_le, List.map_append]

/-- The copies that wait, by what was placed since. -/
theorem outbound_of_placed (hc : Conserved w ds) (hc' : Conserved w' ds')
    {bs : List (Nat × Bytes)} (hp : w'.log.placed = w.log.placed ++ bs)
    (ht : w'.log.taken = w.log.taken) :
    w'.session.outbound = w.session.outbound ++ bs.map Prod.snd := by
  rw [hc'.outbound, hc.outbound, hp, ht, List.drop_append_of_le_length hc.taken_le,
    List.map_append]

theorem events_same (hc : Conserved w ds) (hc' : Conserved w' ds')
    (he : w'.log.emitted = w.log.emitted) (hp : w'.log.polled = w.log.polled) :
    w'.session.events = w.session.events := by rw [hc'.events, hc.events, he, hp]

theorem outbound_same (hc : Conserved w ds) (hc' : Conserved w' ds')
    (hp : w'.log.placed = w.log.placed) (ht : w'.log.taken = w.log.taken) :
    w'.session.outbound = w.session.outbound := by rw [hc'.outbound, hc.outbound, hp, ht]

/-- What is told waits to be polled. -/
theorem Tells.events {es : List Event} (h : Tells es w w') (hc : Conserved w ds)
    (hc' : Conserved w' ds') : w'.session.events = w.session.events ++ es := by
  rw [events_of_emitted hc hc' (by rw [h.log]) (by rw [h.log]), List.map_map]
  congr 1
  exact List.map_id es

end Ledger

/-- What the session says of a reply that retires nothing. -/
def told : Reply → Option InFlight → List Event
  | .ok n, none => [.asciiLine (['o', 'k'] ++ decimal n.toNat)]
  | .ok n, some f => [.outOfSync f.sync n]
  | .rs n, _ => [.resendRequested n]
  | .ss _ block version, _ => [.synced block version]
  | .fe, _ => [.fatalError]
  | .text line, _ => [.asciiLine line]
  | .noise, _ => []

/-- The counter after a reply that retires nothing. -/
def synced : Reply → UInt8 → UInt8
  | .ss sync _ _, _ => sync
  | _, c => c

/-- **Everything a reply can do.** -/
inductive Taken (r : Reply) (w w' : Watched) : Prop where
  /-- It retires nothing: it is not the answer the packet in flight waits for. -/
  | quiet (ht : Tells (told r w.session.inFlight) w w')
      (hc : w'.session.sync = synced r w.session.sync)
      (hs : w.session.isSynced = true → w'.session.isSynced = true)
      (hok : ∀ f, w.session.inFlight = some f → f.isSyncHandshake = false → r ≠ .ok f.sync)
      (hss : ∀ f, w.session.inFlight = some f → f.isSyncHandshake = true →
        ∀ sync block version, r ≠ .ss sync block version)
  /-- The `ok` of the data packet in flight. -/
  | acked (f : InFlight) (hr : r = .ok f.sync) (hf : f.isSyncHandshake = false)
      (ht : Retires f (.ack f.sync) w w') (hc : w'.session.sync = w.session.sync + 1)
      (hs : w.session.isSynced = true → w'.session.isSynced = true)
  /-- The `ss` of the handshake in flight. -/
  | synced (f : InFlight) (sync : UInt8) (block : UInt16) (version : Str)
      (hr : r = .ss sync block version) (hf : f.isSyncHandshake = true)
      (ht : Retires f (.synced block version) w w') (hc : w'.session.sync = sync)
      (hs : w'.session.isSynced = true)

/-- **Everything a tick can do.** -/
inductive Ticked (w w' : Watched) : Prop where
  | early (h : w' = w)
  | late (f : InFlight) (now : Instant) (hf : w.session.inFlight = some f)
      (hf' : w'.session.inFlight = some { f with lastSent := now })
      (hq : w'.session.queued = w.session.queued) (hc : w'.session.sync = w.session.sync)
      (hs : w'.session.isSynced = w.session.isSynced)
      (hl : w'.log = { w.log with placed := w.log.placed ++ [(w.log.retired.length, f.bytes)] })
  | expired (f : InFlight) (ht : Retires f (.timeout f.sync) w w')
      (hc : w'.session.sync = w.session.sync) (hs : w'.session.isSynced = w.session.isSynced)

/-- **Everything a submission can do.** -/
inductive Submitted (q : Queued) (w w' : Watched) : Prop where
  | waits (hbusy : w.session.inFlight.isSome)
      (hf : w'.session.inFlight = w.session.inFlight)
      (hq : w'.session.queued = w.session.queued ++ [q])
      (hl : w'.log = { w.log with submitted := w.log.submitted ++ [q.entry] })
  | launched (f : InFlight) (hidle : w.session.inFlight = none)
      (hf : w'.session.inFlight = some f) (hc : Carries f q w.session.sync)
      (hq : w'.session.queued = [])
      (hl : w'.log = { w.log with
        submitted := w.log.submitted ++ [q.entry]
        counters := w.log.counters ++ [w.session.sync]
        placed := w.log.placed ++ [(w.log.retired.length, f.bytes)] })

variable {w : Watched} {ds : List Dispatch}

theorem retires_of_next {s' : Session} {f : InFlight} {e : Event}
    (hf : w.session.inFlight = some f) (hcl : closes f e = true)
    (he : s'.events = w.session.events ++ [e]) (hn : Next w.session s') :
    Retires f e w (w.after s') := by
  cases hn with
  | idle hq hq' hf' ho =>
    have hl : (w.after s').log = _ := Ledger.note_retire (l := w.log) hf hcl he hf' ho
    exact
      { was := hf
        retired := by rw [hl]
        emitted := by rw [hl]
        submitted := by rw [hl]
        taken := by rw [hl]
        polled := by rw [hl]
        resumes := .idle hq hq' hf' (by rw [hl]) (by rw [hl]) }
  | launch q f' hq hf' hc ho =>
    have hl : (w.after s').log = _ := Ledger.note_advance (l := w.log) hf hcl he hf' ho
    exact
      { was := hf
        retired := by rw [hl]
        emitted := by rw [hl]
        submitted := by rw [hl]
        taken := by rw [hl]
        polled := by rw [hl]
        resumes := .launch q f' hq hf' hc
          (by rw [hl]; simp only [List.length_append, List.length_singleton]) (by rw [hl]; rfl) }

theorem tells_of_pushEvent (e : Event) (hcl : ∀ f, w.session.inFlight = some f → closes f e = false) :
    Tells [e] w (w.after (w.session.pushEvent e)) :=
  ⟨rfl, rfl, Ledger.note_quiet [e] rfl rfl rfl (by simpa using hcl)⟩

theorem after_self (w : Watched) : w.after w.session = w := by
  unfold Watched.after
  rw [Ledger.note_quiet [] rfl rfl (List.append_nil _).symm (by simp)]
  simp

theorem sync_succ (c : UInt8) : ((c.toUInt16 + 1) % syncMod).toUInt8 = c + 1 := by
  have hlt := c.toNat_lt
  apply UInt8.toNat_inj.mp
  have h16 : (c.toUInt16 + 1).toNat = c.toNat + 1 := by
    rw [UInt16.toNat_add, UInt8.toNat_toUInt16]
    exact Nat.mod_eq_of_lt (by simp; omega)
  rw [UInt16.toNat_toUInt8, UInt16.toNat_mod, h16, UInt8.toNat_add]
  show (c.toNat + 1) % 256 % 256 = (c.toNat + 1) % 256
  omega

theorem taken_ok (w : Watched) (n : UInt8) (now : Instant) :
    Taken (.ok n) w (w.take (.ok n) now) := by
  unfold Watched.take
  cases hf : w.session.inFlight with
  | none =>
    rw [take_ok_idle hf]
    refine .quiet ?_ rfl id (by simp [hf]) (by simp [hf])
    rw [hf]
    exact tells_of_pushEvent _ (by simp [hf])
  | some f =>
    -- refused by a handshake and by a packet with another number
    by_cases hn : f.isSyncHandshake = true ∨ n ≠ f.sync
    · rw [take_ok_refused hf hn]
      refine .quiet ?_ rfl id ?_ (by simp)
      · rw [hf]
        exact tells_of_pushEvent _ fun _ _ => rfl
      · intro g hg hdata hr
        obtain rfl := Option.some.inj (hf.symm.trans hg)
        rcases hn with hn | hn
        · rw [hdata] at hn
          cases hn
        · exact hn (Reply.ok.inj hr)
    · obtain ⟨hh, hs⟩ := not_or.mp hn
      have hh' : f.isSyncHandshake = false := Bool.eq_false_iff.mpr hh
      obtain rfl : n = f.sync := not_not.mp hs
      rw [take_ok_matching hf hh']
      refine .acked f rfl hh' ?_ ?_ ?_
      · refine retires_of_next hf (by simp [closes, hh']) ?_
          (next_dispatchIfIdle (s := w.session) (t := w.session.advance f.sync) rfl rfl rfl now)
        rw [dispatchIfIdle_events]
        rfl
      · rw [Watched.after_session, dispatchIfIdle_sync]
        exact sync_succ w.session.sync
      · intro hs
        rw [Watched.after_session, dispatchIfIdle_isSynced]
        exact hs

theorem taken_ss (hi : w.session.inFlight = none → w.session.queued = []) (sync : UInt8)
    (block : UInt16) (version : Str) (now : Instant) :
    Taken (.ss sync block version) w (w.take (.ss sync block version) now) := by
  unfold Watched.take
  have hev : (w.session.take (.ss sync block version) now).events
      = w.session.events ++ [.synced block version] := by
    show ((w.session.adopt sync block version).dispatchIfIdle now).events = _
    rw [dispatchIfIdle_events]
    rfl
  have hsync : (w.session.take (.ss sync block version) now).sync = sync := by
    show ((w.session.adopt sync block version).dispatchIfIdle now).sync = _
    rw [dispatchIfIdle_sync]
    rfl
  have hsynced : (w.session.take (.ss sync block version) now).isSynced = true := by
    show ((w.session.adopt sync block version).dispatchIfIdle now).isSynced = _
    rw [dispatchIfIdle_isSynced]
    rfl
  -- a handshake in flight is retired, a data packet and an idle session are not
  by_cases hh : ∃ f, w.session.inFlight = some f ∧ f.isSyncHandshake = true
  · obtain ⟨f, hf, hf'⟩ := hh
    exact .synced f sync block version rfl hf' (retires_of_next hf (by rw [closes, hf']) hev
      (next_dispatchIfIdle (s := w.session) (t := w.session.adopt sync block version) rfl
        (adopt_inFlight_handshake hf hf' sync block version) rfl now)) hsync hsynced
  · have hdata : ∀ f, w.session.inFlight = some f → f.isSyncHandshake = false := fun f hf =>
      Bool.eq_false_iff.mpr fun hf' => hh ⟨f, hf, hf'⟩
    have had := adopt_inFlight_data hdata sync block version
    have hsame : w.session.take (.ss sync block version) now
        = w.session.adopt sync block version := by
      show (w.session.adopt sync block version).dispatchIfIdle now = _
      cases hf : w.session.inFlight with
      | none => exact dispatchIfIdle_empty (s := w.session.adopt sync block version) (hi hf) now
      | some f => exact dispatchIfIdle_busy (by rw [had, hf]) now
    rw [hsame]
    refine .quiet ⟨had, rfl, Ledger.note_quiet [.synced block version] had rfl rfl ?_⟩
      rfl (fun _ => rfl) (by simp) ?_
    · intro f hf
      simpa [closes] using hdata f hf
    · intro f hf hf'
      rw [hdata f hf] at hf'
      cases hf'

/-- A reply that only tells an event. -/
theorem taken_tell {r : Reply} {e : Event} {now : Instant}
    (hr : w.session.take r now = w.session.pushEvent e)
    (htold : ∀ fl, told r fl = [e]) (hc : synced r w.session.sync = w.session.sync)
    (hcl : ∀ f, closes f e = false) (hok : ∀ n, r ≠ .ok n)
    (hss : ∀ sync block version, r ≠ .ss sync block version) : Taken r w (w.take r now) := by
  unfold Watched.take
  rw [hr]
  refine .quiet ?_ (by rw [hc]; rfl) id (fun f _ _ => hok f.sync) (fun _ _ _ => hss)
  rw [htold]
  exact tells_of_pushEvent e fun f _ => hcl f

theorem taken (h : Conserved w ds) (r : Reply) (now : Instant) : Taken r w (w.take r now) := by
  cases r with
  | ok n => exact taken_ok w n now
  | ss sync block version => exact taken_ss h.idle sync block version now
  | rs n => exact taken_tell rfl (fun _ => rfl) rfl (fun _ => rfl) (by simp) (by simp)
  | fe => exact taken_tell rfl (fun _ => rfl) rfl (fun _ => rfl) (by simp) (by simp)
  | text line => exact taken_tell rfl (fun _ => rfl) rfl (fun _ => rfl) (by simp) (by simp)
  | noise =>
    have hself : w.take .noise now = w := after_self w
    rw [hself]
    exact .quiet ⟨rfl, rfl, by simp [told]⟩ rfl id (by simp) (by simp)

theorem ticked (w : Watched) (now : Instant) : Ticked w (w.tick now) := by
  unfold Watched.tick
  cases hf : w.session.inFlight with
  | none =>
    rw [tick_idle hf]
    exact .early (after_self w)
  | some f =>
    by_cases ht : now - f.firstSent ≥ w.session.totalTimeout
    · rw [tick_expired hf ht]
      refine .expired f (retires_of_next hf (by simp [closes]) ?_
        (next_dispatchIfIdle (s := w.session) (t := w.session.giveUp f.sync) rfl rfl rfl now)) ?_ ?_
      · rw [dispatchIfIdle_events]
        rfl
      · rw [Watched.after_session, dispatchIfIdle_sync]
        rfl
      · rw [Watched.after_session, dispatchIfIdle_isSynced]
        rfl
    · by_cases hr : now - f.lastSent ≥ w.session.responseTimeout
      · rw [tick_late hf ht hr]
        exact .late f now hf rfl rfl rfl rfl (Ledger.note_resend hf rfl rfl)
      · rw [tick_early hf ht hr]
        exact .early (after_self w)

theorem submitted_queue (h : Conserved w ds) (b : BytesBuilder) (flag : Bool) (now : Instant) :
    Submitted ⟨b, flag⟩ w
      ((w.enter (Queued.entry ⟨b, flag⟩)).after ((w.session.queue b flag).dispatchIfIdle now)) := by
  have hshape := queue_shape h.idle b flag now
  have hsync : ((w.session.queue b flag).dispatchIfIdle now).sync = w.session.sync := by
    rw [dispatchIfIdle_sync]
    rfl
  cases hshape with
  | enqueue q hsub hbusy hf hq ho he =>
    obtain rfl := Option.some.inj hsub
    refine .waits hbusy hf hq ?_
    refine (Ledger.note_quiet (s := w.session) [] hf ho ?_ (by simp)).trans ?_
    · rw [he, List.append_nil]
    · rw [List.map_nil, List.append_nil]
      rfl
  | launch q f hsub hidle hf hc hq ho he =>
    obtain rfl := Option.some.inj hsub
    rw [hsync] at hc
    refine .launched f hidle hf hc hq ?_
    refine (Ledger.note_launch (s := w.session) hidle hf ho he).trans ?_
    rw [hsync]
    rfl
  | quiet _ hsub => cases hsub
  | retire _ _ hsub => cases hsub
  | resend _ _ hsub => cases hsub

theorem submitted_connect (h : Conserved w ds) (now : Instant) :
    Submitted ⟨syncPacket, true⟩ w (w.connect now) := submitted_queue h syncPacket true now

theorem submitted_send (h : Conserved w ds) {protocol packetType : UInt8} {payload : Bytes}
    {now : Instant} {w' : Watched} (hs : w.send protocol packetType payload now = some w') :
    w.session.isSynced = true ∧ w'.session.isSynced = true ∧ w'.session.sync = w.session.sync
      ∧ ∃ b : BytesBuilder, b.protocol = protocol ∧ b.packetType = packetType
        ∧ b.payload = payload ∧ Submitted ⟨b, false⟩ w w' := by
  unfold Watched.send at hs
  obtain ⟨s', hs', rfl⟩ := Option.map_eq_some_iff.mp hs
  obtain ⟨b, rfl, rfl, rfl, hsy, rfl⟩ := send_eq_some.mp hs'
  refine ⟨hsy, ?_, ?_, b, rfl, rfl, rfl, submitted_queue h b false now⟩
  · rw [Watched.after_session, dispatchIfIdle_isSynced]
    exact hsy
  · rw [Watched.after_session, dispatchIfIdle_sync]
    rfl

/-! ## Packets outstanding -/

/-- Every packet that is not done with is a handshake. -/
def OnlyHandshakes (w : Watched) : Prop :=
  (∀ f, w.session.inFlight = some f → f.isSyncHandshake = true)
    ∧ ∀ q ∈ w.session.queued, q.isSyncHandshake = true

/-- A handshake is done with, and the next packet goes out. -/
theorem OnlyHandshakes.resumes {w w' : Watched} (h : OnlyHandshakes w) (hr : Resumes w w') :
    OnlyHandshakes w' := by
  cases hr with
  | idle _ hq hf =>
    refine ⟨fun f hf' => ?_, by rw [hq]; simp⟩
    rw [hf] at hf'
    cases hf'
  | launch q f hq hf hc =>
    rw [OnlyHandshakes, hq] at h
    refine ⟨fun g hg => ?_, fun r hr => h.2 r (List.mem_cons_of_mem _ hr)⟩
    rw [← Option.some.inj (hf.symm.trans hg), hc.handshake_eq]
    exact h.2 q List.mem_cons_self

end MarlinTransfer
