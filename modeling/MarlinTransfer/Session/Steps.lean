import MarlinTransfer.Session.Replies

/-!
# What one step of a session does

One lemma per case of every operation, and from them the single inversion lemma every
invariant is derived from: whatever a step does to the packet in flight, the queue, the
outbound bytes and the events, it is one of the six shapes of `Shape`. A step here is a
submission, one reply, or a tick; `feed` is replies in a row (`feed_eq`).
-/

namespace MarlinTransfer

open Codec Text

/-- The packet as the device will read it. -/
structure Content where
  protocol : UInt8
  packetType : UInt8
  payload : Bytes
  deriving DecidableEq, Repr

def Codec.Packet.content (p : Packet) : Content := ⟨p.protocol, p.packetType, p.payload⟩

namespace Queued

def content (q : Queued) : Content :=
  ⟨q.bytesWithoutSync.protocol, q.bytesWithoutSync.packetType, q.bytesWithoutSync.payload⟩

/-- The packet under a sync number. -/
def packet (q : Queued) (sync : UInt8) : Packet := q.bytesWithoutSync.packet sync

theorem packet_valid (q : Queued) (sync : UInt8) : (q.packet sync).Valid :=
  q.bytesWithoutSync.packet_valid sync

@[simp] theorem packet_content (q : Queued) (sync : UInt8) :
    (q.packet sync).content = q.content := rfl

@[simp] theorem packet_sync (q : Queued) (sync : UInt8) : (q.packet sync).sync = sync := rfl

end Queued

namespace Session

/-! ## Dispatch -/

/-- The packet in flight that a queued packet becomes. -/
def launched (s : Session) (q : Queued) (now : Instant) : InFlight :=
  { sync := s.sync
    bytes := (q.packet s.sync).wire
    firstSent := now
    lastSent := now
    isSyncHandshake := q.isSyncHandshake }

theorem dispatchIfIdle_busy {s : Session} {f : InFlight} (h : s.inFlight = some f)
    (now : Instant) : s.dispatchIfIdle now = s := by
  unfold dispatchIfIdle
  rw [if_pos (by rw [h]; rfl)]

theorem dispatchIfIdle_empty {s : Session} (h : s.queued = []) (now : Instant) :
    s.dispatchIfIdle now = s := by
  unfold dispatchIfIdle
  rw [h]
  split <;> rfl

theorem dispatchIfIdle_cons {s : Session} {q : Queued} {rest : List Queued}
    (h : s.inFlight = none) (hq : s.queued = q :: rest) (now : Instant) :
    s.dispatchIfIdle now
      = { s with
          queued := rest
          outbound := s.outbound ++ [(s.launched q now).bytes]
          inFlight := some (s.launched q now) } := by
  have hb : (q.bytesWithoutSync.build s.sync).get (q.bytesWithoutSync.build_isSome s.sync)
      = (q.packet s.sync).wire :=
    Option.get_of_eq_some _ (q.bytesWithoutSync.build_eq s.sync)
  unfold dispatchIfIdle
  rw [if_neg (by rw [h]; decide)]
  simp only [hq]
  rw [hb]
  rfl

@[simp] theorem dispatchIfIdle_events (s : Session) (now : Instant) :
    (s.dispatchIfIdle now).events = s.events := by
  unfold dispatchIfIdle
  split
  · rfl
  · split <;> rfl

@[simp] theorem dispatchIfIdle_sync (s : Session) (now : Instant) :
    (s.dispatchIfIdle now).sync = s.sync := by
  unfold dispatchIfIdle
  split
  · rfl
  · split <;> rfl

@[simp] theorem dispatchIfIdle_isSynced (s : Session) (now : Instant) :
    (s.dispatchIfIdle now).isSynced = s.isSynced := by
  unfold dispatchIfIdle
  split
  · rfl
  · split <;> rfl

/-! ## Replies -/

theorem take_ok_idle {s : Session} (h : s.inFlight = none) (n : UInt8) (now : Instant) :
    s.take (.ok n) now = s.pushEvent (.asciiLine (['o', 'k'] ++ decimal n.toNat)) := by
  simp only [take, handleOk, h]

theorem take_ok_refused {s : Session} {f : InFlight} (h : s.inFlight = some f) {n : UInt8}
    (hn : f.isSyncHandshake = true ∨ n ≠ f.sync) (now : Instant) :
    s.take (.ok n) now = s.pushEvent (.outOfSync f.sync n) := by
  simp only [take, handleOk, h]
  split_ifs with h1 h2
  · rfl
  · rfl
  · rcases hn with hn | hn
    · exact absurd hn h1
    · exact absurd hn h2

theorem take_ok_matching {s : Session} {f : InFlight} (h : s.inFlight = some f)
    (hf : f.isSyncHandshake = false) (now : Instant) :
    s.take (.ok f.sync) now = (s.advance f.sync).dispatchIfIdle now := by
  simp only [take, handleOk, h]
  rw [if_neg (by rw [hf]; decide), if_neg (by simp)]
  rfl

theorem adopt_inFlight_handshake {s : Session} {f : InFlight} (h : s.inFlight = some f)
    (hf : f.isSyncHandshake = true) (sync : UInt8) (block : UInt16) (version : Str) :
    (s.adopt sync block version).inFlight = none := by
  simp [adopt, h, hf, Option.filter]

theorem adopt_inFlight_data {s : Session}
    (h : ∀ f, s.inFlight = some f → f.isSyncHandshake = false)
    (sync : UInt8) (block : UInt16) (version : Str) :
    (s.adopt sync block version).inFlight = s.inFlight := by
  cases hf : s.inFlight with
  | none => simp [adopt, hf]
  | some f => simp [adopt, hf, h f hf, Option.filter]

/-! ## Time -/

theorem tick_idle {s : Session} (h : s.inFlight = none) (now : Instant) : s.tick now = s := by
  simp only [tick, h]

/-- The session once a packet's budget is spent. -/
def giveUp (s : Session) (sync : UInt8) : Session :=
  { s with inFlight := none, events := s.events ++ [.timeout sync] }

theorem tick_expired {s : Session} {f : InFlight} {now : Instant} (h : s.inFlight = some f)
    (ht : now - f.firstSent ≥ s.totalTimeout) :
    s.tick now = (s.giveUp f.sync).dispatchIfIdle now := by
  simp only [tick, h]
  rw [if_pos ht]
  rfl

theorem tick_late {s : Session} {f : InFlight} {now : Instant} (h : s.inFlight = some f)
    (ht : ¬ now - f.firstSent ≥ s.totalTimeout) (hr : now - f.lastSent ≥ s.responseTimeout) :
    s.tick now
      = { s with
          outbound := s.outbound ++ [f.bytes]
          inFlight := some { f with lastSent := now } } := by
  simp only [tick, h]
  rw [if_neg ht, if_pos hr]

theorem tick_early {s : Session} {f : InFlight} {now : Instant} (h : s.inFlight = some f)
    (ht : ¬ now - f.firstSent ≥ s.totalTimeout) (hr : ¬ now - f.lastSent ≥ s.responseTimeout) :
    s.tick now = s := by
  simp only [tick, h]
  rw [if_neg ht, if_neg hr]

/-! ## The shapes -/

/-- The events that end a packet's time in flight. -/
def closes (f : InFlight) : Event → Bool
  | .ack n => !f.isSyncHandshake && n == f.sync
  | .timeout sync => sync == f.sync
  | .synced _ _ => f.isSyncHandshake
  | _ => false

/-- The events that claim to have ended some packet's time in flight. -/
def Final : Event → Prop
  | .ack _ => True
  | .timeout _ => True
  | _ => False

/-- A packet in flight is a queued packet under a sync number. -/
structure Carries (f : InFlight) (q : Queued) (sync : UInt8) : Prop where
  sync_eq : f.sync = sync
  bytes_eq : f.bytes = (q.packet sync).wire
  handshake_eq : f.isSyncHandshake = q.isSyncHandshake

theorem launched_carries (s : Session) (q : Queued) (now : Instant) :
    Carries (s.launched q now) q s.sync := ⟨rfl, rfl, rfl⟩

/-- The line has become free: the head of the queue goes out, or nothing waits. -/
inductive Next (s s' : Session) : Prop where
  | idle (h : s.queued = []) (hq : s'.queued = []) (hf : s'.inFlight = none)
      (ho : s'.outbound = s.outbound)
  | launch (q : Queued) (f : InFlight) (h : s.queued = q :: s'.queued)
      (hf : s'.inFlight = some f) (hc : Carries f q s'.sync)
      (ho : s'.outbound = s.outbound ++ [f.bytes])

/-- Everything a step can do, `sub` being the packet it submits, if any. -/
inductive Shape (sub : Option Queued) (s s' : Session) : Prop where
  /-- Nothing moves; events that end no flight may be told. -/
  | quiet (es : List Event) (hsub : sub = none) (hf : s'.inFlight = s.inFlight)
      (hq : s'.queued = s.queued) (ho : s'.outbound = s.outbound)
      (he : s'.events = s.events ++ es) (hes : ∀ e ∈ es, ¬ Final e)
      (hcl : ∀ f, s.inFlight = some f → ∀ e ∈ es, closes f e = false)
  /-- A submitted packet waits behind the one in flight. -/
  | enqueue (q : Queued) (hsub : sub = some q) (hbusy : s.inFlight.isSome)
      (hf : s'.inFlight = s.inFlight) (hq : s'.queued = s.queued ++ [q])
      (ho : s'.outbound = s.outbound) (he : s'.events = s.events)
  /-- A submitted packet goes out at once. -/
  | launch (q : Queued) (f : InFlight) (hsub : sub = some q) (hidle : s.inFlight = none)
      (hf : s'.inFlight = some f) (hc : Carries f q s'.sync) (hq : s'.queued = [])
      (ho : s'.outbound = s.outbound ++ [f.bytes]) (he : s'.events = s.events)
  /-- The packet in flight is done with, and the next one goes out. -/
  | retire (f : InFlight) (e : Event) (hsub : sub = none) (hf : s.inFlight = some f)
      (hcl : closes f e = true) (he : s'.events = s.events ++ [e]) (hn : Next s s')
  /-- Another copy of the packet in flight. -/
  | resend (f : InFlight) (now : Instant) (hsub : sub = none) (hf : s.inFlight = some f)
      (hf' : s'.inFlight = some { f with lastSent := now }) (hq : s'.queued = s.queued)
      (ho : s'.outbound = s.outbound ++ [f.bytes]) (he : s'.events = s.events)

/-- Dispatching once the packet in flight is gone. -/
theorem next_dispatchIfIdle {s t : Session} (hq : t.queued = s.queued) (hf : t.inFlight = none)
    (ho : t.outbound = s.outbound) (now : Instant) : Next s (t.dispatchIfIdle now) := by
  cases h : t.queued with
  | nil =>
    rw [dispatchIfIdle_empty h]
    exact .idle (by rw [← hq, h]) h hf ho
  | cons q rest =>
    rw [dispatchIfIdle_cons hf h]
    exact .launch q (t.launched q now) (by rw [← hq, h]) rfl (launched_carries t q now)
      (by rw [← ho])

/-- With nothing waiting when idle, submitting takes one of two shapes. -/
theorem queue_shape {s : Session} (hi : s.inFlight = none → s.queued = []) (b : BytesBuilder)
    (flag : Bool) (now : Instant) :
    Shape (some ⟨b, flag⟩) s ((s.queue b flag).dispatchIfIdle now) := by
  cases hf : s.inFlight with
  | some f =>
    rw [dispatchIfIdle_busy (s := s.queue b flag) hf]
    exact .enqueue ⟨b, flag⟩ rfl (by rw [hf]; rfl) rfl rfl rfl rfl
  | none =>
    have hq : (s.queue b flag).queued = ⟨b, flag⟩ :: [] := by
      show s.queued ++ [⟨b, flag⟩] = _
      rw [hi hf]
      rfl
    rw [dispatchIfIdle_cons (s := s.queue b flag) hf hq]
    exact .launch ⟨b, flag⟩ _ rfl hf rfl (launched_carries (s.queue b flag) _ now) rfl rfl rfl

/-- An event that ends nobody's flight. -/
theorem pushEvent_shape {s : Session} {e : Event} (he : ¬ Final e)
    (hcl : ∀ f, s.inFlight = some f → closes f e = false) : Shape none s (s.pushEvent e) :=
  .quiet [e] rfl rfl rfl rfl rfl (by simpa using he) (by simpa using hcl)

theorem handleOk_shape (s : Session) (n : UInt8) (now : Instant) :
    Shape none s (s.take (.ok n) now) := by
  cases hf : s.inFlight with
  | none =>
    rw [take_ok_idle hf]
    exact pushEvent_shape id (by simp [hf])
  | some f =>
    by_cases hn : f.isSyncHandshake = true ∨ n ≠ f.sync
    · rw [take_ok_refused hf hn]
      exact pushEvent_shape id fun _ _ => rfl
    · obtain ⟨hh, hs⟩ := not_or.mp hn
      have hh' : f.isSyncHandshake = false := Bool.eq_false_iff.mpr hh
      have hs' : n = f.sync := not_not.mp hs
      subst hs'
      rw [take_ok_matching hf hh']
      refine .retire f (.ack f.sync) rfl hf (by simp [closes, hh']) ?_ ?_
      · rw [dispatchIfIdle_events]
        rfl
      · exact next_dispatchIfIdle (s := s) (t := s.advance f.sync) rfl rfl rfl now

theorem handleSs_shape {s : Session} (hi : s.inFlight = none → s.queued = []) (sync : UInt8)
    (block : UInt16) (version : Str) (now : Instant) :
    Shape none s (s.take (.ss sync block version) now) := by
  have hev : (s.take (.ss sync block version) now).events = s.events ++ [.synced block version] := by
    show ((s.adopt sync block version).dispatchIfIdle now).events = _
    rw [dispatchIfIdle_events]
    rfl
  by_cases hh : ∃ f, s.inFlight = some f ∧ f.isSyncHandshake = true
  · obtain ⟨f, hf, hf'⟩ := hh
    exact .retire f (.synced block version) rfl hf (by rw [closes, hf']) hev
      (next_dispatchIfIdle (s := s) (t := s.adopt sync block version) rfl
        (adopt_inFlight_handshake hf hf' sync block version) rfl now)
  · have hdata : ∀ f, s.inFlight = some f → f.isSyncHandshake = false := fun f hf =>
      Bool.eq_false_iff.mpr fun hf' => hh ⟨f, hf, hf'⟩
    have had := adopt_inFlight_data hdata sync block version
    -- a data packet stays in flight, and an idle session has nothing to dispatch
    have hsame : s.take (.ss sync block version) now = s.adopt sync block version := by
      show (s.adopt sync block version).dispatchIfIdle now = _
      cases hf : s.inFlight with
      | none => exact dispatchIfIdle_empty (s := s.adopt sync block version) (hi hf) now
      | some f => exact dispatchIfIdle_busy (by rw [had, hf]) now
    rw [hsame]
    exact .quiet [.synced block version] rfl had rfl rfl rfl (by simp [Final])
      fun f hf => by simpa [closes] using hdata f hf

/-- **A reply has a shape.** -/
theorem take_shape {s : Session} (hi : s.inFlight = none → s.queued = []) (r : Reply)
    (now : Instant) : Shape none s (s.take r now) := by
  cases r with
  | ok n => exact handleOk_shape s n now
  | ss sync block version => exact handleSs_shape hi sync block version now
  | rs n => exact pushEvent_shape id fun _ _ => rfl
  | fe => exact pushEvent_shape id fun _ _ => rfl
  | text line => exact pushEvent_shape id fun _ _ => rfl
  | noise => exact .quiet [] rfl rfl rfl rfl (List.append_nil _).symm (by simp) (by simp)

/-- **A tick has a shape.** -/
theorem tick_shape (s : Session) (now : Instant) : Shape none s (s.tick now) := by
  have hquiet : Shape none s s :=
    .quiet [] rfl rfl rfl rfl (List.append_nil _).symm (by simp) (by simp)
  cases hf : s.inFlight with
  | none =>
    rw [tick_idle hf]
    exact hquiet
  | some f =>
    by_cases ht : now - f.firstSent ≥ s.totalTimeout
    · rw [tick_expired hf ht]
      refine .retire f (.timeout f.sync) rfl hf (by simp [closes]) ?_ ?_
      · rw [dispatchIfIdle_events]
        rfl
      · exact next_dispatchIfIdle (s := s) (t := s.giveUp f.sync) rfl rfl rfl now
    · by_cases hr : now - f.lastSent ≥ s.responseTimeout
      · rw [tick_late hf ht hr]
        exact .resend f now rfl hf rfl rfl rfl rfl
      · rw [tick_early hf ht hr]
        exact hquiet

/-- `send` past its assertions. -/
theorem send_eq_some {s s' : Session} {protocol packetType : UInt8} {payload : Bytes}
    {now : Instant} :
    s.send protocol packetType payload now = some s'
      ↔ ∃ b : BytesBuilder, b.protocol = protocol ∧ b.packetType = packetType
          ∧ b.payload = payload ∧ s.isSynced = true
          ∧ s' = (s.queue b false).dispatchIfIdle now := by
  unfold send
  constructor
  · intro h
    split_ifs at h with hs hp ht hl
    exact ⟨⟨protocol, packetType, payload, hp, ht, hl⟩, rfl, rfl, rfl, hs,
      (Option.some.inj h).symm⟩
  · rintro ⟨b, rfl, rfl, rfl, hs, rfl⟩
    rw [dif_pos hs, dif_pos b.protocol_le, dif_pos b.packetType_le, dif_pos b.payload_le]

/-- The assertions of `send` are on the handshake and on three bounds. -/
theorem exists_send {s : Session} {protocol packetType : UInt8} {payload : Bytes}
    (hs : s.isSynced = true) (hp : protocol ≤ 0xF) (ht : packetType ≤ 0xF)
    (hl : payload.length ≤ maxPayload) (now : Instant) :
    ∃ s', s.send protocol packetType payload now = some s' :=
  ⟨_, send_eq_some.mpr ⟨⟨protocol, packetType, payload, hp, ht, hl⟩, rfl, rfl, rfl, hs, rfl⟩⟩

end Session

end MarlinTransfer
