import MarlinTransfer.Link.Script
import MarlinTransfer.Session.Lines
import MarlinTransfer.Lib.Fifo

/-!
# Exactly-once, in-order delivery

Against a device that expects one sync number at a time, over channels that may lose and
delay, the packets the device accepts are the packets sent, in order and once each. The
argument is that of any stop-and-wait protocol: in either channel there are messages
about the packet before the one in flight, and after those messages about the one in
flight, so that two sync numbers are all that has to be told apart and the wrap at 256
does not matter.
-/

namespace MarlinTransfer

open Codec Text Runs Fifo Session

theorem add_one_sub_one (h : UInt8) : h + 1 - 1 = h := UInt8.add_sub_cancel h 1

theorem sub_one_ne (h : UInt8) : h - 1 ≠ h := by
  intro heq
  have h1 : h - 1 + 1 = h := UInt8.sub_add_cancel h 1
  have h2 : h + 1 = h := by rw [heq] at h1; exact h1
  have h3 : (1 : UInt8) = 0 := by
    have := congrArg (· - h) h2
    simp [UInt8.add_comm h 1] at this
  exact absurd h3 (by decide)

/-- A device that accepts packets in order. -/
structure Receiver where
  expected : UInt8
  accepted : List Content
  deriving DecidableEq

namespace Receiver

variable (block : UInt16) (version : Str)

/-- It answers a SYNC with the number it expects, accepts a packet that carries this
number, acks the one before once more, and drops everything else. -/
def hear (d : Receiver) (c : Nat × Bytes) : Receiver × List Bytes :=
  match decode c.2 with
  | some (.ok (p, _)) =>
    if p.isSync then (d, [ssLine d.expected block version])
    else if p.sync = d.expected then
      ({ expected := d.expected + 1, accepted := d.accepted ++ [p.content] }, [okLine p.sync])
    else if p.sync = d.expected - 1 then (d, [okLine p.sync])
    else (d, [])
  | _ => (d, [])

variable {version}

/-- The receiver at the end of a link, which says nothing unasked. -/
def device (hv : '\n' ∉ version) : Device Receiver where
  hears d c d' ls := (d', ls) = d.hear block version c
  speaks _ _ _ := False
  hears_lines := by
    intro d c d' ls h line hm
    have hls : ls = (d.hear block version c).2 := (Prod.mk.inj h).2
    rw [hls] at hm
    unfold hear at hm
    split at hm
    · split_ifs at hm
      · rw [List.mem_singleton.mp hm]
        exact lf_notMem_ssLine _ _ hv
      · rw [List.mem_singleton.mp hm]
        exact lf_notMem_okLine _
      · rw [List.mem_singleton.mp hm]
        exact lf_notMem_okLine _
      · cases hm
    · cases hm
  speaks_lines := fun h => h.elim

variable {d : Receiver} {c : Nat × Bytes} {p : Packet} {n : Nat}

theorem hear_sync (hdec : decode c.2 = some (.ok (p, n))) (hsync : p.isSync = true) :
    d.hear block version c = (d, [ssLine d.expected block version]) := by
  unfold hear
  rw [hdec]
  exact if_pos hsync

theorem hear_expected (hdec : decode c.2 = some (.ok (p, n))) (hsync : ¬ p.isSync = true)
    (hp : p.sync = d.expected) :
    d.hear block version c
      = ({ expected := d.expected + 1, accepted := d.accepted ++ [p.content] },
          [okLine p.sync]) := by
  unfold hear
  rw [hdec]
  dsimp only
  rw [if_neg hsync, if_pos hp]

theorem hear_repeated (hdec : decode c.2 = some (.ok (p, n))) (hsync : ¬ p.isSync = true)
    (hp : p.sync = d.expected - 1) : d.hear block version c = (d, [okLine p.sync]) := by
  unfold hear
  rw [hdec]
  dsimp only
  rw [if_neg hsync, if_neg (by rw [hp]; exact sub_one_ne _), if_pos hp]

end Receiver

/-- What the bytes of a packet in flight say. -/
def InFlight.content (f : InFlight) : Option Content :=
  match decode f.bytes with
  | some (.ok (p, _)) => some p.content
  | _ => none

namespace Watched

/-- The packets handed to `send`, in call order. -/
def sends (w : Watched) : List Content := (w.log.submitted.filter fun e => !e.2).map Prod.fst

/-- The packet an ack retired. -/
def ackedContent (p : InFlight × Event) : Option Content :=
  match p.2 with
  | .ack _ => p.1.content
  | _ => none

/-- The packets retired by an ack, in order. -/
def acked (w : Watched) : List Content := w.log.retired.filterMap ackedContent

end Watched

/-! ## What the packet in flight is -/

/-- It decodes to what was queued. -/
theorem Session.Carries.decode {f : InFlight} {q : Queued} (hc : Carries f q f.sync) :
    ∃ n, Codec.decode f.bytes = some (.ok (q.packet f.sync, n)) := by
  have hdec := decode_wire (q.packet_valid f.sync) []
  rw [List.append_nil, ← hc.bytes_eq] at hdec
  exact ⟨_, hdec⟩

namespace Conserved

variable {w : Watched} {ds : List Dispatch}

/-- The packet in flight is the next one submitted. -/
theorem flight_entry (h : Conserved w ds) {f : InFlight} (hf : w.session.inFlight = some f) :
    ∃ q : Queued, Carries f q f.sync ∧ w.log.submitted[w.log.retired.length]? = some q.entry := by
  have hlen := h.length_busy hf
  have hfl := h.flights
  have hlt : w.log.retired.length < ds.length := by omega
  have hlast : w.flights[w.log.retired.length]? = some f := by
    unfold Watched.flights
    rw [hf, List.getElem?_append_right (by simp)]
    simp
  obtain ⟨hlt', hget⟩ := List.getElem?_eq_some_iff.mp hlast
  have hc := (List.forall₂_iff_get.mp hfl).2 w.log.retired.length hlt hlt'
  rw [List.get_eq_getElem, List.get_eq_getElem, hget] at hc
  refine ⟨ds[w.log.retired.length].queued, ?_, ?_⟩
  · rw [hc.sync_eq]
    exact hc
  · rw [h.submitted, List.getElem?_append_left (by rw [List.length_map]; exact hlt),
      List.getElem?_map, List.getElem?_eq_getElem hlt]
    rfl

theorem retired_le (h : Conserved w ds) : w.log.retired.length ≤ w.log.submitted.length := by
  have h1 := h.flights.length_eq
  unfold Watched.flights at h1
  rw [h.submitted, List.length_append, List.length_map, h1]
  simp
  omega

end Conserved

/-! ## The invariant -/

/-- A copy the device is done with, the counter having come to `h`. -/
def Old (h : UInt8) (c : Nat × Bytes) : Prop :=
  ∃ p n, decode c.2 = some (.ok (p, n)) ∧ (p.isSync = true ∨ p.sync = h - 1)

/-- A reply the session is done with, the counter having come to `h`. -/
def Past (h : UInt8) (r : Reply) : Prop := r = .ok (h - 1) ∨ ∃ block version, r = .ss h block version

/-- The handshake is under way. -/
structure Shaking (w : Wire Receiver) : Prop where
  flight : ∃ f, w.host.session.inFlight = some f ∧ f.isSyncHandshake = true
  queued : w.host.session.queued = []
  unsynced : w.host.session.isSynced = false
  submitted : w.host.log.submitted = [(⟨0, 1, []⟩, true)]
  retired : w.host.log.retired = []
  accepted : w.device.accepted = []
  forward : ∀ c ∈ w.forward, ∃ p n, decode c.2 = some (.ok (p, n)) ∧ p.isSync = true
  back : ∀ r ∈ w.back, ∃ block version, r = .ss w.device.expected block version

/-- Every packet the device accepted was acked: the one in flight, if any, is still to come. -/
structure Level (w : Wire Receiver) (sub : List (Content × Bool)) (k : Nat) : Prop where
  expected : w.device.expected = w.host.session.sync
  accepted : w.device.accepted = (sub.take k).map Prod.fst
  forward : Phased (Old w.host.session.sync)
    (fun c => ∃ f, w.host.session.inFlight = some f ∧ c.2 = f.bytes) w.forward
  back : ∀ r ∈ w.back, Past w.host.session.sync r

/-- With nothing in flight there are old copies only. -/
theorem Level.forward_idle {w : Wire Receiver} {sub : List (Content × Bool)} {k : Nat}
    (h : Level w sub k) (hidle : w.host.session.inFlight = none) :
    ∀ c ∈ w.forward, Old w.host.session.sync c := by
  obtain ⟨a, b, hab, ha, hb⟩ := h.forward
  cases b with
  | nil =>
    rw [hab, List.append_nil]
    exact ha
  | cons c b =>
    obtain ⟨g, hg, -⟩ := hb c List.mem_cons_self
    rw [hidle] at hg
    cases hg

/-- The device has accepted the packet in flight, and its ack is still to come. -/
structure Ahead (w : Wire Receiver) (sub : List (Content × Bool)) (k : Nat) : Prop where
  flight : ∃ f p n, w.host.session.inFlight = some f ∧ decode f.bytes = some (.ok (p, n))
    ∧ p.isSync = false ∧ p.sync = w.host.session.sync ∧ ∀ c ∈ w.forward, c.2 = f.bytes
  expected : w.device.expected = w.host.session.sync + 1
  accepted : w.device.accepted = (sub.take (k + 1)).map Prod.fst
  back : Phased (Past w.host.session.sync) (· = .ok w.host.session.sync) w.back

/-- Data flows: `sub` was sent, and `k` packets of it were acked. -/
structure Flowing (w : Wire Receiver) (sub : List (Content × Bool)) (k : Nat) : Prop where
  synced : w.host.session.isSynced = true
  submitted : w.host.log.submitted = (⟨0, 1, []⟩, true) :: sub
  data : ∀ e ∈ sub, e.2 = false
  retired : w.host.log.retired.length = k + 1
  acked : w.host.acked = (sub.take k).map Prod.fst
  flight : ∀ f, w.host.session.inFlight = some f →
    f.isSyncHandshake = false ∧ f.sync = w.host.session.sync
  progress : Level w sub k ∨ Ahead w sub k

/-- **The alternating-bit invariant.** -/
structure InOrder (w : Wire Receiver) : Prop where
  conserved : ∃ ds, Conserved w.host ds
  phase : Shaking w ∨ ∃ sub k, Flowing w sub k

namespace Flowing

variable {w w' : Wire Receiver} {sub : List (Content × Bool)} {k : Nat}

/-- What the packets in flight and acked leave of the submissions. -/
theorem le_length (h : Flowing w sub k) {ds : List Dispatch} (hc : Conserved w.host ds) :
    k ≤ sub.length := by
  have hle := hc.retired_le
  rw [h.retired, h.submitted, List.length_cons] at hle
  omega

theorem flight_content (h : Flowing w sub k) {ds : List Dispatch} (hc : Conserved w.host ds)
    {f : InFlight} (hf : w.host.session.inFlight = some f) :
    ∃ (q : Queued) (n : Nat), sub[k]? = some q.entry
      ∧ decode f.bytes = some (.ok (q.packet f.sync, n)) := by
  obtain ⟨q, hq, hget⟩ := hc.flight_entry hf
  obtain ⟨n, hdec⟩ := hq.decode
  rw [h.retired, h.submitted, List.getElem?_cons_succ] at hget
  exact ⟨q, n, hget, hdec⟩

/-- Only the wire and what the host does not look at changed. -/
theorem of_same (h : Flowing w sub k)
    (hf : w'.host.session.inFlight = w.host.session.inFlight)
    (hsy : w'.host.session.isSynced = w.host.session.isSynced)
    (hsync : w'.host.session.sync = w.host.session.sync)
    (hsub : w'.host.log.submitted = w.host.log.submitted)
    (hr : w'.host.log.retired = w.host.log.retired) (hdev : w'.device = w.device)
    (hfw : w'.forward.Sublist w.forward) (hb : w'.back.Sublist w.back) : Flowing w' sub k where
  synced := by rw [hsy]; exact h.synced
  submitted := by rw [hsub]; exact h.submitted
  data := h.data
  retired := by rw [hr]; exact h.retired
  acked := by unfold Watched.acked; rw [hr]; exact h.acked
  flight := by rw [hf, hsync]; exact h.flight
  progress := by
    rcases h.progress with hl | ha
    · refine .inl ⟨by rw [hdev, hsync]; exact hl.expected, by rw [hdev]; exact hl.accepted, ?_, ?_⟩
      · rw [hsync, hf]
        exact hl.forward.sublist hfw
      · rw [hsync]
        exact fun r hm => hl.back r (hb.subset hm)
    · obtain ⟨f, p, n, h1, h2, h3, h4, h5⟩ := ha.flight
      refine .inr ⟨⟨f, p, n, by rw [hf]; exact h1, h2, h3, by rw [hsync]; exact h4,
        fun c hm => h5 c (hfw.subset hm)⟩, by rw [hdev, hsync]; exact ha.expected,
        by rw [hdev]; exact ha.accepted, ?_⟩
      rw [hsync]
      exact ha.back.sublist hb

/-- What is sent is data. -/
theorem data_snoc (h : Flowing w sub k) {entry : Content × Bool} (hdata : entry.2 = false) :
    ∀ e ∈ sub ++ [entry], e.2 = false := by
  intro e he
  rcases List.mem_append.mp he with he | he
  · exact h.data e he
  · rw [List.mem_singleton.mp he]
    exact hdata

/-- A packet that waits in the queue: the wire is as it was. -/
theorem after_waits (h : Flowing w sub k) {ds : List Dispatch} (hc : Conserved w.host ds)
    {host : Watched} {entry : Content × Bool} (hdata : entry.2 = false)
    (hf : host.session.inFlight = w.host.session.inFlight)
    (hl : host.log = { w.host.log with submitted := w.host.log.submitted ++ [entry] })
    (hsy : host.session.isSynced = true) (hsync : host.session.sync = w.host.session.sync) :
    Flowing (w.act host) (sub ++ [entry]) k := by
  have htake : (sub ++ [entry]).take k = sub.take k :=
    List.take_append_of_le_length (h.le_length hc)
  have hfw : (w.act host).forward = w.forward := Wire.act_forward_same (by rw [hl])
  have hlog : (w.act host).host.log = host.log := rfl
  refine ⟨hsy, ?_, h.data_snoc hdata, ?_, ?_, ?_, ?_⟩
  · rw [hlog, hl]
    show w.host.log.submitted ++ _ = _
    rw [h.submitted]
    rfl
  · rw [hlog, hl]
    exact h.retired
  · unfold Watched.acked
    rw [hlog, hl, htake]
    exact h.acked
  · intro f hf'
    obtain ⟨h1, h2⟩ := h.flight f (by rw [← hf]; exact hf')
    exact ⟨h1, by rw [h2]; exact hsync.symm⟩
  rcases h.progress with hlv | ha
  · refine .inl ⟨hlv.expected.trans hsync.symm, by rw [htake]; exact hlv.accepted, ?_, ?_⟩
    · rw [hfw]
      show Phased (Old host.session.sync) (fun c => ∃ f, host.session.inFlight = some f ∧ _) _
      rw [hsync, hf]
      exact hlv.forward
    · intro r hr
      show Past host.session.sync r
      rw [hsync]
      exact hlv.back r hr
  · obtain ⟨f, p, n, h1, h2, h3, h4, h5⟩ := ha.flight
    have hlt : k + 1 ≤ sub.length := by
      obtain ⟨q, n, hget, -⟩ := h.flight_content hc h1
      obtain ⟨hlt, -⟩ := List.getElem?_eq_some_iff.mp hget
      exact hlt
    refine .inr ⟨⟨f, p, n, hf.trans h1, h2, h3, h4.trans hsync.symm, ?_⟩, ?_, ?_, ?_⟩
    · rw [hfw]
      exact h5
    · exact ha.expected.trans (by rw [← hsync]; rfl)
    · rw [List.take_append_of_le_length hlt]
      exact ha.accepted
    · show Phased (Past host.session.sync) (· = .ok host.session.sync) w.back
      rw [hsync]
      exact ha.back

/-- A packet that goes out at once, since nothing was in flight. -/
theorem after_launched (h : Flowing w sub k) {ds : List Dispatch} (hc : Conserved w.host ds)
    {host : Watched} {q : Queued} {f : InFlight} (hdata : q.isSyncHandshake = false)
    (hidle : w.host.session.inFlight = none) (hf : host.session.inFlight = some f)
    (hcar : Carries f q host.session.sync)
    (hsub : host.log.submitted = w.host.log.submitted ++ [q.entry])
    (hret : host.log.retired = w.host.log.retired)
    (hp : host.log.placed = w.host.log.placed ++ [(w.host.log.retired.length, f.bytes)])
    (hsy : host.session.isSynced = true) (hsync : host.session.sync = w.host.session.sync) :
    Flowing (w.act host) (sub ++ [q.entry]) k := by
  have htake : (sub ++ [q.entry]).take k = sub.take k :=
    List.take_append_of_le_length (h.le_length hc)
  -- the device cannot be ahead of a session with nothing in flight
  have hlv : Level w sub k := by
    rcases h.progress with hlv | ha
    · exact hlv
    · obtain ⟨f', p, n, h1, -⟩ := ha.flight
      rw [hidle] at h1
      cases h1
  refine ⟨hsy, ?_, h.data_snoc hdata, ?_, ?_, ?_,
    .inl ⟨hlv.expected.trans hsync.symm, by rw [htake]; exact hlv.accepted, ?_, ?_⟩⟩
  · show host.log.submitted = _
    rw [hsub, h.submitted]
    rfl
  · show host.log.retired.length = _
    rw [hret]
    exact h.retired
  · show host.log.retired.filterMap Watched.ackedContent = _
    rw [hret, htake]
    exact h.acked
  · intro g hg
    obtain rfl : f = g := Option.some.inj (hf.symm.trans hg)
    exact ⟨hcar.handshake_eq.trans hdata, hcar.sync_eq⟩
  · rw [Wire.act_forward hp]
    refine ⟨w.forward, _, rfl, ?_, ?_⟩
    · show ∀ c ∈ w.forward, Old host.session.sync c
      rw [hsync]
      exact hlv.forward_idle hidle
    · intro c hca
      rw [List.mem_singleton.mp hca]
      exact ⟨f, hf, rfl⟩
  · intro r hr
    show Past host.session.sync r
    rw [hsync]
    exact hlv.back r hr

/-- The caller sends another packet. -/
theorem after_send (h : Flowing w sub k) {ds : List Dispatch} (hc : Conserved w.host ds)
    {host : Watched} {b : BytesBuilder} (hs : Submitted ⟨b, false⟩ w.host host)
    (hsy : host.session.isSynced = true) (hsync : host.session.sync = w.host.session.sync) :
    Flowing (w.act host) (sub ++ [Queued.entry ⟨b, false⟩]) k := by
  cases hs with
  | waits hbusy hf hq hl => exact h.after_waits hc rfl hf hl hsy hsync
  | launched f hidle hf hcar hq hl =>
    exact h.after_launched hc rfl hidle hf (hsync ▸ hcar) (by rw [hl]) (by rw [hl]) (by rw [hl]) hsy
      hsync

/-- Another copy of the packet in flight. -/
theorem after_late (h : Flowing w sub k) {host : Watched} {f : InFlight} {now : Instant}
    (hf : w.host.session.inFlight = some f)
    (hf' : host.session.inFlight = some { f with lastSent := now })
    (hsync : host.session.sync = w.host.session.sync)
    (hsy : host.session.isSynced = w.host.session.isSynced)
    (hl : host.log = { w.host.log with
      placed := w.host.log.placed ++ [(w.host.log.retired.length, f.bytes)] }) :
    Flowing (w.act host) sub k := by
  have hfw : (w.act host).forward = w.forward ++ [(w.host.log.retired.length, f.bytes)] :=
    Wire.act_forward (by rw [hl])
  have hlog : (w.act host).host.log = host.log := rfl
  refine ⟨hsy.trans h.synced, ?_, h.data, ?_, ?_, ?_, ?_⟩
  · rw [hlog, hl]
    exact h.submitted
  · rw [hlog, hl]
    exact h.retired
  · unfold Watched.acked
    rw [hlog, hl]
    exact h.acked
  · intro g hg
    obtain rfl : { f with lastSent := now } = g := Option.some.inj (hf'.symm.trans hg)
    obtain ⟨h1, h2⟩ := h.flight f hf
    exact ⟨h1, h2.trans hsync.symm⟩
  · rcases h.progress with hlv | ha
    · refine .inl ⟨hlv.expected.trans hsync.symm, hlv.accepted, ?_, ?_⟩
      · rw [hfw]
        show Phased (Old host.session.sync) (fun c => ∃ g, host.session.inFlight = some g ∧ _) _
        rw [hsync, hf']
        obtain ⟨a, b, hab, h1, h2⟩ := hlv.forward
        refine ⟨a, b ++ [(w.host.log.retired.length, f.bytes)], by rw [hab, List.append_assoc],
          h1, ?_⟩
        intro c hc
        rcases List.mem_append.mp hc with hc | hc
        · obtain ⟨g, hg, hcg⟩ := h2 c hc
          obtain rfl : f = g := Option.some.inj (hf.symm.trans hg)
          exact ⟨_, rfl, hcg⟩
        · rw [List.mem_singleton.mp hc]
          exact ⟨_, rfl, rfl⟩
      · intro r hr
        show Past host.session.sync r
        rw [hsync]
        exact hlv.back r hr
    · obtain ⟨g, p, n, h1, h2, h3, h4, h5⟩ := ha.flight
      obtain rfl : f = g := Option.some.inj (hf.symm.trans h1)
      -- the device has it already, and knows the new copy by its number
      refine .inr ⟨⟨_, p, n, hf', h2, h3, h4.trans hsync.symm, ?_⟩, ?_, ha.accepted, ?_⟩
      · intro c hc
        rw [hfw] at hc
        rcases List.mem_append.mp hc with hc | hc
        · exact h5 c hc
        · rw [List.mem_singleton.mp hc]
      · exact ha.expected.trans (by rw [← hsync]; rfl)
      · show Phased (Past host.session.sync) (· = .ok host.session.sync) w.back
        rw [hsync]
        exact ha.back

/-- The device hears a copy. -/
theorem after_hear (h : Flowing w sub k) {ds : List Dispatch} (hc : Conserved w.host ds)
    {block : UInt16} {version : Str} {c : Nat × Bytes} {rest : List (Nat × Bytes)}
    (hq : w.forward = c :: rest) :
    Flowing { w with
      forward := rest
      device := (w.device.hear block version c).1
      back := w.back ++ (w.device.hear block version c).2.map reply } sub k := by
  have hss : reply (ssLine w.device.expected block version)
      = .ss w.device.expected block (trim version) := reply_ssLine _ _ _
  refine ⟨h.synced, h.submitted, h.data, h.retired, h.acked, h.flight, ?_⟩
  rcases h.progress with hl | ha
  · have hexp := hl.expected
    have hfw := hl.forward
    rw [hq] at hfw
    rcases hfw.head with ⟨⟨p, n, hdec, hold⟩, hrest⟩ | ⟨⟨f, hf, hcf⟩, hrest⟩
    · -- a copy the device is done with
      refine .inl ?_
      by_cases hsync : p.isSync = true
      · rw [Receiver.hear_sync block hdec hsync]
        refine ⟨hl.expected, hl.accepted, hrest, ?_⟩
        intro r hr
        rcases List.mem_append.mp hr with hr | hr
        · exact hl.back r hr
        · rw [List.map_singleton, List.mem_singleton] at hr
          refine .inr ⟨block, trim version, ?_⟩
          rw [hr, hss, hexp]
      · have hprev : p.sync = w.host.session.sync - 1 := hold.resolve_left hsync
        rw [Receiver.hear_repeated block hdec hsync (by rw [hprev, hexp])]
        refine ⟨hl.expected, hl.accepted, hrest, ?_⟩
        intro r hr
        rcases List.mem_append.mp hr with hr | hr
        · exact hl.back r hr
        · rw [List.map_singleton, List.mem_singleton] at hr
          refine .inl ?_
          rw [hr, reply_okLine, hprev]
    · -- a copy of the packet in flight, which the device has not seen yet
      obtain ⟨q, n, hget, hdec⟩ := h.flight_content hc hf
      have hdec' : decode c.2 = some (.ok (q.packet f.sync, n)) := by rw [hcf, hdec]
      have hfs := (h.flight f hf).2
      by_cases hsync : (q.packet f.sync).isSync = true
      · rw [Receiver.hear_sync block hdec' hsync]
        refine .inl ⟨hl.expected, hl.accepted, of_all_right hrest, ?_⟩
        intro r hr
        rcases List.mem_append.mp hr with hr | hr
        · exact hl.back r hr
        · rw [List.map_singleton, List.mem_singleton] at hr
          refine .inr ⟨block, trim version, ?_⟩
          rw [hr, hss, hexp]
      · rw [Receiver.hear_expected block hdec' hsync (by rw [Queued.packet_sync, hfs, hexp])]
        refine .inr ⟨⟨f, _, n, hf, hdec, Bool.eq_false_iff.mpr hsync, hfs, ?_⟩, ?_, ?_, ?_⟩
        · intro c' hc'
          obtain ⟨g, hg, hcg⟩ := hrest c' hc'
          obtain rfl : f = g := Option.some.inj (hf.symm.trans hg)
          exact hcg
        · show w.device.expected + 1 = _
          rw [hexp]
        · show w.device.accepted ++ [q.content] = _
          rw [hl.accepted, List.take_add_one, hget, List.map_append]
          rfl
        · refine (of_all_left hl.back).append ?_
          intro r hr
          rw [List.map_singleton, List.mem_singleton] at hr
          rw [hr, reply_okLine, Queued.packet_sync, hfs]
  · -- another copy of the packet the device accepted last
    obtain ⟨f, p, n, hf, hdec, hsync, hps, hall⟩ := ha.flight
    have hexp := ha.expected
    have hcf : c.2 = f.bytes := hall c (by rw [hq]; exact List.mem_cons_self)
    rw [Receiver.hear_repeated block (by rw [hcf, hdec]) (Bool.eq_false_iff.mp hsync)
      (by rw [hexp, hps, add_one_sub_one])]
    refine .inr ⟨⟨f, p, n, hf, hdec, hsync, hps, fun c' hc' => hall c' ?_⟩, ha.expected,
      ha.accepted, ha.back.append ?_⟩
    · rw [hq]
      exact List.mem_cons_of_mem _ hc'
    · intro r hr
      rw [List.map_singleton, List.mem_singleton] at hr
      rw [hr, reply_okLine, hps]

/-- The `ss` that is read next carries the counter already. -/
theorem ss_sync (h : Flowing w sub k) {n : UInt8} {block : UInt16} {version : Str}
    {rest : List Reply} (hb : w.back = .ss n block version :: rest) :
    n = w.host.session.sync := by
  have hpast : Past w.host.session.sync (.ss n block version) := by
    rcases h.progress with hl | ha
    · exact hl.back _ (by rw [hb]; exact List.mem_cons_self)
    · have hback := ha.back
      rw [hb] at hback
      rcases hback.head with ⟨hp, -⟩ | ⟨hq, -⟩
      · exact hp
      · cases hq
  rcases hpast with heq | ⟨block', version', heq⟩
  · cases heq
  · exact (Reply.ss.inj heq).1

/-- The `ok` of the counter is said only of a packet that was accepted, and nothing else is under
way behind it. -/
theorem ahead_of_ok (h : Flowing w sub k) {rest : List Reply}
    (hb : w.back = .ok w.host.session.sync :: rest) :
    Ahead w sub k ∧ ∀ r ∈ rest, r = .ok w.host.session.sync := by
  have hnot : ¬ Past w.host.session.sync (.ok w.host.session.sync) := by
    rintro (heq | ⟨block, version, heq⟩)
    · exact absurd (Reply.ok.inj heq).symm (sub_one_ne _)
    · cases heq
  rcases h.progress with hl | ha
  · exact absurd (hl.back _ (by rw [hb]; exact List.mem_cons_self)) hnot
  · refine ⟨ha, ?_⟩
    have hback := ha.back
    rw [hb] at hback
    rcases hback.head with ⟨hp, -⟩ | ⟨-, hall⟩
    · exact absurd hp hnot
    · exact hall

/-- A reply that is not the answer. -/
theorem after_quiet (h : Flowing w sub k) {r : Reply} {rest : List Reply} (buf : Bytes)
    (now : Instant) (hb : w.back = r :: rest)
    (ht : Tells (told r w.host.session.inFlight) w.host (w.host.take r now))
    (hsync : (w.host.take r now).session.sync = MarlinTransfer.synced r w.host.session.sync)
    (hsy : w.host.session.isSynced = true → (w.host.take r now).session.isSynced = true) :
    Flowing { w.act ((w.host.take r now).withBuf buf) with back := rest } sub k := by
  have hkeep : (w.host.take r now).session.sync = w.host.session.sync := by
    rw [hsync]
    cases r with
    | ss n block version => exact h.ss_sync hb
    | ok n => rfl
    | rs n => rfl
    | fe => rfl
    | text line => rfl
    | noise => rfl
  refine h.of_same ht.inFlight ?_ hkeep ?_ ?_ rfl ?_ ?_
  · rw [h.synced]
    exact hsy h.synced
  · show (w.host.take r now).log.submitted = _
    rw [ht.log]
  · show (w.host.take r now).log.retired = _
    rw [ht.log]
  · have hfw : (w.act ((w.host.take r now).withBuf buf)).forward = w.forward :=
      Wire.act_forward_same (by rw [Watched.withBuf_log, ht.log])
    show (w.act ((w.host.take r now).withBuf buf)).forward.Sublist _
    rw [hfw]
  · rw [hb]
    exact List.sublist_cons_self r rest

/-- What waits was sent, and is no handshake. -/
theorem data_queued (h : Flowing w sub k) {ds : List Dispatch} (hc : Conserved w.host ds)
    {f : InFlight} (hf : w.host.session.inFlight = some f) {q : Queued} {qs : List Queued}
    (hq : w.host.session.queued = q :: qs) : q.isSyncHandshake = false := by
  have hmem : q.entry ∈ sub := by
    have hsub := hc.submitted
    rw [h.submitted, hq] at hsub
    have hlen := hc.length_busy hf
    cases hds : ds with
    | nil => rw [hds] at hlen; simp at hlen
    | cons d ds' =>
      rw [hds, List.map_cons, List.cons_append] at hsub
      rw [(List.cons.inj hsub).2, List.map_cons]
      exact List.mem_append_right _ List.mem_cons_self
  exact h.data _ hmem

/-- **The `ok` of the packet in flight**: one packet more was acked, and the device is no longer
ahead. -/
theorem after_acked (h : Flowing w sub k) {ds : List Dispatch} (hc : Conserved w.host ds)
    {rest : List Reply} (hb : w.back = .ok w.host.session.sync :: rest) {host : Watched}
    {f : InFlight} (ht : Retires f (.ack f.sync) w.host host)
    (hsync : host.session.sync = w.host.session.sync + 1)
    (hsy : host.session.isSynced = true) :
    Flowing { w.act host with back := rest } sub (k + 1) := by
  obtain ⟨ha, hrest⟩ := h.ahead_of_ok hb
  obtain ⟨g, p, n, hg, hdec, hpsync, hps, hall⟩ := ha.flight
  obtain rfl : f = g := Option.some.inj (ht.was.symm.trans hg)
  obtain ⟨q, n', hget, hdec'⟩ := h.flight_content hc ht.was
  have hcontent : f.content = some q.content := by
    unfold InFlight.content
    rw [hdec']
    rfl
  have htake : (sub.take (k + 1)).map Prod.fst = (sub.take k).map Prod.fst ++ [q.content] := by
    rw [List.take_add_one, hget, List.map_append]
    rfl
  have hold : ∀ c ∈ w.forward, Old (w.host.session.sync + 1) c := by
    intro c hm
    refine ⟨p, n, by rw [hall c hm]; exact hdec, .inr ?_⟩
    rw [hps, add_one_sub_one]
  refine ⟨hsy, ht.submitted.trans h.submitted, h.data, ?_, ?_, ?_,
    .inl ⟨ha.expected.trans hsync.symm, ha.accepted, ?_, ?_⟩⟩
  · show host.log.retired.length = _
    rw [ht.retired, List.length_append, h.retired]
    rfl
  · show host.log.retired.filterMap Watched.ackedContent = _
    rw [ht.retired, List.filterMap_append, htake, ← h.acked]
    congr 1
    simp [Watched.ackedContent, hcontent]
  · intro g hg
    cases ht.resumes with
    | idle _ _ hf' => cases hf'.symm.trans hg
    | launch q' f' hq' hf' hcar =>
      obtain rfl : f' = g := Option.some.inj (hf'.symm.trans hg)
      refine ⟨?_, hcar.sync_eq⟩
      rw [hcar.handshake_eq]
      exact h.data_queued hc ht.was hq'
  · show Phased (Old host.session.sync)
      (fun c => ∃ f, host.session.inFlight = some f ∧ c.2 = f.bytes) (w.act host).forward
    rw [hsync]
    cases ht.resumes with
    | idle _ _ hf' hp =>
      rw [Wire.act_forward_same hp]
      exact of_all_left hold
    | launch q' f' hq' hf' hcar hp =>
      rw [Wire.act_forward hp]
      refine (of_all_left hold).append ?_
      intro c hc'
      rw [List.mem_singleton.mp hc']
      exact ⟨f', hf', rfl⟩
  · intro r hr
    show Past host.session.sync r
    rw [hsync, hrest r hr]
    exact .inl (by rw [add_one_sub_one])

/-- The session takes a reply. -/
theorem after_read (h : Flowing w sub k) {ds : List Dispatch} (hc : Conserved w.host ds)
    {r : Reply} {rest : List Reply} (buf : Bytes) (now : Instant) (hb : w.back = r :: rest) :
    ∃ k', Flowing { w.act ((w.host.take r now).withBuf buf) with back := rest } sub k' := by
  cases taken hc r now with
  | quiet ht hsync hsy hok hss => exact ⟨k, h.after_quiet buf now hb ht hsync hsy⟩
  | synced f n block version hr hf ht =>
    -- a handshake in flight would have been there before
    have := (h.flight f ht.was).1
    rw [hf] at this
    cases this
  | acked f hr hf ht hsync hsy =>
    rw [hr, (h.flight f ht.was).2] at hb
    exact ⟨k + 1, h.after_acked hc hb (ht.withBuf buf) hsync (hsy h.synced)⟩

end Flowing

namespace Shaking

variable {w : Wire Receiver}

/-- The `ss` that ends the handshake: from here on data flows. -/
theorem after_read (h : Shaking w) {ds : List Dispatch} (hc : Conserved w.host ds) {r : Reply}
    {rest : List Reply} (buf : Bytes) (now : Instant) (hb : w.back = r :: rest) :
    Flowing { w.act ((w.host.take r now).withBuf buf) with back := rest } [] 0 := by
  obtain ⟨f, hf, hff⟩ := h.flight
  obtain ⟨block, version, hr⟩ := h.back r (by rw [hb]; exact List.mem_cons_self)
  cases taken hc r now with
  | quiet ht hsync hsy hok hss => exact absurd hr (hss f hf hff _ _ _)
  | acked g hr' => rw [hr] at hr'; cases hr'
  | synced g n block' version' hr' hg ht hsync hsy =>
    -- the counter is adopted from the device, and from here on they agree
    obtain rfl : f = g := Option.some.inj (hf.symm.trans ht.was)
    have hn : n = w.device.expected := by
      rw [hr] at hr'
      exact (Reply.ss.inj hr').1.symm
    have hsync' : ((w.host.take r now).withBuf buf).session.sync = w.device.expected := by
      rw [← hn]
      exact hsync
    cases ht.resumes with
    | launch q f' hq => rw [h.queued] at hq; cases hq
    | idle _ _ hf' hp =>
      have hfw : (w.act ((w.host.take r now).withBuf buf)).forward = w.forward :=
        Wire.act_forward_same (by rw [Watched.withBuf_log, hp])
      refine ⟨hsy, ht.submitted.trans h.submitted, by simp, ?_, ?_, ?_,
        .inl ⟨hsync'.symm, h.accepted, ?_, ?_⟩⟩
      · show (w.host.take r now).log.retired.length = _
        rw [ht.retired, h.retired]
        rfl
      · show (w.host.take r now).log.retired.filterMap Watched.ackedContent = _
        rw [ht.retired, h.retired]
        rfl
      · intro g hg'
        cases hf'.symm.trans hg'
      · show Phased _ _ (w.act ((w.host.take r now).withBuf buf)).forward
        rw [hfw]
        refine of_all_left fun c hm => ?_
        obtain ⟨p, n', hdec, hsync⟩ := h.forward c hm
        exact ⟨p, n', hdec, .inl hsync⟩
      · intro r' hr'
        obtain ⟨b, v, hbv⟩ := h.back r' (by rw [hb]; exact List.mem_cons_of_mem _ hr')
        show Past ((w.host.take r now).withBuf buf).session.sync r'
        rw [hsync', hbv]
        exact .inr ⟨b, v, rfl⟩

theorem after_late (h : Shaking w) {ds : List Dispatch} (hc : Conserved w.host ds)
    {host : Watched} {f : InFlight} {now : Instant} (hf : w.host.session.inFlight = some f)
    (hf' : host.session.inFlight = some { f with lastSent := now })
    (hq : host.session.queued = w.host.session.queued)
    (hsy : host.session.isSynced = w.host.session.isSynced)
    (hl : host.log = { w.host.log with
      placed := w.host.log.placed ++ [(w.host.log.retired.length, f.bytes)] }) :
    Shaking (w.act host) := by
  have hfw : (w.act host).forward = w.forward ++ [(w.host.log.retired.length, f.bytes)] :=
    Wire.act_forward (by rw [hl])
  obtain ⟨g, hg, hgh⟩ := h.flight
  obtain rfl : f = g := Option.some.inj (hf.symm.trans hg)
  have hlog : (w.act host).host.log = host.log := rfl
  refine ⟨⟨_, hf', hgh⟩, hq.trans h.queued, hsy.trans h.unsynced, ?_, ?_, h.accepted, ?_, h.back⟩
  · rw [hlog, hl]
    exact h.submitted
  · rw [hlog, hl]
    exact h.retired
  · intro c hm
    rw [hfw] at hm
    rcases List.mem_append.mp hm with hm | hm
    · exact h.forward c hm
    · -- the packet in flight is the SYNC
      obtain ⟨q, hcar, hget⟩ := hc.flight_entry hf
      obtain ⟨n, hdec⟩ := hcar.decode
      rw [h.retired, h.submitted] at hget
      have hq : q.content = ⟨0, 1, []⟩ := (Prod.mk.inj (Option.some.inj hget).symm).1
      obtain ⟨h1, h2, -⟩ := Content.mk.inj hq
      rw [List.mem_singleton.mp hm]
      refine ⟨_, n, hdec, ?_⟩
      unfold Packet.isSync Queued.packet BytesBuilder.packet
      rw [h1, h2]
      rfl

theorem after_hear (h : Shaking w) {block : UInt16} {version : Str} {c : Nat × Bytes}
    {rest : List (Nat × Bytes)} (hq : w.forward = c :: rest) :
    Shaking { w with
      forward := rest
      device := (w.device.hear block version c).1
      back := w.back ++ (w.device.hear block version c).2.map reply } := by
  obtain ⟨p, n, hdec, hsync⟩ := h.forward c (by rw [hq]; exact List.mem_cons_self)
  rw [Receiver.hear_sync block hdec hsync]
  refine ⟨h.flight, h.queued, h.unsynced, h.submitted, h.retired, h.accepted, ?_, ?_⟩
  · exact fun c' hc' => h.forward c' (by rw [hq]; exact List.mem_cons_of_mem _ hc')
  · intro r hr
    rcases List.mem_append.mp hr with hr | hr
    · exact h.back r hr
    · rw [List.map_singleton, List.mem_singleton] at hr
      exact ⟨block, trim version, by rw [hr, reply_ssLine]⟩

end Shaking

/-! ## Runs -/

/-- The condition on a step: no second handshake, and no packet given up by it. -/
def Patient (act : Act) (host : Watched) : Prop :=
  (∀ now, act ≠ .connect now) ∧ host.NoTimeout

instance (act : Act) (host : Watched) : Decidable (Patient act host) :=
  decidable_of_iff ((match act with | .connect _ => false | _ => true) = true ∧ host.NoTimeout) (by
    unfold Patient
    cases act <;> simp)

namespace InOrder

variable {w w' : Wire Receiver}

/-- Only what the host does not look at changed. -/
theorem of_untouched (h : InOrder w) (hcons : ∃ ds, Conserved w'.host ds)
    (hu : Untouched w.host w'.host) (hdev : w'.device = w.device)
    (hfw : w'.forward.Sublist w.forward) (hb : w'.back.Sublist w.back) : InOrder w' := by
  refine ⟨hcons, ?_⟩
  rcases h.phase with hs | ⟨sub, k, hfl⟩
  · refine .inl ⟨by rw [hu.inFlight]; exact hs.flight, by rw [hu.queued]; exact hs.queued,
      by rw [hu.isSynced]; exact hs.unsynced, by rw [hu.submitted]; exact hs.submitted,
      by rw [hu.retired]; exact hs.retired, by rw [hdev]; exact hs.accepted,
      fun c hc => hs.forward c (hfw.subset hc), fun r hm => ?_⟩
    rw [hdev]
    exact hs.back r (hb.subset hm)
  · exact .inr ⟨sub, k, hfl.of_same hu.inFlight hu.isSynced hu.sync hu.submitted hu.retired hdev
      hfw hb⟩

theorem after_tick (h : InOrder w) (now : Instant) (hno : (w.host.tick now).NoTimeout) :
    InOrder (w.act (w.host.tick now)) := by
  obtain ⟨ds, hc⟩ := h.conserved
  cases ticked w.host now with
  | early heq =>
    have hact : w.act (w.host.tick now) = w := by
      rw [heq]
      unfold Wire.act
      simp
    rw [hact]
    exact h
  | late f now' hf hf' hq hsync hsy hl =>
    refine ⟨hc.tick now, ?_⟩
    rcases h.phase with hs | ⟨sub, k, hfl⟩
    · exact .inl (hs.after_late hc hf hf' hq hsy hl)
    · exact .inr ⟨sub, k, hfl.after_late hf hf' hsync hsy hl⟩
  | expired f ht =>
    refine absurd rfl (hno (.timeout f.sync, some w.host.log.retired.length) ?_ f.sync)
    rw [ht.emitted]
    exact List.mem_append_right _ List.mem_cons_self

/-- **One move.** -/
theorem step {block : UInt16} {version : Str} {hv : '\n' ∉ version} (h : InOrder w) {act : Act}
    (hm : Move (Receiver.device block hv) true act w w') (hg : Patient act w'.host) :
    InOrder w' := by
  obtain ⟨ds, hc⟩ := h.conserved
  cases hm with
  | connect now => exact absurd rfl (hg.1 now)
  | send protocol packetType payload now host hs =>
    -- only a synced session sends, so the handshake is over
    obtain ⟨hsy, hsy', hsync, b, -, -, -, hsub⟩ := submitted_send hc hs
    refine ⟨hc.send hs, ?_⟩
    rcases h.phase with hsh | ⟨sub, k, hfl⟩
    · rw [hsh.unsynced] at hsy
      cases hsy
    · exact .inr ⟨_, k, hfl.after_send hc hsub hsy' hsync⟩
  | tick now => exact h.after_tick now hg.2
  | pollEvent =>
    exact h.of_untouched ⟨ds, hc.pollEvent⟩ (untouched_pollEvent w.host) rfl (List.Sublist.refl _)
      (List.Sublist.refl _)
  | transmit =>
    exact h.of_untouched ⟨ds, hc.pollOutbound⟩ (untouched_pollOutbound w.host) rfl
      (List.Sublist.refl _) (List.Sublist.refl _)
  | loseCopy a b c _ hq =>
    refine h.of_untouched ⟨ds, hc⟩ (.refl _) rfl ?_ (List.Sublist.refl _)
    rw [hq]
    exact (List.sublist_cons_self c b).append_left a
  | loseLine a b r _ hq =>
    refine h.of_untouched ⟨ds, hc⟩ (.refl _) rfl (List.Sublist.refl _) ?_
    rw [hq]
    exact (List.sublist_cons_self r b).append_left a
  | hear c rest d lines hq hd =>
    obtain ⟨rfl, rfl⟩ := Prod.mk.inj hd
    refine ⟨⟨ds, hc⟩, ?_⟩
    rcases h.phase with hs | ⟨sub, k, hfl⟩
    · exact .inl (hs.after_hear hq)
    · exact .inr ⟨sub, k, hfl.after_hear hc hq⟩
  | speak d lines hd => exact hd.elim
  | arrive => exact h
  | buffer buf now =>
    exact h.of_untouched ⟨ds, hc.withBuf buf⟩ (untouched_withBuf w.host buf) rfl
      (List.Sublist.refl _) (List.Sublist.refl _)
  | read r rest buf now hb =>
    have hcons : ∃ ds', Conserved ((w.host.take r now).withBuf buf) ds' := by
      obtain ⟨ds', hc'⟩ := hc.take r now
      exact ⟨ds', hc'.withBuf buf⟩
    refine ⟨hcons, ?_⟩
    rcases h.phase with hs | ⟨sub, k, hfl⟩
    · exact .inr ⟨[], 0, hs.after_read hc buf now hb⟩
    · obtain ⟨k', hfl'⟩ := hfl.after_read hc buf now hb
      exact .inr ⟨sub, k', hfl'⟩

end InOrder

/-- A link on which the handshake was just asked for. -/
def Link.connected {σ : Type} (s : Session) (now : Instant) (d : σ) : Link σ :=
  { Link.start s d with host := (Watched.start s.reset).connect now }

theorem wellFormed_connected {σ : Type} (s : Session) (now : Instant) (d : σ) :
    (Link.connected s now d).WellFormed := by
  let dev : Device σ := ⟨fun _ _ _ _ => False, fun _ _ _ => False, fun h => h.elim, fun h => h.elim⟩
  exact ((Step.connect now : Step dev true _ (Link.start s d) _).move
    (Link.wellFormed_start s d)).1

theorem inOrder_connected (s : Session) (now : Instant) (e : UInt8) :
    InOrder (Link.connected s now ⟨e, []⟩).wire := by
  obtain ⟨ds, hc⟩ := (wellFormed_connected s now (⟨e, []⟩ : Receiver)).conserved
  have hsub := submitted_connect (conserved_start s) now
  refine ⟨⟨ds, hc⟩, .inl ?_⟩
  cases hsub with
  | waits hbusy => cases hbusy
  | launched f hidle hf hcar hq hl =>
    refine ⟨⟨f, hf, hcar.handshake_eq⟩, hq, ?_, ?_, ?_, rfl, ?_, ?_⟩
    · exact dispatchIfIdle_isSynced _ now
    · show ((Watched.start s.reset).connect now).log.submitted = _
      rw [hl]
      rfl
    · show ((Watched.start s.reset).connect now).log.retired = _
      rw [hl]
      rfl
    · -- the SYNC is all that is under way
      intro c hm
      have hfw : (Link.connected s now (⟨e, []⟩ : Receiver)).wire.forward = [(0, f.bytes)] := by
        show [] ++ ((Watched.start s.reset).connect now).log.placed.drop
          ((Watched.start s.reset).connect now).log.taken = _
        rw [hl]
        rfl
      rw [hfw] at hm
      rw [List.mem_singleton.mp hm]
      have hcar' : Carries f ⟨syncPacket, true⟩ f.sync := by
        rw [hcar.sync_eq]
        exact hcar
      obtain ⟨n, hdec⟩ := hcar'.decode
      exact ⟨_, n, hdec, rfl⟩
    · intro r hm
      have hback : (Link.connected s now (⟨e, []⟩ : Receiver)).wire.back = [] := by
        show replies (((Watched.start s.reset).connect now).session.inboundBuf ++ []) ++ [] = _
        rw [Watched.connect_session, connect_inboundBuf]
        rfl
      rw [hback] at hm
      cases hm

/-- The runs after one `connect` in which no packet is given up. -/
def PatientRun (block : UInt16) {version : Str} (hv : '\n' ∉ version) (s : Session)
    (now : Instant) (e : UInt8) (l : Link Receiver) : Prop :=
  Reach (Guarded (Step (Receiver.device block hv) true)
    fun act _ l' => Patient act l'.host) (Link.connected s now ⟨e, []⟩) l

/--
**Exactly-once, in-order delivery.** In every run after one `connect` in which no packet
is given up, whatever is delayed or lost and however often the counter wraps: what the
device accepted is a prefix of what was sent, what was acked is a prefix of what the
device accepted, and at most one accepted packet is not acked yet.
-/
theorem delivery_in_order {block : UInt16} {version : Str} (hv : '\n' ∉ version) (s : Session)
    (now : Instant) (e : UInt8) (l : Link Receiver)
    (hr : PatientRun block hv s now e l) :
    l.device.accepted <+: l.host.sends ∧ l.host.acked <+: l.device.accepted
      ∧ l.device.accepted.length ≤ l.host.acked.length + 1 := by
  have hinv : l.WellFormed ∧ InOrder l.wire := by
    refine hr.invariant (P := fun l => l.WellFormed ∧ InOrder l.wire)
      ⟨wellFormed_connected s now _, inOrder_connected s now e⟩ ?_
    rintro act l l' ⟨hwf, hinv⟩ ⟨hs, hg⟩
    obtain ⟨hwf', hm⟩ := hs.move hwf
    exact ⟨hwf', hinv.step hm hg⟩
  rcases hinv.2.phase with hs | ⟨sub, k, hfl⟩
  · -- no data yet
    have hacc : l.device.accepted = [] := hs.accepted
    have hack : l.host.acked = [] := by
      unfold Watched.acked
      rw [show l.host.log.retired = [] from hs.retired]
      rfl
    rw [hacc, hack]
    exact ⟨List.nil_prefix, List.nil_prefix, Nat.zero_le _⟩
  · -- data flows: all three are prefixes of the submissions
    have hsends : l.host.sends = sub.map Prod.fst := by
      unfold Watched.sends
      rw [show l.host.log.submitted = _ from hfl.submitted]
      rw [List.filter_cons_of_neg (by simp), List.filter_eq_self.mpr]
      intro x hx
      simp [hfl.data x hx]
    have hack : l.host.acked = (sub.take k).map Prod.fst := hfl.acked
    have hpre : ∀ n, (sub.take n).map Prod.fst <+: sub.map Prod.fst := fun n =>
      (List.take_prefix n sub).map _
    have hstep : (sub.take k).map Prod.fst <+: (sub.take (k + 1)).map Prod.fst :=
      (List.take_prefix_take_left (Nat.le_succ k)).map _
    rw [hsends, hack]
    rcases hfl.progress with hlv | ha
    · rw [show l.device.accepted = _ from hlv.accepted]
      exact ⟨hpre k, List.prefix_refl _, Nat.le_succ _⟩
    · rw [show l.device.accepted = _ from ha.accepted]
      refine ⟨hpre (k + 1), hstep, ?_⟩
      rw [List.length_map, List.length_map, List.length_take, List.length_take]
      omega

/-- The receiver, with what it tells of itself fixed. -/
def receiverConduct : Link.Conduct Receiver where
  hear := Receiver.hear 512 ['1']
  say := fun _ => none

theorem receiverConduct_fits :
    receiverConduct.Fits (Receiver.device 512 (by decide : '\n' ∉ ['1'])) where
  hears := fun _ _ => rfl
  speaks := fun h => by cases h

/-- A packet is retransmitted, and its second copy acked once more while the next is in flight. -/
def retransmitScript : List Act :=
  [.transmit, .hear, .arrive] ++ List.replicate 12 (.read 1)
    ++ [.send 1 3 [1] 1, .send 1 3 [2] 1, .transmit, .tick (1 + defaultResponseTimeout), .transmit,
      .hear, .arrive] ++ List.replicate 6 (.read 2000000000) ++ [.hear, .transmit, .hear, .arrive]

theorem delivery_in_order_retransmit :
    ∃ l, PatientRun 512 (by decide : '\n' ∉ ['1']) Session.new 0 255 l
      ∧ l.device.accepted = [⟨1, 3, [1]⟩, ⟨1, 3, [2]⟩] ∧ l.device.accepted <+: l.host.sends := by
  have hrun : ((Link.connected Session.new 0 (⟨255, []⟩ : Receiver)).runScript receiverConduct
      (fun act _ l' => Patient act l'.host) retransmitScript).map (fun l => l.device.accepted)
        = some [⟨1, 3, [1]⟩, ⟨1, 3, [2]⟩] := by
    decide +kernel
  obtain ⟨l, hl, hobs⟩ := Option.map_eq_some_iff.mp hrun
  have hr : PatientRun 512 (by decide : '\n' ∉ ['1']) Session.new 0 255 l :=
    runScript_reach receiverConduct_fits .init hl
  exact ⟨l, hr, hobs, (delivery_in_order (by decide) Session.new 0 255 l hr).1⟩

end MarlinTransfer
