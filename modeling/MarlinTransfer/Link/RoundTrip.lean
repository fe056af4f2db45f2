import MarlinTransfer.Link.Delivery
import MarlinTransfer.Session.Liveness

/-!
# Round trips

How far a link that loses messages comes. A tick that finds the packet in flight overdue puts
another copy of it on the wire. If nothing is lost until the device has heard what was under way
then, and the host has read what was under way after that, then the packet is retired: the copy
comes nearer to the device with every copy heard, and its answer nearer to the host with every
byte read. So every such round trip ends one packet more, whatever is lost between them.
-/

namespace MarlinTransfer

open Codec Text Runs Fifo Session

/-- Packet number `i` is in flight: `f`, whenever its last copy was placed. -/
def Watched.Awaits (w : Watched) (i : Nat) (f : InFlight) : Prop :=
  w.log.retired.length = i ∧ ∃ t, w.session.inFlight = some { f with lastSent := t }

/-- The reply that ends a packet in flight. -/
def InFlight.Heeds (f : InFlight) : Reply → Prop
  | .ok n => f.isSyncHandshake = false ∧ n = f.sync
  | .ss _ _ _ => f.isSyncHandshake = true
  | _ => False

namespace Watched.Awaits

variable {w w' : Watched} {ds : List Dispatch} {i : Nat} {f : InFlight}

theorem of_same (h : w.Awaits i f) (hr : w'.log.retired = w.log.retired)
    (hf : w'.session.inFlight = w.session.inFlight) : w'.Awaits i f := by
  obtain ⟨hcount, t, hflight⟩ := h
  exact ⟨by rw [hr]; exact hcount, t, hf.trans hflight⟩

theorem of_untouched (h : w.Awaits i f) (hu : Untouched w w') : w'.Awaits i f :=
  h.of_same hu.retired hu.inFlight

theorem of_submitted (h : w.Awaits i f) {q : Queued} (hs : Submitted q w w') : w'.Awaits i f := by
  cases hs with
  | waits _ hf _ hl => exact h.of_same (by rw [hl]) hf
  | launched _ hidle =>
    obtain ⟨-, t, hflight⟩ := h
    rw [hidle] at hflight
    cases hflight

theorem retired (h : w.Awaits i f) {g : InFlight} {e : Event} (hr : Retires g e w w') :
    i < w'.log.retired.length := by
  rw [length_retired_snoc hr.retired, h.1]
  exact Nat.lt_succ_self i

/-- A reply ends the packet, or it is not the one the packet waits for. -/
theorem of_taken (h : w.Awaits i f) {r : Reply} (ht : Taken r w w') :
    i < w'.log.retired.length ∨ w'.Awaits i f ∧ ¬ f.Heeds r := by
  cases ht with
  | quiet ht _ _ hok hss =>
    refine .inr ⟨h.of_same (by rw [ht.log]) ht.inFlight, ?_⟩
    obtain ⟨-, t, hflight⟩ := h
    intro hheeds
    cases r with
    | ok n =>
      obtain ⟨hdata, rfl⟩ := hheeds
      exact hok _ hflight hdata rfl
    | ss sync block version => exact hss _ hflight hheeds sync block version rfl
    | _ => exact hheeds
  | acked g _ _ hr => exact .inl (h.retired hr)
  | synced g _ _ _ _ _ hr => exact .inl (h.retired hr)

theorem of_ticked (h : w.Awaits i f) (ht : Ticked w w') :
    i < w'.log.retired.length ∨ w'.Awaits i f := by
  cases ht with
  | early heq => exact .inr (heq ▸ h)
  | late g now hg hg' _ _ _ hl =>
    obtain ⟨hcount, t, hflight⟩ := h
    obtain rfl := Option.some.inj (hflight.symm.trans hg)
    exact .inr ⟨by rw [hl]; exact hcount, now, hg'⟩
  | expired g hr => exact .inl (h.retired hr)

end Watched.Awaits

section Moves

variable {σ : Type} {dev : Device σ} {lossy : Bool} {w w' : Wire σ} {act : Act} {i : Nat}
  {f : InFlight}

/-- A move ends the packet in flight, or it remains so. -/
theorem awaits_move (hc : ∃ ds, Conserved w.host ds) (h : w.host.Awaits i f)
    (hm : Move dev lossy act w w') :
    i < w'.host.log.retired.length ∨ w'.host.Awaits i f := by
  obtain ⟨ds, hc⟩ := hc
  cases hm with
  | connect now => exact .inr (h.of_submitted (submitted_connect hc now))
  | send protocol packetType payload now host hs =>
    obtain ⟨-, -, -, b, -, -, -, hsub⟩ := submitted_send hc hs
    exact .inr (h.of_submitted hsub)
  | tick now => exact h.of_ticked (ticked w.host now)
  | pollEvent => exact .inr (h.of_untouched (untouched_pollEvent w.host))
  | transmit => exact .inr (h.of_untouched (untouched_pollOutbound w.host))
  | loseCopy => exact .inr h
  | loseLine => exact .inr h
  | hear => exact .inr h
  | speak => exact .inr h
  | arrive => exact .inr h
  | buffer buf now => exact .inr (h.of_untouched (untouched_withBuf w.host buf))
  | read r rest buf now hb =>
    rcases h.of_taken (taken hc r now) with hlt | ⟨hw, -⟩
    · exact .inl hlt
    · exact .inr (hw.of_untouched (untouched_withBuf _ buf))

end Moves

/-- No packet handed to `send` looks like a handshake. -/
def Watched.NoneLikeSync (w : Watched) : Prop :=
  ∀ c ∈ w.sends, ¬ (c.protocol = 0 ∧ c.packetType = 1)

instance (w : Watched) : Decidable w.NoneLikeSync :=
  inferInstanceAs (Decidable (∀ c ∈ w.sends, ¬ (c.protocol = 0 ∧ c.packetType = 1)))

/-! ## From the copy to its answer -/

section Answer

variable {w : Wire Receiver} {f : InFlight} {c : Nat × Bytes}

theorem Flowing.sends_eq {sub : List (Content × Bool)} {k : Nat} (h : Flowing w sub k) :
    w.host.sends = sub.map Prod.fst := by
  unfold Watched.sends
  rw [h.submitted, List.filter_cons_of_neg (by simp), List.filter_eq_self.mpr]
  intro x hx
  simp [h.data x hx]

/-- The device answers every copy of the packet in flight. -/
theorem InOrder.answered (h : InOrder w) (block : UInt16) (version : Str)
    (hsync : w.host.NoneLikeSync) (hf : w.host.session.inFlight = some f)
    (hbytes : c.2 = f.bytes) :
    ∃ line ∈ (w.device.hear block version c).2, f.Heeds (reply line) := by
  obtain ⟨ds, hc⟩ := h.conserved
  rcases h.phase with hs | ⟨sub, k, hfl⟩
  · -- a SYNC, answered by the number expected
    obtain ⟨g, hg, hhand⟩ := hs.flight
    obtain rfl := Option.some.inj (hf.symm.trans hg)
    obtain ⟨q, hcar, hget⟩ := hc.flight_entry hf
    obtain ⟨n, hdec⟩ := hcar.decode
    rw [hs.retired, hs.submitted] at hget
    have hq : q.content = ⟨0, 1, []⟩ := (Prod.mk.inj (Option.some.inj hget).symm).1
    obtain ⟨h1, h2, -⟩ := Content.mk.inj hq
    rw [← hbytes] at hdec
    have hpacket : (q.packet f.sync).isSync = true := by
      unfold Packet.isSync Queued.packet BytesBuilder.packet
      rw [h1, h2]
      rfl
    rw [Receiver.hear_sync block hdec hpacket]
    refine ⟨_, List.mem_singleton_self _, ?_⟩
    rw [reply_ssLine]
    exact hhand
  · obtain ⟨hdata, hcount⟩ := hfl.flight f hf
    obtain ⟨q, n, hget, hdec⟩ := hfl.flight_content hc hf
    have hpacket : ¬ (q.packet f.sync).isSync = true := by
      have hmem : q.content ∈ w.host.sends := by
        rw [hfl.sends_eq]
        exact List.mem_map.mpr ⟨q.entry, List.mem_of_getElem? hget, rfl⟩
      intro hlike
      unfold Packet.isSync at hlike
      rw [Bool.and_eq_true, beq_iff_eq, beq_iff_eq] at hlike
      exact hsync _ hmem hlike
    have hok : f.Heeds (reply (okLine (q.packet f.sync).sync)) := by
      rw [reply_okLine]
      exact ⟨hdata, rfl⟩
    rw [← hbytes] at hdec
    rcases hfl.progress with hl | ha
    · -- the number it expects
      have hp : (q.packet f.sync).sync = w.device.expected := hcount.trans hl.expected.symm
      rw [Receiver.hear_expected block hdec hpacket hp]
      exact ⟨_, List.mem_singleton_self _, hok⟩
    · -- the number before, acked once more
      have hp : (q.packet f.sync).sync = w.device.expected - 1 := by
        rw [ha.expected, add_one_sub_one]
        exact hcount
      rw [Receiver.hear_repeated block hdec hpacket hp]
      exact ⟨_, List.mem_singleton_self _, hok⟩

end Answer

/-! ## From the answer to the host -/

namespace Link

variable {σ : Type}

/-- The bytes under way to the host. -/
def unread (l : Link σ) : Bytes := l.arriving ++ Lines.unlines 0x0A l.toHost

/-- The replies under way are those the bytes make with what waits in the buffer. -/
theorem WellFormed.back_eq {l : Link σ} (h : l.WellFormed) :
    l.wire.back = replies (l.host.session.inboundBuf ++ l.unread) := by
  have hcut := Lines.cut_append 0x0A (l.host.session.inboundBuf ++ l.arriving)
    (Lines.unlines 0x0A l.toHost)
  have hlines := Lines.cut_unlines (r := []) h.lines (by simp)
  rw [List.append_nil] at hlines
  rw [h.whole, List.nil_append, hlines] at hcut
  unfold Link.wire replies unread
  rw [← List.append_assoc, hcut, List.map_append]

/-- The answer to a packet is among the lines of the next `n` bytes. -/
def Told (f : InFlight) (n : Nat) (l : Link σ) : Prop :=
  ∃ heard, heard <+: l.unread ∧ heard.length ≤ n
    ∧ ∃ r ∈ replies (l.host.session.inboundBuf ++ heard), f.Heeds r

theorem told_of_back {l : Link σ} (h : l.WellFormed) {f : InFlight} {r : Reply}
    (hr : r ∈ l.wire.back) (hheeds : f.Heeds r) : l.Told f l.unread.length := by
  rw [h.back_eq] at hr
  exact ⟨l.unread, List.prefix_refl _, Nat.le_refl _, r, hr, hheeds⟩

theorem Told.le_length {l : Link σ} {f : InFlight} {n : Nat} (h : l.Told f n) :
    l.Told f l.unread.length := by
  obtain ⟨heard, hpre, -, hr⟩ := h
  exact ⟨heard, hpre, hpre.length_le, hr⟩

/-- More comes behind what is under way. -/
theorem Told.of_more {l l' : Link σ} {f : InFlight} {n : Nat} (h : l.Told f n)
    (hb : l'.host.session.inboundBuf = l.host.session.inboundBuf) (hu : l.unread <+: l'.unread) :
    l'.Told f n := by
  obtain ⟨heard, hpre, hle, hr⟩ := h
  exact ⟨heard, hpre.trans hu, hle, by rw [hb]; exact hr⟩

end Link

namespace Act

def isHear : Act → Bool
  | .hear => true
  | _ => false

def isRead : Act → Bool
  | .read _ => true
  | _ => false

end Act

/-- A copy of a packet is among the first `n` under way. -/
def Wire.Asked {σ : Type} (f : InFlight) (n : Nat) (w : Wire σ) : Prop :=
  ∃ sent, sent <+: w.forward ∧ sent.length ≤ n ∧ ∃ c ∈ sent, c.2 = f.bytes

theorem Wire.Asked.of_more {σ : Type} {f : InFlight} {n : Nat} {w w' : Wire σ} (h : w.Asked f n)
    (hfw : w.forward <+: w'.forward) : w'.Asked f n := by
  obtain ⟨sent, hpre, hle, hc⟩ := h
  exact ⟨sent, hpre.trans hfw, hle, hc⟩

section Steps

variable {block : UInt16} {version : Str} {hv : '\n' ∉ version} {act : Act} {i n : Nat}
  {f : InFlight}

/-- **The copy on its way.** Where nothing is lost, a copy of the packet in flight comes nearer
with every copy heard, until it is answered. -/
theorem asked_move {w w' : Wire Receiver} (hin : InOrder w) (hsync : w.host.NoneLikeSync)
    (h : w.host.Awaits i f) (hask : w.Asked f n)
    (hm : Move (Receiver.device block hv) false act w w') :
    (∃ r ∈ w'.back, f.Heeds r) ∨ w'.Asked f (n - act.isHear.toNat) := by
  cases hm with
  | connect now => exact .inr (hask.of_more (List.prefix_append _ _))
  | send protocol packetType payload now host hs =>
    exact .inr (hask.of_more (List.prefix_append _ _))
  | tick now => exact .inr (hask.of_more (List.prefix_append _ _))
  | pollEvent => exact .inr hask
  | transmit => exact .inr hask
  | loseCopy _ _ _ hl => cases hl
  | loseLine _ _ _ hl => cases hl
  | hear c rest d lines hq hd =>
    obtain ⟨rfl, rfl⟩ := Prod.mk.inj hd
    obtain ⟨-, t, hflight⟩ := h
    obtain ⟨sent, hpre, hle, x, hx, hbytes⟩ := hask
    rw [hq] at hpre
    cases sent with
    | nil => cases hx
    | cons a sent =>
      obtain ⟨rfl, htail⟩ := List.cons_prefix_cons.mp hpre
      rcases List.mem_cons.mp hx with rfl | hx
      · -- it is the one heard
        obtain ⟨line, hline, hheeds⟩ :=
          hin.answered block version hsync hflight hbytes
        refine .inl ⟨reply line, List.mem_append_right _ ?_, hheeds⟩
        exact List.mem_map.mpr ⟨line, hline, rfl⟩
      · rw [List.length_cons] at hle
        exact .inr ⟨sent, htail, Nat.le_sub_of_add_le hle, x, hx, hbytes⟩
  | speak d lines hd => exact hd.elim
  | arrive => exact .inr hask
  | buffer buf now => exact .inr hask
  | read r rest buf now hb => exact .inr (hask.of_more (List.prefix_append _ _))

/-- **The answer on its way.** Where nothing is lost, the answer to the packet in flight comes
nearer with every byte read, until it ends the packet. -/
theorem told_step {σ : Type} {dev : Device σ} {l l' : Link σ} (hwf : l.WellFormed)
    (h : l.host.Awaits i f) (htold : l.Told f n) (hs : Step dev false act l l') :
    i < l'.host.log.retired.length ∨ l'.Told f (n - act.isRead.toNat) := by
  obtain ⟨ds, hc⟩ := hwf.conserved
  cases hs with
  | connect now =>
    refine .inr (htold.of_more ?_ (List.prefix_refl _))
    rw [Watched.connect_session]
    exact connect_inboundBuf _ now
  | send protocol packetType payload now host hsend =>
    obtain ⟨s', hs', rfl⟩ := Option.map_eq_some_iff.mp hsend
    exact .inr (htold.of_more (send_inboundBuf hs') (List.prefix_refl _))
  | tick now =>
    refine .inr (htold.of_more ?_ (List.prefix_refl _))
    rw [Watched.tick_session]
    exact tick_inboundBuf _ now
  | pollEvent =>
    refine .inr (htold.of_more ?_ (List.prefix_refl _))
    rw [Watched.pollEvent_session]
    exact pollEvent_inboundBuf _
  | transmit =>
    refine .inr (htold.of_more ?_ (List.prefix_refl _))
    rw [Watched.pollOutbound_session]
    exact pollOutbound_inboundBuf _
  | loseCopy _ _ _ hl => cases hl
  | loseLine _ _ _ hl => cases hl
  | hear c rest d lines _ _ =>
    refine .inr (htold.of_more rfl ?_)
    unfold Link.unread
    rw [Lines.unlines_append, ← List.append_assoc]
    exact List.prefix_append _ _
  | speak d lines _ =>
    refine .inr (htold.of_more rfl ?_)
    unfold Link.unread
    rw [Lines.unlines_append, ← List.append_assoc]
    exact List.prefix_append _ _
  | arrive line rest hq =>
    refine .inr (htold.of_more rfl ?_)
    unfold Link.unread
    rw [hq, Lines.unlines_cons, List.append_assoc, List.append_assoc]
    exact List.prefix_refl _
  | read b rest now hq =>
    obtain ⟨heard, hpre, hle, r, hr, hheeds⟩ := htold
    unfold Link.unread at hpre
    rw [hq, List.cons_append] at hpre
    cases heard with
    | nil =>
      -- what waits in the buffer is no line yet
      rw [List.append_nil] at hr
      unfold replies at hr
      rw [Lines.cut_of_notMem hwf.unfinished] at hr
      cases hr
    | cons b' heard =>
      obtain ⟨rfl, htail⟩ := List.cons_prefix_cons.mp hpre
      rw [List.length_cons] at hle
      have hle' : heard.length ≤ n - 1 := Nat.le_sub_of_add_le hle
      by_cases hb : b' = 0x0A
      · -- it completes a line: the answer, or one before it
        subst hb
        have hfeed := Watched.feed_lf hwf.unfinished now
        unfold replies at hr
        rw [Lines.cut_append_sep heard hwf.unfinished, List.map_cons] at hr
        rcases List.mem_cons.mp hr with rfl | hr
        · rcases h.of_taken (taken hc (reply l.host.session.inboundBuf) now) with hlt | ⟨-, hno⟩
          · exact .inl (by rw [hfeed]; exact hlt)
          · exact absurd hheeds hno
        · refine .inr ⟨heard, htail, hle', r, ?_, hheeds⟩
          rw [hfeed]
          exact hr
      · refine .inr ⟨heard, htail, hle', r, ?_, hheeds⟩
        rw [Watched.feed_byte hwf.unfinished hb now]
        show r ∈ replies ((l.host.session.inboundBuf ++ [b']) ++ heard)
        rw [List.append_assoc]
        exact hr

end Steps

/-! ## Rounds -/

/-- What the host of a link does is a call of its session. -/
theorem Step.host_step {σ : Type} {dev : Device σ} {lossy : Bool} {act : Act} {l l' : Link σ}
    (hs : Step dev lossy act l l') : l'.host = l.host ∨ ∃ op, l.host.step op = some l'.host := by
  cases hs with
  | connect now => exact .inr ⟨.connect now, rfl⟩
  | send protocol packetType payload now host h =>
    exact .inr ⟨.send protocol packetType payload now, h⟩
  | tick now => exact .inr ⟨.tick now, rfl⟩
  | pollEvent => exact .inr ⟨.pollEvent, rfl⟩
  | transmit => exact .inr ⟨.pollOutbound, rfl⟩
  | read b rest now => exact .inr ⟨.feed [b] now, rfl⟩
  | loseCopy => exact .inl rfl
  | loseLine => exact .inl rfl
  | hear => exact .inl rfl
  | speak => exact .inl rfl
  | arrive => exact .inl rfl

/-- What a link that loses nothing does, one that does may do. -/
theorem Step.on_lossy {σ : Type} {dev : Device σ} {lossy : Bool} {act : Act} {l l' : Link σ}
    (hs : Step dev lossy act l l') : Step dev true act l l' := by
  cases hs with
  | loseCopy a b c _ hq => exact .loseCopy a b c rfl hq
  | loseLine a b line _ hq => exact .loseLine a b line rfl hq
  | connect now => exact .connect now
  | send protocol packetType payload now host h =>
    exact .send protocol packetType payload now host h
  | tick now => exact .tick now
  | pollEvent => exact .pollEvent
  | transmit i bytes hb hi => exact .transmit i bytes hb hi
  | hear c rest d lines hq hd => exact .hear c rest d lines hq hd
  | speak d lines hd => exact .speak d lines hd
  | arrive line rest hq => exact .arrive line rest hq
  | read b rest now hq => exact .read b rest now hq

theorem retired_le_step {w w' : Watched} {ds : List Dispatch} {op : Op} (hc : Conserved w ds)
    (hs : w.step op = some w') : w.log.retired.length ≤ w'.log.retired.length := by
  have hnow : ∀ t ∈ op.instant, t = op.instant.getD 0 := by
    intro t ht
    rw [Option.mem_def.mp ht]
    rfl
  exact kept_step (P := fun v => w.log.retired.length ≤ v.log.retired.length)
    (fun h hm => Nat.le_trans h (retired_mono hm)) (fun h _ hr => by rw [hr]; exact h) hc hnow
    (Nat.le_refl _) hs

/-- The condition on a step: no second handshake, also none that only looks like one, and no
packet given up by it. -/
def Orderly (act : Act) (host : Watched) : Prop := Patient act host ∧ host.NoneLikeSync

instance (act : Act) (host : Watched) : Decidable (Orderly act host) :=
  inferInstanceAs (Decidable (Patient act host ∧ host.NoneLikeSync))

/-- What holds of a link in a run of orderly steps. -/
structure Regular (l : Link Receiver) : Prop where
  wellFormed : l.WellFormed
  inOrder : InOrder l.wire
  noneLikeSync : l.host.NoneLikeSync

section Rounds

variable {block : UInt16} {version : Str} {hv : '\n' ∉ version}

/-- An orderly step of a link with a receiver. -/
def OrderlyStep (block : UInt16) {version : Str} (hv : '\n' ∉ version) (lossy : Bool) :
    Act → Link Receiver → Link Receiver → Prop :=
  Guarded (Step (Receiver.device block hv) lossy) fun act _ l' => Orderly act l'.host

theorem regular_connected (s : Session) (now : Instant) (e : UInt8) :
    Regular (Link.connected s now ⟨e, []⟩) where
  wellFormed := wellFormed_connected s now _
  inOrder := inOrder_connected s now e
  noneLikeSync := by
    have hsends : (Link.connected s now (⟨e, []⟩ : Receiver)).host.sends = [] := rfl
    unfold Watched.NoneLikeSync
    rw [hsends]
    simp

namespace Regular

variable {lossy : Bool} {act : Act} {l l' : Link Receiver} {i n : Nat} {f : InFlight}

theorem step (h : Regular l) (hs : OrderlyStep block hv lossy act l l') : Regular l' := by
  obtain ⟨hstep, hpatient, hsync⟩ := hs
  obtain ⟨hwf, hmove⟩ := hstep.on_lossy.move h.wellFormed
  exact ⟨hwf, h.inOrder.step hmove hpatient, hsync⟩

theorem retired_le (h : Regular l) (hs : OrderlyStep block hv lossy act l l') :
    l.host.log.retired.length ≤ l'.host.log.retired.length := by
  obtain ⟨ds, hc⟩ := h.wellFormed.conserved
  rcases hs.1.host_step with heq | ⟨op, hop⟩
  · rw [heq]
  · exact retired_le_step hc hop

theorem submitted_prefix (hs : OrderlyStep block hv lossy act l l') :
    l.host.log.submitted <+: l'.host.log.submitted := by
  rcases hs.1.host_step with heq | ⟨op, hop⟩
  · rw [heq]
  · exact submitted_step hop

/-- The first stage of a round. -/
theorem asked_step (h : Regular l) (hw : l.host.Awaits i f) (hask : l.wire.Asked f n)
    (hs : OrderlyStep block hv false act l l') :
    (i < l'.host.log.retired.length ∨ l'.host.Awaits i f ∧ l'.Told f l'.unread.length)
      ∨ l'.host.Awaits i f ∧ l'.wire.Asked f (n - act.isHear.toNat) := by
  obtain ⟨hwf, hmove⟩ := hs.1.move h.wellFormed
  rcases awaits_move h.wellFormed.conserved hw hmove with hlt | hw'
  · exact .inl (.inl hlt)
  · rcases asked_move h.inOrder h.noneLikeSync hw hask hmove with ⟨r, hr, hheeds⟩ | hask'
    · exact .inl (.inr ⟨hw', Link.told_of_back hwf hr hheeds⟩)
    · exact .inr ⟨hw', hask'⟩

/-- The second. -/
theorem told_step (h : Regular l) (hw : l.host.Awaits i f) (htold : l.Told f n)
    (hs : OrderlyStep block hv false act l l') :
    i < l'.host.log.retired.length ∨ l'.host.Awaits i f ∧ l'.Told f (n - act.isRead.toNat) := by
  obtain ⟨-, hmove⟩ := hs.1.move h.wellFormed
  rcases MarlinTransfer.told_step h.wellFormed hw htold hs.1 with hlt | htold'
  · exact .inl hlt
  · rcases awaits_move h.wellFormed.conserved hw hmove with hlt | hw'
    · exact .inl hlt
    · exact .inr ⟨hw', htold'⟩

end Regular

/-- **The device hears what is under way**: the packet in flight is answered. -/
theorem answered_of_hears {l l' : Link Receiver} {i : Nat} {f : InFlight} {acts : List Act}
    (h : Regular l) (hw : l.host.Awaits i f) (hask : l.wire.Asked f l.wire.forward.length)
    (hp : Trail (OrderlyStep block hv false) l acts l')
    (hall : l.wire.forward.length ≤ acts.countP Act.isHear) :
    Regular l' ∧ (i < l'.host.log.retired.length
      ∨ l'.host.Awaits i f ∧ l'.Told f l'.unread.length) := by
  refine hp.countdown Act.isHear (P := fun n l => Regular l ∧ l.host.Awaits i f ∧ l.wire.Asked f n)
    (Q := fun l => Regular l ∧ (i < l.host.log.retired.length
      ∨ l.host.Awaits i f ∧ l.Told f l.unread.length)) ?_ ?_ ?_ hall ⟨h, hw, hask⟩
  · rintro l ⟨-, -, sent, -, hle, c, hc, -⟩
    rw [List.length_eq_zero_iff.mp (Nat.le_zero.mp hle)] at hc
    cases hc
  · intro n act l l' ⟨h, hw, hask⟩ hs
    rcases h.asked_step hw hask hs with hdone | hgo
    · exact .inl ⟨h.step hs, hdone⟩
    · exact .inr ⟨h.step hs, hgo⟩
  · intro act l l' ⟨h, hq⟩ hs
    refine ⟨h.step hs, ?_⟩
    rcases hq with hlt | ⟨hw, htold⟩
    · exact .inl (Nat.lt_of_lt_of_le hlt (h.retired_le hs))
    · exact (h.told_step hw htold hs).imp_right fun hgo => ⟨hgo.1, hgo.2.le_length⟩

/-- **The host reads what is under way**: a packet that was answered is retired. -/
theorem retired_of_reads {l l' : Link Receiver} {i : Nat} {f : InFlight} {acts : List Act}
    (h : Regular l) (hw : l.host.Awaits i f) (htold : l.Told f l.unread.length)
    (hp : Trail (OrderlyStep block hv false) l acts l')
    (hall : l.unread.length ≤ acts.countP Act.isRead) :
    Regular l' ∧ i < l'.host.log.retired.length := by
  refine hp.countdown Act.isRead (P := fun n l => Regular l ∧ l.host.Awaits i f ∧ l.Told f n)
    (Q := fun l => Regular l ∧ i < l.host.log.retired.length) ?_ ?_ ?_ hall ⟨h, hw, htold⟩
  · rintro l ⟨h, -, heard, -, hle, r, hr, -⟩
    rw [List.length_eq_zero_iff.mp (Nat.le_zero.mp hle), List.append_nil] at hr
    unfold replies at hr
    rw [Lines.cut_of_notMem h.wellFormed.unfinished] at hr
    cases hr
  · intro n act l l' ⟨h, hw, htold⟩ hs
    rcases h.told_step hw htold hs with hdone | hgo
    · exact .inl ⟨h.step hs, hdone⟩
    · exact .inr ⟨h.step hs, hgo⟩
  · exact fun act l l' ⟨h, hlt⟩ hs => ⟨h.step hs, Nat.lt_of_lt_of_le hlt (h.retired_le hs)⟩

/-- A tick that finds the packet in flight overdue places another copy of it. -/
theorem late_tick {w : Watched} {f : InFlight} {now : Instant} (hf : w.session.inFlight = some f)
    (ht : ¬ now - f.firstSent ≥ w.session.totalTimeout)
    (hdue : now - f.lastSent ≥ w.session.responseTimeout) :
    (w.tick now).session.inFlight = some { f with lastSent := now }
      ∧ (w.tick now).log
        = { w.log with placed := w.log.placed ++ [(w.log.retired.length, f.bytes)] } := by
  unfold Watched.tick
  rw [tick_late hf ht hdue]
  exact ⟨rfl, Ledger.note_resend hf rfl rfl⟩

theorem asked_of_tick {l l' : Link Receiver} {f : InFlight} {now : Instant} (h : Regular l)
    (hs : OrderlyStep block hv true (.tick now) l l') (hf : l.host.session.inFlight = some f)
    (hdue : now - f.lastSent ≥ l.host.session.responseTimeout) :
    l'.host.Awaits l.host.log.retired.length f ∧ l'.wire.Asked f l'.wire.forward.length := by
  obtain ⟨hstep, ⟨-, hno⟩, -⟩ := hs
  cases hstep with
  | tick =>
    have hexpired : ¬ now - f.firstSent ≥ l.host.session.totalTimeout := by
      intro ht
      refine absurd rfl (hno (.timeout f.sync, some l.host.log.retired.length) ?_ f.sync)
      show _ ∈ (l.host.tick now).log.emitted
      rw [(retires_tick hf ht).emitted]
      exact List.mem_append_right _ List.mem_cons_self
    obtain ⟨hflight, hlog⟩ := late_tick hf hexpired hdue
    have hforward : ({ l with host := l.host.tick now } : Link Receiver).wire.forward
        = l.wire.forward ++ [(l.host.log.retired.length, f.bytes)] := by
      rw [h.wellFormed.wire_act (l.host.tick now) ?_ rfl rfl]
      · exact Wire.act_forward (by rw [hlog]; rfl)
      · rw [Watched.tick_session]
        exact tick_inboundBuf _ now
    refine ⟨⟨?_, now, hflight⟩, _, List.prefix_refl _, Nat.le_refl _,
      (l.host.log.retired.length, f.bytes), ?_, rfl⟩
    · show (l.host.tick now).log.retired.length = _
      rw [hlog]
    · rw [hforward]
      exact List.mem_append_right _ List.mem_cons_self

/-- **A round trip**: a tick that finds the packet in flight overdue, or nothing in flight, after
which, with nothing lost, the device hears what is under way, and then the host reads what is. What
happens before is free. -/
inductive Round (block : UInt16) {version : Str} (hv : '\n' ∉ version) :
    Link Receiver → Link Receiver → Prop where
  | mk {l overdue asked heard l' : Link Receiver} {now : Instant} {hears reads : List Act}
      (before : Reach (OrderlyStep block hv true) l overdue)
      (tick : OrderlyStep block hv true (.tick now) overdue asked)
      (due : ∀ f ∈ overdue.host.session.inFlight,
        now - f.lastSent ≥ overdue.host.session.responseTimeout)
      (hear : Trail (OrderlyStep block hv false) asked hears heard)
      (allHeard : asked.wire.forward.length ≤ hears.countP Act.isHear)
      (read : Trail (OrderlyStep block hv false) heard reads l')
      (allRead : heard.unread.length ≤ reads.countP Act.isRead) : Round block hv l l'

/-- So many round trips, and what happens after. -/
inductive Rounds (block : UInt16) {version : Str} (hv : '\n' ∉ version) :
    Nat → Link Receiver → Link Receiver → Prop where
  | rest {l l' : Link Receiver} (after : Reach (OrderlyStep block hv true) l l') :
      Rounds block hv 0 l l'
  | round {n : Nat} {l m l' : Link Receiver} (first : Round block hv l m)
      (others : Rounds block hv n m l') : Rounds block hv (n + 1) l l'

/-- At least `n` packets more have been retired, or all that had been submitted. -/
structure Gains (n : Nat) (l l' : Link Receiver) : Prop where
  regular : Regular l'
  submitted : l.host.log.submitted <+: l'.host.log.submitted
  kept : l.host.log.retired.length ≤ l'.host.log.retired.length
  retired : min l.host.log.submitted.length (l.host.log.retired.length + n)
    ≤ l'.host.log.retired.length

namespace Gains

variable {lossy : Bool} {act : Act} {l m l' : Link Receiver} {n k : Nat}

theorem refl (h : Regular l) : Gains 0 l l :=
  ⟨h, List.prefix_refl _, Nat.le_refl _, Nat.min_le_right _ _⟩

theorem trans (h : Gains n l m) (h' : Gains k m l') : Gains (n + k) l l' := by
  refine ⟨h'.regular, h.submitted.trans h'.submitted, Nat.le_trans h.kept h'.kept, ?_⟩
  have hle := h.submitted.length_le
  have h1 := h.retired
  have h2 := h'.retired
  omega

theorem of_step (h : Regular l) (hs : OrderlyStep block hv lossy act l l') : Gains 0 l l' := by
  have hle := h.retired_le hs
  exact ⟨h.step hs, Regular.submitted_prefix hs, hle, Nat.le_trans (Nat.min_le_right _ _) hle⟩

theorem step (h : Gains n l m) (hs : OrderlyStep block hv lossy act m l') : Gains n l l' :=
  h.trans (of_step h.regular hs)

theorem reach (h : Regular l) (hr : Reach (OrderlyStep block hv lossy) l l') : Gains 0 l l' :=
  hr.invariant (P := Gains 0 l) (refl h) fun _ _ _ hg hs => hg.step hs

theorem trail (h : Regular l) {acts : List Act}
    (hr : Trail (OrderlyStep block hv lossy) l acts l') : Gains 0 l l' :=
  hr.invariant (P := Gains 0 l) (refl h) fun _ _ _ hg hs => hg.step hs

end Gains

/-- **One round trip** retires a packet, or everything submitted has been retired. -/
theorem Round.gains {l l' : Link Receiver} (h : Regular l) (hr : Round block hv l l') :
    Gains 1 l l' := by
  cases hr with
  | @mk overdue asked heard _ now hears reads before tick due hear allHeard read allRead =>
  have hbefore := Gains.reach h before
  have htick := Gains.of_step hbefore.regular tick
  have hhear := Gains.trail htick.regular hear
  have hread := Gains.trail hhear.regular read
  have hwhole := hbefore.trans (htick.trans (hhear.trans hread))
  refine ⟨hwhole.regular, hwhole.submitted, hwhole.kept, ?_⟩
  have hsub := hbefore.submitted.length_le
  have hret := hbefore.kept
  obtain ⟨ds, hc⟩ := hbefore.regular.wellFormed.conserved
  cases hf : overdue.host.session.inFlight with
  | none =>
    -- everything submitted was retired before
    have hall := congrArg List.length hc.submitted
    rw [hc.idle hf, List.map_nil, List.append_nil, List.length_map, hc.length_idle hf] at hall
    have hmore := (htick.trans (hhear.trans hread)).kept
    omega
  | some f =>
    obtain ⟨hw, hask⟩ := asked_of_tick hbefore.regular tick hf (due f hf)
    obtain ⟨hreg, hlt | ⟨hw, htold⟩⟩ := answered_of_hears htick.regular hw hask hear allHeard
    · have hmore := hread.kept
      omega
    · have hlt := (retired_of_reads hreg hw htold read allRead).2
      omega

theorem Rounds.gains {n : Nat} {l l' : Link Receiver} (h : Regular l)
    (hr : Rounds block hv n l l') : Gains n l l' := by
  induction hr with
  | rest after => exact Gains.reach h after
  | @round n _ _ _ first others ih =>
    have hfirst := first.gains h
    rw [Nat.add_comm]
    exact hfirst.trans (ih hfirst.regular)

/-- Before the handshake is over nothing is sent. -/
theorem Shaking.sends_eq {w : Wire Receiver} (h : Shaking w) : w.host.sends = [] := by
  unfold Watched.sends
  rw [h.submitted]
  rfl

theorem Shaking.acked_eq {w : Wire Receiver} (h : Shaking w) : w.host.acked = [] := by
  unfold Watched.acked
  rw [h.retired]
  rfl

/-- What was acked is a prefix of what the device accepted. -/
theorem InOrder.acked_prefix {w : Wire Receiver} (h : InOrder w) :
    w.host.acked <+: w.device.accepted := by
  rcases h.phase with hs | ⟨sub, k, hfl⟩
  · rw [hs.acked_eq]
    exact List.nil_prefix
  · rw [hfl.acked]
    rcases hfl.progress with hl | ha
    · rw [hl.accepted]
    · rw [ha.accepted]
      exact (List.take_prefix_take_left (Nat.le_succ k)).map _

namespace Gains

variable {l l' : Link Receiver} {n : Nat}

/-- A session whose handshake was retired is synced. -/
theorem synced (hg : Gains n l l') (h : Regular l) (hn : 0 < n) :
    l'.host.session.isSynced = true := by
  rcases hg.regular.inOrder.phase with hs | ⟨sub, k, hfl⟩
  · have hretired := hg.retired
    have hnone : l'.host.log.retired = [] := hs.retired
    have hsome : 0 < l.host.log.submitted.length := by
      rcases h.inOrder.phase with hs | ⟨sub, k, hfl⟩
      · rw [show l.host.log.submitted = _ from hs.submitted]
        exact Nat.one_pos
      · rw [show l.host.log.submitted = _ from hfl.submitted]
        exact Nat.succ_pos _
    rw [hnone, List.length_nil] at hretired
    omega
  · exact hfl.synced

theorem acked (hg : Gains n l l') (h : Regular l) :
    l.host.sends.take (l.host.acked.length + n) <+: l'.host.acked := by
  rcases h.inOrder.phase with hs | ⟨sub, k, hfl⟩
  · rw [show l.host.sends = [] from hs.sends_eq, List.take_nil]
    exact List.nil_prefix
  · have hsub : l.host.log.submitted = _ := hfl.submitted
    have hret : l.host.log.retired.length = k + 1 := hfl.retired
    have hack : l.host.acked = _ := hfl.acked
    obtain ⟨ds, hc⟩ := h.wellFormed.conserved
    have hk := hfl.le_length hc
    rcases hg.regular.inOrder.phase with hs' | ⟨sub', k', hfl'⟩
    · -- the handshake stays retired
      have hnone : l'.host.log.retired = [] := hs'.retired
      have hkept := hg.kept
      rw [hnone, List.length_nil] at hkept
      omega
    · have hsub' : l'.host.log.submitted = _ := hfl'.submitted
      have hret' : l'.host.log.retired.length = k' + 1 := hfl'.retired
      have hmore := hg.submitted
      have hmin := hg.retired
      rw [hsub, hsub'] at hmore
      rw [hsub, hret, hret', List.length_cons] at hmin
      obtain ⟨-, hmore⟩ := List.cons_prefix_cons.mp hmore
      rw [show l.host.sends = _ from hfl.sends_eq, show l'.host.acked = _ from hfl'.acked, hack,
        ← List.map_take]
      refine List.IsPrefix.map _ (List.prefix_of_prefix_length_le
        ((List.take_prefix _ sub).trans hmore) (List.take_prefix k' sub') ?_)
      have hle := hmore.length_le
      simp only [List.length_take, List.length_map]
      omega

end Gains

/--
**Progress on a lossy link.** From any link a run of orderly steps reaches, however much was lost
and is lost between the round trips: after one round trip the session is synced, and after `n` of
them the next `n` of the packets sent before have been acked, or all of them, and what was acked
the device has accepted.
-/
theorem round_trips_deliver {block : UInt16} {version : Str} (hv : '\n' ∉ version) (s : Session)
    (now : Instant) (e : UInt8) (l l' : Link Receiver) (n : Nat)
    (hr : Reach (OrderlyStep block hv true) (Link.connected s now ⟨e, []⟩) l)
    (h : Rounds block hv n l l') :
    (0 < n → l'.host.session.isSynced = true)
      ∧ l.host.sends.take (l.host.acked.length + n) <+: l'.host.acked
      ∧ l'.host.acked <+: l'.device.accepted := by
  have hl := (Gains.reach (regular_connected s now e) hr).regular
  have hg := h.gains hl
  exact ⟨hg.synced hl, hg.acked hl, hg.regular.inOrder.acked_prefix⟩

end Rounds

/-! ## A packet that is lost -/

/-- The handshake, and a packet that the transport takes. -/
def sendingScript : List Act :=
  [.transmit, .hear, .arrive] ++ List.replicate 12 (.read 1) ++ [.send 1 3 [1] 1, .transmit]

/-- The orderly runs of the receiver by script. -/
def runOrderly (acts : List Act) (l : Link Receiver) : Option (Link Receiver) :=
  l.runScript receiverConduct (fun act _ l' => Orderly act l'.host) acts

/-- The one copy the transport took is lost. -/
theorem lose_copy {block : UInt16} {version : Str} {hv : '\n' ∉ version} {l : Link Receiver}
    (h : l.toDevice.length = 1) (ho : Orderly .loseCopy l.host) :
    OrderlyStep block hv true .loseCopy l { l with toDevice := [] } := by
  obtain ⟨c, hc⟩ := List.length_eq_one_iff.mp h
  exact ⟨.loseCopy [] [] c rfl hc, ho⟩

/-- The packet is lost, and a round trip follows: its states, and what they show. -/
def lostCopyRun : Option ((Link Receiver × Link Receiver) × Link Receiver × Link Receiver) :=
  (runOrderly sendingScript (Link.connected Session.new 0 ⟨255, []⟩)).bind fun l =>
    (runOrderly [.tick 1000000001] { l with toDevice := [] }).bind fun asked =>
      (runOrderly [.transmit, .hear] asked).bind fun heard =>
        (runOrderly ([.arrive] ++ List.replicate 6 (.read 1000000002)) heard).map fun l' =>
          ((l, asked), heard, l')

theorem round_trips_deliver_lostCopy :
    ∃ l l' : Link Receiver,
      Reach (OrderlyStep 512 (by decide : '\n' ∉ ['1']) true)
          (Link.connected Session.new 0 ⟨255, []⟩) l
        ∧ Rounds 512 (by decide : '\n' ∉ ['1']) 1 l l'
        ∧ l.host.sends = [⟨1, 3, [1]⟩] ∧ l'.device.accepted = [⟨1, 3, [1]⟩]
        ∧ [⟨1, 3, [1]⟩] <+: l'.host.acked := by
  have hrun : lostCopyRun.any (fun r =>
      r.1.1.toDevice.length = 1 ∧ r.1.1.host.sends = [⟨1, 3, [1]⟩] ∧ r.1.1.host.acked = []
        ∧ (∀ f ∈ r.1.1.host.session.inFlight,
          1000000001 - f.lastSent ≥ r.1.1.host.session.responseTimeout)
        ∧ r.1.2.wire.forward.length ≤ 1 ∧ r.2.1.unread.length ≤ 6
        ∧ r.2.2.device.accepted = [⟨1, 3, [1]⟩] ∧ Orderly .loseCopy r.1.1.host) = true := by
    decide +kernel
  obtain ⟨r, hr, hobs⟩ := (Option.any_eq_true _ _).mp hrun
  obtain ⟨htaken, hsends, hacked, hdue, hunder, hunread, haccepted,
    horderly⟩ := of_decide_eq_true hobs
  obtain ⟨l, hl, hr⟩ := Option.bind_eq_some_iff.mp hr
  obtain ⟨asked, hasked, hr⟩ := Option.bind_eq_some_iff.mp hr
  obtain ⟨heard, hheard, hr⟩ := Option.bind_eq_some_iff.mp hr
  obtain ⟨l', hl', rfl⟩ := Option.map_eq_some_iff.mp hr
  have hfits : receiverConduct.Fits (Receiver.device 512 (by decide : '\n' ∉ ['1'])) :=
    receiverConduct_fits
  have hstart : Reach (OrderlyStep 512 (by decide : '\n' ∉ ['1']) true)
      (Link.connected Session.new 0 ⟨255, []⟩) l := runScript_reach hfits .init hl
  have htick : OrderlyStep 512 (by decide : '\n' ∉ ['1']) true (.tick 1000000001)
      { l with toDevice := [] } asked := by
    cases script_trail (exec_step hfits) hasked with
    | cons h rest =>
      cases rest
      exact h
  have hround : Round 512 (by decide : '\n' ∉ ['1']) l l' :=
    .mk (Reach.init.tail (lose_copy htaken horderly)) htick hdue
      (script_trail (exec_step hfits) hheard) hunder (script_trail (exec_step hfits) hl') hunread
  refine ⟨l, l', hstart, .round hround (.rest .init), hsends, haccepted, ?_⟩
  have h := (round_trips_deliver (by decide) Session.new 0 255 l l' 1 hstart
    (.round hround (.rest .init))).2.1
  rw [show l.host.acked = [] from hacked, show l.host.sends = _ from hsends] at h
  exact h

end MarlinTransfer
