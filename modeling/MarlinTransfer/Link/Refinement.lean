import MarlinTransfer.Link.Model
import MarlinTransfer.Session.Buffer

/-!
# The link refines its wire

Every step of a sound link is one move of its wire, and keeps the link sound. A byte
read either goes into the buffer of unfinished bytes or completes exactly one line.
-/

namespace MarlinTransfer

open Codec Text Runs Session

variable {σ : Type} {dev : Device σ} {lossy : Bool}

/-- What a host places while the transport takes nothing comes last on the wire. -/
theorem forward_append {α : Type} {taken : Nat} {placed : List α} (h : taken ≤ placed.length)
    (front new : List α) :
    front ++ (placed ++ new).drop taken
      = (front ++ placed.drop taken) ++ (placed ++ new).drop placed.length := by
  rw [List.drop_append_of_le_length h, List.drop_left, List.append_assoc]

/-- Once a link's bytes come in whole lines, so do they after another. -/
theorem cut_whole_append {buf line : Bytes} (h : (Lines.cut 0x0A buf).2 = [])
    (hl : (0x0A : UInt8) ∉ line) :
    Lines.cut 0x0A (buf ++ (line ++ [0x0A])) = ((Lines.cut 0x0A buf).1 ++ [line], []) := by
  rw [Lines.cut_append, h, List.nil_append, Lines.cut_append_sep [] hl]
  rfl

namespace Link

/-- The well-formedness a run keeps. -/
structure WellFormed (l : Link σ) : Prop extends Sound l where
  unfinished : (0x0A : UInt8) ∉ l.host.session.inboundBuf

theorem wellFormed_start (s : Session) (d : σ) : (Link.start s d).WellFormed where
  conserved := ⟨[], conserved_start s⟩
  whole := rfl
  lines := by simp [Link.start]
  unfinished := by simp [Link.start, Watched.start, Session.reset]

variable {l : Link σ} {host : Watched}

/-- What does not touch the unfinished bytes keeps a link well-formed. -/
theorem WellFormed.of_host (h : l.WellFormed) (hc : ∃ ds, Conserved host ds)
    (hb : host.session.inboundBuf = l.host.session.inboundBuf)
    (toDevice : List (Nat × Bytes)) : ({ l with host, toDevice } : Link σ).WellFormed where
  conserved := hc
  whole := by
    show (Lines.cut 0x0A (host.session.inboundBuf ++ l.arriving)).2 = []
    rw [hb]
    exact h.whole
  lines := h.lines
  unfinished := by
    rw [hb]
    exact h.unfinished

/-- What the host places is what is new on the wire. -/
theorem WellFormed.wire_act (h : l.WellFormed) (host : Watched) {new : List (Nat × Bytes)}
    (hb : host.session.inboundBuf = l.host.session.inboundBuf)
    (hp : host.log.placed = l.host.log.placed ++ new)
    (ht : host.log.taken = l.host.log.taken) :
    ({ l with host } : Link σ).wire = l.wire.act host := by
  obtain ⟨ds, hc⟩ := h.conserved
  unfold Link.wire Wire.act
  rw [hb, ht, hp]
  congr 1
  exact forward_append hc.taken_le _ _

/-! ## The host acts -/

/-- What the host places is on the wire as soon as it is outbound. -/
theorem WellFormed.acts (h : l.WellFormed) (hc : ∃ ds, Conserved host ds)
    (hb : host.session.inboundBuf = l.host.session.inboundBuf) {new : List (Nat × Bytes)}
    (hp : host.log.placed = l.host.log.placed ++ new) (ht : host.log.taken = l.host.log.taken)
    {act : Act} (hm : Move dev lossy act l.wire (l.wire.act host)) :
    ({ l with host } : Link σ).WellFormed ∧ Move dev lossy act l.wire { l with host }.wire := by
  refine ⟨h.of_host hc hb l.toDevice, ?_⟩
  rw [h.wire_act host hb hp ht]
  exact hm

theorem WellFormed.connect (h : l.WellFormed) (now : Instant) :
    ({ l with host := l.host.connect now } : Link σ).WellFormed
      ∧ Move dev lossy (.connect now) l.wire { l with host := l.host.connect now }.wire := by
  obtain ⟨ds, hc⟩ := h.conserved
  refine h.acts (hc.connect now) ?_ rfl rfl (.connect now)
  rw [Watched.connect_session]
  exact connect_inboundBuf l.host.session now

theorem WellFormed.send (h : l.WellFormed) {protocol packetType : UInt8} {payload : Bytes}
    {now : Instant} (hs : l.host.send protocol packetType payload now = some host) :
    ({ l with host } : Link σ).WellFormed
      ∧ Move dev lossy (.send protocol packetType payload now) l.wire { l with host }.wire := by
  obtain ⟨ds, hc⟩ := h.conserved
  have hcons := hc.send hs
  have hm : Move dev lossy (.send protocol packetType payload now) l.wire (l.wire.act host) :=
    .send protocol packetType payload now host hs
  obtain ⟨s', hs', rfl⟩ := Option.map_eq_some_iff.mp hs
  exact h.acts hcons (send_inboundBuf hs') rfl rfl hm

theorem WellFormed.tick (h : l.WellFormed) (now : Instant) :
    ({ l with host := l.host.tick now } : Link σ).WellFormed
      ∧ Move dev lossy (.tick now) l.wire { l with host := l.host.tick now }.wire := by
  obtain ⟨ds, hc⟩ := h.conserved
  refine h.acts (hc.tick now) ?_ rfl rfl (.tick now)
  rw [Watched.tick_session]
  exact tick_inboundBuf l.host.session now

theorem WellFormed.pollEvent (h : l.WellFormed) :
    ({ l with host := l.host.pollEvent } : Link σ).WellFormed
      ∧ Move dev lossy .pollEvent l.wire { l with host := l.host.pollEvent }.wire := by
  obtain ⟨ds, hc⟩ := h.conserved
  have hb : l.host.pollEvent.session.inboundBuf = l.host.session.inboundBuf := by
    rw [Watched.pollEvent_session]
    exact pollEvent_inboundBuf _
  have hlog : l.host.pollEvent.log.placed = l.host.log.placed
      ∧ l.host.pollEvent.log.taken = l.host.log.taken := by
    unfold Watched.pollEvent Session.pollEvent
    cases l.host.session.events <;> exact ⟨rfl, rfl⟩
  have hwire : ({ l with host := l.host.pollEvent } : Link σ).wire
      = { l.wire with host := l.host.pollEvent } := by
    unfold Link.wire
    rw [hb, hlog.1, hlog.2]
  refine ⟨h.of_host ⟨ds, hc.pollEvent⟩ hb l.toDevice, ?_⟩
  rw [hwire]
  exact .pollEvent

/-- The copy goes from the front of the queue to the back of the transport: on the wire it
stays. -/
theorem WellFormed.transmit (h : l.WellFormed) {i : Nat} {bytes : Bytes}
    (hob : l.host.session.pollOutbound.1 = some bytes)
    (hi : l.host.log.placed[l.host.log.taken]? = some (i, bytes)) :
    ({ l with
        host := l.host.pollOutbound
        toDevice := l.toDevice ++ [(i, bytes)] } : Link σ).WellFormed
      ∧ Move dev lossy .transmit l.wire
        { l with
          host := l.host.pollOutbound
          toDevice := l.toDevice ++ [(i, bytes)] }.wire := by
  obtain ⟨ds, hc⟩ := h.conserved
  have hb : l.host.pollOutbound.session.inboundBuf = l.host.session.inboundBuf := by
    rw [Watched.pollOutbound_session]
    exact pollOutbound_inboundBuf _
  have hlog : l.host.pollOutbound.log.placed = l.host.log.placed
      ∧ l.host.pollOutbound.log.taken = l.host.log.taken + 1 := by
    unfold Session.pollOutbound at hob
    unfold Watched.pollOutbound Session.pollOutbound
    cases ho : l.host.session.outbound with
    | nil => rw [ho] at hob; cases hob
    | cons b rest => exact ⟨rfl, rfl⟩
  obtain ⟨hlt, hget⟩ := List.getElem?_eq_some_iff.mp hi
  have hwire : ({ l with
        host := l.host.pollOutbound
        toDevice := l.toDevice ++ [(i, bytes)] } : Link σ).wire
      = { l.wire with host := l.host.pollOutbound } := by
    unfold Link.wire
    rw [hb, hlog.1, hlog.2]
    congr 1
    rw [List.drop_eq_getElem_cons hlt, hget, List.append_assoc]
    rfl
  refine ⟨h.of_host ⟨ds, hc.pollOutbound⟩ hb _, ?_⟩
  rw [hwire]
  exact .transmit

/-! ## The channels act -/

theorem WellFormed.loseCopy (h : l.WellFormed) (hlossy : lossy = true) {a b : List (Nat × Bytes)}
    {c : Nat × Bytes} (hq : l.toDevice = a ++ c :: b) :
    ({ l with toDevice := a ++ b } : Link σ).WellFormed
      ∧ Move dev lossy .loseCopy l.wire { l with toDevice := a ++ b }.wire := by
  refine ⟨h.of_host h.conserved rfl _, ?_⟩
  have hwire : ({ l with toDevice := a ++ b } : Link σ).wire
      = { l.wire with forward := a ++ (b ++ l.host.log.placed.drop l.host.log.taken) } := by
    unfold Link.wire
    rw [List.append_assoc]
  rw [hwire]
  refine .loseCopy a _ c hlossy ?_
  show l.toDevice ++ _ = _
  rw [hq, List.append_assoc]
  rfl

theorem WellFormed.loseLine (h : l.WellFormed) (hlossy : lossy = true) {a b : List Bytes}
    {line : Bytes} (hq : l.toHost = a ++ line :: b) :
    ({ l with toHost := a ++ b } : Link σ).WellFormed
      ∧ Move dev lossy .loseLine l.wire { l with toHost := a ++ b }.wire := by
  refine ⟨⟨⟨h.conserved, h.whole, fun x hx => h.lines x ?_⟩, h.unfinished⟩, ?_⟩
  · rw [hq]
    rcases List.mem_append.mp hx with hx | hx
    · exact List.mem_append_left _ hx
    · exact List.mem_append_right _ (List.mem_cons_of_mem _ hx)
  have hwire : ({ l with toHost := a ++ b } : Link σ).wire
      = { l.wire with
          back := (replies (l.host.session.inboundBuf ++ l.arriving) ++ a.map reply)
            ++ b.map reply } := by
    unfold Link.wire
    rw [List.map_append, List.append_assoc]
  rw [hwire]
  refine .loseLine _ _ (reply line) hlossy ?_
  show _ ++ l.toHost.map reply = _
  rw [hq, List.map_append, List.map_cons, List.append_assoc]

/-- A line that arrives whole is one more reply of the bytes, and one less of the lines. -/
theorem WellFormed.arrive (h : l.WellFormed) {line : Bytes} {rest : List Bytes}
    (hq : l.toHost = line :: rest) :
    ({ l with toHost := rest, arriving := l.arriving ++ (line ++ [0x0A]) } : Link σ).WellFormed
      ∧ Move dev lossy .arrive l.wire
        { l with toHost := rest, arriving := l.arriving ++ (line ++ [0x0A]) }.wire := by
  have hline := h.lines line (by rw [hq]; exact List.mem_cons_self)
  have hcut : Lines.cut 0x0A (l.host.session.inboundBuf ++ (l.arriving ++ (line ++ [0x0A])))
      = ((Lines.cut 0x0A (l.host.session.inboundBuf ++ l.arriving)).1 ++ [line], []) := by
    rw [← List.append_assoc]
    exact cut_whole_append h.whole hline
  refine ⟨⟨⟨h.conserved, by rw [hcut], fun x hx => h.lines x ?_⟩, h.unfinished⟩, ?_⟩
  · rw [hq]
    exact List.mem_cons_of_mem _ hx
  have hwire : ({ l with toHost := rest, arriving := l.arriving ++ (line ++ [0x0A]) }
      : Link σ).wire = l.wire := by
    unfold Link.wire replies
    rw [hcut, hq, List.map_append, List.map_cons, List.append_assoc]
    rfl
  rw [hwire]
  exact .arrive

/-! ## The device acts -/

/-- What the device puts in its lines keeps the link well-formed. -/
theorem WellFormed.of_device (h : l.WellFormed) (toDevice : List (Nat × Bytes)) (d : σ)
    {lines : List Bytes} (hlines : ∀ line ∈ lines, (0x0A : UInt8) ∉ line) :
    ({ l with toDevice, device := d, toHost := l.toHost ++ lines } : Link σ).WellFormed := by
  refine ⟨⟨h.conserved, h.whole, fun line hm => ?_⟩, h.unfinished⟩
  rcases List.mem_append.mp hm with hm | hm
  · exact h.lines line hm
  · exact hlines line hm

theorem WellFormed.hear (h : l.WellFormed) {c : Nat × Bytes} {rest : List (Nat × Bytes)} {d : σ}
    {lines : List Bytes} (hq : l.toDevice = c :: rest) (hd : dev.hears l.device c d lines) :
    ({ l with toDevice := rest, device := d, toHost := l.toHost ++ lines } : Link σ).WellFormed
      ∧ Move dev lossy .hear l.wire
        { l with toDevice := rest, device := d, toHost := l.toHost ++ lines }.wire := by
  refine ⟨h.of_device rest d (dev.hears_lines hd), ?_⟩
  have hwire : ({ l with toDevice := rest, device := d, toHost := l.toHost ++ lines }
        : Link σ).wire
      = { l.wire with
          forward := rest ++ l.host.log.placed.drop l.host.log.taken
          device := d
          back := l.wire.back ++ lines.map reply } := by
    unfold Link.wire
    rw [List.map_append, List.append_assoc]
  rw [hwire]
  refine .hear c _ d lines ?_ hd
  show l.toDevice ++ _ = _
  rw [hq]
  rfl

theorem WellFormed.speak (h : l.WellFormed) {d : σ} {lines : List Bytes}
    (hd : dev.speaks l.device d lines) :
    ({ l with device := d, toHost := l.toHost ++ lines } : Link σ).WellFormed
      ∧ Move dev lossy .speak l.wire { l with device := d, toHost := l.toHost ++ lines }.wire := by
  refine ⟨h.of_device l.toDevice d (dev.speaks_lines hd), ?_⟩
  have hwire : ({ l with device := d, toHost := l.toHost ++ lines } : Link σ).wire
      = { l.wire with device := d, back := l.wire.back ++ lines.map reply } := by
    unfold Link.wire
    rw [List.map_append, List.append_assoc]
  rw [hwire]
  exact .speak d lines hd

/-! ## The host reads a byte -/

/-- A line feed completes the line in the buffer: its reply is the first one under way. -/
theorem WellFormed.read_lf (h : l.WellFormed) {rest : Bytes} (hq : l.arriving = 0x0A :: rest)
    (now : Instant) :
    ({ l with host := l.host.feed [0x0A] now, arriving := rest } : Link σ).WellFormed
      ∧ Move dev lossy (.read now) l.wire
        { l with host := l.host.feed [0x0A] now, arriving := rest }.wire := by
  obtain ⟨ds, hc⟩ := h.conserved
  have hcut : Lines.cut 0x0A (l.host.session.inboundBuf ++ l.arriving)
      = (l.host.session.inboundBuf :: (Lines.cut 0x0A rest).1, (Lines.cut 0x0A rest).2) := by
    rw [hq, Lines.cut_append_sep rest h.unfinished]
  have hwhole := h.whole
  rw [hcut] at hwhole
  rw [Watched.feed_lf h.unfinished now]
  refine ⟨⟨⟨?_, hwhole, h.lines⟩, by simp [Session.withBuf]⟩, ?_⟩
  · obtain ⟨ds', hc'⟩ := hc.take (reply l.host.session.inboundBuf) now
    exact ⟨ds', hc'.withBuf []⟩
  have hwire : ({ l with
        host := (l.host.take (reply l.host.session.inboundBuf) now).withBuf []
        arriving := rest } : Link σ).wire
      = { l.wire.act ((l.host.take (reply l.host.session.inboundBuf) now).withBuf []) with
          back := replies rest ++ l.toHost.map reply } := by
    unfold Link.wire Wire.act
    congr 1
    exact forward_append hc.taken_le _ _
  rw [hwire]
  refine .read (reply l.host.session.inboundBuf) _ [] now ?_
  show replies _ ++ _ = _
  unfold replies
  rw [hcut]
  rfl

/-- Any other byte only moves into the buffer. -/
theorem WellFormed.read_other (h : l.WellFormed) {b : UInt8} {rest : Bytes}
    (hq : l.arriving = b :: rest) (hb : b ≠ 0x0A) (now : Instant) :
    ({ l with host := l.host.feed [b] now, arriving := rest } : Link σ).WellFormed
      ∧ Move dev lossy (.read now) l.wire
        { l with host := l.host.feed [b] now, arriving := rest }.wire := by
  obtain ⟨ds, hc⟩ := h.conserved
  have hbuf : (l.host.session.inboundBuf ++ [b]) ++ rest
      = l.host.session.inboundBuf ++ l.arriving := by
    rw [hq, List.append_assoc]
    rfl
  rw [Watched.feed_byte h.unfinished hb now]
  refine ⟨⟨⟨⟨ds, hc.withBuf _⟩, ?_, h.lines⟩, ?_⟩, ?_⟩
  · show (Lines.cut 0x0A ((l.host.session.inboundBuf ++ [b]) ++ rest)).2 = []
    rw [hbuf]
    exact h.whole
  · intro hm
    rcases List.mem_append.mp hm with hm | hm
    · exact h.unfinished hm
    · exact hb (List.mem_singleton.mp hm).symm
  have hwire : ({ l with
        host := l.host.withBuf (l.host.session.inboundBuf ++ [b])
        arriving := rest } : Link σ).wire
      = { l.wire with host := l.host.withBuf (l.host.session.inboundBuf ++ [b]) } := by
    show Wire.mk _ _ _
      (replies ((l.host.session.inboundBuf ++ [b]) ++ rest) ++ _) = Wire.mk _ _ _ _
    rw [hbuf]
    rfl
  rw [hwire]
  exact .buffer _ now

end Link

/-- **Refinement.** A step keeps a link well-formed and is a move of its wire. -/
theorem Step.move {act : Act} {l l' : Link σ} (h : l.WellFormed) (hs : Step dev lossy act l l') :
    l'.WellFormed ∧ Move dev lossy act l.wire l'.wire := by
  cases hs with
  | connect now => exact h.connect now
  | send protocol packetType payload now host hs => exact h.send hs
  | tick now => exact h.tick now
  | pollEvent => exact h.pollEvent
  | transmit i bytes hb hi => exact h.transmit hb hi
  | loseCopy a b c hl hq => exact h.loseCopy hl hq
  | loseLine a b line hl hq => exact h.loseLine hl hq
  | hear c rest d lines hq hd => exact h.hear hq hd
  | speak d lines hd => exact h.speak hd
  | arrive line rest hq => exact h.arrive hq
  | read b rest now hq =>
    by_cases hb : b = 0x0A
    · subst hb
      exact h.read_lf hq now
    · exact h.read_other hq hb now

end MarlinTransfer
