import MarlinTransfer.Session.Effects
import MarlinTransfer.Lib.Runs

/-!
# A session and a device, over a wire

The composition the protocol is about: a watched session, a device, and a
first-in first-out channel in each direction. Copies of packets wait in the session's
outbound queue until the transport takes them; lines of the device arrive as bytes, and
the host reads those one at a time, which is as general as any chunking
(`Session.feed_append`). What the device does is a parameter.

`Wire` is the same composition without the bytes: copies and replies only. Every step of
the link is one move of its wire (`Step.move`), so what holds of the moves holds of the
link.
-/

namespace MarlinTransfer

open Codec Text Runs

/-- A SYNC control packet. -/
def Codec.Packet.isSync (p : Packet) : Bool := p.protocol == 0 && p.packetType == 1

/-- No packet was given up. -/
def Watched.NoTimeout (w : Watched) : Prop := ∀ p ∈ w.log.emitted, ∀ n, p.1 ≠ .timeout n

instance (w : Watched) : Decidable w.NoTimeout :=
  decidable_of_iff (∀ p ∈ w.log.emitted, (match p.1 with | .timeout _ => false | _ => true) = true) (by
    unfold Watched.NoTimeout
    refine forall₂_congr fun p _ => ?_
    cases p.1 <;> simp)

variable {σ : Type}

/-- A device: what it may do with a copy it receives, and what it may say unasked. A copy
comes with the number of its packet, which is for the observer only. -/
structure Device (σ : Type) where
  hears : σ → Nat × Bytes → σ → List Bytes → Prop
  speaks : σ → σ → List Bytes → Prop
  /-- It speaks in lines. -/
  hears_lines : ∀ {d c d' ls}, hears d c d' ls → ∀ line ∈ ls, (0x0A : UInt8) ∉ line
  speaks_lines : ∀ {d d' ls}, speaks d d' ls → ∀ line ∈ ls, (0x0A : UInt8) ∉ line

structure Link (σ : Type) where
  host : Watched
  /-- Copies the transport took, each with the number of its packet. -/
  toDevice : List (Nat × Bytes)
  device : σ
  /-- Lines under way, without their line feeds. -/
  toHost : List Bytes
  /-- Bytes that have arrived and were not read yet. -/
  arriving : Bytes

/-- Who does what. -/
inductive Act where
  | connect (now : Instant)
  | send (protocol packetType : UInt8) (payload : Bytes) (now : Instant)
  | tick (now : Instant)
  | pollEvent
  /-- The transport takes a copy off the outbound queue. -/
  | transmit
  | loseCopy
  | loseLine
  /-- The device receives a copy. -/
  | hear
  /-- The device says something unasked. -/
  | speak
  /-- A line arrives at the host. -/
  | arrive
  /-- The host reads one byte. -/
  | read (now : Instant)

/-- One step of the composition; messages are lost only on a lossy link. -/
inductive Step (dev : Device σ) (lossy : Bool) : Act → Link σ → Link σ → Prop where
  | connect {l : Link σ} (now : Instant) :
      Step dev lossy (.connect now) l { l with host := l.host.connect now }
  | send {l : Link σ} (protocol packetType : UInt8) (payload : Bytes) (now : Instant)
      (host : Watched) (h : l.host.send protocol packetType payload now = some host) :
      Step dev lossy (.send protocol packetType payload now) l { l with host }
  | tick {l : Link σ} (now : Instant) :
      Step dev lossy (.tick now) l { l with host := l.host.tick now }
  | pollEvent {l : Link σ} : Step dev lossy .pollEvent l { l with host := l.host.pollEvent }
  | transmit {l : Link σ} (i : Nat) (bytes : Bytes)
      (hb : l.host.session.pollOutbound.1 = some bytes)
      (hi : l.host.log.placed[l.host.log.taken]? = some (i, bytes)) :
      Step dev lossy .transmit l
        { l with host := l.host.pollOutbound, toDevice := l.toDevice ++ [(i, bytes)] }
  | loseCopy {l : Link σ} (a b : List (Nat × Bytes)) (c : Nat × Bytes) (hl : lossy = true)
      (h : l.toDevice = a ++ c :: b) : Step dev lossy .loseCopy l { l with toDevice := a ++ b }
  | loseLine {l : Link σ} (a b : List Bytes) (line : Bytes) (hl : lossy = true)
      (h : l.toHost = a ++ line :: b) : Step dev lossy .loseLine l { l with toHost := a ++ b }
  | hear {l : Link σ} (c : Nat × Bytes) (rest : List (Nat × Bytes)) (d : σ) (lines : List Bytes)
      (h : l.toDevice = c :: rest) (hd : dev.hears l.device c d lines) :
      Step dev lossy .hear l
        { l with toDevice := rest, device := d, toHost := l.toHost ++ lines }
  | speak {l : Link σ} (d : σ) (lines : List Bytes) (hd : dev.speaks l.device d lines) :
      Step dev lossy .speak l { l with device := d, toHost := l.toHost ++ lines }
  | arrive {l : Link σ} (line : Bytes) (rest : List Bytes) (h : l.toHost = line :: rest) :
      Step dev lossy .arrive l
        { l with toHost := rest, arriving := l.arriving ++ (line ++ [0x0A]) }
  | read {l : Link σ} (b : UInt8) (rest : Bytes) (now : Instant) (h : l.arriving = b :: rest) :
      Step dev lossy (.read now) l { l with host := l.host.feed [b] now, arriving := rest }

/-- A link on which nothing was sent yet. -/
def Link.start (s : Session) (d : σ) : Link σ := ⟨Watched.start s.reset, [], d, [], []⟩

/-! ## The wire -/

/-- The composition one copy and one reply at a time. -/
structure Wire (σ : Type) where
  host : Watched
  /-- Copies the device has not received, the oldest first. -/
  forward : List (Nat × Bytes)
  device : σ
  /-- Replies the host has not taken, the oldest first. -/
  back : List Reply

namespace Link

def wire (l : Link σ) : Wire σ where
  host := l.host
  forward := l.toDevice ++ l.host.log.placed.drop l.host.log.taken
  device := l.device
  back := Session.replies (l.host.session.inboundBuf ++ l.arriving) ++ l.toHost.map reply

/-- The part of a link's well-formedness that the wire does not show. -/
structure Sound (l : Link σ) : Prop where
  conserved : ∃ ds, Conserved l.host ds
  /-- Lines arrive whole. -/
  whole : (Lines.cut 0x0A (l.host.session.inboundBuf ++ l.arriving)).2 = []
  lines : ∀ line ∈ l.toHost, (0x0A : UInt8) ∉ line

end Link

/-- The host acts: what it places on the outbound queue is on the wire. -/
def Wire.act (w : Wire σ) (host : Watched) : Wire σ :=
  { w with host, forward := w.forward ++ host.log.placed.drop w.host.log.placed.length }

/-- The copies a host places come last on the wire. -/
theorem Wire.act_forward {w : Wire σ} {host : Watched} {copies : List (Nat × Bytes)}
    (h : host.log.placed = w.host.log.placed ++ copies) :
    (w.act host).forward = w.forward ++ copies := by
  unfold Wire.act
  rw [h, List.drop_left]

theorem Wire.act_forward_same {w : Wire σ} {host : Watched}
    (h : host.log.placed = w.host.log.placed) : (w.act host).forward = w.forward := by
  rw [Wire.act_forward (show host.log.placed = w.host.log.placed ++ [] by rw [h, List.append_nil]),
    List.append_nil]

/-- The moves of the wire. -/
inductive Move (dev : Device σ) (lossy : Bool) : Act → Wire σ → Wire σ → Prop where
  | connect {w : Wire σ} (now : Instant) :
      Move dev lossy (.connect now) w (w.act (w.host.connect now))
  | send {w : Wire σ} (protocol packetType : UInt8) (payload : Bytes) (now : Instant)
      (host : Watched) (h : w.host.send protocol packetType payload now = some host) :
      Move dev lossy (.send protocol packetType payload now) w (w.act host)
  | tick {w : Wire σ} (now : Instant) :
      Move dev lossy (.tick now) w (w.act (w.host.tick now))
  | pollEvent {w : Wire σ} : Move dev lossy .pollEvent w { w with host := w.host.pollEvent }
  | transmit {w : Wire σ} : Move dev lossy .transmit w { w with host := w.host.pollOutbound }
  | loseCopy {w : Wire σ} (a b : List (Nat × Bytes)) (c : Nat × Bytes) (hl : lossy = true)
      (h : w.forward = a ++ c :: b) : Move dev lossy .loseCopy w { w with forward := a ++ b }
  | loseLine {w : Wire σ} (a b : List Reply) (r : Reply) (hl : lossy = true)
      (h : w.back = a ++ r :: b) : Move dev lossy .loseLine w { w with back := a ++ b }
  | hear {w : Wire σ} (c : Nat × Bytes) (rest : List (Nat × Bytes)) (d : σ) (lines : List Bytes)
      (h : w.forward = c :: rest) (hd : dev.hears w.device c d lines) :
      Move dev lossy .hear w
        { w with forward := rest, device := d, back := w.back ++ lines.map reply }
  | speak {w : Wire σ} (d : σ) (lines : List Bytes) (hd : dev.speaks w.device d lines) :
      Move dev lossy .speak w { w with device := d, back := w.back ++ lines.map reply }
  | arrive {w : Wire σ} : Move dev lossy .arrive w w
  /-- A byte that completes no line. -/
  | buffer {w : Wire σ} (buf : Bytes) (now : Instant) :
      Move dev lossy (.read now) w { w with host := w.host.withBuf buf }
  /-- A byte that completes a line. -/
  | read {w : Wire σ} (r : Reply) (rest : List Reply) (buf : Bytes) (now : Instant)
      (h : w.back = r :: rest) :
      Move dev lossy (.read now) w
        { w.act ((w.host.take r now).withBuf buf) with back := rest }

end MarlinTransfer
