import MarlinTransfer.Codec.Corruption
import MarlinTransfer.Fixtures.Reception

/-!
# A stream with noise in it

A receive loop drops one byte off a front it cannot read and tries again. So it gets over
whatever stands between two packets, if nothing in there passes for the beginning of one: text
for somebody else, or a copy of a packet that was damaged on its way. It handles the packets,
in their order, and drops the rest byte by byte, however the stream is cut.
-/

namespace MarlinTransfer

open Codec Incremental

/-- The start token as it is sent. -/
def tokenBytes : Bytes := [0xAD, 0xB5]

/-- Wherever the token stands, the decoder refuses what starts there. -/
def Noise (bytes : Bytes) : Prop :=
  ∀ x, x <:+ bytes → tokenBytes <+: x → ∃ e, Codec.verdict x = .bad e

/-- Without the token there is nothing to refuse. -/
theorem noise_of_no_token {bytes : Bytes} (h : ¬ tokenBytes <:+: bytes) : Noise bytes :=
  fun _ hx ht => absurd (ht.isInfix.trans hx.isInfix) h

theorem bytes_of_token {lo hi : UInt8} (h : fromLeBytes lo hi = packetToken) :
    lo = 0xAD ∧ hi = 0xB5 := by
  have hbytes := toLeBytes_fromLeBytes lo hi
  rw [h, show toLeBytes packetToken = [0xAD, 0xB5] by decide] at hbytes
  obtain ⟨hlo, hrest⟩ := List.cons.inj hbytes
  exact ⟨hlo.symm, (List.cons.inj hrest).1.symm⟩

/-- A front of eight bytes that is not the token's is refused. -/
theorem verdict_no_token {buf : Bytes} (hlen : headerLen ≤ buf.length)
    (h : ¬ tokenBytes <+: buf) : ∃ e, Codec.verdict buf = .bad e := by
  rcases short_or_cons buf with hs | ⟨b0, b1, b2, b3, b4, b5, b6, b7, rest, rfl⟩
  · omega
  have htok : fromLeBytes b0 b1 ≠ packetToken := by
    intro htok
    obtain ⟨rfl, rfl⟩ := bytes_of_token htok
    exact h (List.prefix_append [0xAD, 0xB5] _)
  refine ⟨some (.badToken packetToken (fromLeBytes b0 b1)), ?_⟩
  rw [Codec.verdict, decode_cons, decodeBody, if_pos htok]

/-- **Noise ahead of a packet is dropped.** The packet begins with the first byte of the token,
so no token reaches from one into the other. -/
theorem Noise.receives {bytes buf rest : Bytes} {ts : List (Turn Packet)} (h : Noise bytes)
    (hhead : buf.head? = some 0xAD) (hlen : headerLen ≤ buf.length)
    (hr : Receives Codec.verdict buf ts rest) :
    Receives Codec.verdict (bytes ++ buf) (List.replicate bytes.length .resync ++ ts) rest := by
  refine Receives.resyncs (fun a more hm => ?_) hr
  by_cases htok : tokenBytes <+: a :: more
  · obtain ⟨e, he⟩ := h _ hm htok
    exact ⟨e, stable_verdict.bad buf he⟩
  · refine verdict_no_token (by rw [List.length_append]; omega) fun hno => htok ?_
    cases more with
    | nil =>
      -- the second byte would be the first of the packet
      obtain ⟨b, buf, rfl⟩ : ∃ b buf', buf = b :: buf' := by
        cases buf with
        | nil => cases hhead
        | cons b buf => exact ⟨b, buf, rfl⟩
      obtain rfl := Option.some.inj hhead
      obtain ⟨-, hb⟩ := List.cons_prefix_cons.mp hno
      exact absurd (List.cons_prefix_cons.mp hb).1 (by decide)
    | cons b more =>
      obtain ⟨rfl, hb⟩ := List.cons_prefix_cons.mp hno
      obtain ⟨rfl, -⟩ := List.cons_prefix_cons.mp hb
      exact List.prefix_append tokenBytes more

/-! ## Streams -/

/-- Packets, each with the noise ahead of it, as they come over the line. -/
def streamBytes (stream : List (Bytes × Packet)) : Bytes :=
  stream.flatMap fun x => x.1 ++ x.2.wire

/-- What the loop does with them. -/
def streamTurns (stream : List (Bytes × Packet)) : List (Turn Packet) :=
  stream.flatMap fun x => List.replicate x.1.length .resync ++ [.message x.2]

/-- Noise that may stand ahead of a packet that is valid. -/
def Legible (stream : List (Bytes × Packet)) : Prop := ∀ x ∈ stream, Noise x.1 ∧ x.2.Valid

theorem wire_head (p : Packet) : p.wire.head? = some 0xAD := rfl

theorem headerLen_le_wire (p : Packet) : headerLen ≤ p.wire.length := by
  rw [p.wire_length, Packet.wireLen]
  split_ifs <;> omega

theorem receives_stream {stream : List (Bytes × Packet)} (h : Legible stream) :
    Receives Codec.verdict (streamBytes stream) (streamTurns stream) [] := by
  induction stream with
  | nil => exact .stop stable_verdict.nil
  | cons x stream ih =>
    obtain ⟨noise, p⟩ := x
    obtain ⟨hnoise, hp⟩ := h _ List.mem_cons_self
    have hrest := ih fun y hy => h y (List.mem_cons_of_mem _ hy)
    -- the packet itself, then what comes behind it
    have hpacket : Receives Codec.verdict (p.wire ++ streamBytes stream)
        ([.message p] ++ streamTurns stream) [] := by
      have hone := receives_wire (show ∀ q ∈ [p], q.Valid by simpa using hp)
      rw [List.flatMap_singleton] at hone
      exact hone.append stable_verdict hrest
    unfold streamBytes streamTurns
    rw [List.flatMap_cons, List.flatMap_cons, List.append_assoc, List.append_assoc]
    refine hnoise.receives ?_ ?_ hpacket
    · exact wire_head p
    · rw [List.length_append]
      exact Nat.le_add_right_of_le (headerLen_le_wire p)

theorem turns_stream (stream : List (Bytes × Packet)) (d : FakeDevice) :
    (streamTurns stream).foldl FakeDevice.turn d = stream.foldl (fun d x => d.handle x.2) d := by
  induction stream generalizing d with
  | nil => rfl
  | cons x stream ih =>
    have hresync : ∀ n : Nat,
        (List.replicate n (Turn.resync : Turn Packet)).foldl FakeDevice.turn d = d := by
      intro n
      induction n with
      | zero => rfl
      | succ n hn => exact hn
    unfold streamTurns
    rw [List.flatMap_cons, List.foldl_append, List.foldl_append, hresync]
    exact ih (d.handle x.2)

theorem stream_inbound (stream : List (Bytes × Packet)) (d : FakeDevice) :
    (stream.foldl (fun d x => d.handle x.2) d).inbound = d.inbound := by
  induction stream generalizing d with
  | nil => rfl
  | cons x stream ih => exact (ih _).trans (d.handle_inbound x.2)

/-! ## Damage -/

/-- A copy of a packet in which two neighbouring bytes at most came out wrong, one of them not
for its counterpart under the checksum. -/
structure Damaged (p : Packet) (copy : Bytes) : Prop where
  length : copy.length = p.wire.length
  local_ : ∃ i : Nat, ∀ j, j ≠ i → j ≠ i + 1 → copy[j]? = p.wire[j]?
  wrong : ∃ (j : Nat) (a b : UInt8), copy[j]? = some a ∧ p.wire[j]? = some b ∧ a ≠ b
    ∧ ¬ Exchange a b

/-- It is refused, and it is noise if no token stands behind its first byte. -/
theorem noise_of_damaged {p : Packet} (hp : p.Valid) {copy : Bytes} (h : Damaged p copy)
    (ht : ¬ tokenBytes <:+: copy.tail) : Noise copy := by
  intro x hx htok
  by_cases hwhole : x = copy
  · subst hwhole
    obtain ⟨i, hi⟩ := h.local_
    obtain ⟨e, he, hc⟩ := decode_corrupt hp [] h.length hi h.wrong
    rw [List.append_nil] at he
    refine ⟨some e, ?_⟩
    rw [Codec.verdict, he]
    cases e with
    | incomplete _ _ => exact hc.elim
    | _ => rfl
  · -- any other place is behind the first byte
    cases copy with
    | nil => exact absurd (List.suffix_nil.mp hx) hwhole
    | cons b copy =>
      rcases List.suffix_cons_iff.mp hx with rfl | hx
      · exact absurd rfl hwhole
      · exact absurd (htok.isInfix.trans hx.isInfix) ht

/--
**The receive loop gets over noise.**

A device with an empty buffer that is fed packets with noise ahead of them, in chunks of any
size, handles exactly the packets, in their order, drops exactly the noise, byte by byte, and is
left with an empty buffer. Bytes without the start token are noise, and so is a copy of a packet
in which two neighbouring bytes at most were altered other than by exchanges of `0x00` and
`0xFF`, if there is no start token behind its first byte.
-/
theorem noise_is_dropped :
    (∀ (d : FakeDevice) (stream : List (Bytes × Packet)) (chunks : List Bytes), d.inbound = [] →
        Legible stream → chunks.flatten = streamBytes stream →
          d.feedAll chunks
              = some (streamTurns stream, stream.foldl (fun d x => d.handle x.2) d)
            ∧ (stream.foldl (fun d x => d.handle x.2) d).inbound = [])
    ∧ (∀ bytes : Bytes, ¬ tokenBytes <:+: bytes → Noise bytes)
    ∧ ∀ (p : Packet) (copy : Bytes), p.Valid → Damaged p copy → ¬ tokenBytes <:+: copy.tail →
        Noise copy := by
  refine ⟨?_, fun bytes => noise_of_no_token, fun p copy hp => noise_of_damaged hp⟩
  intro d stream chunks hd hclean hch
  have hinbound := (stream_inbound stream d).trans hd
  refine ⟨?_, hinbound⟩
  have hw : Waits Codec.verdict d.inbound := by
    rw [hd]
    exact stable_verdict.nil
  have hr : Receives Codec.verdict (d.inbound ++ chunks.flatten) (streamTurns stream) [] := by
    rw [hd, hch]
    exact receives_stream hclean
  rw [FakeDevice.feedAll_flatten hw, FakeDevice.feed_eq hr, turns_stream,
    FakeDevice.withInbound, ← hinbound]

/-- The line that switches a printer to the binary mode, a SYNC, and a WRITE that comes a second
time because its first copy was damaged. -/
def spoiledStream : List (Bytes × Packet) :=
  [([0x4D, 0x32, 0x38, 0x42, 0x31, 0x0A], ⟨0, 0, 1, []⟩),
    ((⟨5, 1, 3, [7, 8]⟩ : Packet).wire.set 8 9, ⟨5, 1, 3, [7, 8]⟩)]

theorem noise_is_dropped_spoiledStream :
    (FakeDevice.new 512 ['1'] 5).feedAll
        [(streamBytes spoiledStream).take 10, (streamBytes spoiledStream).drop 10]
      = some (List.replicate 6 .resync ++ .message ⟨0, 0, 1, []⟩
          :: List.replicate 12 .resync ++ [.message ⟨5, 1, 3, [7, 8]⟩],
        ((FakeDevice.new 512 ['1'] 5).handle ⟨0, 0, 1, []⟩).handle ⟨5, 1, 3, [7, 8]⟩) := by
  have hsync : (⟨0, 0, 1, []⟩ : Packet).Valid := ⟨by decide, by decide, by decide⟩
  have hwrite : (⟨5, 1, 3, [7, 8]⟩ : Packet).Valid := ⟨by decide, by decide, by decide⟩
  have hdamaged : Damaged ⟨5, 1, 3, [7, 8]⟩ ((⟨5, 1, 3, [7, 8]⟩ : Packet).wire.set 8 9) := by
    refine ⟨List.length_set, ⟨8, fun j hj _ => List.getElem?_set_ne (Ne.symm hj)⟩, 8, 9, 7, ?_⟩
    exact ⟨by decide +kernel, by decide +kernel, by decide, by unfold Exchange; decide⟩
  refine (noise_is_dropped.1 _ spoiledStream _ rfl ?_ (by decide +kernel)).1
  intro x hx
  rcases List.mem_cons.mp hx with rfl | hx
  · exact ⟨noise_is_dropped.2.1 _ (by decide), hsync⟩
  · obtain rfl := List.mem_singleton.mp hx
    exact ⟨noise_is_dropped.2.2 _ _ hwrite hdamaged (by decide +kernel), hwrite⟩

end MarlinTransfer
