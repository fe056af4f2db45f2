import MarlinTransfer.Codec.Fletcher

/-!
# The decoder accepts exactly the encoder's image

`wire p` spells out the bytes of a packet. `encode` appends them and nothing else;
`decode` of a buffer long enough for a header is `decodeBody` on its first eight
bytes, a plain chain of tests with no access left to go out of bounds. The round
trip is then a matter of reading one against the other.
-/

namespace MarlinTransfer.Codec

/-! ## Bytes of a `u16` and of the nibble pair -/

theorem fromLeBytes_toNat (lo hi : UInt8) :
    (fromLeBytes lo hi).toNat = lo.toNat + 256 * hi.toNat := by
  have h1 := lo.toNat_lt
  have h2 := hi.toNat_lt
  unfold fromLeBytes
  rw [UInt16.toNat_add, UInt16.toNat_shiftLeft, UInt8.toNat_toUInt16, UInt8.toNat_toUInt16,
    show (8 : UInt16).toNat % 16 = 8 by rfl, Nat.shiftLeft_eq]
  omega

theorem toLeBytes_eq (x : UInt16) :
    toLeBytes x = [UInt8.ofNat (x.toNat % 256), UInt8.ofNat (x.toNat / 256)] := by
  have h := x.toNat_lt
  unfold toLeBytes
  congr 1
  · apply UInt8.toNat_inj.mp
    simp
  · congr 1
    apply UInt8.toNat_inj.mp
    rw [UInt16.toNat_toUInt8, UInt16.toNat_shiftRight, show (8 : UInt16).toNat % 16 = 8 by rfl,
      Nat.shiftRight_eq_div_pow, UInt8.toNat_ofNat']

/-- `from_le_bytes` undoes `to_le_bytes`. -/
theorem fromLeBytes_toLeBytes (x : UInt16) {lo hi : UInt8} (h : toLeBytes x = [lo, hi]) :
    fromLeBytes lo hi = x := by
  have hx := x.toNat_lt
  rw [toLeBytes_eq] at h
  simp only [List.cons.injEq, and_true] at h
  obtain ⟨rfl, rfl⟩ := h
  apply UInt16.toNat_inj.mp
  rw [fromLeBytes_toNat, UInt8.toNat_ofNat', UInt8.toNat_ofNat']
  omega

theorem toLeBytes_fromLeBytes (lo hi : UInt8) : toLeBytes (fromLeBytes lo hi) = [lo, hi] := by
  have h1 := lo.toNat_lt
  have h2 := hi.toNat_lt
  rw [toLeBytes_eq, fromLeBytes_toNat,
    show (lo.toNat + 256 * hi.toNat) % 256 = lo.toNat by omega,
    show (lo.toNat + 256 * hi.toNat) / 256 = hi.toNat by omega, UInt8.ofNat_toNat, UInt8.ofNat_toNat]

/-- The byte holding the protocol id and the packet type. -/
def Packet.protoType (p : Packet) : UInt8 :=
  ((p.protocol &&& 0xF) <<< 4) ||| (p.packetType &&& 0xF)

private theorem nibbles_pack : ∀ a b : Fin 16,
    (((UInt8.ofNat a &&& 0xF) <<< 4) ||| (UInt8.ofNat b &&& 0xF)) >>> 4 = UInt8.ofNat a
      ∧ (((UInt8.ofNat a &&& 0xF) <<< 4) ||| (UInt8.ofNat b &&& 0xF)) &&& 0x0F = UInt8.ofNat b := by
  decide +kernel

private theorem nibbles_unpack : ∀ b : Fin 256,
    (((UInt8.ofNat b >>> 4) &&& 0xF) <<< 4) ||| ((UInt8.ofNat b &&& 0x0F) &&& 0xF) = UInt8.ofNat b
      ∧ UInt8.ofNat b >>> 4 ≤ 0xF ∧ UInt8.ofNat b &&& 0x0F ≤ 0xF := by
  decide +kernel

/-- Two nibbles survive the packing. -/
theorem Packet.protoType_split {p : Packet} (h1 : p.protocol ≤ 0xF) (h2 : p.packetType ≤ 0xF) :
    p.protoType >>> 4 = p.protocol ∧ p.protoType &&& 0x0F = p.packetType := by
  have h1' : p.protocol.toNat < 16 := Nat.lt_succ_of_le (UInt8.le_iff_toNat_le.mp h1)
  have h2' : p.packetType.toNat < 16 := Nat.lt_succ_of_le (UInt8.le_iff_toNat_le.mp h2)
  have h := nibbles_pack ⟨p.protocol.toNat, h1'⟩ ⟨p.packetType.toNat, h2'⟩
  simpa only [UInt8.ofNat_toNat, Packet.protoType] using h

/-- Every byte is the packing of its own nibbles, both in range. -/
theorem protoType_join (b : UInt8) :
    (((b >>> 4) &&& 0xF) <<< 4) ||| ((b &&& 0x0F) &&& 0xF) = b
      ∧ b >>> 4 ≤ 0xF ∧ b &&& 0x0F ≤ 0xF := by
  have h := nibbles_unpack ⟨b.toNat, b.toNat_lt⟩
  simpa only [UInt8.ofNat_toNat] using h

/-! ## The bytes of a packet -/

/-- The packets `Packet::new` accepts. -/
structure Packet.Valid (p : Packet) : Prop where
  protocol : p.protocol ≤ 0xF
  packetType : p.packetType ≤ 0xF
  payload : p.payload.length ≤ maxPayload

theorem Packet.new_eq_ok {sync protocol packetType : UInt8} {payload : Bytes} {p : Packet} :
    Packet.new sync protocol packetType payload = .ok p ↔
      p = ⟨sync, protocol, packetType, payload⟩ ∧ p.Valid := by
  unfold Packet.new
  constructor
  · intro h
    split_ifs at h with h1 h2 h3
    obtain rfl : _ = p := Except.ok.inj h
    exact ⟨rfl, UInt8.not_lt.mp h1, UInt8.not_lt.mp h2, Nat.le_of_not_lt h3⟩
  · rintro ⟨rfl, h1, h2, h3⟩
    rw [if_neg (UInt8.not_lt.mpr h1), if_neg (UInt8.not_lt.mpr h2), if_neg (Nat.not_lt.mpr h3)]

/-- The four bytes under the header checksum. -/
def Packet.header (p : Packet) : Bytes :=
  p.sync :: p.protoType :: toLeBytes (UInt16.ofNat p.payload.length)

/-- The header with its checksum: what the payload checksum covers before the payload. -/
def Packet.sealed (p : Packet) : Bytes := p.header ++ toLeBytes (fletcher16 p.header)

/-- The payload with its checksum, absent when there is no payload. -/
def Packet.body (p : Packet) : Bytes :=
  if p.payload.isEmpty then []
  else p.payload ++ toLeBytes (fletcher16 (p.sealed ++ p.payload))

/-- All bytes of a packet. -/
def Packet.wire (p : Packet) : Bytes := toLeBytes packetToken ++ p.sealed ++ p.body

@[simp] theorem toLeBytes_length (x : UInt16) : (toLeBytes x).length = 2 := rfl

@[simp] theorem Packet.header_length (p : Packet) : p.header.length = 4 := rfl

@[simp] theorem Packet.sealed_length (p : Packet) : p.sealed.length = 6 := rfl

theorem Packet.wire_length (p : Packet) : p.wire.length = p.wireLen := by
  unfold Packet.wire Packet.body Packet.wireLen headerLen
  split
  · simp
  · simp only [List.length_append, toLeBytes_length, Packet.sealed_length]
    omega

/-- `encode` on a valid packet appends its bytes. -/
theorem encode_valid {p : Packet} (h : p.Valid) (out : Bytes) :
    encode p out = (.ok p.wireLen, out ++ p.wire) := by
  unfold encode
  rw [if_neg (UInt8.not_lt.mpr h.protocol), if_neg (UInt8.not_lt.mpr h.packetType),
    if_neg (Nat.not_lt.mpr h.payload)]
  have hdrop : ∀ l : Bytes, (out ++ toLeBytes packetToken ++ l).drop (out ++ toLeBytes packetToken).length
      = l := fun l => List.drop_left
  have hhead : out ++ toLeBytes packetToken ++ [p.sync]
        ++ [((p.protocol &&& 0xF) <<< 4) ||| (p.packetType &&& 0xF)]
        ++ toLeBytes (UInt16.ofNat p.payload.length)
      = out ++ toLeBytes packetToken ++ p.header := by
    simp [Packet.header, Packet.protoType]
  have hwire : (if p.payload.isEmpty then
        out ++ toLeBytes packetToken ++ p.header ++ toLeBytes (fletcher16 p.header)
      else
        out ++ toLeBytes packetToken ++ p.header ++ toLeBytes (fletcher16 p.header) ++ p.payload
          ++ toLeBytes (fletcher16 (p.sealed ++ p.payload))) = out ++ p.wire := by
    unfold Packet.wire Packet.body Packet.sealed
    split <;> simp
  dsimp only
  rw [hhead, hdrop, List.take_length, show out ++ toLeBytes packetToken ++ p.header
        ++ toLeBytes (fletcher16 p.header) ++ p.payload
      = out ++ toLeBytes packetToken ++ (p.sealed ++ p.payload) by simp [Packet.sealed], hdrop,
    ← List.append_assoc (out ++ toLeBytes packetToken), show out ++ toLeBytes packetToken ++ p.sealed
      = out ++ toLeBytes packetToken ++ p.header ++ toLeBytes (fletcher16 p.header) by
        simp [Packet.sealed], hwire, List.length_append, Packet.wire_length]
  simp

/-- What `Packet::new` rejects, `encode` rejects with the same error, touching nothing. -/
theorem encode_invalid {p : Packet} {e : EncodeError}
    (h : Packet.new p.sync p.protocol p.packetType p.payload = .error e) (out : Bytes) :
    encode p out = (.error e, out) := by
  unfold Packet.new at h
  unfold encode
  split_ifs at h ⊢ <;> cases h <;> rfl

/-! ## `decode` without its bounds checks -/

/-- `decode` on a buffer whose first eight bytes are given. -/
def decodeBody (b0 b1 b2 b3 b4 b5 b6 b7 : UInt8) (rest : Bytes) :
    Except DecodeError (Packet × Nat) :=
  let len := (fromLeBytes b4 b5).toNat
  if fromLeBytes b0 b1 ≠ packetToken then .error (.badToken packetToken (fromLeBytes b0 b1))
  else if fromLeBytes b6 b7 ≠ fletcher16 [b2, b3, b4, b5] then
    .error (.headerChecksum (fromLeBytes b6 b7) (fletcher16 [b2, b3, b4, b5]))
  else if len = 0 then .ok (⟨b2, b3 >>> 4, b3 &&& 0x0F, []⟩, headerLen)
  else if rest.length < len + 2 then
    .error (.incomplete (headerLen + len + 2) (headerLen + rest.length))
  else
    let stored := fromLeBytes (rest.getD len 0) (rest.getD (len + 1) 0)
    let computed := fletcher16 (b2 :: b3 :: b4 :: b5 :: b6 :: b7 :: rest.take len)
    if stored ≠ computed then .error (.payloadChecksum stored computed)
    else .ok (⟨b2, b3 >>> 4, b3 &&& 0x0F, rest.take len⟩, headerLen + len + 2)

section

variable {b0 b1 b2 b3 b4 b5 b6 b7 : UInt8}

/-- A packet without payload, all checks passed. -/
theorem decodeBody_empty (rest : Bytes) (htok : fromLeBytes b0 b1 = packetToken)
    (hcs : fromLeBytes b6 b7 = fletcher16 [b2, b3, b4, b5])
    (hlen : (fromLeBytes b4 b5).toNat = 0) :
    decodeBody b0 b1 b2 b3 b4 b5 b6 b7 rest
      = .ok (⟨b2, b3 >>> 4, b3 &&& 0x0F, []⟩, headerLen) := by
  rw [decodeBody, if_neg (not_not.mpr htok), if_neg (not_not.mpr hcs), if_pos hlen]

/-- A packet with payload, all checks passed. -/
theorem decodeBody_full {pay : Bytes} {x y : UInt8} (trailing : Bytes)
    (htok : fromLeBytes b0 b1 = packetToken)
    (hcs : fromLeBytes b6 b7 = fletcher16 [b2, b3, b4, b5])
    (hlen : (fromLeBytes b4 b5).toNat = pay.length) (hne : pay ≠ [])
    (hpay : fromLeBytes x y = fletcher16 (b2 :: b3 :: b4 :: b5 :: b6 :: b7 :: pay)) :
    decodeBody b0 b1 b2 b3 b4 b5 b6 b7 (pay ++ x :: y :: trailing)
      = .ok (⟨b2, b3 >>> 4, b3 &&& 0x0F, pay⟩, headerLen + pay.length + 2) := by
  have hg1 : (pay ++ x :: y :: trailing).getD pay.length 0 = x := by simp
  have hg2 : (pay ++ x :: y :: trailing).getD (pay.length + 1) 0 = y := by simp
  have h0 : pay.length ≠ 0 := fun h => hne (List.length_eq_zero_iff.mp h)
  rw [decodeBody, if_neg (not_not.mpr htok), if_neg (not_not.mpr hcs), hlen, if_neg h0,
    if_neg (by simp), List.take_left, hg1, hg2, if_neg (not_not.mpr hpay)]

end

theorem decode_short {buf : Bytes} (h : buf.length < headerLen) :
    decode buf = some (.error (.incomplete headerLen buf.length)) := by
  unfold decode
  rw [if_pos h]

/-- **No access of `decode` is out of bounds.** -/
theorem decode_cons (b0 b1 b2 b3 b4 b5 b6 b7 : UInt8) (rest : Bytes) :
    decode (b0 :: b1 :: b2 :: b3 :: b4 :: b5 :: b6 :: b7 :: rest)
      = some (decodeBody b0 b1 b2 b3 b4 b5 b6 b7 rest) := by
  have hlen : (b0 :: b1 :: b2 :: b3 :: b4 :: b5 :: b6 :: b7 :: rest).length = headerLen + rest.length := by
    simp only [List.length_cons, headerLen]
    omega
  unfold decode decodeBody
  rw [if_neg (by rw [hlen]; omega)]
  have hs1 : slice (b0 :: b1 :: b2 :: b3 :: b4 :: b5 :: b6 :: b7 :: rest) 2 6
      = some [b2, b3, b4, b5] := by
    unfold slice
    rw [if_pos ⟨by omega, by rw [hlen, headerLen]; omega⟩]
    rfl
  by_cases htok : fromLeBytes b0 b1 = packetToken
  swap
  · simp [htok]
  by_cases hcs : fromLeBytes b6 b7 = fletcher16 [b2, b3, b4, b5]
  swap
  · simp [htok, hcs, hs1]
  by_cases hz : (fromLeBytes b4 b5).toNat = 0
  · simp [htok, hcs, hs1, hz]
  by_cases hshort : rest.length < (fromLeBytes b4 b5).toNat + 2
  · have h1 : headerLen + rest.length < headerLen + (fromLeBytes b4 b5).toNat + 2 := by omega
    simp only [List.getElem?_cons_zero, List.getElem?_cons_succ, Option.bind_eq_bind,
      Option.bind_some, htok, hcs, hs1, hz, hlen, ne_eq, not_true_eq_false, hshort, h1, ↓reduceIte]
    rfl
  -- the body is all there: name its length and read it off
  generalize hL : (fromLeBytes b4 b5).toNat = L at *
  have hrest : L + 1 < rest.length := by omega
  have hs2 : slice (b0 :: b1 :: b2 :: b3 :: b4 :: b5 :: b6 :: b7 :: rest) headerLen (headerLen + L)
      = some (rest.take L) := by
    unfold slice
    rw [if_pos ⟨by omega, by rw [hlen]; omega⟩]
    unfold headerLen
    rw [show 8 + L = L + 8 by omega]
    rfl
  have hs3 : slice (b0 :: b1 :: b2 :: b3 :: b4 :: b5 :: b6 :: b7 :: rest) 2 (headerLen + L)
      = some (b2 :: b3 :: b4 :: b5 :: b6 :: b7 :: rest.take L) := by
    unfold slice
    rw [if_pos ⟨by unfold headerLen; omega, by rw [hlen]; omega⟩]
    unfold headerLen
    rw [show 8 + L = L + 8 by omega]
    rfl
  have hg1 : (b0 :: b1 :: b2 :: b3 :: b4 :: b5 :: b6 :: b7 :: rest)[headerLen + L]?
      = some (rest.getD L 0) := by
    unfold headerLen
    rw [show 8 + L = L + 8 by omega]
    simp [List.getElem?_eq_getElem (show L < rest.length by omega)]
  have hg2 : (b0 :: b1 :: b2 :: b3 :: b4 :: b5 :: b6 :: b7 :: rest)[headerLen + L + 1]?
      = some (rest.getD (L + 1) 0) := by
    unfold headerLen
    rw [show 8 + L + 1 = L + 1 + 8 by omega]
    simp [List.getElem?_eq_getElem hrest]
  have hg0 : ∀ i, (b0 :: b1 :: b2 :: b3 :: b4 :: b5 :: b6 :: b7 :: rest)[i + 1]?
      = (b1 :: b2 :: b3 :: b4 :: b5 :: b6 :: b7 :: rest)[i]? := fun _ => rfl
  rw [hg0] at hg2
  simp only [List.getElem?_cons_zero, List.getElem?_cons_succ, Option.bind_eq_bind,
    Option.bind_some, htok, hcs, hs1, hL, hz, hs2, hs3, hg1, hg2, hlen, ne_eq, not_true_eq_false,
    hshort, ↓reduceIte]
  rw [if_neg (by omega)]
  split <;> rfl

/-- A buffer too short for a header, or its first eight bytes and the rest. -/
theorem short_or_cons (buf : Bytes) :
    buf.length < headerLen ∨ ∃ b0 b1 b2 b3 b4 b5 b6 b7 rest,
      buf = b0 :: b1 :: b2 :: b3 :: b4 :: b5 :: b6 :: b7 :: rest := by
  match buf with
  | b0 :: b1 :: b2 :: b3 :: b4 :: b5 :: b6 :: b7 :: rest => exact .inr ⟨_, _, _, _, _, _, _, _, _, rfl⟩
  | [] | [_] | [_, _] | [_, _, _] | [_, _, _, _] | [_, _, _, _, _] | [_, _, _, _, _, _]
  | [_, _, _, _, _, _, _] => exact .inl (by simp [headerLen])

theorem decode_ne_none (buf : Bytes) : decode buf ≠ none := by
  rcases short_or_cons buf with h | ⟨b0, b1, b2, b3, b4, b5, b6, b7, rest, rfl⟩
  · rw [decode_short h]
    exact Option.some_ne_none _
  · rw [decode_cons]
    exact Option.some_ne_none _

/-! ## Both directions -/

/-- Decoding what was encoded, whatever follows it. -/
theorem decode_wire {p : Packet} (h : p.Valid) (trailing : Bytes) :
    decode (p.wire ++ trailing) = some (.ok (p, p.wireLen)) := by
  obtain ⟨c0, c1, hc⟩ : ∃ c0 c1, toLeBytes (fletcher16 p.header) = [c0, c1] := ⟨_, _, rfl⟩
  obtain ⟨l0, l1, hl⟩ : ∃ l0 l1, toLeBytes (UInt16.ofNat p.payload.length) = [l0, l1] :=
    ⟨_, _, rfl⟩
  obtain ⟨t0, t1, ht⟩ : ∃ t0 t1, toLeBytes packetToken = [t0, t1] := ⟨_, _, rfl⟩
  -- the bytes one by one, so that `decode` sees a header
  have hhead : p.header = [p.sync, p.protoType, l0, l1] := by rw [Packet.header, hl]
  have hwire : p.wire ++ trailing
      = t0 :: t1 :: p.sync :: p.protoType :: l0 :: l1 :: c0 :: c1 :: (p.body ++ trailing) := by
    rw [Packet.wire, Packet.sealed, hc, ht, hhead]
    rfl
  have hlen : (fromLeBytes l0 l1).toNat = p.payload.length := by
    have := h.payload
    rw [fromLeBytes_toLeBytes _ hl, UInt16.toNat_ofNat']
    unfold maxPayload at this
    omega
  obtain ⟨hp1, hp2⟩ := Packet.protoType_split h.protocol h.packetType
  have hcs : fromLeBytes c0 c1 = fletcher16 [p.sync, p.protoType, l0, l1] := by
    rw [fromLeBytes_toLeBytes _ hc, hhead]
  rw [hwire, decode_cons]
  by_cases hz : p.payload = []
  · rw [decodeBody_empty _ (fromLeBytes_toLeBytes _ ht) hcs (by rw [hlen, hz]; rfl), hp1, hp2,
      Packet.wireLen, if_pos (by rw [hz]; rfl), ← hz]
  · have hne : ¬ p.payload.isEmpty := by simpa using hz
    obtain ⟨q0, q1, hq⟩ : ∃ q0 q1, toLeBytes (fletcher16 (p.sealed ++ p.payload)) = [q0, q1] :=
      ⟨_, _, rfl⟩
    have hbody : p.body ++ trailing = p.payload ++ q0 :: q1 :: trailing := by
      simp [Packet.body, hz, hq]
    have hseal : p.sealed ++ p.payload
        = p.sync :: p.protoType :: l0 :: l1 :: c0 :: c1 :: p.payload := by
      rw [Packet.sealed, hc, hhead]
      rfl
    rw [hbody, decodeBody_full trailing (fromLeBytes_toLeBytes _ ht) hcs hlen hz
      (by rw [fromLeBytes_toLeBytes _ hq, hseal]), hp1, hp2, Packet.wireLen, if_neg hne]

/-- A buffer that decodes starts with the bytes of the decoded packet. -/
theorem wire_of_decode {buf : Bytes} {p : Packet} {n : Nat} (h : decode buf = some (.ok (p, n))) :
    p.Valid ∧ n = p.wireLen ∧ n ≤ buf.length ∧ buf.take n = p.wire := by
  rcases short_or_cons buf with hs | ⟨b0, b1, b2, b3, b4, b5, b6, b7, rest, rfl⟩
  · rw [decode_short hs] at h
    simp at h
  rw [decode_cons] at h
  unfold decodeBody at h
  obtain ⟨hj, hj1, hj2⟩ := protoType_join b3
  -- the length field is the length of the payload, and fits in its two bytes
  generalize hL : (fromLeBytes b4 b5).toNat = L at h
  have hLlt : L < 65536 := by rw [← hL]; exact (fromLeBytes b4 b5).toNat_lt
  have hLlen : toLeBytes (UInt16.ofNat L) = [b4, b5] := by
    rw [← hL, UInt16.ofNat_toNat, toLeBytes_fromLeBytes]
  dsimp only at h
  split_ifs at h with htok hcs hz hshort hpay
  · simp at h
  · simp at h
  · -- no payload
    obtain ⟨rfl, rfl⟩ := Prod.mk.inj (Except.ok.inj (Option.some.inj h))
    have hhead : (⟨b2, b3 >>> 4, b3 &&& 0x0F, []⟩ : Packet).header = [b2, b3, b4, b5] := by
      rw [Packet.header, List.length_nil, ← hz, hLlen]
      simp [Packet.protoType, hj]
    refine ⟨⟨hj1, hj2, Nat.zero_le _⟩, rfl, by simp [headerLen], ?_⟩
    rw [Packet.wire, Packet.sealed, hhead, ← not_not.mp hcs, toLeBytes_fromLeBytes,
      ← not_not.mp htok, toLeBytes_fromLeBytes]
    rfl
  · simp at h
  · simp at h
  · -- a payload and its checksum
    obtain ⟨rfl, rfl⟩ := Prod.mk.inj (Except.ok.inj (Option.some.inj h))
    have hlen : (rest.take L).length = L := by simp; omega
    have hne : (rest.take L).isEmpty = false := by
      rw [List.isEmpty_eq_false_iff_exists_mem, ← List.length_pos_iff_exists_mem]
      omega
    have hhead : (⟨b2, b3 >>> 4, b3 &&& 0x0F, rest.take L⟩ : Packet).header = [b2, b3, b4, b5] := by
      rw [Packet.header, hlen, hLlen]
      simp [Packet.protoType, hj]
    have hseal : (⟨b2, b3 >>> 4, b3 &&& 0x0F, rest.take L⟩ : Packet).sealed
        = [b2, b3, b4, b5, b6, b7] := by
      rw [Packet.sealed, hhead, ← not_not.mp hcs, toLeBytes_fromLeBytes]
      rfl
    refine ⟨⟨hj1, hj2, by rw [hlen]; unfold maxPayload; omega⟩, ?_, ?_, ?_⟩
    · simp [Packet.wireLen, hne, hlen]
    · simp only [List.length_cons, headerLen]
      omega
    · -- the body is the payload and the two bytes that `decode` compared
      have hsplit : rest.take (L + 2) = rest.take L ++ [rest.getD L 0, rest.getD (L + 1) 0] := by
        rw [List.take_add, show 2 = 1 + 1 by rfl]
        congr 1
        refine List.ext_getElem? fun j => ?_
        match j with
        | 0 => simp [List.getElem?_eq_getElem (show L < rest.length by omega)]
        | 1 => simp [List.getElem?_eq_getElem (show L + 1 < rest.length by omega)]
        | j + 2 => simp
      rw [Packet.wire, hseal, Packet.body, if_neg (by simp [hne]), hseal,
        show [b2, b3, b4, b5, b6, b7] ++ rest.take L
          = b2 :: b3 :: b4 :: b5 :: b6 :: b7 :: rest.take L by rfl, ← not_not.mp hpay,
        toLeBytes_fromLeBytes, ← not_not.mp htok, toLeBytes_fromLeBytes, ← hsplit,
        show headerLen + L + 2 = (L + 2) + 8 by unfold headerLen; omega]
      rfl

/--
**The decoder accepts exactly the encoder's image.**

`decode` never panics; it returns `(p, n)` on exactly the buffers whose first `n`
bytes are what `encode` appends for `p`. So encoding and decoding undo each other,
with any bytes before and after, and what `Packet::new` rejects `encode` rejects
the same way without touching its buffer.
-/
theorem decode_iff_encode :
    (∀ buf : Bytes, decode buf ≠ none)
    ∧ (∀ (buf : Bytes) (p : Packet) (n : Nat),
        decode buf = some (.ok (p, n)) ↔
          (p.protocol ≤ 15 ∧ p.packetType ≤ 15 ∧ p.payload.length ≤ 65535)
            ∧ n ≤ buf.length ∧ encode p [] = (.ok n, buf.take n))
    ∧ (∀ (sync protocol packetType : UInt8) (payload : Bytes) (p : Packet),
        Packet.new sync protocol packetType payload = .ok p →
          ∀ out trailing : Bytes, ∃ bytes : Bytes,
            encode p out = (.ok p.wireLen, out ++ bytes) ∧ bytes.length = p.wireLen
              ∧ decode (bytes ++ trailing) = some (.ok (p, p.wireLen)))
    ∧ (∀ (buf : Bytes) (p : Packet) (n : Nat), decode buf = some (.ok (p, n)) →
        ∀ out : Bytes, encode p out = (.ok n, out ++ buf.take n))
    ∧ (∀ (p : Packet) (e : EncodeError),
        Packet.new p.sync p.protocol p.packetType p.payload = .error e →
          ∀ out : Bytes, encode p out = (.error e, out)) := by
  refine ⟨decode_ne_none, ?_, ?_, ?_, fun p e h out => encode_invalid h out⟩
  · intro buf p n
    constructor
    · -- what decodes was encoded
      intro h
      obtain ⟨hv, hn, hle, hw⟩ := wire_of_decode h
      exact ⟨⟨hv.protocol, hv.packetType, hv.payload⟩, hle, by
        rw [encode_valid hv, hn, ← hn, hw]; rfl⟩
    · -- what was encoded decodes, whatever follows
      rintro ⟨⟨h1, h2, h3⟩, hle, henc⟩
      have hv : p.Valid := ⟨h1, h2, h3⟩
      rw [encode_valid hv, Prod.mk.injEq] at henc
      have hn : p.wireLen = n := Except.ok.inj henc.1
      have hw : p.wire = buf.take n := henc.2
      have hd := decode_wire hv (buf.drop n)
      rwa [hw, List.take_append_drop, hn] at hd
  · intro sync protocol packetType payload p h out trailing
    have hv := (Packet.new_eq_ok.mp h).2
    exact ⟨p.wire, encode_valid hv out, p.wire_length, decode_wire hv trailing⟩
  · intro buf p n h out
    obtain ⟨hv, hn, -, hw⟩ := wire_of_decode h
    rw [encode_valid hv, hw, ← hn]

end MarlinTransfer.Codec
