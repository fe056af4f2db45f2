import MarlinTransfer.Codec.RoundTrip

/-!
# What the checksums catch

Fletcher-16 works mod 255, so it cannot tell `0x00` from `0xFF`; apart from that
exchange it sees every change confined to two neighbouring bytes, wherever the pair
falls. Both checksums of a packet are the same thing — bytes followed by their own
checksum — and `seal_adjacent` is the one argument for the two of them.
-/

namespace MarlinTransfer.Codec

open WeightedSum

/-- One of the two bytes is `0x00` and the other `0xFF`. -/
def Exchange (a b : UInt8) : Prop := (a = 0x00 ∧ b = 0xFF) ∨ (a = 0xFF ∧ b = 0x00)

instance (a b : UInt8) : Decidable (Exchange a b) := by unfold Exchange; infer_instance

/-- Congruence mod 255 is all a Fletcher sum sees of a byte. -/
theorem modEq_iff_exchange (a b : UInt8) :
    a.toNat ≡ b.toNat [MOD 255] ↔ a = b ∨ Exchange a b := by
  have ha := a.toNat_lt
  have hb := b.toNat_lt
  unfold Exchange Nat.ModEq
  simp only [← UInt8.toNat_inj, show (0x00 : UInt8).toNat = 0 by rfl,
    show (0xFF : UInt8).toNat = 255 by rfl]
  omega

/-- Bytes that agree up to exchanges have one checksum. -/
theorem fletcher16_congr {xs ys : Bytes}
    (h : List.Forall₂ (fun a b => a = b ∨ Exchange a b) xs ys) :
    fletcher16 xs = fletcher16 ys := by
  have hm : List.Forall₂ (· ≡ · [MOD 255]) (nats xs) (nats ys) := by
    rw [List.forall₂_map_left_iff, List.forall₂_map_right_iff]
    exact h.imp fun a b hab => (modEq_iff_exchange a b).mpr hab
  exact (fletcher16_eq_iff xs ys).mpr ⟨sum_modEq hm, weighted_modEq hm⟩

/--
**A change to two neighbouring bytes of a sealed block.**

If bytes followed by their checksum are altered at positions `i` and `i + 1` only, and
the stored checksum still matches, then every byte is unchanged up to an exchange and
the stored checksum is unchanged outright.
-/
theorem seal_adjacent {data data' : Bytes} {x y : UInt8} {i : Nat}
    (hlen : data'.length = data.length)
    (hd : ∀ j, j ≠ i → j ≠ i + 1 →
      (data' ++ [x, y])[j]? = (data ++ toLeBytes (fletcher16 data))[j]?)
    (hcs : fromLeBytes x y = fletcher16 data') :
    List.Forall₂ (fun a b => a = b ∨ Exchange a b) data' data
      ∧ [x, y] = toLeBytes (fletcher16 data) := by
  obtain ⟨c, d, hc⟩ : ∃ c d, toLeBytes (fletcher16 data) = [c, d] := ⟨_, _, rfl⟩
  rw [hc] at hd ⊢
  have hcd := fromLeBytes_toLeBytes _ hc
  have hdata : ∀ j, j ≠ i → j ≠ i + 1 → data'[j]? = data[j]? := by
    intro j h1 h2
    by_cases hj : j < data.length
    · have := hd j h1 h2
      rwa [List.getElem?_append_left (by omega), List.getElem?_append_left hj] at this
    · rw [List.getElem?_eq_none (show data.length ≤ j by omega),
        List.getElem?_eq_none (show data'.length ≤ j by omega)]
  -- a checksum byte outside the window is the stored one
  have hx : data.length ≠ i → data.length ≠ i + 1 → x = c := by
    intro h1 h2
    have := hd data.length h1 h2
    rw [List.getElem?_append_right (by omega), List.getElem?_append_right (by omega), hlen] at this
    simpa using this
  have hy : data.length + 1 ≠ i → data.length + 1 ≠ i + 1 → y = d := by
    intro h1 h2
    have := hd (data.length + 1) h1 h2
    rw [List.getElem?_append_right (by omega), List.getElem?_append_right (by omega), hlen] at this
    simpa using this
  -- where the window lies decides which of the two sums still speaks
  have hclose : List.Forall₂ (· ≡ · [MOD 255]) (nats data') (nats data) := by
    rcases Nat.lt_trichotomy (i + 1) data.length with hi | hi | hi
    · -- inside the data: the stored checksum is the old one, so both sums agree
      obtain rfl := hx (by omega) (by omega)
      obtain rfl := hy (by omega) (by omega)
      obtain ⟨hs, hw⟩ := (fletcher16_eq_iff data' data).mp (hcs.symm.trans hcd)
      refine modEq_of_adjacent (i := i) (by simpa using hlen) (fun j h1 h2 => ?_) hs hw
      rw [List.getElem?_map, List.getElem?_map, hdata j h1 h2]
    · -- the last byte and the low checksum byte: the weighted sum still speaks
      obtain rfl := hy (by omega) (by omega)
      have hw : weighted (nats data') ≡ weighted (nats data) [MOD 255] := by
        have h1 := congrArg UInt16.toNat hcs
        have h2 := congrArg UInt16.toNat hcd
        rw [fromLeBytes_toNat, fletcher16_toNat] at h1 h2
        have := x.toNat_lt
        have := c.toNat_lt
        unfold Nat.ModEq
        omega
      obtain ⟨pre, a, rfl⟩ : ∃ pre a, data = pre ++ [a] :=
        ⟨_, _, (List.dropLast_append_getLast (by rintro rfl; simp at hi)).symm⟩
      obtain ⟨pre', a', rfl⟩ : ∃ pre' a', data' = pre' ++ [a'] :=
        ⟨_, _, (List.dropLast_append_getLast (by rintro rfl; simp at hlen)).symm⟩
      simp only [List.length_append, List.length_singleton] at hi hlen
      obtain rfl : pre' = pre := by
        refine List.ext_getElem? fun j => ?_
        by_cases hj : j < pre.length
        · have := hdata j (by omega) (by omega)
          rwa [List.getElem?_append_left (by omega), List.getElem?_append_left hj] at this
        · rw [List.getElem?_eq_none (by omega), List.getElem?_eq_none (by omega)]
      have ha : a'.toNat ≡ a.toNat [MOD 255] := by
        simp only [nats, List.map_append, List.map_cons, List.map_nil,
          weighted_append_singleton] at hw
        exact Nat.ModEq.add_left_cancel' _ hw
      rw [nats, nats, List.map_append, List.map_append]
      exact List.rel_append (List.forall₂_same.mpr fun _ _ => Nat.ModEq.refl _) (.cons ha .nil)
    · -- beyond the data: nothing under the checksum changed
      obtain rfl : data' = data := by
        refine List.ext_getElem? fun j => ?_
        by_cases hj : j < data.length
        · exact hdata j (by omega) (by omega)
        · rw [List.getElem?_eq_none (by omega), List.getElem?_eq_none (by omega)]
      exact List.forall₂_same.mpr fun _ _ => rfl
  have hex : List.Forall₂ (fun a b => a = b ∨ Exchange a b) data' data := by
    rw [nats, nats, List.forall₂_map_left_iff, List.forall₂_map_right_iff] at hclose
    exact hclose.imp fun a b hab => (modEq_iff_exchange a b).mp hab
  refine ⟨hex, ?_⟩
  rw [← toLeBytes_fromLeBytes x y, hcs, fletcher16_congr hex, hc]

theorem forall₂_getElem? {R : UInt8 → UInt8 → Prop} {xs ys : Bytes} (h : List.Forall₂ R xs ys) :
    ∀ {j : Nat} {a b : UInt8}, xs[j]? = some a → ys[j]? = some b → R a b := by
  induction h with
  | nil => intro j a b ha; simp at ha
  | cons hxy _ ih =>
    intro j a b ha hb
    match j with
    | 0 =>
      obtain rfl : _ = a := by simpa using ha
      obtain rfl : _ = b := by simpa using hb
      exact hxy
    | j + 1 => exact ih (by simpa using ha) (by simpa using hb)

theorem forall₂_of_getElem? {R : UInt8 → UInt8 → Prop} :
    ∀ {xs ys : Bytes}, xs.length = ys.length →
      (∀ (j : Nat) (a b : UInt8), xs[j]? = some a → ys[j]? = some b → R a b) →
      List.Forall₂ R xs ys
  | [], [], _, _ => .nil
  | x :: xs, y :: ys, hlen, h =>
      .cons (h 0 x y rfl rfl)
        (forall₂_of_getElem? (by simpa using hlen)
          fun j a b ha hb => h (j + 1) a b (by simpa using ha) (by simpa using hb))

/-- The last two bytes set apart. -/
theorem exists_split_two {rest : Bytes} {n : Nat} (h : rest.length = n + 2) :
    ∃ pay x y, rest = pay ++ [x, y] ∧ pay.length = n := by
  have h2 : (rest.drop n).length = 2 := by
    rw [List.length_drop]
    omega
  obtain ⟨x, y, hxy⟩ := List.length_eq_two.mp h2
  exact ⟨rest.take n, x, y, by rw [← hxy, List.take_append_drop],
    by rw [List.length_take]; omega⟩

/-- The first eight bytes of a packet, and the rest. -/
theorem Packet.wire_eq (p : Packet) {l0 l1 c0 c1 : UInt8}
    (hl : toLeBytes (UInt16.ofNat p.payload.length) = [l0, l1])
    (hc : toLeBytes (fletcher16 p.header) = [c0, c1]) :
    p.header = [p.sync, p.protoType, l0, l1]
      ∧ p.wire = 0xAD :: 0xB5 :: (p.sealed ++ p.body)
      ∧ p.sealed = [p.sync, p.protoType, l0, l1, c0, c1] := by
  have hh : p.header = [p.sync, p.protoType, l0, l1] := by rw [Packet.header, hl]
  refine ⟨hh, rfl, ?_⟩
  rw [Packet.sealed, hc, hh]
  rfl

/-- The decoder errors that report corruption. -/
def DecodeError.Corrupt : DecodeError → Prop
  | .badToken _ _ => True
  | .headerChecksum _ _ => True
  | .payloadChecksum _ _ => True
  | .incomplete _ _ => False

/-- Unless it reports corruption, `decodeBody` found every checksum it could check in order. -/
theorem decodeBody_cases (b0 b1 b2 b3 b4 b5 b6 b7 : UInt8) (rest : Bytes) :
    (∃ e, decodeBody b0 b1 b2 b3 b4 b5 b6 b7 rest = .error e ∧ e.Corrupt)
      ∨ (fromLeBytes b0 b1 = packetToken ∧ fromLeBytes b6 b7 = fletcher16 [b2, b3, b4, b5]
        ∧ ∀ len, (fromLeBytes b4 b5).toNat = len → len ≠ 0 → len + 2 ≤ rest.length →
          fromLeBytes (rest.getD len 0) (rest.getD (len + 1) 0)
            = fletcher16 (b2 :: b3 :: b4 :: b5 :: b6 :: b7 :: rest.take len)) := by
  by_cases htok : fromLeBytes b0 b1 = packetToken
  swap
  · refine .inl ⟨.badToken packetToken (fromLeBytes b0 b1), ?_, trivial⟩
    rw [decodeBody, if_pos htok]
  by_cases hcs : fromLeBytes b6 b7 = fletcher16 [b2, b3, b4, b5]
  swap
  · refine .inl ⟨.headerChecksum (fromLeBytes b6 b7) (fletcher16 [b2, b3, b4, b5]), ?_, trivial⟩
    rw [decodeBody, if_neg (not_not.mpr htok), if_pos hcs]
  generalize hL : (fromLeBytes b4 b5).toNat = L
  by_cases hpay : L ≠ 0 ∧ L + 2 ≤ rest.length
      ∧ fromLeBytes (rest.getD L 0) (rest.getD (L + 1) 0)
        ≠ fletcher16 (b2 :: b3 :: b4 :: b5 :: b6 :: b7 :: rest.take L)
  · obtain ⟨h1, h2, h3⟩ := hpay
    refine .inl ⟨.payloadChecksum (fromLeBytes (rest.getD L 0) (rest.getD (L + 1) 0))
      (fletcher16 (b2 :: b3 :: b4 :: b5 :: b6 :: b7 :: rest.take L)), ?_, trivial⟩
    rw [decodeBody, if_neg (not_not.mpr htok), if_neg (not_not.mpr hcs), hL, if_neg h1,
      if_neg (by omega), if_pos h3]
  · refine .inr ⟨htok, hcs, ?_⟩
    rintro _ rfl h1 h2
    exact not_not.mp fun h3 => hpay ⟨h1, h2, h3⟩

/-- Blocks whose first bytes are given agree where the whole buffers do. -/
theorem getElem?_block {xs ys s t : Bytes} {u v : UInt8} {j : Nat} (hlen : xs.length = ys.length)
    (h : (u :: v :: (xs ++ s))[j + 2]? = (u :: v :: (ys ++ t))[j + 2]?) : xs[j]? = ys[j]? := by
  by_cases hj : j < xs.length
  · simpa [List.getElem?_append_left hj, List.getElem?_append_left (hlen ▸ hj)] using h
  · rw [List.getElem?_eq_none (by omega), List.getElem?_eq_none (by omega)]

/-- What is related throughout has no byte that changed other than by an exchange. -/
theorem not_changed {xs ys : Bytes} (h : List.Forall₂ (fun a b => a = b ∨ Exchange a b) xs ys)
    {j : Nat} {a b : UInt8} (ha : xs[j]? = some a) (hb : ys[j]? = some b) (hab : a ≠ b)
    (hex : ¬ Exchange a b) : False := by
  rcases forall₂_getElem? h ha hb with heq | hexch
  · exact hab heq
  · exact hex hexch

/-- **The header.** One that passes its checks is the old one up to exchanges, with the old
token and the old checksum. -/
theorem header_agrees {p : Packet} {b0 b1 b2 b3 b4 b5 b6 b7 : UInt8} {i : Nat}
    (hlen : p.header.length = 4) (htok : fromLeBytes b0 b1 = packetToken)
    (hcs : fromLeBytes b6 b7 = fletcher16 [b2, b3, b4, b5])
    (hd : ∀ j, j ≠ i → j ≠ i + 1 →
      ([b2, b3, b4, b5] ++ [b6, b7])[j]? = (p.header ++ toLeBytes (fletcher16 p.header))[j]?) :
    [b0, b1] = [0xAD, 0xB5] ∧ [b6, b7] = toLeBytes (fletcher16 p.header)
      ∧ List.Forall₂ (fun a b => a = b ∨ Exchange a b) [b2, b3, b4, b5] p.header := by
  obtain ⟨hrel, hsum⟩ := @seal_adjacent p.header [b2, b3, b4, b5] b6 b7 i hlen.symm hd hcs
  refine ⟨?_, hsum, hrel⟩
  rw [← toLeBytes_fromLeBytes b0 b1, htok]
  rfl

/-- **The payload.** Behind a header that did not change, one that passes its check is the old
one up to exchanges, with the old checksum. -/
theorem body_agrees {p : Packet} {rest : Bytes} (trailing : Bytes) {i : Nat} (hp : p.payload ≠ [])
    (hlen : rest.length = p.body.length)
    (hd : ∀ j, j ≠ i → j ≠ i + 1 → (p.sealed ++ rest)[j]? = (p.sealed ++ p.body)[j]?)
    (hpass : p.payload.length + 2 ≤ (rest ++ trailing).length →
      fromLeBytes ((rest ++ trailing).getD p.payload.length 0)
          ((rest ++ trailing).getD (p.payload.length + 1) 0)
        = fletcher16 (p.sealed ++ (rest ++ trailing).take p.payload.length)) :
    List.Forall₂ (fun a b => a = b ∨ Exchange a b) (p.sealed ++ rest) (p.sealed ++ p.body) := by
  have hbody : p.body = p.payload ++ toLeBytes (fletcher16 (p.sealed ++ p.payload)) := by
    rw [Packet.body, if_neg (by simpa using hp)]
  obtain ⟨q0, q1, hq⟩ : ∃ q0 q1, toLeBytes (fletcher16 (p.sealed ++ p.payload)) = [q0, q1] :=
    ⟨_, _, rfl⟩
  have htwo : rest.length = p.payload.length + 2 := by
    rw [hlen, hbody, hq, List.length_append]
    rfl
  obtain ⟨pay, x, y, rfl, hpl⟩ := exists_split_two htwo
  have hstored : fromLeBytes x y = fletcher16 (p.sealed ++ pay) := by
    have h := hpass (by rw [List.length_append, htwo]; omega)
    have hx : (pay ++ [x, y] ++ trailing).getD pay.length 0 = x := by simp
    have hy : (pay ++ [x, y] ++ trailing).getD (pay.length + 1) 0 = y := by simp
    have hpay : (pay ++ [x, y] ++ trailing).take pay.length = pay := by simp
    rwa [← hpl, hx, hy, hpay] at h
  rw [hbody] at hd ⊢
  simp only [← List.append_assoc] at hd ⊢
  obtain ⟨hrel, hsum⟩ := @seal_adjacent (p.sealed ++ p.payload) (p.sealed ++ pay) x y i
    (by rw [List.length_append, List.length_append, hpl]) hd hstored
  rw [hsum]
  exact List.rel_append hrel (List.forall₂_same.mpr fun _ _ => .inl rfl)

/--
**A change to two neighbouring bytes is caught**, unless every changed byte is an
exchange of `0x00` and `0xFF`.
-/
theorem decode_corrupt {p : Packet} (hp : p.Valid) {buf : Bytes} (trailing : Bytes) {i : Nat}
    (hlen : buf.length = p.wire.length)
    (hd : ∀ j, j ≠ i → j ≠ i + 1 → buf[j]? = p.wire[j]?)
    (hne : ∃ (j : Nat) (a b : UInt8), buf[j]? = some a ∧ p.wire[j]? = some b ∧ a ≠ b
      ∧ ¬ Exchange a b) :
    ∃ e : DecodeError, decode (buf ++ trailing) = some (.error e) ∧ e.Corrupt := by
  obtain ⟨j₀, a, b, ha, hb, hab, hex⟩ := hne
  have hij : j₀ = i ∨ j₀ = i + 1 := by
    by_contra hno
    have := hd j₀ (fun h => hno (.inl h)) (fun h => hno (.inr h))
    rw [ha, hb] at this
    exact hab (Option.some.inj this)
  obtain ⟨l0, l1, hl⟩ : ∃ l0 l1, toLeBytes (UInt16.ofNat p.payload.length) = [l0, l1] :=
    ⟨_, _, rfl⟩
  obtain ⟨c0, c1, hc⟩ : ∃ c0 c1, toLeBytes (fletcher16 p.header) = [c0, c1] := ⟨_, _, rfl⟩
  obtain ⟨hhead, hwire, hseal⟩ := p.wire_eq hl hc
  have hL : (fromLeBytes l0 l1).toNat = p.payload.length := by
    have := hp.payload
    rw [fromLeBytes_toLeBytes _ hl, UInt16.toNat_ofNat']
    unfold maxPayload at this
    omega
  have hwlen : p.wire.length = 8 + p.body.length := by
    simp only [hwire, hseal, List.length_cons, List.length_append, List.length_nil]
    omega
  rcases short_or_cons buf with hs | ⟨b0, b1, b2, b3, b4, b5, b6, b7, rest, rfl⟩
  · unfold headerLen at hs
    omega
  have hrest : rest.length = p.body.length := by
    simp only [List.length_cons] at hlen
    omega
  simp only [List.cons_append]
  rw [decode_cons]
  rcases decodeBody_cases b0 b1 b2 b3 b4 b5 b6 b7 (rest ++ trailing) with ⟨e, he, hec⟩ | hok
  · exact ⟨e, congrArg some he, hec⟩
  exfalso
  obtain ⟨htok, hcs, hpay⟩ := hok
  -- the header passed, so up to exchanges it is the old one
  have hhd : ∀ j, j ≠ i - 2 → j ≠ i - 2 + 1 →
      ([b2, b3, b4, b5] ++ [b6, b7])[j]? = (p.header ++ toLeBytes (fletcher16 p.header))[j]? := by
    intro j h1 h2
    rw [hc, hhead]
    have := hd (j + 2) (by omega) (by omega)
    rw [hwire, hseal] at this
    exact getElem?_block (u := 0) (v := 0) (by simp) this
  obtain ⟨htok', hbc, hF⟩ := header_agrees (by rw [hhead]; rfl) htok hcs hhd
  by_cases hj : j₀ < 8
  · -- the change lies in the first eight bytes, which are the old ones
    have hF8 : List.Forall₂ (fun a b => a = b ∨ Exchange a b)
        ([b0, b1] ++ ([b2, b3, b4, b5] ++ [b6, b7]))
        ([0xAD, 0xB5] ++ (p.header ++ toLeBytes (fletcher16 p.header))) := by
      rw [htok', hbc]
      exact List.rel_append (List.forall₂_same.mpr fun _ _ => .inl rfl)
        (List.rel_append hF (List.forall₂_same.mpr fun _ _ => .inl rfl))
    rw [hc, hhead] at hF8
    refine not_changed hF8 (j := j₀) (a := a) (b := b) ?_ ?_ hab hex
    · rw [← ha]
      exact (List.getElem?_append_left (by simpa using hj)).symm
    · rw [← hb, hwire, hseal]
      exact (List.getElem?_append_left (by simpa using hj)).symm
  -- otherwise the header is untouched and there is a payload
  have hkeep : ∀ j, j < 6 → (b0 :: b1 :: b2 :: b3 :: b4 :: b5 :: b6 :: b7 :: rest)[j]?
      = p.wire[j]? := fun j hj6 => hd j (by omega) (by omega)
  have h2 := hkeep 2 (by omega)
  have h3 := hkeep 3 (by omega)
  have h4 := hkeep 4 (by omega)
  have h5 := hkeep 5 (by omega)
  rw [hwire, hseal] at h2 h3 h4 h5
  simp only [List.cons_append, List.getElem?_cons_succ, List.getElem?_cons_zero,
    Option.some.injEq] at h2 h3 h4 h5
  subst h2 h3 h4 h5
  rw [hc] at hbc
  obtain ⟨rfl, rfl⟩ : b6 = c0 ∧ b7 = c1 := by simpa using hbc
  have hne : p.payload ≠ [] := by
    intro h0
    have hlt : j₀ < p.wire.length := (List.getElem?_eq_some_iff.mp hb).1
    rw [hwlen, Packet.body, if_pos (by rw [h0]; rfl), List.length_nil] at hlt
    exact hj hlt
  have hF2 : List.Forall₂ (fun a b => a = b ∨ Exchange a b) (p.sealed ++ rest)
      (p.sealed ++ p.body) := by
    refine body_agrees trailing (i := i - 2) hne hrest ?_ ?_
    · intro j h1 h2
      have := hd (j + 2) (by omega) (by omega)
      rw [hwire] at this
      rw [hseal] at this ⊢
      exact this
    · intro hlong
      rw [hseal]
      exact hpay p.payload.length hL (fun h0 => hne (List.length_eq_zero_iff.mp h0)) hlong
  have hFw : List.Forall₂ (fun a b => a = b ∨ Exchange a b) ([b0, b1] ++ (p.sealed ++ rest))
      p.wire := by
    rw [hwire, htok']
    exact .cons (.inl rfl) (.cons (.inl rfl) hF2)
  refine not_changed hFw (j := j₀) ?_ hb hab hex
  rw [← ha, hseal]
  rfl

/--
**Exchanges of `0x00` and `0xFF` go unseen.** Altered by nothing else, and only in the
sync, protocol/type or payload bytes, a packet decodes as if it had been sent that way.
-/
theorem decode_exchange {p : Packet} (hp : p.Valid) {buf trailing : Bytes}
    (hlen : buf.length = p.wire.length)
    (hd : ∀ (j : Nat) (a b : UInt8), buf[j]? = some a → p.wire[j]? = some b →
      a = b ∨ (Exchange a b ∧ (j = 2 ∨ j = 3 ∨ 8 ≤ j ∧ j < 8 + p.payload.length))) :
    decode (buf ++ trailing) = some (.ok (⟨buf.getD 2 0, buf.getD 3 0 >>> 4, buf.getD 3 0 &&& 0x0F,
      (buf.drop 8).take p.payload.length⟩, p.wireLen)) := by
  obtain ⟨l0, l1, hl⟩ : ∃ l0 l1, toLeBytes (UInt16.ofNat p.payload.length) = [l0, l1] :=
    ⟨_, _, rfl⟩
  obtain ⟨c0, c1, hc⟩ : ∃ c0 c1, toLeBytes (fletcher16 p.header) = [c0, c1] := ⟨_, _, rfl⟩
  obtain ⟨hhead, hwire, hseal⟩ := p.wire_eq hl hc
  have hL : (fromLeBytes l0 l1).toNat = p.payload.length := by
    have := hp.payload
    rw [fromLeBytes_toLeBytes _ hl, UInt16.toNat_ofNat']
    unfold maxPayload at this
    omega
  have hF : List.Forall₂ (fun a b => a = b ∨ Exchange a b) buf p.wire :=
    forall₂_of_getElem? hlen fun j a b ha hb => (hd j a b ha hb).imp_right And.left
  rcases short_or_cons buf with hs | ⟨b0, b1, b2, b3, b4, b5, b6, b7, rest, rfl⟩
  · rw [hlen, hwire, hseal] at hs
    simp only [headerLen, List.length_cons, List.length_append] at hs
    omega
  rw [hwire, hseal] at hF hd
  -- every byte outside the altered fields is the packet's own
  have hsame : b0 = 0xAD ∧ b1 = 0xB5 ∧ b4 = l0 ∧ b5 = l1 ∧ b6 = c0 ∧ b7 = c1 :=
    ⟨(hd 0 _ _ rfl rfl).resolve_right (by omega), (hd 1 _ _ rfl rfl).resolve_right (by omega),
      (hd 4 _ _ rfl rfl).resolve_right (by omega), (hd 5 _ _ rfl rfl).resolve_right (by omega),
      (hd 6 _ _ rfl rfl).resolve_right (by omega), (hd 7 _ _ rfl rfl).resolve_right (by omega)⟩
  obtain ⟨rfl, rfl, rfl, rfl, rfl, rfl⟩ := hsame
  have hF2 : List.Forall₂ (fun a b => a = b ∨ Exchange a b)
      ([b2, b3, b4, b5, b6, b7] ++ rest) (p.sealed ++ p.body) := by
    rw [hseal]
    exact (List.forall₂_cons.mp (List.forall₂_cons.mp hF).2).2
  have hcs : fletcher16 [b2, b3, b4, b5] = fletcher16 p.header := by
    refine fletcher16_congr ?_
    have := List.forall₂_take 4 hF2
    rw [hseal] at this
    rw [hhead]
    exact this
  have hcs' : fromLeBytes b6 b7 = fletcher16 [b2, b3, b4, b5] := by
    rw [fromLeBytes_toLeBytes _ hc, hcs]
  simp only [List.cons_append]
  rw [decode_cons]
  by_cases hz : p.payload = []
  · rw [decodeBody_empty _ rfl hcs' (by rw [hL, hz]; rfl), Packet.wireLen,
      if_pos (by rw [hz]; rfl), hz]
    rfl
  obtain ⟨q0, q1, hq⟩ : ∃ q0 q1, toLeBytes (fletcher16 (p.sealed ++ p.payload)) = [q0, q1] :=
    ⟨_, _, rfl⟩
  have hbeq : p.body = p.payload ++ [q0, q1] := by
    rw [Packet.body, if_neg (by simpa using hz), hq]
  have hrest : rest.length = p.payload.length + 2 := by
    rw [hwire, hbeq, hseal] at hlen
    simp only [List.length_cons, List.length_append, List.length_nil] at hlen
    omega
  obtain ⟨pay, x, y, rfl, hpl⟩ := exists_split_two hrest
  -- the payload may have changed, its checksum has not
  rw [hbeq] at hd hF2
  have hx := hd (8 + pay.length) x q0
    (by rw [Nat.add_comm]; simp) (by rw [Nat.add_comm, hpl]; simp)
  have hy := hd (8 + (pay.length + 1)) y q1
    (by rw [Nat.add_comm]; simp) (by rw [Nat.add_comm, hpl]; simp)
  obtain rfl : x = q0 := hx.resolve_right (by omega)
  obtain rfl : y = q1 := hy.resolve_right (by omega)
  have hpcs : fletcher16 ([b2, b3, b4, b5, b6, b7] ++ pay) = fletcher16 (p.sealed ++ p.payload) := by
    refine fletcher16_congr ?_
    have := List.forall₂_take (6 + pay.length) hF2
    rwa [← List.append_assoc, ← List.append_assoc,
      List.take_left' (by simp only [List.length_append, List.length_cons, List.length_nil]),
      List.take_left' (by rw [List.length_append, hpl, Packet.sealed_length])] at this
  have hne : pay ≠ [] := by
    rintro rfl
    exact hz (List.length_eq_zero_iff.mp hpl.symm)
  rw [List.append_assoc, List.cons_append, List.cons_append, List.nil_append,
    decodeBody_full trailing rfl hcs' (by rw [hL, hpl]) hne
      (by rw [fromLeBytes_toLeBytes _ hq, ← hpcs]; rfl), ← hpl, Packet.wireLen,
    if_neg (by simpa using hz), hpl]
  simp [hpl]

/--
**Corruption detection of the framing.**

Altering the bytes of a packet at two consecutive positions at most, with at least one
changed byte not an exchange of `0x00` and `0xFF`, makes `decode` report a bad token, a
bad header checksum or a bad payload checksum. Altering sync, protocol/type or payload
bytes by such exchanges only is never noticed: the altered packet is returned.
-/
theorem corruption_detected_unless_exchange :
    (∀ (sync protocol packetType : UInt8) (payload : Bytes) (p : Packet) (wire : Bytes),
      Packet.new sync protocol packetType payload = .ok p → encode p [] = (.ok p.wireLen, wire) →
      ∀ (buf trailing : Bytes) (i : Nat), buf.length = wire.length →
        (∀ j, j ≠ i → j ≠ i + 1 → buf[j]? = wire[j]?) →
        (∃ (j : Nat) (a b : UInt8), buf[j]? = some a ∧ wire[j]? = some b ∧ a ≠ b ∧ ¬ Exchange a b) →
        ∃ e : DecodeError, decode (buf ++ trailing) = some (.error e)
          ∧ ((∃ x y, e = .badToken x y) ∨ (∃ x y, e = .headerChecksum x y)
            ∨ ∃ x y, e = .payloadChecksum x y))
    ∧ (∀ (sync protocol packetType : UInt8) (payload : Bytes) (p : Packet) (wire : Bytes),
      Packet.new sync protocol packetType payload = .ok p → encode p [] = (.ok p.wireLen, wire) →
      ∀ buf trailing : Bytes, buf.length = wire.length →
        (∀ (j : Nat) (a b : UInt8), buf[j]? = some a → wire[j]? = some b →
          a = b ∨ (Exchange a b ∧ (j = 2 ∨ j = 3 ∨ 8 ≤ j ∧ j < 8 + payload.length))) →
        decode (buf ++ trailing) = some (.ok (⟨buf.getD 2 0, buf.getD 3 0 >>> 4,
          buf.getD 3 0 &&& 0x0F, (buf.drop 8).take payload.length⟩, p.wireLen))) := by
  have hwire : ∀ {p : Packet} {wire : Bytes}, p.Valid → encode p [] = (.ok p.wireLen, wire) →
      wire = p.wire := by
    intro p wire hv henc
    rw [encode_valid hv] at henc
    exact (Prod.mk.inj henc).2.symm
  constructor
  · intro sync protocol packetType payload p wire hnew henc buf trailing i hlen hd hne
    have hv := (Packet.new_eq_ok.mp hnew).2
    obtain rfl := hwire hv henc
    obtain ⟨e, he, hc⟩ := decode_corrupt hv trailing hlen hd hne
    refine ⟨e, he, ?_⟩
    cases e with
    | badToken x y => exact .inl ⟨x, y, rfl⟩
    | headerChecksum x y => exact .inr (.inl ⟨x, y, rfl⟩)
    | payloadChecksum x y => exact .inr (.inr ⟨x, y, rfl⟩)
    | incomplete _ _ => exact hc.elim
  · intro sync protocol packetType payload p wire hnew henc buf trailing hlen hd
    obtain ⟨rfl, hv⟩ := Packet.new_eq_ok.mp hnew
    obtain rfl := hwire hv henc
    exact decode_exchange hv hlen hd

end MarlinTransfer.Codec
