import MarlinTransfer.Codec.RoundTrip
import MarlinTransfer.Lib.Incremental

/-!
# Decoding as bytes come in

`decode` of a buffer that is still too short says how many bytes it needs, first for the
header and then for the whole packet. More bytes do not change anything else it says: it
is a stable decoder, and the packets of a stream come out the same however the stream is
cut into chunks.
-/

namespace MarlinTransfer.Codec

open Incremental

/-- Any verdict but `Incomplete`. -/
def Final (r : Except DecodeError (Packet × Nat)) : Prop :=
  ∀ need have_, r ≠ .error (.incomplete need have_)

theorem final_ok (r : Packet × Nat) : Final (.ok r) := fun _ _ h => nomatch h

theorem not_final_iff {r : Except DecodeError (Packet × Nat)} :
    ¬ Final r ↔ ∃ need have_, r = .error (.incomplete need have_) := by
  unfold Final
  push Not
  rfl

/-! ## A header that announces a payload -/

theorem length_headed (b0 b1 b2 b3 b4 b5 b6 b7 : UInt8) (rest : Bytes) :
    (b0 :: b1 :: b2 :: b3 :: b4 :: b5 :: b6 :: b7 :: rest).length = headerLen + rest.length := by
  simp only [List.length_cons, headerLen]
  omega

/-- A well-formed header is there, and the packet it starts has `total` bytes, payload and
all. -/
def Announces (buf : Bytes) (total : Nat) : Prop :=
  ∃ b0 b1 b2 b3 b4 b5 b6 b7 rest,
    buf = b0 :: b1 :: b2 :: b3 :: b4 :: b5 :: b6 :: b7 :: rest
      ∧ fromLeBytes b0 b1 = packetToken ∧ fromLeBytes b6 b7 = fletcher16 [b2, b3, b4, b5]
      ∧ (fromLeBytes b4 b5).toNat ≠ 0 ∧ total = headerLen + (fromLeBytes b4 b5).toNat + 2

theorem Announces.append {buf : Bytes} {total : Nat} (h : Announces buf total) (more : Bytes) :
    Announces (buf ++ more) total := by
  obtain ⟨b0, b1, b2, b3, b4, b5, b6, b7, rest, rfl, h⟩ := h
  exact ⟨b0, b1, b2, b3, b4, b5, b6, b7, rest ++ more, rfl, h⟩

theorem Announces.headerLen_lt {buf : Bytes} {total : Nat} (h : Announces buf total) :
    headerLen < total := by
  obtain ⟨-, -, -, -, b4, b5, -, -, -, -, -, -, -, rfl⟩ := h
  omega

/-- Until the whole packet is there, `decode` asks for it. -/
theorem Announces.incomplete {buf : Bytes} {total : Nat} (h : Announces buf total)
    (hlt : buf.length < total) : decode buf = some (.error (.incomplete total buf.length)) := by
  obtain ⟨b0, b1, b2, b3, b4, b5, b6, b7, rest, rfl, htok, hcs, hlen, rfl⟩ := h
  rw [length_headed] at hlt ⊢
  rw [decode_cons, decodeBody, if_neg (not_not.mpr htok), if_neg (not_not.mpr hcs), if_neg hlen,
    if_pos (by omega)]

/-- From then on it has made up its mind. -/
theorem Announces.final {buf : Bytes} {total : Nat} (h : Announces buf total)
    (hle : total ≤ buf.length) : ∃ r, decode buf = some r ∧ Final r := by
  obtain ⟨b0, b1, b2, b3, b4, b5, b6, b7, rest, rfl, htok, hcs, hlen, rfl⟩ := h
  rw [length_headed] at hle
  refine ⟨_, decode_cons .., ?_⟩
  rw [decodeBody, if_neg (not_not.mpr htok), if_neg (not_not.mpr hcs), if_neg hlen,
    if_neg (by omega)]
  dsimp only
  split_ifs
  · intro need have_ hbad
    cases hbad
  · exact final_ok _

/-- The two ways to be incomplete: no header yet, or a header and not all of its packet. -/
theorem incomplete_cases {buf : Bytes} {need have_ : Nat}
    (h : decode buf = some (.error (.incomplete need have_))) :
    have_ = buf.length ∧ buf.length < need ∧ (need = headerLen ∨ Announces buf need) := by
  rcases short_or_cons buf with hs | ⟨b0, b1, b2, b3, b4, b5, b6, b7, rest, rfl⟩
  · rw [decode_short hs] at h
    obtain ⟨rfl, rfl⟩ := DecodeError.incomplete.inj (Except.error.inj (Option.some.inj h))
    exact ⟨rfl, hs, .inl rfl⟩
  rw [decode_cons, decodeBody] at h
  dsimp only at h
  split_ifs at h with htok hcs hz hshort hpay
  · cases h
  · cases h
  · cases h
  · obtain ⟨rfl, rfl⟩ := DecodeError.incomplete.inj (Except.error.inj (Option.some.inj h))
    have hl := length_headed b0 b1 b2 b3 b4 b5 b6 b7 rest
    exact ⟨hl.symm, by omega,
      .inr ⟨b0, b1, b2, b3, b4, b5, b6, b7, rest, rfl, not_not.mp htok, not_not.mp hcs, hz, rfl⟩⟩
  · cases h
  · cases h

/-! ## More bytes -/

theorem decodeBody_append {b0 b1 b2 b3 b4 b5 b6 b7 : UInt8} {rest : Bytes} (more : Bytes)
    (h : Final (decodeBody b0 b1 b2 b3 b4 b5 b6 b7 rest)) :
    decodeBody b0 b1 b2 b3 b4 b5 b6 b7 (rest ++ more)
      = decodeBody b0 b1 b2 b3 b4 b5 b6 b7 rest := by
  by_cases htok : fromLeBytes b0 b1 = packetToken
  swap
  · rw [decodeBody, decodeBody, if_pos htok, if_pos htok]
  by_cases hcs : fromLeBytes b6 b7 = fletcher16 [b2, b3, b4, b5]
  swap
  · rw [decodeBody, decodeBody, if_neg (not_not.mpr htok), if_neg (not_not.mpr htok), if_pos hcs,
      if_pos hcs]
  by_cases hz : (fromLeBytes b4 b5).toNat = 0
  · rw [decodeBody_empty _ htok hcs hz, decodeBody_empty _ htok hcs hz]
  rw [decodeBody, if_neg (not_not.mpr htok), if_neg (not_not.mpr hcs), if_neg hz] at h
  rw [decodeBody, decodeBody, if_neg (not_not.mpr htok), if_neg (not_not.mpr htok),
    if_neg (not_not.mpr hcs), if_neg (not_not.mpr hcs), if_neg hz, if_neg hz]
  -- the body is there, and nothing behind it is read
  generalize (fromLeBytes b4 b5).toNat = len at *
  have hlong : ¬ rest.length < len + 2 := by
    intro hlt
    rw [if_pos hlt] at h
    exact h _ _ rfl
  have hlong' : ¬ (rest ++ more).length < len + 2 := by
    rw [List.length_append]
    omega
  have hget : ∀ i, i < rest.length → (rest ++ more).getD i 0 = rest.getD i 0 := by
    intro i hi
    rw [List.getD_eq_getElem?_getD, List.getD_eq_getElem?_getD, List.getElem?_append_left hi]
  rw [if_neg hlong, if_neg hlong', List.take_append_of_le_length (by omega),
    hget len (by omega), hget (len + 1) (by omega)]

/-- **A verdict other than `Incomplete` is not changed by more bytes.** -/
theorem decode_append {buf : Bytes} {r : Except DecodeError (Packet × Nat)}
    (h : decode buf = some r) (hf : Final r) (more : Bytes) : decode (buf ++ more) = some r := by
  rcases short_or_cons buf with hs | ⟨b0, b1, b2, b3, b4, b5, b6, b7, rest, rfl⟩
  · rw [decode_short hs] at h
    obtain rfl := Option.some.inj h
    exact absurd rfl (hf _ _)
  · rw [decode_cons] at h
    obtain rfl := Option.some.inj h
    simp only [List.cons_append]
    rw [decode_cons, decodeBody_append more hf]

/-- An extension that is still too short is incomplete in the same way. -/
theorem decode_append_short {buf more : Bytes} {need have_ : Nat}
    (h : decode buf = some (.error (.incomplete need have_)))
    (hlt : (buf ++ more).length < need) :
    decode (buf ++ more) = some (.error (.incomplete need (buf ++ more).length)) := by
  obtain ⟨-, -, rfl | ha⟩ := incomplete_cases h
  · exact decode_short hlt
  · exact (ha.append more).incomplete hlt

/-- With the bytes asked for, the verdict is final, or it was the header that was missing and
now the body is. -/
theorem decode_append_long {buf more : Bytes} {need have_ : Nat}
    (h : decode buf = some (.error (.incomplete need have_)))
    (hle : need ≤ (buf ++ more).length) :
    ∃ r, decode (buf ++ more) = some r ∧ (Final r ∨ ∃ need',
      r = .error (.incomplete need' (buf ++ more).length) ∧ need = headerLen ∧ need < need'
        ∧ Announces (buf ++ more) need') := by
  obtain ⟨-, -, rfl | ha⟩ := incomplete_cases h
  · obtain ⟨r, hr⟩ := Option.ne_none_iff_exists'.mp (decode_ne_none (buf ++ more))
    refine ⟨r, hr, ?_⟩
    by_cases hf : Final r
    · exact .inl hf
    obtain ⟨need', have', rfl⟩ := not_final_iff.mp hf
    obtain ⟨rfl, hlt, rfl | ha⟩ := incomplete_cases hr
    · omega
    · exact .inr ⟨need', rfl, rfl, ha.headerLen_lt, ha⟩
  · obtain ⟨r, hr, hf⟩ := (ha.append more).final hle
    exact ⟨r, hr, .inl hf⟩

/-- A packet that is cut short asks for no more than the packet has. -/
theorem decode_take_wire {p : Packet} (hp : p.Valid) {k : Nat} (hk : k < p.wireLen) :
    ∃ need ≤ p.wireLen, decode (p.wire.take k) = some (.error (.incomplete need k)) := by
  have hwhole : decode p.wire = some (.ok (p, p.wireLen)) := by
    simpa using decode_wire hp []
  have hlen : (p.wire.take k).length = k := by
    rw [List.length_take, p.wire_length]
    omega
  obtain ⟨r, hr⟩ := Option.ne_none_iff_exists'.mp (decode_ne_none (p.wire.take k))
  have hf : ¬ Final r := by
    -- a final verdict would be the one on the whole packet, which takes more than there is
    intro hf
    have h := decode_append hr hf (p.wire.drop k)
    rw [List.take_append_drop, hwhole] at h
    obtain rfl := Option.some.inj h
    have hle := (wire_of_decode hr).2.2.1
    omega
  obtain ⟨need, have_, rfl⟩ := not_final_iff.mp hf
  obtain ⟨rfl, -, -⟩ := incomplete_cases hr
  refine ⟨need, ?_, by rw [hr, hlen]⟩
  by_contra hlt
  have hshort : (p.wire.take k ++ p.wire.drop k).length < need := by
    rw [List.take_append_drop, p.wire_length]
    omega
  have h := decode_append_short hr hshort
  rw [List.take_append_drop, hwhole] at h
  cases h

/-! ## The decoder of a receive loop -/

/-- What `decode` tells a receive loop; the error is `none` for a panic. -/
def verdict (buf : Bytes) : Verdict Packet (Option DecodeError) :=
  match decode buf with
  | some (.ok (p, n)) => .done p n
  | some (.error (.incomplete need _)) => .more need
  | some (.error e) => .bad (some e)
  | none => .bad none

theorem decode_of_done {buf : Bytes} {p : Packet} {n : Nat} (h : verdict buf = .done p n) :
    decode buf = some (.ok (p, n)) := by
  unfold verdict at h
  split at h
  · obtain ⟨rfl, rfl⟩ := Verdict.done.inj h
    assumption
  all_goals cases h

theorem decode_of_more {buf : Bytes} {need : Nat} (h : verdict buf = .more need) :
    ∃ have_, decode buf = some (.error (.incomplete need have_)) := by
  unfold verdict at h
  split at h
  case h_2 need' have_ hd =>
    obtain rfl := Verdict.more.inj h
    exact ⟨have_, hd⟩
  all_goals cases h

theorem decode_of_bad {buf : Bytes} {e : Option DecodeError} (h : verdict buf = .bad e) :
    ∃ err, decode buf = some (.error err) ∧ e = some err ∧ Final (.error err) := by
  unfold verdict at h
  split at h
  case h_3 err hne hd =>
    exact ⟨err, hd, (Verdict.bad.inj h).symm, fun need have_ heq =>
      hne need have_ (Except.error.inj heq)⟩
  case h_4 hd => exact absurd hd (decode_ne_none buf)
  all_goals cases h

theorem verdict_of_final {buf : Bytes} {r : Except DecodeError (Packet × Nat)}
    (h : decode buf = some r) (hf : Final r) (more : Bytes) :
    verdict (buf ++ more) = verdict buf := by
  rw [verdict, verdict, decode_append h hf more, h]

/-- **`decode` is a stable decoder.** -/
theorem stable_verdict : Stable verdict where
  consumes h := by
    obtain ⟨-, rfl, hle, -⟩ := wire_of_decode (decode_of_done h)
    refine ⟨?_, hle⟩
    unfold Packet.wireLen headerLen
    split_ifs <;> omega
  done more h := by
    rw [verdict_of_final (decode_of_done h) (final_ok _) more, h]
  bad more h := by
    obtain ⟨err, hd, -, hf⟩ := decode_of_bad h
    rw [verdict_of_final hd hf more, h]
  nil := ⟨headerLen, rfl⟩

end MarlinTransfer.Codec
