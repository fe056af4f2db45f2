import MarlinTransfer.Codec.Model
import MarlinTransfer.Lib.WeightedSum

/-!
# The checksum in closed form

The loop of `fletcher16` keeps two sums in one `u16`, each below 255. Unrolled, the
low byte is the sum of the bytes and the high byte the sum of the bytes weighted by
their distance from the end, both mod 255. Every statement about the checksum goes
through `fletcher16_toNat`; nothing later looks inside the loop.

`fletcherStepChecked` is a round of the same loop in arithmetic that refuses to lose a
bit. It never refuses, so the sums are those of the unbounded numbers.
-/

namespace MarlinTransfer.Codec

open WeightedSum

/-- The bytes as numbers. -/
abbrev nats (buf : Bytes) : List Nat := buf.map UInt8.toNat

/-- The low byte of `cs` is its first sum, the high byte its second. -/
theorem low_toNat {cs : UInt16} {lo hi : Nat} (hlo : lo < 255) (hcs : cs.toNat = lo + 256 * hi) :
    (cs &&& 0xFF).toNat = lo := by
  rw [UInt16.toNat_and]
  have := Nat.and_two_pow_sub_one_eq_mod cs.toNat 8
  norm_num at this
  rw [show (0xFF : UInt16).toNat = 255 by rfl, this, hcs]
  omega

theorem high_toNat {cs : UInt16} {lo hi : Nat} (hlo : lo < 255) (hcs : cs.toNat = lo + 256 * hi) :
    (cs >>> 8).toNat = hi := by
  rw [UInt16.toNat_shiftRight, show (8 : UInt16).toNat % 16 = 8 by rfl, Nat.shiftRight_eq_div_pow,
    hcs]
  omega

/-- The first sum after one more byte. -/
theorem csLow_toNat {cs : UInt16} {lo hi : Nat} (b : UInt8) (hlo : lo < 255)
    (hcs : cs.toNat = lo + 256 * hi) :
    (((cs &&& 0xFF) + b.toUInt16) % 255).toNat = (lo + b.toNat) % 255 := by
  have hb : b.toNat < 256 := b.toNat_lt
  rw [UInt16.toNat_mod, UInt16.toNat_add, low_toNat hlo hcs, UInt8.toNat_toUInt16,
    show (255 : UInt16).toNat = 255 by rfl]
  omega

/-- One round of the loop on the two sums `lo` and `hi`. -/
theorem fletcherStep_toNat {cs : UInt16} {lo hi : Nat} (b : UInt8) (hlo : lo < 255)
    (hhi : hi < 255) (hcs : cs.toNat = lo + 256 * hi) :
    (fletcherStep cs b).toNat = (lo + b.toNat) % 255 + 256 * ((hi + (lo + b.toNat) % 255) % 255) := by
  have hlow := csLow_toNat b hlo hcs
  have hl : (lo + b.toNat) % 255 < 255 := Nat.mod_lt _ (by omega)
  have hhigh : ((((cs >>> 8) + ((cs &&& 0xFF) + b.toUInt16) % 255) % 255) <<< 8).toNat
      = 2 ^ 8 * ((hi + (lo + b.toNat) % 255) % 255) := by
    rw [UInt16.toNat_shiftLeft, UInt16.toNat_mod, UInt16.toNat_add, high_toNat hlo hcs, hlow,
      show (255 : UInt16).toNat = 255 by rfl, show (8 : UInt16).toNat % 16 = 8 by rfl,
      Nat.shiftLeft_eq]
    omega
  unfold fletcherStep
  -- the two halves share no bit, so the `or` that packs them is a sum
  rw [UInt16.toNat_or, hlow, hhigh, Nat.mul_comm (2 ^ 8), ← Nat.shiftLeft_eq,
    ← Nat.shiftLeft_add_eq_or_of_lt (by omega), Nat.shiftLeft_eq]
  omega

/-- The loop from any pair of sums it can be in. -/
theorem foldl_fletcherStep_toNat :
    ∀ (buf : Bytes) {cs : UInt16} {A B : Nat}, cs.toNat = A % 255 + 256 * (B % 255) →
      (buf.foldl fletcherStep cs).toNat
        = (A + (nats buf).sum) % 255
          + 256 * ((B + buf.length * A + weighted (nats buf)) % 255) := by
  intro buf
  induction buf with
  | nil => intro cs A B h; simpa using h
  | cons b buf ih =>
    intro cs A B h
    have hstep := fletcherStep_toNat b (Nat.mod_lt A (by omega)) (Nat.mod_lt B (by omega)) h
    rw [show (A % 255 + b.toNat) % 255 = (A + b.toNat) % 255 by omega,
      show (B % 255 + (A + b.toNat) % 255) % 255 = (B + (A + b.toNat)) % 255 by omega] at hstep
    rw [List.foldl_cons, ih hstep]
    have h1 : A + b.toNat + (nats buf).sum = A + (nats (b :: buf)).sum := by
      simp [Nat.add_assoc]
    have h2 : B + (A + b.toNat) + buf.length * (A + b.toNat) + weighted (nats buf)
        = B + (b :: buf).length * A + weighted (nats (b :: buf)) := by
      simp only [List.length_cons, nats, List.map_cons, weighted_cons, List.length_map]
      ring
    rw [h1, h2]

/-- **The two sums of `fletcher16`.** -/
theorem fletcher16_toNat (buf : Bytes) :
    (fletcher16 buf).toNat
      = (nats buf).sum % 255 + 256 * (weighted (nats buf) % 255) := by
  have h := foldl_fletcherStep_toNat buf (A := 0) (B := 0) (show (0 : UInt16).toNat = 0 % 255 + 256 * (0 % 255) by rfl)
  simpa [fletcher16] using h

/-- Equal checksums are equal sums. -/
theorem fletcher16_eq_iff (a b : Bytes) :
    fletcher16 a = fletcher16 b ↔
      (nats a).sum ≡ (nats b).sum [MOD 255]
        ∧ weighted (nats a) ≡ weighted (nats b) [MOD 255] := by
  rw [← UInt16.toNat_inj, fletcher16_toNat, fletcher16_toNat]
  have h1 := Nat.mod_lt (nats a).sum (show 255 > 0 by omega)
  have h2 := Nat.mod_lt (nats b).sum (show 255 > 0 by omega)
  unfold Nat.ModEq
  omega

/-- Neither byte of a checksum reaches 255. -/
theorem fletcher16_bytes_le (buf : Bytes) :
    (fletcher16 buf).toNat % 256 ≤ 254 ∧ (fletcher16 buf).toNat / 256 ≤ 254 := by
  rw [fletcher16_toNat]
  omega

/-! ## No bit is lost -/

/-- Addition that refuses to wrap. -/
def checkedAdd (a b : UInt16) : Option UInt16 :=
  if a.toNat + b.toNat < 2 ^ 16 then some (a + b) else none

/-- A left shift that refuses to drop a bit. -/
def checkedShl (a n : UInt16) : Option UInt16 :=
  if n.toNat < 16 ∧ a.toNat * 2 ^ n.toNat < 2 ^ 16 then some (a <<< n) else none

/-- `fletcherStep` with every addition and the shift checked. -/
def fletcherStepChecked (cs : UInt16) (b : UInt8) : Option UInt16 := do
  let csLow := (← checkedAdd (cs &&& 0xFF) b.toUInt16) % 255
  let csHigh := (← checkedAdd (cs >>> 8) csLow) % 255
  return (← checkedShl csHigh 8) ||| csLow

/-- The loop, each of whose operations may refuse. -/
def fletcher16Checked (buf : Bytes) : Option UInt16 := buf.foldlM fletcherStepChecked 0

/-- From two sums below 255 no operation of a round is out of range. -/
theorem fletcherStepChecked_eq {cs : UInt16} {lo hi : Nat} (b : UInt8) (hlo : lo < 255)
    (hhi : hi < 255) (hcs : cs.toNat = lo + 256 * hi) :
    fletcherStepChecked cs b = some (fletcherStep cs b) := by
  have hb : b.toNat < 256 := b.toNat_lt
  have hlow := csLow_toNat b hlo hcs
  have hfirst : checkedAdd (cs &&& 0xFF) b.toUInt16 = some ((cs &&& 0xFF) + b.toUInt16) := by
    refine if_pos ?_
    rw [low_toNat hlo hcs, UInt8.toNat_toUInt16]
    omega
  have hsecond : checkedAdd (cs >>> 8) (((cs &&& 0xFF) + b.toUInt16) % 255)
      = some ((cs >>> 8) + ((cs &&& 0xFF) + b.toUInt16) % 255) := by
    refine if_pos ?_
    rw [high_toNat hlo hcs, hlow]
    omega
  have hshift : ∀ x : UInt16, checkedShl (x % 255) 8 = some ((x % 255) <<< 8) := by
    intro x
    refine if_pos ?_
    rw [UInt16.toNat_mod, show (255 : UInt16).toNat = 255 by rfl,
      show (8 : UInt16).toNat = 8 by rfl]
    omega
  simp only [fletcherStepChecked, fletcherStep, hfirst, hsecond, hshift, Option.bind_eq_bind,
    Option.bind_some, Option.pure_def]

/-- **The loop never refuses**, from the start of any buffer to its end. -/
theorem fletcher16Checked_eq (buf : Bytes) : fletcher16Checked buf = some (fletcher16 buf) := by
  -- from the back: the checksum of what came before is a pair of sums below 255
  induction buf using List.reverseRecOn with
  | nil => rfl
  | append_singleton buf b ih =>
    have hstep := fletcherStepChecked_eq b (Nat.mod_lt (nats buf).sum (by omega))
      (Nat.mod_lt (weighted (nats buf)) (by omega)) (fletcher16_toNat buf)
    unfold fletcher16Checked at ih ⊢
    rw [List.foldlM_append, ih]
    show [b].foldlM fletcherStepChecked (fletcher16 buf) = _
    rw [List.foldlM_cons, hstep]
    simp [fletcher16]

/-! ## The closed form -/

/-- The two sums, over the positions of the buffer. -/
theorem sum_nats_eq (buf : Bytes) : (nats buf).sum = ∑ i : Fin buf.length, buf[i].toNat :=
  (Fin.sum_univ_fun_getElem buf UInt8.toNat).symm

theorem weighted_nats_eq (buf : Bytes) :
    weighted (nats buf) = ∑ i : Fin buf.length, (buf.length - i) * buf[i].toNat :=
  weighted_eq_sum UInt8.toNat buf

/-- Buffers of one length have equal checksums when both sums of the differences vanish. -/
theorem fletcher16_eq_iff_differences {a b : Bytes} (hlen : b.length = a.length) :
    fletcher16 a = fletcher16 b ↔
      ∑ i : Fin a.length, ((a[i].toNat : ℤ) - (b.get (i.cast hlen.symm)).toNat) ≡ 0 [ZMOD 255]
        ∧ ∑ i : Fin a.length, ((a.length - i : Nat) : ℤ)
            * ((a[i].toNat : ℤ) - (b.get (i.cast hlen.symm)).toNat) ≡ 0 [ZMOD 255] := by
  have hsum : (nats b).sum = ∑ i : Fin a.length, (b.get (i.cast hlen.symm)).toNat := by
    rw [sum_nats_eq]
    exact (Fin.castOrderIso hlen.symm).toEquiv.sum_comp (fun j => (b.get j).toNat) |>.symm
  have hweighted : weighted (nats b)
      = ∑ i : Fin a.length, (a.length - i) * (b.get (i.cast hlen.symm)).toNat := by
    have hweight : ∀ i : Fin a.length, a.length - (i : Nat) = b.length - i := by
      intro i
      rw [hlen]
    rw [weighted_nats_eq]
    simp only [hweight]
    exact (Fin.castOrderIso hlen.symm).toEquiv.sum_comp
      (fun j => (b.length - j) * (b.get j).toNat) |>.symm
  have hdiff : ∀ i : Fin a.length, ((a.length - i : Nat) : ℤ)
        * ((a[i].toNat : ℤ) - (b.get (i.cast hlen.symm)).toNat)
      = (((a.length - i) * a[i].toNat : Nat) : ℤ)
        - (((a.length - i) * (b.get (i.cast hlen.symm)).toNat : Nat) : ℤ) := by
    intro i
    rw [Nat.cast_mul, Nat.cast_mul, mul_sub]
  rw [fletcher16_eq_iff, sum_nats_eq a, weighted_nats_eq a, hsum, hweighted, sum_modEq_iff,
    sum_modEq_iff]
  simp only [hdiff]
  rfl

/--
**The checksum in closed form.** The low byte is the sum of the bytes and the high byte
their sum weighted by the distance from the end, both mod 255 and so at most 254. Nothing
in the loop goes out of range, and buffers of one length have the same checksum exactly
when both sums of their differences are 0 mod 255.
-/
theorem fletcher16_closed_form (buf : Bytes) :
    (fletcher16 buf).toNat % 256 = (∑ i : Fin buf.length, buf[i].toNat) % 255
      ∧ (fletcher16 buf).toNat / 256
          = (∑ i : Fin buf.length, (buf.length - i) * buf[i].toNat) % 255
      ∧ (fletcher16 buf).toNat % 256 ≤ 254 ∧ (fletcher16 buf).toNat / 256 ≤ 254
      ∧ fletcher16Checked buf = some (fletcher16 buf)
      ∧ ∀ (other : Bytes) (hlen : other.length = buf.length),
          fletcher16 buf = fletcher16 other ↔
            ∑ i : Fin buf.length,
                ((buf[i].toNat : ℤ) - (other.get (i.cast hlen.symm)).toNat) ≡ 0 [ZMOD 255]
              ∧ ∑ i : Fin buf.length, ((buf.length - i : Nat) : ℤ)
                  * ((buf[i].toNat : ℤ) - (other.get (i.cast hlen.symm)).toNat)
                ≡ 0 [ZMOD 255] := by
  obtain ⟨hlow, hhigh⟩ := fletcher16_bytes_le buf
  have h := fletcher16_toNat buf
  rw [sum_nats_eq, weighted_nats_eq] at h
  refine ⟨by omega, by omega, hlow, hhigh, fletcher16Checked_eq buf, ?_⟩
  intro other hlen
  exact fletcher16_eq_iff_differences hlen

/-- The one change of a byte the sums do not see: `0x00` against `0xFF`. -/
theorem fletcher16_zero_for_ff : fletcher16 [0x61, 0x00, 0x62] = fletcher16 [0x61, 0xFF, 0x62] :=
  ((fletcher16_closed_form [0x61, 0x00, 0x62]).2.2.2.2.2 [0x61, 0xFF, 0x62] rfl).mpr
    ⟨by decide, by decide⟩

end MarlinTransfer.Codec
