import Mathlib.Data.Nat.ModEq
import Mathlib.Data.Int.ModEq
import Mathlib.Algebra.BigOperators.Fin
import Mathlib.Algebra.BigOperators.Group.List.Basic
import Mathlib.Tactic.Ring

/-!
# Position-weighted sums

The pair of sums behind Fletcher-style checksums: the plain sum of a list and the
sum of its elements weighted by their distance from the end. The second is what a
running sum of running sums adds up to; `weighted_eq_sum` writes it as one sum over
the positions.

Two lists of one length that differ only at two adjacent positions are told apart
by the pair, modulo any `m`, unless each position is congruent on its own.
-/

namespace WeightedSum

/-- Each element counted once for every position from its own to the end. -/
def weighted : List Nat → Nat
  | [] => 0
  | x :: xs => (xs.length + 1) * x + weighted xs

@[simp] theorem weighted_nil : weighted [] = 0 := rfl

@[simp] theorem weighted_cons (x : Nat) (xs : List Nat) :
    weighted (x :: xs) = (xs.length + 1) * x + weighted xs := rfl

/-- The weighted sum position by position: the element at `i` has weight `length - i`. -/
theorem weighted_eq_sum {α : Type*} (f : α → Nat) :
    ∀ xs : List α, weighted (xs.map f) = ∑ i : Fin xs.length, (xs.length - i) * f xs[i] := by
  intro xs
  induction xs with
  | nil => rfl
  | cons x xs ih =>
    rw [List.map_cons, weighted_cons, ih, List.length_map]
    -- position `i + 1` of the longer list is position `i` of its tail, at the same distance from the end
    have htail : ∀ i : Fin xs.length,
        (xs.length - i) * f xs[i] = ((x :: xs).length - i.succ) * f (x :: xs)[i.succ] := by
      intro i
      simp
    simp only [htail]
    exact (Fin.sum_univ_succ fun i : Fin (xs.length + 1) =>
      ((x :: xs).length - i) * f (x :: xs)[i]).symm

/-- Two sums are congruent when the differences of their terms add up to zero. -/
theorem sum_modEq_iff {m n : Nat} (f g : Fin n → Nat) :
    ∑ i, f i ≡ ∑ i, g i [MOD m] ↔ ∑ i, ((f i : ℤ) - g i) ≡ 0 [ZMOD m] := by
  rw [← Int.natCast_modEq_iff, Finset.sum_sub_distrib, Int.modEq_zero_iff_dvd, Nat.cast_sum,
    Nat.cast_sum]
  exact ⟨fun h => h.symm.dvd, fun h => (Int.modEq_iff_dvd.mpr h).symm⟩

/-- Elementwise congruent lists have congruent sums. -/
theorem sum_modEq {m : Nat} {xs ys : List Nat} (h : List.Forall₂ (· ≡ · [MOD m]) xs ys) :
    xs.sum ≡ ys.sum [MOD m] := by
  induction h with
  | nil => rfl
  | cons hxy _ ih => simpa using hxy.add ih

theorem weighted_modEq {m : Nat} {xs ys : List Nat} (h : List.Forall₂ (· ≡ · [MOD m]) xs ys) :
    weighted xs ≡ weighted ys [MOD m] := by
  induction h with
  | nil => rfl
  | cons hxy ht ih =>
    rw [weighted_cons, weighted_cons, ht.length_eq]
    exact (hxy.mul_left _).add ih

/-- The pair of sums determines two unknowns with neighbouring weights. -/
theorem pair_modEq {m k a b a' b' : Nat} (hs : a + b ≡ a' + b' [MOD m])
    (hw : (k + 1) * a + k * b ≡ (k + 1) * a' + k * b' [MOD m]) :
    a ≡ a' [MOD m] ∧ b ≡ b' [MOD m] := by
  have hk : k * (a + b) + a ≡ k * (a' + b') + a' [MOD m] := by
    have e : ∀ x y : Nat, (k + 1) * x + k * y = k * (x + y) + x := by intro x y; ring
    rwa [e, e] at hw
  have ha : a ≡ a' [MOD m] := Nat.ModEq.add_left_cancel (hs.mul_left k) hk
  exact ⟨ha, Nat.ModEq.add_left_cancel ha hs⟩

/--
**Adjacent changes are seen.** Lists that differ at most at positions `i` and
`i + 1` and agree in both sums modulo `m` are congruent position by position.
-/
theorem modEq_of_adjacent {m : Nat} :
    ∀ {i : Nat} {xs ys : List Nat}, xs.length = ys.length →
      (∀ j, j ≠ i → j ≠ i + 1 → xs[j]? = ys[j]?) →
      xs.sum ≡ ys.sum [MOD m] → weighted xs ≡ weighted ys [MOD m] →
      List.Forall₂ (· ≡ · [MOD m]) xs ys := by
  intro i
  induction i with
  -- the two positions are the first two: everything behind them cancels
  | zero =>
    intro xs ys hlen hd hs hw
    match xs, ys, hlen with
    | [], [], _ => exact .nil
    | [x], [y], _ => simpa using hs
    | a :: b :: t, a' :: b' :: t', hlen =>
      have ht : t = t' := by
        refine List.ext_getElem? fun j => ?_
        simpa using hd (j + 2) (by omega) (by omega)
      subst ht
      have hs' : a + b ≡ a' + b' [MOD m] := by
        have h : a + b + t.sum ≡ a' + b' + t.sum [MOD m] := by
          simpa [Nat.add_assoc] using hs
        exact Nat.ModEq.add_right_cancel' _ h
      have hw' : (t.length + 1 + 1) * a + (t.length + 1) * b
          ≡ (t.length + 1 + 1) * a' + (t.length + 1) * b' [MOD m] := by
        have h : (t.length + 1 + 1) * a + (t.length + 1) * b + weighted t
            ≡ (t.length + 1 + 1) * a' + (t.length + 1) * b' + weighted t [MOD m] := by
          simpa [Nat.add_assoc] using hw
        exact Nat.ModEq.add_right_cancel' _ h
      obtain ⟨h1, h2⟩ := pair_modEq hs' hw'
      exact .cons h1 (.cons h2 (List.forall₂_same.mpr fun _ _ => rfl))
  -- the first elements agree and cancel, with the same weight
  | succ i ih =>
    intro xs ys hlen hd hs hw
    match xs, ys, hlen with
    | [], [], _ => exact .nil
    | x :: xs, y :: ys, hlen =>
      have hxy : x = y := by simpa using hd 0 (by omega) (by omega)
      subst hxy
      have hlen' : xs.length = ys.length := by simpa using hlen
      refine .cons rfl (ih hlen' ?_ ?_ ?_)
      · intro j h1 h2
        simpa using hd (j + 1) (by omega) (by omega)
      · rw [List.sum_cons, List.sum_cons] at hs
        exact Nat.ModEq.add_left_cancel' _ hs
      · rw [weighted_cons, weighted_cons, hlen'] at hw
        exact Nat.ModEq.add_left_cancel' _ hw

/-- A change confined to the last position shows in the weighted sum and the plain sum alike. -/
theorem weighted_append_singleton (xs : List Nat) (a : Nat) :
    weighted (xs ++ [a]) = weighted xs + xs.sum + a := by
  induction xs with
  | nil => simp
  | cons x xs ih =>
    simp only [List.cons_append, weighted_cons, ih, List.length_append, List.length_singleton,
      List.sum_cons]
    ring

end WeightedSum
