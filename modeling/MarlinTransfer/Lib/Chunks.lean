import Mathlib.Data.List.Basic

/-!
# Cutting a list into chunks

`chunks n l` cuts a list into pieces of `n`, the last one possibly shorter: nothing is
lost, no piece is empty, none is longer than `n`.
-/

namespace Chunks

variable {α : Type}

def chunksUpTo (n : Nat) : Nat → List α → List (List α)
  | 0, _ => []
  | fuel + 1, l => if l.isEmpty then [] else l.take n :: chunksUpTo n fuel (l.drop n)

/-- The pieces of `n`; the fuel is enough, since each piece takes something. -/
def chunks (n : Nat) (l : List α) : List (List α) := chunksUpTo n l.length l

theorem flatten_chunksUpTo {n : Nat} (hn : 0 < n) :
    ∀ (fuel : Nat) (l : List α), l.length ≤ fuel → (chunksUpTo n fuel l).flatten = l := by
  intro fuel
  induction fuel with
  | zero =>
    intro l h
    rw [List.length_eq_zero_iff.mp (Nat.le_zero.mp h)]
    rfl
  | succ fuel ih =>
    intro l h
    rw [chunksUpTo]
    split_ifs with hl
    · rw [List.isEmpty_iff.mp hl]
      rfl
    · rw [List.flatten_cons, ih _ (by rw [List.length_drop]; omega), List.take_append_drop]

theorem flatten_chunks {n : Nat} (hn : 0 < n) (l : List α) : (chunks n l).flatten = l :=
  flatten_chunksUpTo hn l.length l (Nat.le_refl _)

theorem mem_chunksUpTo {n : Nat} (hn : 0 < n) {c : List α} :
    ∀ (fuel : Nat) (l : List α), c ∈ chunksUpTo n fuel l → c ≠ [] ∧ c.length ≤ n := by
  intro fuel
  induction fuel with
  | zero =>
    intro l h
    cases h
  | succ fuel ih =>
    intro l h
    rw [chunksUpTo] at h
    split_ifs at h with hl
    · cases h
    · rcases List.mem_cons.mp h with rfl | h
      · refine ⟨?_, List.length_take_le n l⟩
        intro hnil
        rcases List.take_eq_nil_iff.mp hnil with h0 | h0
        · omega
        · exact hl (List.isEmpty_iff.mpr h0)
      · exact ih _ h

theorem mem_chunks {n : Nat} (hn : 0 < n) {c l : List α} (h : c ∈ chunks n l) :
    c ≠ [] ∧ c.length ≤ n := mem_chunksUpTo hn l.length l h

theorem length_chunksUpTo {n : Nat} (hn : 0 < n) :
    ∀ (fuel : Nat) (l : List α), l.length ≤ fuel →
      (chunksUpTo n fuel l).length = (l.length + n - 1) / n := by
  intro fuel
  induction fuel with
  | zero =>
    intro l h
    rw [Nat.le_zero.mp h, Nat.div_eq_of_lt (by omega)]
    rfl
  | succ fuel ih =>
    intro l h
    rw [chunksUpTo]
    split_ifs with hl
    · rw [List.isEmpty_iff.mp hl]
      exact (Nat.div_eq_of_lt (show 0 + n - 1 < n by omega)).symm
    · have hpos : 0 < l.length := List.length_pos_of_ne_nil (fun h0 => hl (List.isEmpty_iff.mpr h0))
      rw [List.length_cons, ih _ (by rw [List.length_drop]; omega), List.length_drop]
      by_cases hle : n ≤ l.length
      · rw [show l.length + n - 1 = l.length - n + n - 1 + n by omega, Nat.add_div_right _ hn]
      · rw [show l.length - n + n - 1 = n - 1 by omega, Nat.div_eq_of_lt (by omega),
          show l.length + n - 1 = l.length - 1 + n by omega, Nat.add_div_right _ hn,
          Nat.div_eq_of_lt (by omega)]

/-- How many pieces there are. -/
theorem length_chunks {n : Nat} (hn : 0 < n) (l : List α) :
    (chunks n l).length = (l.length + n - 1) / n :=
  length_chunksUpTo hn l.length l (Nat.le_refl _)

end Chunks
