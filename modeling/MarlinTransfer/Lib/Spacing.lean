import Mathlib.Algebra.Order.Floor.Div
import Mathlib.Data.List.Chain

/-!
# Instants with a gap and a budget

`Spaced gap budget l` says of a list of instants that each comes at least `gap` after the
one before it and that all but the first come before the first plus `budget`. Such a list
is short: it has at most `⌈budget / gap⌉` instants, or one (`Spaced.length_le`).
-/

namespace Spacing

structure Spaced (gap budget : Nat) (l : List Nat) : Prop where
  gaps : l.IsChain fun a b => a + gap ≤ b
  within : ∀ first ∈ l.head?, ∀ t ∈ l.tail, t < first + budget

variable {gap budget : Nat} {l : List Nat}

theorem spaced_nil : Spaced gap budget [] := ⟨.nil, by simp⟩

theorem spaced_singleton (t : Nat) : Spaced gap budget [t] := ⟨.singleton t, by simp⟩

/-- One instant more, late enough and early enough. -/
theorem Spaced.snoc (h : Spaced gap budget l) {first last t : Nat} (hf : l.head? = some first)
    (hl : l.getLast? = some last) (hgap : last + gap ≤ t) (hb : t < first + budget) :
    Spaced gap budget (l ++ [t]) := by
  obtain ⟨rest, rfl⟩ : ∃ rest, l = first :: rest := by
    cases l with
    | nil => cases hf
    | cons a rest => exact ⟨rest, by rw [Option.some.inj hf]⟩
  constructor
  · refine h.gaps.append (.singleton t) ?_
    intro x hx y hy
    obtain rfl := Option.some.inj (hl.symm.trans hx)
    obtain rfl := Option.some.inj hy
    exact hgap
  · intro a ha x hx
    obtain rfl := Option.some.inj ha
    rcases List.mem_append.mp hx with hx | hx
    · exact h.within first rfl x hx
    · rw [List.mem_singleton.mp hx]
      exact hb

/-- A gap's worth of time passes with every instant. -/
theorem le_getLast (l : List Nat) (h : l.IsChain fun a b => a + gap ≤ b) :
    ∀ first last, l.head? = some first → l.getLast? = some last →
      first + gap * (l.length - 1) ≤ last := by
  induction l with
  | nil => intro first last hf; cases hf
  | cons a l ih =>
    intro first last hf hl
    obtain rfl := Option.some.inj hf
    cases l with
    | nil =>
      obtain rfl := Option.some.inj hl
      simp
    | cons b l =>
      have hab : a + gap ≤ b := (List.isChain_cons_cons.mp h).1
      have hrest := ih (List.isChain_cons_cons.mp h).2 b last rfl (by simpa using hl)
      have hmul : gap * ((b :: l).length - 1) + gap = gap * ((a :: b :: l).length - 1) := by
        simp only [List.length_cons, Nat.add_sub_cancel]
        rw [Nat.mul_succ]
      omega

/-- **A budget bounds the number of instants.** -/
theorem Spaced.length_le (hgap : 0 < gap) (h : Spaced gap budget l) :
    l.length ≤ max 1 (budget ⌈/⌉ gap) := by
  rcases Nat.lt_or_ge 1 l.length with hlt | hle
  · obtain ⟨first, second, rest, rfl⟩ : ∃ a b r, l = a :: b :: r := by
      match l, hlt with
      | a :: b :: r, _ => exact ⟨a, b, r, rfl⟩
    have hlast := List.getLast?_eq_some_getLast (List.cons_ne_nil first (second :: rest))
    have hge := le_getLast _ h.gaps first _ rfl hlast
    have hmem : (first :: second :: rest).getLast (List.cons_ne_nil _ _) ∈ second :: rest := by
      rw [List.getLast_cons (List.cons_ne_nil second rest)]
      exact List.getLast_mem _
    have hlt' := h.within first rfl _ hmem
    have hbudget : gap * ((first :: second :: rest).length - 1) < budget := by omega
    have hnot : ¬ budget ⌈/⌉ gap ≤ (first :: second :: rest).length - 1 := by
      rw [ceilDiv_le_iff_le_mul hgap]
      omega
    omega
  · omega

end Spacing
