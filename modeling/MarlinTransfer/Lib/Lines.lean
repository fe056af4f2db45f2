import Mathlib.Data.List.Basic

/-!
# Cutting a stream into lines

`cut sep l` splits a list at every occurrence of `sep`: the pieces that a `sep`
completes, and what comes after the last one. It is the specification of any reader
that buffers its input and takes out one complete line at a time, so its laws say
what such a reader may rely on: feeding in two parts is feeding at once
(`cut_append`), and lines sent with their separators come out as they went in
(`cut_unlines`).
-/

namespace Lines

variable {α : Type}

/-- Lines with their separators, one after the other. -/
def unlines (sep : α) (ls : List (List α)) : List α := ls.flatMap (· ++ [sep])

@[simp] theorem unlines_nil (sep : α) : unlines sep [] = [] := rfl

@[simp] theorem unlines_cons (sep : α) (x : List α) (ls : List (List α)) :
    unlines sep (x :: ls) = x ++ sep :: unlines sep ls := by simp [unlines]

@[simp] theorem unlines_append (sep : α) (ls ms : List (List α)) :
    unlines sep (ls ++ ms) = unlines sep ls ++ unlines sep ms := by simp [unlines]

variable [DecidableEq α]

/-- The completed lines, without their separators, and the unfinished rest. -/
def cut (sep : α) : List α → List (List α) × List α
  | [] => ([], [])
  | a :: l =>
    if a = sep then ([] :: (cut sep l).1, (cut sep l).2)
    else match (cut sep l).1 with
      | [] => ([], a :: (cut sep l).2)
      | x :: xs => ((a :: x) :: xs, (cut sep l).2)

theorem cut_of_notMem {sep : α} : ∀ {l : List α}, sep ∉ l → cut sep l = ([], l)
  | [], _ => rfl
  | a :: l, h => by
    have ha : a ≠ sep := fun e => h (by rw [e]; exact List.mem_cons_self)
    rw [cut, if_neg ha, cut_of_notMem fun hm => h (List.mem_cons_of_mem _ hm)]

theorem cut_append_sep {sep : α} :
    ∀ {a : List α} (l : List α), sep ∉ a →
      cut sep (a ++ sep :: l) = (a :: (cut sep l).1, (cut sep l).2)
  | [], l, _ => by rw [List.nil_append, cut, if_pos rfl]
  | c :: a, l, h => by
    have hc : c ≠ sep := fun e => h (by rw [e]; exact List.mem_cons_self)
    rw [List.cons_append, cut, if_neg hc, cut_append_sep l fun hm => h (List.mem_cons_of_mem _ hm)]

/-- Nothing is lost or reordered by cutting. -/
theorem unlines_cut (sep : α) : ∀ l : List α, unlines sep (cut sep l).1 ++ (cut sep l).2 = l
  | [] => rfl
  | a :: l => by
    have ih := unlines_cut sep l
    rw [cut]
    split_ifs with h
    · rw [unlines_cons, h, List.nil_append, List.cons_append, ih]
    · split
      · rename_i h0
        rw [h0] at ih
        rw [unlines_nil, List.nil_append] at ih ⊢
        rw [ih]
      · rename_i x xs h0
        rw [h0] at ih
        rw [unlines_cons] at ih ⊢
        rw [List.cons_append, List.cons_append, ih]

/-- The pieces hold no separator. -/
theorem notMem_cut (sep : α) :
    ∀ l : List α, (∀ x ∈ (cut sep l).1, sep ∉ x) ∧ sep ∉ (cut sep l).2
  | [] => by simp [cut]
  | a :: l => by
    obtain ⟨h1, h2⟩ := notMem_cut sep l
    rw [cut]
    split_ifs with h
    · exact ⟨by simpa using h1, h2⟩
    · split
      · exact ⟨by simp, by simpa [Ne.symm h] using h2⟩
      · rename_i x xs h0
        rw [h0] at h1
        refine ⟨?_, h2⟩
        intro y hy
        rcases List.mem_cons.mp hy with rfl | hy
        · simpa [Ne.symm h] using h1 x List.mem_cons_self
        · exact h1 y (List.mem_cons_of_mem _ hy)

/-- Lines put on the wire are cut out again, in front of whatever follows. -/
theorem cut_unlines_append {sep : α} :
    ∀ {ls : List (List α)} (r : List α), (∀ x ∈ ls, sep ∉ x) →
      cut sep (unlines sep ls ++ r) = (ls ++ (cut sep r).1, (cut sep r).2)
  | [], _, _ => rfl
  | x :: ls, r, h => by
    rw [unlines_cons, List.append_assoc, List.cons_append, cut_append_sep _ (h x List.mem_cons_self),
      cut_unlines_append r fun y hy => h y (List.mem_cons_of_mem _ hy)]
    rfl

theorem cut_unlines {sep : α} {ls : List (List α)} {r : List α} (hl : ∀ x ∈ ls, sep ∉ x)
    (hr : sep ∉ r) : cut sep (unlines sep ls ++ r) = (ls, r) := by
  rw [cut_unlines_append r hl, cut_of_notMem hr, List.append_nil]

/-- **Feeding in two parts.** What the first part left unfinished opens the second. -/
theorem cut_append (sep : α) (a b : List α) :
    cut sep (a ++ b)
      = ((cut sep a).1 ++ (cut sep ((cut sep a).2 ++ b)).1, (cut sep ((cut sep a).2 ++ b)).2) := by
  conv_lhs => rw [← unlines_cut sep a, List.append_assoc]
  exact cut_unlines_append _ (notMem_cut sep a).1

end Lines
