import Mathlib.Data.List.Basic

/-!
# A queue in two phases

What a first-in first-out channel holds while its sender goes over from one kind of
message to the next: some messages of the old kind, then some of the new one. The shape
survives whatever a channel may do, which is why stop-and-wait protocols work over it:
losing messages, delivering the head, and accepting another message of the new kind.
-/

namespace Fifo

variable {α : Type} {P Q R : α → Prop}

/-- First messages of one kind, then of another. -/
def Phased (P Q : α → Prop) (l : List α) : Prop :=
  ∃ a b, l = a ++ b ∧ (∀ x ∈ a, P x) ∧ ∀ x ∈ b, Q x

theorem of_all_left {l : List α} (h : ∀ x ∈ l, P x) : Phased P Q l :=
  ⟨l, [], (List.append_nil l).symm, h, by simp⟩

theorem of_all_right {l : List α} (h : ∀ x ∈ l, Q x) : Phased P Q l := ⟨[], l, rfl, by simp, h⟩

/-- The sender adds a message of the new kind. -/
theorem Phased.append {l m : List α} (h : Phased P Q l) (hm : ∀ x ∈ m, Q x) :
    Phased P Q (l ++ m) := by
  obtain ⟨a, b, rfl, ha, hb⟩ := h
  refine ⟨a, b ++ m, List.append_assoc a b m, ha, ?_⟩
  intro x hx
  rcases List.mem_append.mp hx with hx | hx
  · exact hb x hx
  · exact hm x hx

/-- Messages are lost. -/
theorem Phased.sublist {l m : List α} (h : Phased P Q l) (hm : m.Sublist l) : Phased P Q m := by
  obtain ⟨a, b, rfl, ha, hb⟩ := h
  obtain ⟨a', b', rfl, hsa, hsb⟩ := List.sublist_append_iff.mp hm
  exact ⟨a', b', rfl, fun x hx => ha x (hsa.subset hx), fun x hx => hb x (hsb.subset hx)⟩

/-- The head is of one kind or the other; once it is not of the old kind, nothing is. -/
theorem Phased.head {x : α} {l : List α} (h : Phased P Q (x :: l)) :
    (P x ∧ Phased P Q l) ∨ (Q x ∧ ∀ y ∈ l, Q y) := by
  obtain ⟨a, b, hl, ha, hb⟩ := h
  cases a with
  | nil =>
    rw [List.nil_append] at hl
    subst hl
    exact .inr ⟨hb x List.mem_cons_self, fun y hy => hb y (List.mem_cons_of_mem _ hy)⟩
  | cons y a =>
    obtain ⟨rfl, rfl⟩ := List.cons.inj hl
    exact .inl ⟨ha x List.mem_cons_self, a, b, rfl,
      fun y hy => ha y (List.mem_cons_of_mem _ hy), hb⟩

end Fifo
