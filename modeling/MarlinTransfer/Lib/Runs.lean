/-!
# Runs of a labelled system

The states a labelled step relation reaches from a start, the rule that carries an
invariant along a run, and the rule that lets a run be read under weaker steps. Conditions
on the steps of a run are part of the step relation: `Guarded` adds one. A system whose
steps can be computed is run by a script of labels. Where the steps themselves are counted,
a run is a `Trail`, and `Trail.countdown` is the rule for what a number of steps of one kind
brings about.
-/

namespace Runs

variable {α S : Type}

/-- The states reached from `start`. -/
inductive Reach (step : α → S → S → Prop) (start : S) : S → Prop where
  | init : Reach step start start
  | tail {s s' : S} {a : α} : Reach step start s → step a s s' → Reach step start s'

/-- The steps that also meet a condition. -/
def Guarded (step ok : α → S → S → Prop) (a : α) (s s' : S) : Prop := step a s s' ∧ ok a s s'

/-- **Invariants.** What holds at the start and is kept by every step holds throughout. -/
theorem Reach.invariant {step : α → S → S → Prop} {start : S} {P : S → Prop} (hinit : P start)
    (hstep : ∀ a s s', P s → step a s s' → P s') {s : S} (h : Reach step start s) : P s := by
  induction h with
  | init => exact hinit
  | tail _ hs ih => exact hstep _ _ _ ih hs

theorem Reach.trans {step : α → S → S → Prop} {start s s' : S} (h : Reach step start s)
    (h' : Reach step s s') : Reach step start s' := by
  induction h' with
  | init => exact h
  | tail _ hs ih => exact ih.tail hs

/-- Fewer steps reach fewer states. -/
theorem Reach.mono {step step' : α → S → S → Prop} {start s : S}
    (hsub : ∀ a s s', step a s s' → step' a s s') (h : Reach step start s) :
    Reach step' start s := by
  induction h with
  | init => exact .init
  | tail _ hs ih => exact ih.tail (hsub _ _ _ hs)

/-- A run with its steps. -/
inductive Trail (step : α → S → S → Prop) : S → List α → S → Prop where
  | nil (s : S) : Trail step s [] s
  | cons {s s' s'' : S} {a : α} {as : List α} (h : step a s s') (rest : Trail step s' as s'') :
      Trail step s (a :: as) s''

theorem Trail.invariant {step : α → S → S → Prop} {P : S → Prop} {s s' : S} {as : List α}
    (h : Trail step s as s') (hstart : P s) (hstep : ∀ a s s', P s → step a s s' → P s') :
    P s' := by
  induction h with
  | nil => exact hstart
  | cons hs _ ih => exact ih (hstep _ _ _ hstart hs)

/-- **Countdown.** What is at most `n` steps of a kind away, and comes nearer with each of them,
is there after `n` of them, whatever else happens in between. -/
theorem Trail.countdown {step : α → S → S → Prop} (kind : α → Bool) {P : Nat → S → Prop}
    {Q : S → Prop} (hzero : ∀ s, ¬ P 0 s)
    (hstep : ∀ n a s s', P n s → step a s s' → Q s' ∨ P (n - (kind a).toNat) s')
    (hkept : ∀ a s s', Q s → step a s s' → Q s') {n : Nat} {s s' : S} {as : List α}
    (h : Trail step s as s') (hn : n ≤ as.countP kind) (hstart : P n s) : Q s' := by
  induction h generalizing n with
  | nil s =>
    obtain rfl := Nat.le_zero.mp hn
    exact absurd hstart (hzero s)
  | @cons s s₁ s' a as hs rest ih =>
    rcases hstep n a s s₁ hstart hs with hq | hp
    · exact rest.invariant hq hkept
    · refine ih ?_ hp
      rw [List.countP_cons] at hn
      cases hk : kind a with
      | true =>
        rw [hk, if_pos rfl] at hn
        exact Nat.sub_le_of_le_add hn
      | false =>
        rw [hk, if_neg (by simp)] at hn
        exact hn

theorem Trail.append {step : α → S → S → Prop} {s s' s'' : S} {as bs : List α}
    (h : Trail step s as s') (h' : Trail step s' bs s'') : Trail step s (as ++ bs) s'' := by
  induction h with
  | nil => exact h'
  | cons hs _ ih => exact .cons hs (ih h')

/-- **Draining.** A step that can be taken as long as something is left, and takes one thing, can
be taken until nothing is left. -/
theorem Trail.drain {step : α → S → S → Prop} (a : α) (size : S → Nat) {P : S → Prop}
    (hstep : ∀ s, P s → size s ≠ 0 → ∃ s', step a s s' ∧ P s' ∧ size s' + 1 = size s) {s : S}
    (h : P s) :
    ∃ s', Trail step s (List.replicate (size s) a) s' ∧ P s' ∧ size s' = 0 := by
  induction hn : size s generalizing s with
  | zero => exact ⟨s, .nil s, h, hn⟩
  | succ n ih =>
    obtain ⟨s₁, hs, h₁, hsize⟩ := hstep s h (by omega)
    obtain ⟨s', htrail, h', hzero⟩ := ih h₁ (by omega)
    exact ⟨s', .cons hs htrail, h', hzero⟩

/-- The steps of a script, as long as they meet a condition. -/
def script (exec : α → S → Option S) (ok : α → S → S → Prop) [∀ a s s', Decidable (ok a s s')] :
    List α → S → Option S
  | [], s => some s
  | a :: as, s => (exec a s).bind fun s' => if ok a s s' then script exec ok as s' else none

/-- A script that is computed is a run whose steps meet the condition. -/
theorem script_reach {step ok : α → S → S → Prop} {exec : α → S → Option S}
    [∀ a s s', Decidable (ok a s s')] (hexec : ∀ {a s s'}, exec a s = some s' → step a s s')
    {start s s' : S} {as : List α} (hr : Reach (Guarded step ok) start s)
    (h : script exec ok as s = some s') : Reach (Guarded step ok) start s' := by
  induction as generalizing s with
  | nil => cases h; exact hr
  | cons a as ih =>
    obtain ⟨s1, h1, h2⟩ := Option.bind_eq_some_iff.mp h
    split at h2
    · rename_i hok
      exact ih (hr.tail ⟨hexec h1, hok⟩) h2
    · cases h2

theorem script_trail {step ok : α → S → S → Prop} {exec : α → S → Option S}
    [∀ a s s', Decidable (ok a s s')] (hexec : ∀ {a s s'}, exec a s = some s' → step a s s')
    {s s' : S} {as : List α} (h : script exec ok as s = some s') :
    Trail (Guarded step ok) s as s' := by
  induction as generalizing s with
  | nil => cases h; exact .nil _
  | cons a as ih =>
    obtain ⟨s1, h1, h2⟩ := Option.bind_eq_some_iff.mp h
    split at h2
    · rename_i hok
      exact .cons ⟨hexec h1, hok⟩ (ih h2)
    · cases h2

end Runs
