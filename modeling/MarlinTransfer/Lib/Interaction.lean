import Mathlib.Data.List.Induction
import MarlinTransfer.Lib.Triple

/-!
# A program and the machine it talks to

A program that takes its answers from a script can be read as one side of a dialogue: what
it says is in its state, and so is how much of the script it has read. `Converses` says what
is said and read in a run, turn by turn. It composes along `bind` by appending dialogues.

The other side is a `Machine`, which hears messages and gives answers. `answers` plays the
program against it, one answer after the other: each is what the machine says to everything
the program has said by then. If the program converses and the machine follows, then that is
the dialogue they have (`Converses.meets`).

What the two do together may be what a simpler program does by itself, on a state that knows
nothing of the dialogue. `Simulates` says so, from one relation between the states to another; it
composes along `bind` on both sides, and `Simulates.meets` is what it says of the play.
-/

namespace Interaction

open Triple

variable {σ ε α β μ ι τ ς : Type}

/-- One turn of a dialogue, as the program sees it. -/
inductive Turn (μ ι : Type) where
  | tells (m : μ)
  | hears (a : ι)

/-- What the program says. -/
def said (tr : List (Turn μ ι)) : List μ :=
  tr.filterMap fun t => match t with
    | .tells m => some m
    | .hears _ => none

/-- What it is answered. -/
def heard (tr : List (Turn μ ι)) : List ι :=
  tr.filterMap fun t => match t with
    | .tells _ => none
    | .hears a => some a

@[simp] theorem said_append (tr tr' : List (Turn μ ι)) : said (tr ++ tr') = said tr ++ said tr' :=
  List.filterMap_append

@[simp] theorem heard_append (tr tr' : List (Turn μ ι)) :
    heard (tr ++ tr') = heard tr ++ heard tr' := List.filterMap_append

/-- The script gives these answers from the `k`-th on. -/
def Agrees (script : Nat → ι) (k : Nat) (as : List ι) : Prop :=
  ∀ (i : Nat) (h : i < as.length), script (k + i) = as[i]

theorem agrees_append {script : Nat → ι} {k : Nat} {as as' : List ι} :
    Agrees script k (as ++ as') ↔ Agrees script k as ∧ Agrees script (k + as.length) as' := by
  constructor
  · intro h
    refine ⟨fun i hi => ?_, fun i hi => ?_⟩
    · have := h i (by rw [List.length_append]; omega)
      rwa [List.getElem_append_left hi] at this
    · have := h (as.length + i) (by rw [List.length_append]; omega)
      rw [List.getElem_append_right (Nat.le_add_right _ _)] at this
      simpa [Nat.add_assoc] using this
  · rintro ⟨h, h'⟩ i hi
    rw [List.length_append] at hi
    by_cases hlt : i < as.length
    · rw [List.getElem_append_left hlt]
      exact h i hlt
    · rw [List.getElem_append_right (Nat.le_of_not_lt hlt)]
      have := h' (i - as.length) (by omega)
      rwa [show k + as.length + (i - as.length) = k + i by omega] at this

/-! ## The program's side -/

/-- Where the state of a program keeps its side of a dialogue. -/
structure Observer (σ μ : Type) where
  /-- How many answers were read. -/
  read : σ → Nat
  /-- What was said. -/
  told : σ → List μ

/--
From a state with `P` the program has this dialogue and ends with `Q`, if the script gives the
answers. If the script breaks off at one of them, with `halt`, the program stops there and has
said what comes before.
-/
structure Converses (obs : Observer σ μ) (halt : ι) (P : σ → Prop)
    (x : (Nat → ι) → Prog σ ε α) (tr : List (Turn μ ι)) (Q : Except ε α → σ → Prop) : Prop where
  whole : ∀ script s, P s → Agrees script (obs.read s) (heard tr) →
    ∃ r s', exec (x script) s = (r, s') ∧ Q r s'
      ∧ obs.read s' = obs.read s + (heard tr).length ∧ obs.told s' = obs.told s ++ said tr
  broken : ∀ script s tr₁ a tr₂, P s → tr = tr₁ ++ .hears a :: tr₂ →
    Agrees script (obs.read s) (heard tr₁) → script (obs.read s + (heard tr₁).length) = halt →
    ∃ e s', exec (x script) s = (.error e, s') ∧ obs.told s' = obs.told s ++ said tr₁

/-- The program returns. -/
def Returns (Q : α → σ → Prop) : Except ε α → σ → Prop := fun r s => ∃ a, r = .ok a ∧ Q a s

/-- It stops with this. -/
def Stops (e : ε) : Except ε α → σ → Prop := fun r _ => r = .error e

namespace Converses

variable {obs : Observer σ μ} {halt : ι} {P : σ → Prop} {x : (Nat → ι) → Prog σ ε α}
  {tr tr' : List (Turn μ ι)} {Q : Except ε α → σ → Prop}

theorem pre {P' : σ → Prop} (h : Converses obs halt P x tr Q) (hP : ∀ s, P' s → P s) :
    Converses obs halt P' x tr Q where
  whole script s hs := h.whole script s (hP s hs)
  broken script s tr₁ a tr₂ hs := h.broken script s tr₁ a tr₂ (hP s hs)

/-- A dialogue at each state is one for all of them. -/
theorem of_state (h : ∀ s, P s → Converses obs halt (· = s) x tr Q) :
    Converses obs halt P x tr Q where
  whole script s hs := (h s hs).whole script s rfl
  broken script s tr₁ a tr₂ hs := (h s hs).broken script s tr₁ a tr₂ rfl

/-- A program that reads nothing. -/
theorem of_exec (hread : heard tr = [])
    (h : ∀ script s, P s → ∃ r s', exec (x script) s = (r, s') ∧ Q r s'
      ∧ obs.read s' = obs.read s ∧ obs.told s' = obs.told s ++ said tr) :
    Converses obs halt P x tr Q where
  whole script s hs _ := by
    obtain ⟨r, s', hx, hq, hr, ht⟩ := h script s hs
    refine ⟨r, s', hx, hq, ?_, ht⟩
    rw [hr, hread]
    rfl
  broken := by
    rintro script s tr₁ a tr₂ - rfl
    rw [heard_append] at hread
    cases (List.append_eq_nil_iff.mp hread).2

/-- **Sequencing** appends the dialogues. -/
theorem bind {y : α → (Nat → ι) → Prog σ ε β} {Q : Except ε β → σ → Prop} (R : α → σ → Prop)
    (hx : Converses obs halt P x tr (Returns R)) (hy : ∀ a, Converses obs halt (R a) (y a) tr' Q) :
    Converses obs halt P (fun script => x script >>= fun a => y a script) (tr ++ tr') Q where
  whole script s hs ha := by
    rw [heard_append, agrees_append] at ha
    obtain ⟨r, s₁, hx₁, ⟨a, rfl, hr⟩, hread, htold⟩ := hx.whole script s hs ha.1
    rw [← hread] at ha
    obtain ⟨r, s₂, hx₂, hq, hread₂, htold₂⟩ := (hy a).whole script s₁ hr ha.2
    refine ⟨r, s₂, ?_, hq, ?_, ?_⟩
    · rw [exec_bind, hx₁]
      exact hx₂
    · rw [hread₂, hread, heard_append, List.length_append, Nat.add_assoc]
    · rw [htold₂, htold, said_append, List.append_assoc]
  broken script s tr₁ a tr₂ hs htr ha hhalt := by
    rcases List.append_eq_append_iff.mp htr with ⟨c, rfl, hc⟩ | ⟨c, rfl, hc⟩
    · -- the script breaks off in the second part
      rw [heard_append, agrees_append] at ha
      obtain ⟨r, s₁, hx₁, ⟨v, rfl, hr⟩, hread, htold⟩ := hx.whole script s hs ha.1
      rw [heard_append, List.length_append, ← Nat.add_assoc, ← hread] at hhalt
      rw [← hread] at ha
      obtain ⟨e, s₂, hx₂, htold₂⟩ := (hy v).broken script s₁ c a tr₂ hr hc ha.2 hhalt
      refine ⟨e, s₂, ?_, ?_⟩
      · rw [exec_bind, hx₁]
        exact hx₂
      · rw [htold₂, htold, said_append, List.append_assoc]
    · cases c with
      | nil =>
        -- or right at its first turn
        rw [List.append_nil] at hx
        rw [List.nil_append] at hc
        obtain ⟨r, s₁, hx₁, ⟨v, rfl, hr⟩, hread, htold⟩ := hx.whole script s hs ha
        rw [← hread] at hhalt
        obtain ⟨e, s₂, hx₂, htold₂⟩ := (hy v).broken script s₁ [] a tr₂ hr hc.symm
          (fun i hi => absurd hi (Nat.not_lt_zero _)) hhalt
        refine ⟨e, s₂, ?_, ?_⟩
        · rw [exec_bind, hx₁]
          exact hx₂
        · rw [htold₂, htold]
          exact List.append_nil _
      | cons t c =>
        obtain ⟨rfl, rfl⟩ := List.cons.inj hc
        obtain ⟨e, s₁, hx₁, htold⟩ := hx.broken script s tr₁ a c hs rfl ha hhalt
        refine ⟨e, s₁, ?_, htold⟩
        rw [exec_bind, hx₁]

/-- Sequencing, when it is known what is returned. -/
theorem bind_value {y : α → (Nat → ι) → Prog σ ε β} {Q : Except ε β → σ → Prop} {a : α}
    {R : σ → Prop} (hx : Converses obs halt P x tr (Returns fun a' s => a' = a ∧ R s))
    (hy : Converses obs halt R (y a) tr' Q) :
    Converses obs halt P (fun script => x script >>= fun a => y a script) (tr ++ tr') Q := by
  refine hx.bind _ fun a' => .of_state ?_
  rintro s ⟨rfl, hs⟩
  exact hy.pre fun s' hs' => hs' ▸ hs

/-- What comes after a stop is not run. -/
theorem bind_stops {y : α → (Nat → ι) → Prog σ ε β} {e : ε}
    (hx : Converses obs halt P x tr (Stops e)) :
    Converses obs halt P (fun script => x script >>= fun a => y a script) tr (Stops e) where
  whole script s hs ha := by
    obtain ⟨r, s₁, hx₁, rfl, hread, htold⟩ := hx.whole script s hs ha
    refine ⟨.error e, s₁, ?_, rfl, hread, htold⟩
    rw [exec_bind, hx₁]
  broken script s tr₁ a tr₂ hs htr ha hhalt := by
    obtain ⟨e', s₁, hx₁, htold⟩ := hx.broken script s tr₁ a tr₂ hs htr ha hhalt
    refine ⟨e', s₁, ?_, htold⟩
    rw [exec_bind, hx₁]

end Converses

/-! ## The machine's side -/

structure Machine (τ μ ι : Type) where
  hear : τ → μ → τ
  answer : τ → ι × τ

/-- The machine takes its part in a dialogue. -/
inductive Follows (m : Machine τ μ ι) : τ → List (Turn μ ι) → τ → Prop where
  | nil {t : τ} : Follows m t [] t
  | tells {t t' : τ} {x : μ} {tr : List (Turn μ ι)} (h : Follows m (m.hear t x) tr t') :
      Follows m t (.tells x :: tr) t'
  | hears {t t₁ t' : τ} {a : ι} {tr : List (Turn μ ι)} (ha : m.answer t = (a, t₁))
      (h : Follows m t₁ tr t') : Follows m t (.hears a :: tr) t'

variable {m : Machine τ μ ι}

theorem Follows.append {t t₁ t' : τ} {tr tr' : List (Turn μ ι)} (h : Follows m t tr t₁)
    (h' : Follows m t₁ tr' t') : Follows m t (tr ++ tr') t' := by
  induction h with
  | nil => exact h'
  | tells _ ih => exact .tells (ih h')
  | hears ha _ ih => exact .hears ha (ih h')

/-- The machine in the middle of a dialogue. -/
theorem Follows.split {t t' : τ} {tr tr' : List (Turn μ ι)} (h : Follows m t (tr ++ tr') t') :
    ∃ t₁, Follows m t tr t₁ ∧ Follows m t₁ tr' t' := by
  induction tr generalizing t with
  | nil => exact ⟨t, .nil, h⟩
  | cons _ tr ih =>
    cases h with
    | tells h =>
      obtain ⟨t₁, h₁, h₂⟩ := ih h
      exact ⟨t₁, .tells h₁, h₂⟩
    | hears ha h =>
      obtain ⟨t₁, h₁, h₂⟩ := ih h
      exact ⟨t₁, .hears ha h₁, h₂⟩

/-! ## The two together -/

/-- The script that gives these answers and breaks off. -/
def upTo (halt : ι) (as : List ι) (k : Nat) : ι := as.getD k halt

/-- The first `k` answers of the machine, the machine after them, and how much it has heard. -/
def answers (obs : Observer σ μ) (halt : ι) (x : (Nat → ι) → Prog σ ε α) (s : σ)
    (m : Machine τ μ ι) (t : τ) : Nat → List ι × τ × Nat
  | 0 => ([], t, 0)
  | k + 1 =>
    let (as, t, n) := answers obs halt x s m t k
    -- what the program says before it asks for the next answer
    let told := obs.told (exec (x (upTo halt as)) s).2
    let (a, t) := m.answer ((told.drop n).foldl m.hear t)
    (as ++ [a], t, told.length)

/-- The script the machine plays. -/
def scriptOf (obs : Observer σ μ) (halt : ι) (x : (Nat → ι) → Prog σ ε α) (s : σ)
    (m : Machine τ μ ι) (t : τ) (k : Nat) : ι :=
  upTo halt (answers obs halt x s m t (k + 1)).1 k

/-- The program run against the machine: what it ends with, and the machine when it has heard
everything. -/
def meet (obs : Observer σ μ) (halt : ι) (x : (Nat → ι) → Prog σ ε α) (s : σ)
    (m : Machine τ μ ι) (t : τ) : (Except ε α × σ) × τ :=
  let r := exec (x (scriptOf obs halt x s m t)) s
  let (_, t, n) := answers obs halt x s m t (obs.read r.2)
  (r, ((obs.told r.2).drop n).foldl m.hear t)

variable {obs : Observer σ μ} {halt : ι} {x : (Nat → ι) → Prog σ ε α} {s : σ} {t t' : τ}
  {tr : List (Turn μ ι)} {Q : Except ε α → σ → Prop}

theorem agrees_upTo (halt : ι) (as : List ι) : Agrees (upTo halt as) 0 as := by
  intro i hi
  unfold upTo
  rw [Nat.zero_add, List.getD_eq_getElem?_getD, List.getElem?_eq_getElem hi]
  rfl

/-- **The play follows the dialogue**, as far as it has come. -/
theorem Converses.answers_eq (h : Converses obs halt (· = s) x tr Q) (hread : obs.read s = 0)
    (htold : obs.told s = []) :
    ∀ (tr₁ tr₂ : List (Turn μ ι)) {t₁ : τ}, tr = tr₁ ++ tr₂ → Follows m t tr₁ t₁ →
      ∃ t₀ n, answers obs halt x s m t (heard tr₁).length = (heard tr₁, t₀, n)
        ∧ n ≤ (said tr₁).length ∧ ((said tr₁).drop n).foldl m.hear t₀ = t₁ := by
  intro tr₁
  induction tr₁ using List.reverseRecOn with
  | nil =>
    intro tr₂ t₁ _ hf
    cases hf
    exact ⟨t, 0, rfl, Nat.le_refl 0, rfl⟩
  | append_singleton tr₁ turn ih =>
    intro tr₂ t₁ htr hf
    rw [List.append_assoc] at htr
    obtain ⟨t₂, hf₁, hf₂⟩ := hf.split
    obtain ⟨t₀, n, hans, hn, hfold⟩ := ih _ htr hf₁
    cases hf₂ with
    | tells hf₂ =>
      -- the machine hears one message more
      rename_i msg
      cases hf₂
      have hsaid : said (tr₁ ++ [.tells msg]) = said tr₁ ++ [msg] := said_append _ _
      have hheard : heard (tr₁ ++ [.tells msg]) = heard tr₁ := by
        rw [heard_append]
        exact List.append_nil _
      refine ⟨t₀, n, by rw [hheard]; exact hans, ?_, ?_⟩
      · rw [hsaid, List.length_append]
        omega
      · rw [hsaid, List.drop_append_of_le_length hn, List.foldl_append, hfold]
        rfl
    | hears ha hf₂ =>
      -- the program asks, and has said what comes before
      rename_i a
      cases hf₂
      have hsaid : said (tr₁ ++ [.hears a]) = said tr₁ := by
        rw [said_append]
        exact List.append_nil _
      have hheard : heard (tr₁ ++ [.hears a]) = heard tr₁ ++ [a] := heard_append _ _
      obtain ⟨e, s', hx, htold'⟩ := h.broken (upTo halt (heard tr₁)) s tr₁ a tr₂ rfl htr
        (by rw [hread]; exact agrees_upTo halt _)
        (by
          rw [hread, Nat.zero_add, upTo, List.getD_eq_getElem?_getD,
            List.getElem?_eq_none (Nat.le_refl _)]
          rfl)
      rw [htold, List.nil_append] at htold'
      refine ⟨t₁, (said tr₁).length, ?_, Nat.le_of_eq (congrArg _ hsaid.symm), ?_⟩
      · rw [hheard, List.length_append, List.length_singleton, answers, hans]
        dsimp only
        rw [hx]
        dsimp only
        rw [htold', hfold]
        show (heard tr₁ ++ [(m.answer t₂).1], (m.answer t₂).2, _) = _
        rw [ha]
      · rw [hsaid, List.drop_length]
        rfl

/-- Any number of answers is what some part of the dialogue hears. -/
theorem exists_heard_take (tr : List (Turn μ ι)) {k : Nat} (hk : k ≤ (heard tr).length) :
    ∃ tr₁ tr₂, tr = tr₁ ++ tr₂ ∧ heard tr₁ = (heard tr).take k := by
  induction tr generalizing k with
  | nil => exact ⟨[], [], rfl, (List.take_nil).symm⟩
  | cons turn tr ih =>
    cases turn with
    | tells m =>
      obtain ⟨tr₁, tr₂, rfl, h⟩ := ih hk
      exact ⟨.tells m :: tr₁, tr₂, rfl, h⟩
    | hears a =>
      cases k with
      | zero => exact ⟨[], _, rfl, rfl⟩
      | succ k =>
        obtain ⟨tr₁, tr₂, rfl, h⟩ := ih (Nat.le_of_succ_le_succ hk)
        exact ⟨.hears a :: tr₁, tr₂, rfl, congrArg (a :: ·) h⟩

/-- **Meeting.** A program that has a dialogue and a machine that follows it have that
dialogue. -/
theorem Converses.meets (h : Converses obs halt (· = s) x tr Q) (hread : obs.read s = 0)
    (htold : obs.told s = []) (hf : Follows m t tr t') :
    ∃ r s', meet obs halt x s m t = ((r, s'), t') ∧ Q r s' ∧ obs.told s' = said tr := by
  have hagrees : Agrees (scriptOf obs halt x s m t) (obs.read s) (heard tr) := by
    intro i hi
    obtain ⟨tr₁, tr₂, htr, htake⟩ := exists_heard_take tr (Nat.succ_le_of_lt hi)
    obtain ⟨t₁, hf₁, -⟩ := (htr ▸ hf).split
    obtain ⟨t₀, n, hans, -, -⟩ := h.answers_eq hread htold tr₁ tr₂ htr hf₁
    have hlen : (heard tr₁).length = i + 1 := by
      rw [htake, List.length_take]
      omega
    unfold scriptOf upTo
    rw [hread, Nat.zero_add, ← hlen, hans, htake]
    dsimp only
    rw [List.getD_eq_getElem?_getD, List.getElem?_take_of_lt (Nat.lt_succ_self i),
      List.getElem?_eq_getElem hi]
    rfl
  obtain ⟨r, s', hx, hq, hread', htold'⟩ := h.whole _ s rfl hagrees
  obtain ⟨t₀, n, hans, hn, hfold⟩ := h.answers_eq hread htold tr [] (List.append_nil tr).symm hf
  rw [htold, List.nil_append] at htold'
  refine ⟨r, s', ?_, hq, htold'⟩
  unfold meet
  rw [hx]
  dsimp only
  rw [hread', hread, Nat.zero_add, hans]
  dsimp only
  rw [htold', hfold]

/-! ## A program without the dialogue -/

/-- How a set of states of the program and a state of the machine relate to a state of the other
program. -/
abbrev Coupling (σ τ ς : Type) := (σ → Prop) → τ → ς → Prop

/--
From related states, the program and the machine have a dialogue that ends as the other program
ends: in related states when it returns, and with `E` when it stops.
-/
def Simulates (obs : Observer σ μ) (halt : ι) (m : Machine τ μ ι) (E : τ → ς → Prop)
    (R : Coupling σ τ ς) (x : (Nat → ι) → Prog σ ε α) (y : Prog ς ε α) (R' : Coupling σ τ ς) :
    Prop :=
  ∀ P t v, R P t v → ∃ tr t', Follows m t tr t' ∧
    match exec y v with
    | (.ok a, v') =>
      ∃ P', R' P' t' v' ∧ Converses obs halt P x tr (Returns fun a' s => a' = a ∧ P' s)
    | (.error e, v') => E t' v' ∧ Converses obs halt P x tr (Stops e)

namespace Simulates

variable {E : τ → ς → Prop} {R R' R'' : Coupling σ τ ς} {y : Prog ς ε α}

theorem pure (hR : ∀ P t v, R P t v → R' P t v) (a : α) :
    Simulates obs halt m E R (fun _ => Pure.pure a : (Nat → ι) → Prog σ ε α) (Pure.pure a) R' := by
  intro P t v h
  refine ⟨[], t, .nil, P, hR P t v h, .of_exec rfl fun _ s hs => ?_⟩
  exact ⟨.ok a, s, rfl, ⟨a, rfl, rfl, hs⟩, rfl, (List.append_nil _).symm⟩

/-- What leaves both sides where they are. -/
theorem stays {r : Except ε α} (hx : ∀ script s, exec (x script) s = (r, s))
    (hy : ∀ v, exec y v = (r, v)) (hE : ∀ P t v, R P t v → E t v) :
    Simulates obs halt m E R x y R := by
  intro P t v h
  refine ⟨[], t, .nil, ?_⟩
  rw [hy]
  cases r with
  | ok a =>
    refine ⟨P, h, .of_exec rfl fun script s hs => ?_⟩
    exact ⟨.ok a, s, hx script s, ⟨a, rfl, rfl, hs⟩, rfl, (List.append_nil _).symm⟩
  | error e =>
    refine ⟨hE P t v h, .of_exec rfl fun script s hs => ?_⟩
    exact ⟨.error e, s, hx script s, rfl, rfl, (List.append_nil _).symm⟩

/-- **Sequencing**, on both sides. -/
theorem bind {f : α → (Nat → ι) → Prog σ ε β} {g : α → Prog ς ε β}
    (hx : Simulates obs halt m E R x y R')
    (hf : ∀ a, Simulates obs halt m E R' (f a) (g a) R'') :
    Simulates obs halt m E R (fun script => x script >>= fun a => f a script)
      (y >>= fun a => g a) R'' := by
  intro P t v h
  obtain ⟨tr, t₁, hfol, hend⟩ := hx P t v h
  rw [exec_bind]
  rcases hy : exec y v with ⟨r, v₁⟩
  rw [hy] at hend
  cases r with
  | error e =>
    obtain ⟨hE, hconv⟩ := hend
    exact ⟨tr, t₁, hfol, hE, hconv.bind_stops⟩
  | ok a =>
    obtain ⟨P', hR', hconv⟩ := hend
    obtain ⟨tr', t₂, hfol', hend'⟩ := hf a P' t₁ v₁ hR'
    refine ⟨tr ++ tr', t₂, hfol.append hfol', ?_⟩
    dsimp only
    rcases hg : exec (g a) v₁ with ⟨r, v₂⟩
    rw [hg] at hend'
    cases r with
    | error e => exact ⟨hend'.1, hconv.bind_value hend'.2⟩
    | ok b =>
      obtain ⟨P'', hR'', hconv'⟩ := hend'
      exact ⟨P'', hR'', hconv.bind_value hconv'⟩

/-- **The play**: the program and the machine end as the other program does. -/
theorem meets (h : Simulates obs halt m E R x y R') {v : ς} (hR : R (· = s) t v)
    (hread : obs.read s = 0) (htold : obs.told s = []) :
    ∃ r s' t', meet obs halt x s m t = ((r, s'), t') ∧ r = (exec y v).1
      ∧ match r with
        | .ok _ => ∃ P', P' s' ∧ R' P' t' (exec y v).2
        | .error _ => E t' (exec y v).2 := by
  obtain ⟨tr, t', hfol, hend⟩ := h _ t v hR
  rcases hy : exec y v with ⟨r, v'⟩
  rw [hy] at hend
  cases r with
  | error e =>
    obtain ⟨hE, hconv⟩ := hend
    obtain ⟨r, s', hmeet, rfl, -⟩ := hconv.meets hread htold hfol
    exact ⟨_, s', t', hmeet, rfl, hE⟩
  | ok a =>
    obtain ⟨P', hR', hconv⟩ := hend
    obtain ⟨r, s', hmeet, ⟨a', rfl, rfl, hP'⟩, -⟩ := hconv.meets hread htold hfol
    exact ⟨_, s', t', hmeet, rfl, P', hP', hR'⟩

end Simulates

end Interaction
