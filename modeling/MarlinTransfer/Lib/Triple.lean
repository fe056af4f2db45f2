import Mathlib.Logic.Basic

/-!
# Programs that can stop, and what they ensure

A program over a state that may stop with an error, the state surviving: `Prog`. A triple
`Holds P x Q E` says what holds after it, of its result (`Q`) or of the error it stopped
with (`E`). There is one rule for each construct: sequencing, the loop that runs while
there is something to take (`whileSome`), and the loop with a budget of turns
(`repeatUpTo`).
-/

namespace Triple

variable {σ ε α β γ : Type}

/-- A program: it returns or stops, and the state survives both. -/
abbrev Prog (σ ε α : Type) := ExceptT ε (StateM σ) α

/-- What a program does from a state. -/
def exec (x : Prog σ ε α) (s : σ) : Except ε α × σ := x.run.run s

theorem exec_bind (x : Prog σ ε α) (f : α → Prog σ ε β) (s : σ) :
    exec (x >>= f) s = match exec x s with
      | (.ok a, s') => exec (f a) s'
      | (.error e, s') => (.error e, s') := by
  show (x.run >>= ExceptT.bindCont f).run s = _
  unfold exec
  show (ExceptT.bindCont f (x.run.run s).1).run (x.run.run s).2 = _
  cases x.run.run s with
  | mk r s' => cases r <;> rfl

theorem exec_bind_ok {x : Prog σ ε α} {f : α → Prog σ ε β} {s s' : σ} {a : α}
    (h : exec x s = (.ok a, s')) : exec (x >>= f) s = exec (f a) s' := by rw [exec_bind, h]

theorem exec_bind_error {x : Prog σ ε α} {f : α → Prog σ ε β} {s s' : σ} {e : ε}
    (h : exec x s = (.error e, s')) : exec (x >>= f) s = (.error e, s') := by rw [exec_bind, h]

theorem exec_get (s : σ) : exec (get : Prog σ ε σ) s = (.ok s, s) := rfl

theorem exec_modify (f : σ → σ) (s : σ) :
    exec (modify f : Prog σ ε Unit) s = (.ok ⟨⟩, f s) := rfl

/-- From a state with `P`, the program ends with `Q` of its result or with `E` of its error. -/
def Holds (P : σ → Prop) (x : Prog σ ε α) (Q : α → σ → Prop) (E : ε → σ → Prop) : Prop :=
  ∀ s, P s → match exec x s with
    | (.ok a, s') => Q a s'
    | (.error e, s') => E e s'

variable {P : σ → Prop} {E : ε → σ → Prop}

theorem holds_pure {a : α} {Q : α → σ → Prop} (h : ∀ s, P s → Q a s) :
    Holds P (pure a : Prog σ ε α) Q E := fun s hs => h s hs

theorem holds_throw {e : ε} {Q : α → σ → Prop} (h : ∀ s, P s → E e s) :
    Holds P (throw e : Prog σ ε α) Q E := fun s hs => h s hs

theorem holds_get {Q : σ → σ → Prop} (h : ∀ s, P s → Q s s) :
    Holds P (get : Prog σ ε σ) Q E := fun s hs => h s hs

theorem holds_modify {f : σ → σ} {Q : PUnit → σ → Prop} (h : ∀ s, P s → Q ⟨⟩ (f s)) :
    Holds P (modify f : Prog σ ε PUnit) Q E := fun s hs => h s hs

theorem holds_bind {x : Prog σ ε α} {f : α → Prog σ ε β} (R : α → σ → Prop) {Q : β → σ → Prop}
    (hx : Holds P x R E) (hf : ∀ a, Holds (R a) (f a) Q E) : Holds P (x >>= f) Q E := by
  intro s hs
  have h := hx s hs
  rw [exec_bind]
  cases hr : exec x s with
  | mk r s' =>
    rw [hr] at h
    cases r with
    | error e => exact h
    | ok a => exact hf a s' h

/-- What is known of the state may be used, and what is ensured may be weakened. -/
theorem Holds.mono {x : Prog σ ε α} {P' : σ → Prop} {Q Q' : α → σ → Prop} {E' : ε → σ → Prop}
    (h : Holds P x Q E) (hP : ∀ s, P' s → P s) (hQ : ∀ a s, Q a s → Q' a s)
    (hE : ∀ e s, E e s → E' e s) : Holds P' x Q' E' := by
  intro s hs
  have hx := h s (hP s hs)
  cases hr : exec x s with
  | mk r s' =>
    rw [hr] at hx
    cases r with
    | error e => exact hE e s' hx
    | ok a => exact hQ a s' hx

theorem Holds.pre {x : Prog σ ε α} {P' : σ → Prop} {Q : α → σ → Prop} (h : Holds P x Q E)
    (hP : ∀ s, P' s → P s) : Holds P' x Q E := h.mono hP (fun _ _ hq => hq) fun _ _ he => he

theorem Holds.post {x : Prog σ ε α} {Q Q' : α → σ → Prop} (h : Holds P x Q E)
    (hQ : ∀ a s, Q a s → Q' a s) : Holds P x Q' E := h.mono (fun _ hs => hs) hQ fun _ _ he => he

theorem Holds.stops {x : Prog σ ε α} {Q : α → σ → Prop} {E' : ε → σ → Prop} (h : Holds P x Q E)
    (hE : ∀ e s, E e s → E' e s) : Holds P x Q E' := h.mono (fun _ hs => hs) (fun _ _ hq => hq) hE

/-- Two triples about the same program. -/
theorem Holds.and {x : Prog σ ε α} {Q Q' : α → σ → Prop} {E' : ε → σ → Prop}
    (h : Holds P x Q E) (h' : Holds P x Q' E') :
    Holds P x (fun a s => Q a s ∧ Q' a s) fun e s => E e s ∧ E' e s := by
  intro s hs
  have hx := h s hs
  have hx' := h' s hs
  cases hr : exec x s with
  | mk r s' =>
    rw [hr] at hx hx'
    cases r with
    | error e => exact ⟨hx, hx'⟩
    | ok a => exact ⟨hx, hx'⟩

/-- A triple at each state is one for all of them. -/
theorem holds_of_state {x : Prog σ ε α} {Q : α → σ → Prop}
    (h : ∀ s, P s → Holds (· = s) x Q E) : Holds P x Q E := fun s hs => h s hs s rfl

/-- What is known whatever the state is. -/
theorem holds_of_fact {p : Prop} {x : Prog σ ε α} {Q : α → σ → Prop} (h : p → Holds P x Q E) :
    Holds (fun s => p ∧ P s) x Q E := fun s hs => h hs.1 s hs.2

/-- What is ensured of a program that returns, whatever it stops with. -/
abbrev Ensures (P : σ → Prop) (x : Prog σ ε α) (Q : α → σ → Prop) : Prop :=
  Holds P x Q fun _ _ => True

theorem Holds.ensures {x : Prog σ ε α} {Q : α → σ → Prop} (h : Holds P x Q E) : Ensures P x Q :=
  h.mono (fun _ hs => hs) (fun _ _ hq => hq) fun _ _ _ => trivial

theorem Ensures.returned {x : Prog σ ε α} {Q : α → σ → Prop} (h : Ensures P x Q) {s s' : σ} {a : α}
    (hs : P s) (hx : exec x s = (.ok a, s')) : Q a s' := by
  have := h s hs
  rw [hx] at this
  exact this

/-- What a program keeps, however it ends. -/
abbrev Keeps (I : σ → Prop) (x : Prog σ ε α) : Prop := Holds I x (fun _ => I) fun _ => I

/-! ## Loops -/

/-- What is ensured of an optional result, by whether there is one. -/
def Cases (onNone : σ → Prop) (onSome : α → σ → Prop) : Option α → σ → Prop
  | none => onNone
  | some a => onSome a

/-- `while let Some(x) = next { body }`, the body returning out of the loop with `some`. -/
def whileSome (stuck : ε) (next : Prog σ ε (Option γ)) (body : γ → Prog σ ε (Option α)) :
    Nat → Prog σ ε (Option α)
  | 0 => throw stuck
  | fuel + 1 => do
    match ← next with
    | none => pure none
    | some x =>
      match ← body x with
      | some a => pure (some a)
      | none => whileSome stuck next body fuel

/-- **The rule of `while let`.** The invariant knows how many turns are left. -/
theorem holds_whileSome {stuck : ε} {next : Prog σ ε (Option γ)}
    {body : γ → Prog σ ε (Option α)} (I : Nat → σ → Prop) (J : Nat → γ → σ → Prop)
    {T : σ → Prop} {S : α → σ → Prop}
    (hnext : ∀ n, Holds (I (n + 1)) next (Cases T (J n)) E)
    (hbody : ∀ n x, Holds (J n x) (body x) (Cases (I n) S) E)
    (hstuck : ∀ s, I 0 s → E stuck s) (fuel : Nat) :
    Holds (I fuel) (whileSome stuck next body fuel) (Cases T S) E := by
  induction fuel with
  | zero => exact holds_throw hstuck
  | succ n ih =>
    refine holds_bind _ (hnext n) fun r => ?_
    cases r with
    | none => exact holds_pure fun s hs => hs
    | some x =>
      refine holds_bind _ (hbody n x) fun r => ?_
      cases r with
      | none => exact ih
      | some a => exact holds_pure fun s hs => hs

/-- `for _ in 0..n { body }`, the body returning out of the loop with `some`; `e` if it
never does. -/
def repeatUpTo (e : ε) (body : Prog σ ε (Option α)) : Nat → Prog σ ε α
  | 0 => throw e
  | n + 1 => do
    match ← body with
    | some a => pure a
    | none => repeatUpTo e body n

/-- **The rule of the loop with a budget.** -/
theorem holds_repeatUpTo {e : ε} {body : Prog σ ε (Option α)} (I : σ → Prop) {Q : α → σ → Prop}
    (hbody : Holds I body (Cases I Q) E) (hend : ∀ s, I s → E e s) (n : Nat) :
    Holds I (repeatUpTo e body n) Q E := by
  induction n with
  | zero => exact holds_throw hend
  | succ n ih =>
    refine holds_bind _ hbody fun r => ?_
    cases r with
    | none => exact ih
    | some a => exact holds_pure fun s hs => hs

theorem cases_const {I : σ → Prop} {r : Option α} {s : σ} : Cases I (fun _ => I) r s ↔ I s := by
  cases r with
  | none => exact Iff.rfl
  | some a => exact Iff.rfl

/-- **A loop keeps** what each of its turns keeps; `J` is what is known of an element. -/
theorem keeps_whileSome {I : σ → Prop} {J : γ → σ → Prop} {stuck : ε}
    {next : Prog σ ε (Option γ)} {body : γ → Prog σ ε (Option α)}
    (hnext : Holds I next (Cases I J) fun _ => I)
    (hbody : ∀ x, Holds (J x) (body x) (fun _ => I) fun _ => I) (fuel : Nat) :
    Keeps I (whileSome stuck next body fuel) := by
  have h : Holds I (whileSome stuck next body fuel) (Cases I fun _ => I) fun _ => I :=
    holds_whileSome (fun _ => I) (fun _ => J) (fun _ => hnext)
      (fun _ x => (hbody x).post fun _ _ => cases_const.mpr) (fun _ hs => hs) fuel
  exact h.post fun _ _ => cases_const.mp

theorem keeps_repeatUpTo {I : σ → Prop} {e : ε} {body : Prog σ ε (Option α)} (hbody : Keeps I body)
    (n : Nat) : Keeps I (repeatUpTo e body n) :=
  holds_repeatUpTo I (hbody.post fun _ _ => cases_const.mpr) (fun _ hs => hs) n

/-! ## Programs that do the same -/

/-- From a state with `I`, the two do the same, and keep it. -/
structure SameOn (I : σ → Prop) (x y : Prog σ ε α) : Prop where
  eq : ∀ s, I s → exec x s = exec y s
  keeps : Keeps I y

variable {I : σ → Prop}

theorem SameOn.exec_bind {x y : Prog σ ε α} {f g : α → Prog σ ε β} (h : SameOn I x y)
    (hf : ∀ a s, I s → exec (f a) s = exec (g a) s) (s : σ) (hs : I s) :
    exec (x >>= f) s = exec (y >>= g) s := by
  have hk := h.keeps s hs
  rw [Triple.exec_bind, Triple.exec_bind, h.eq s hs]
  cases hr : exec y s with
  | mk r s' =>
    rw [hr] at hk
    cases r with
    | error e => rfl
    | ok a => exact hf a s' hk

section Exec

variable {stuck : ε} {next : Prog σ ε (Option γ)} {body : γ → Prog σ ε (Option α)} {s s₁ s₂ : σ}
  {x : γ}

theorem exec_whileSome_done (hn : exec next s = (.ok none, s₁)) (fuel : Nat) :
    exec (whileSome stuck next body (fuel + 1)) s = (.ok none, s₁) := by
  rw [whileSome, exec_bind, hn]
  rfl

theorem exec_whileSome_next (hn : exec next s = (.ok (some x), s₁))
    (hb : exec (body x) s₁ = (.ok none, s₂)) (fuel : Nat) :
    exec (whileSome stuck next body (fuel + 1)) s = exec (whileSome stuck next body fuel) s₂ := by
  rw [whileSome, exec_bind, hn]
  dsimp only
  rw [exec_bind, hb]

theorem exec_whileSome_leave (hn : exec next s = (.ok (some x), s₁)) {a : α}
    (hb : exec (body x) s₁ = (.ok (some a), s₂)) (fuel : Nat) :
    exec (whileSome stuck next body (fuel + 1)) s = (.ok (some a), s₂) := by
  rw [whileSome, exec_bind, hn]
  dsimp only
  rw [exec_bind, hb]
  rfl

theorem exec_whileSome_throw (hn : exec next s = (.ok (some x), s₁)) {e : ε}
    (hb : exec (body x) s₁ = (.error e, s₂)) (fuel : Nat) :
    exec (whileSome stuck next body (fuel + 1)) s = (.error e, s₂) := by
  rw [whileSome, exec_bind, hn]
  dsimp only
  rw [exec_bind, hb]

end Exec

end Triple
