import Mathlib.Data.List.Basic

/-!
# Incremental decoding

A decoder looks at the front of a buffer and finds a message there, asks for more input,
or says that the front is broken. A receive loop takes messages off the front for as long
as there are any and drops one element off a broken front. `Receives` is that loop as a
relation, from a buffer to what its turns did and the buffer left over.

A `Stable` decoder never revises a final verdict when more input comes. Then the loop
always ends, in one way only, and it does not matter how the input is cut into chunks
(`Receives.append`, `ReceivesAll.flatten`).
-/

namespace Incremental

variable {α π ε : Type}

/-- What a decoder says of a buffer. -/
inductive Verdict (π ε : Type) where
  | done (p : π) (consumed : Nat)
  | more (need : Nat)
  | bad (e : ε)

/-- What one turn of a receive loop did. -/
inductive Turn (π : Type) where
  | message (p : π)
  | resync
  deriving DecidableEq, Repr

/-- A decoder whose final verdicts stand, whatever comes behind. -/
structure Stable (decode : List α → Verdict π ε) : Prop where
  /-- A message takes something off the buffer, and no more than there is. -/
  consumes : ∀ {buf p n}, decode buf = .done p n → 0 < n ∧ n ≤ buf.length
  done : ∀ {buf p n} (rest : List α), decode buf = .done p n → decode (buf ++ rest) = .done p n
  bad : ∀ {buf e} (rest : List α), decode buf = .bad e → decode (buf ++ rest) = .bad e
  nil : ∃ need, decode [] = .more need

/-- A buffer on which a receive loop stops. -/
def Waits (decode : List α → Verdict π ε) (buf : List α) : Prop := ∃ need, decode buf = .more need

/-- The receive loop, from a buffer to the turns it makes and what it leaves. -/
inductive Receives (decode : List α → Verdict π ε) :
    List α → List (Turn π) → List α → Prop where
  | stop {buf : List α} : Waits decode buf → Receives decode buf [] buf
  | message {buf rest : List α} {p : π} {n : Nat} {ts : List (Turn π)} :
      decode buf = .done p n → Receives decode (buf.drop n) ts rest →
      Receives decode buf (.message p :: ts) rest
  | resync {a : α} {buf rest : List α} {e : ε} {ts : List (Turn π)} :
      decode (a :: buf) = .bad e → Receives decode buf ts rest →
      Receives decode (a :: buf) (.resync :: ts) rest

variable {decode : List α → Verdict π ε}

theorem Receives.waits {buf rest : List α} {ts : List (Turn π)}
    (h : Receives decode buf ts rest) : Waits decode rest := by
  induction h with
  | stop h => exact h
  | message _ _ ih => exact ih
  | resync _ _ ih => exact ih

/-- A loop that starts where another stopped makes no turn. -/
theorem Waits.receives {buf rest : List α} {ts : List (Turn π)} (hw : Waits decode buf)
    (h : Receives decode buf ts rest) : ts = [] ∧ rest = buf := by
  obtain ⟨need, hneed⟩ := hw
  cases h with
  | stop _ => exact ⟨rfl, rfl⟩
  | message hd _ =>
    rw [hneed] at hd
    cases hd
  | resync hd _ =>
    rw [hneed] at hd
    cases hd

/-- **The loop ends**: every turn shortens the buffer. -/
theorem Stable.receives (hs : Stable decode) (buf : List α) :
    ∃ ts rest, Receives decode buf ts rest := by
  induction hn : buf.length using Nat.strongRecOn generalizing buf with
  | _ n ih =>
    cases hd : decode buf with
    | done p k =>
      obtain ⟨hpos, hle⟩ := hs.consumes hd
      obtain ⟨ts, rest, h⟩ := ih (buf.drop k).length (by rw [List.length_drop]; omega) _ rfl
      exact ⟨_, _, .message hd h⟩
    | more need => exact ⟨[], buf, .stop ⟨need, hd⟩⟩
    | bad e =>
      cases buf with
      | nil =>
        obtain ⟨need, hneed⟩ := hs.nil
        rw [hneed] at hd
        cases hd
      | cons a buf =>
        rw [List.length_cons] at hn
        obtain ⟨ts, rest, h⟩ := ih buf.length (by omega) buf rfl
        exact ⟨_, _, .resync hd h⟩

/-- **What is taken off a buffer does not depend on what comes behind it.** -/
theorem Receives.append (hs : Stable decode) {x y rest rest' : List α} {ts ts' : List (Turn π)}
    (h : Receives decode x ts rest) (h' : Receives decode (rest ++ y) ts' rest') :
    Receives decode (x ++ y) (ts ++ ts') rest' := by
  induction h with
  | stop _ => exact h'
  | message hd _ ih =>
    refine .message (hs.done y hd) ?_
    rw [List.drop_append_of_le_length (hs.consumes hd).2]
    exact ih h'
  | resync hd _ ih => exact .resync (hs.bad y hd) (ih h')

/-- The loop run after each of several chunks, on what it left and the chunk behind it. -/
inductive ReceivesAll (decode : List α → Verdict π ε) :
    List α → List (List α) → List (Turn π) → List α → Prop where
  | nil {buf : List α} : ReceivesAll decode buf [] [] buf
  | cons {buf chunk rest rest' : List α} {chunks : List (List α)} {ts ts' : List (Turn π)} :
      Receives decode (buf ++ chunk) ts rest → ReceivesAll decode rest chunks ts' rest' →
      ReceivesAll decode buf (chunk :: chunks) (ts ++ ts') rest'

theorem Stable.receivesAll (hs : Stable decode) (buf : List α) (chunks : List (List α)) :
    ∃ ts rest, ReceivesAll decode buf chunks ts rest := by
  induction chunks generalizing buf with
  | nil => exact ⟨[], buf, .nil⟩
  | cons chunk chunks ih =>
    obtain ⟨ts, rest, h⟩ := hs.receives (buf ++ chunk)
    obtain ⟨ts', rest', h'⟩ := ih rest
    exact ⟨_, _, .cons h h'⟩

/-- **Chunks do not matter**: the turns are those of one loop over everything. -/
theorem ReceivesAll.flatten (hs : Stable decode) {buf rest : List α} {chunks : List (List α)}
    {ts : List (Turn π)} (hw : Waits decode buf) (h : ReceivesAll decode buf chunks ts rest) :
    Receives decode (buf ++ chunks.flatten) ts rest := by
  induction h with
  | nil =>
    rw [List.flatten_nil, List.append_nil]
    exact .stop hw
  | cons h _ ih =>
    rw [List.flatten_cons, ← List.append_assoc]
    exact h.append hs (ih h.waits)

/-- The encodings of messages, one behind the other, are received as those messages. -/
theorem Stable.receives_encoded (hs : Stable decode) {encode : π → List α} {ps : List π}
    (h : ∀ p ∈ ps, decode (encode p) = .done p (encode p).length) :
    Receives decode (ps.flatMap encode) (ps.map .message) [] := by
  induction ps with
  | nil => exact .stop hs.nil
  | cons p ps ih =>
    rw [List.flatMap_cons, List.map_cons]
    refine .message (hs.done _ (h p List.mem_cons_self)) ?_
    rw [List.drop_left]
    exact ih fun q hq => h q (List.mem_cons_of_mem _ hq)

/-- A stretch that is broken at each of its places is dropped as a whole. -/
theorem Receives.resyncs {noise buf rest : List α} {ts : List (Turn π)}
    (hn : ∀ (a : α) (more : List α), a :: more <:+ noise → ∃ e, decode (a :: more ++ buf) = .bad e)
    (h : Receives decode buf ts rest) :
    Receives decode (noise ++ buf) (List.replicate noise.length .resync ++ ts) rest := by
  induction noise with
  | nil => exact h
  | cons a noise ih =>
    obtain ⟨e, he⟩ := hn a noise List.suffix_rfl
    exact .resync he (ih fun b more hm => hn b more (hm.trans (List.suffix_cons a noise)))

end Incremental
