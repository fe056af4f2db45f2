import Mathlib.Algebra.Group.Nat.Defs
import Mathlib.Data.List.DropRight

/-!
# Text as Rust reads it

The operations on `str` a line parser leans on, over lists of characters: decoding
UTF-8, trimming, splitting, and reading and printing unsigned numbers. A number
printed in decimal is read back unchanged (`parseUnsigned_decimal`), and so is any
text sent as UTF-8 (`fromUtf8_asBytes`).
-/

namespace Text

/-- A Rust `str` or `String`. -/
abbrev Str := List Char

/-- `str::as_bytes`. -/
def asBytes (s : Str) : List UInt8 := s.flatMap String.utf8EncodeChar

/-- `std::str::from_utf8`. -/
def fromUtf8 (b : List UInt8) : Option Str :=
  (ByteArray.utf8Decode? b.toByteArray).map Array.toList

/-- How many bytes a character with this first byte has; none begins with the bytes at 0. -/
def charWidth (b : UInt8) : Nat :=
  if b < 0x80 then 1
  else if b < 0xC2 then 0
  else if b < 0xE0 then 2
  else if b < 0xF0 then 3
  else if b < 0xF5 then 4
  else 0

/-- A continuation byte. -/
def isContinuation (b : UInt8) : Bool := 0x80 ≤ b && b < 0xC0

/-- The second bytes a first byte allows, so that no character is encoded longer than need be,
is a surrogate or is out of range. -/
def allowsSecond (first second : UInt8) : Bool :=
  isContinuation second
    && (first != 0xE0 || 0xA0 ≤ second) && (first != 0xED || second < 0xA0)
    && (first != 0xF0 || 0x90 ≤ second) && (first != 0xF4 || second < 0x90)

/-- How much of a buffer is the beginning of one character, and at least one byte. -/
def characterSpan : List UInt8 → Nat
  | first :: second :: rest =>
    if 2 ≤ charWidth first ∧ allowsSecond first second then
      2 + ((rest.take (charWidth first - 2)).takeWhile isContinuation).length
    else 1
  | _ => 1

def fromUtf8LossyUpTo : Nat → List UInt8 → Str
  | 0, _ => []
  | fuel + 1, b =>
    if b.isEmpty then []
    else
      let span := characterSpan b
      (fromUtf8 (b.take span)).getD ['\uFFFD'] ++ fromUtf8LossyUpTo fuel (b.drop span)

/-- `String::from_utf8_lossy`: each longest beginning of a character that is not one counts as
U+FFFD. The fuel is enough, since each piece takes something. -/
def fromUtf8Lossy (b : List UInt8) : Str := fromUtf8LossyUpTo b.length b

/-- `char::is_whitespace`: the Unicode `White_Space` property. -/
def isWhitespace (c : Char) : Bool :=
  let n := c.toNat
  (9 ≤ n && n ≤ 13) || n == 0x20 || n == 0x85 || n == 0xA0 || n == 0x1680
    || (0x2000 ≤ n && n ≤ 0x200A) || n == 0x2028 || n == 0x2029 || n == 0x202F || n == 0x205F
    || n == 0x3000

/-- `str::trim`. -/
def trim (s : Str) : Str := (s.dropWhile isWhitespace).rdropWhile isWhitespace

/-- `char::to_digit(10)`. -/
def toDigit (c : Char) : Option Nat :=
  if 48 ≤ c.toNat ∧ c.toNat ≤ 57 then some (c.toNat - 48) else none

/-- The digits of an unsigned number below `bound`, checked for overflow at each one. -/
def parseDigits (bound : Nat) : Nat → Str → Option Nat
  | acc, [] => some acc
  | acc, c :: s =>
    match toDigit c with
    | none => none
    | some d => if acc * 10 + d < bound then parseDigits bound (acc * 10 + d) s else none

/-- `str::parse` into an unsigned type of `bound` values: an optional `+`, then digits. -/
def parseUnsigned (bound : Nat) (s : Str) : Option Nat :=
  match s with
  | [] => none
  | c :: s =>
    if c = '+' then (if s.isEmpty then none else parseDigits bound 0 s)
    else parseDigits bound 0 (c :: s)

/-- `str::split_once`. -/
def splitOnce (sep : Char) : Str → Option (Str × Str)
  | [] => none
  | c :: s => if c = sep then some ([], s) else (splitOnce sep s).map fun p => (c :: p.1, p.2)

/-- `str::splitn(3, sep)`, when it has three parts. -/
def splitn3 (sep : Char) (s : Str) : Option (Str × Str × Str) :=
  match splitOnce sep s with
  | none => none
  | some (a, r) => (splitOnce sep r).map fun p => (a, p.1, p.2)

/-- `str::split`. -/
def split (sep : Char) : Str → List Str
  | [] => [[]]
  | c :: s =>
    if c = sep then [] :: split sep s
    else match split sep s with
      | [] => [[c]]
      | a :: as => (c :: a) :: as

/-- `strip_prefix`, on strings of any kind. -/
def stripPrefix {α : Type} [DecidableEq α] (line pre : List α) : Option (List α) :=
  if pre.isPrefixOf line then some (line.drop pre.length) else none

/-- `format!("{n}")` of an unsigned number. -/
def decimal (n : Nat) : Str := Nat.toDigits 10 n

/-! ## UTF-8 -/

@[simp] theorem asBytes_nil : asBytes [] = [] := rfl

@[simp] theorem asBytes_append (s t : Str) : asBytes (s ++ t) = asBytes s ++ asBytes t :=
  List.flatMap_append

/-- Decoding undoes encoding, and nothing else decodes. -/
theorem fromUtf8_eq_some {b : List UInt8} {s : Str} : fromUtf8 b = some s ↔ b = asBytes s := by
  constructor
  · intro h
    obtain ⟨a, ha, rfl⟩ := Option.map_eq_some_iff.mp h
    have hs : (ByteArray.utf8Decode? b.toByteArray).isSome := by rw [ha]; rfl
    have h1 := ByteArray.utf8Encode_get_utf8Decode? (h := hs)
    have h2 : (ByteArray.utf8Decode? b.toByteArray).get hs = a := by simp [ha]
    rw [h2] at h1
    exact (List.toByteArray_inj.mp h1).symm
  · rintro rfl
    have h := List.utf8Decode?_utf8Encode (l := s)
    rw [fromUtf8, asBytes]
    rw [List.utf8Encode] at h
    rw [h]
    rfl

/-- Text survives being sent as bytes. -/
theorem fromUtf8_asBytes (s : Str) : fromUtf8 (asBytes s) = some s := fromUtf8_eq_some.mpr rfl

/-- An ASCII character is one byte. -/
theorem asBytes_ascii {c : Char} (h : c.toNat < 128) (s : Str) :
    asBytes (c :: s) = UInt8.ofNat c.toNat :: asBytes s := by
  have h1 : String.utf8EncodeChar c = [UInt8.ofNat c.toNat] :=
    if_pos (show c.toNat ≤ 0x7F by omega)
  rw [asBytes, List.flatMap_cons, h1]
  rfl

theorem length_asBytes_ascii : ∀ {s : Str}, (∀ c ∈ s, c.toNat < 128) → (asBytes s).length = s.length
  | [], _ => rfl
  | c :: s, h => by
    rw [asBytes_ascii (h c List.mem_cons_self), List.length_cons, List.length_cons,
      length_asBytes_ascii fun c' hc => h c' (List.mem_cons_of_mem _ hc)]

/-- A byte of a character is that character, if ASCII, and lies in `0x80..0xFE` otherwise. -/
theorem mem_utf8EncodeChar {c : Char} {b : UInt8} (h : b ∈ String.utf8EncodeChar c) :
    (b.toNat = c.toNat ∧ b.toNat < 128) ∨ (128 ≤ b.toNat ∧ b.toNat < 255) := by
  have hv : c.val.toNat = c.toNat := rfl
  rw [String.utf8EncodeChar] at h
  simp only [hv] at h
  split_ifs at h with h1 h2 h3
  · left
    obtain rfl := List.mem_singleton.mp h
    rw [UInt8.toNat_ofNat']
    omega
  all_goals
    right
    simp only [List.mem_cons, List.not_mem_nil, or_false] at h
    rcases h with rfl | rfl | rfl | rfl <;> rw [UInt8.toNat_ofNat'] <;> omega

/-- A byte of a text below `0x80` is one of its characters. -/
theorem mem_asBytes {s : Str} {b : UInt8} (h : b ∈ asBytes s) (hb : b.toNat < 128) :
    ∃ c ∈ s, c.toNat = b.toNat := by
  obtain ⟨c, hc, hbc⟩ := List.mem_flatMap.mp h
  rcases mem_utf8EncodeChar hbc with h1 | h1
  · exact ⟨c, hc, h1.1.symm⟩
  · omega

/-- The byte `0xFF` occurs in no text. -/
theorem fromUtf8_eq_none_of_ff {b : List UInt8} (h : (0xFF : UInt8) ∈ b) : fromUtf8 b = none := by
  by_contra hne
  obtain ⟨s, hs⟩ := Option.ne_none_iff_exists'.mp hne
  rw [fromUtf8_eq_some.mp hs] at h
  obtain ⟨c, -, hc⟩ := List.mem_flatMap.mp h
  have := mem_utf8EncodeChar hc
  rw [show (0xFF : UInt8).toNat = 255 by rfl] at this
  omega

/-! ## Lossy decoding -/

theorem isContinuation_iff {b : UInt8} :
    isContinuation b = true ↔ 0x80 ≤ b.toNat ∧ b.toNat < 0xC0 := by
  simp [isContinuation, UInt8.lt_iff_toNat_lt, UInt8.le_iff_toNat_le]

theorem charWidth_eq (b : UInt8) :
    charWidth b
      = if b.toNat < 0x80 then 1
        else if b.toNat < 0xC2 then 0
        else if b.toNat < 0xE0 then 2
        else if b.toNat < 0xF0 then 3
        else if b.toNat < 0xF5 then 4
        else 0 := by
  simp [charWidth, UInt8.lt_iff_toNat_lt]

theorem allowsSecond_iff {first second : UInt8} :
    allowsSecond first second = true ↔ (0x80 ≤ second.toNat ∧ second.toNat < 0xC0)
      ∧ (first.toNat = 0xE0 → 0xA0 ≤ second.toNat) ∧ (first.toNat = 0xED → second.toNat < 0xA0)
      ∧ (first.toNat = 0xF0 → 0x90 ≤ second.toNat) ∧ (first.toNat = 0xF4 → second.toNat < 0x90) := by
  simp [allowsSecond, isContinuation_iff, UInt8.lt_iff_toNat_lt, UInt8.le_iff_toNat_le,
    ← UInt8.toNat_inj]
  grind

/-- A first byte, a second that it allows, and as many continuation bytes as are missing. -/
theorem characterSpan_eq {first second : UInt8} (more : List UInt8)
    (hw : charWidth first = more.length + 2) (hs : allowsSecond first second = true)
    (hm : ∀ b ∈ more, isContinuation b = true) (rest : List UInt8) :
    characterSpan (first :: second :: (more ++ rest)) = more.length + 2 := by
  rw [characterSpan, if_pos ⟨by omega, hs⟩, hw, Nat.add_sub_cancel, List.take_left,
    List.takeWhile_eq_self_iff.mpr hm, Nat.add_comm]

/-- **An encoded character is read whole**, whatever follows it. -/
theorem characterSpan_encode (c : Char) (rest : List UInt8) :
    characterSpan (String.utf8EncodeChar c ++ rest) = (String.utf8EncodeChar c).length := by
  have hv : c.val.toNat = c.toNat := rfl
  have hvalid : c.toNat < 0xD800 ∨ 0xDFFF < c.toNat ∧ c.toNat < 0x110000 := c.valid
  have hcont : ∀ n, isContinuation (UInt8.ofNat (n % 64 + 128)) = true := by
    intro n
    rw [isContinuation_iff, UInt8.toNat_ofNat']
    omega
  rw [String.utf8EncodeChar]
  simp only [hv]
  split_ifs with h1 h2 h3
  · -- one byte is one character
    cases rest with
    | nil => rfl
    | cons b rest =>
      have hw : charWidth (UInt8.ofNat c.toNat) = 1 := by
        rw [charWidth_eq, UInt8.toNat_ofNat', if_pos (by omega)]
      show (if 2 ≤ charWidth (UInt8.ofNat c.toNat) ∧ _ then _ else 1) = 1
      rw [if_neg (by omega)]
  · refine characterSpan_eq [] ?_ ?_ (by simp) rest
    · rw [charWidth_eq, UInt8.toNat_ofNat']
      split_ifs <;> first | rfl | omega
    · rw [allowsSecond_iff, UInt8.toNat_ofNat', UInt8.toNat_ofNat']
      omega
  · refine characterSpan_eq [_] ?_ ?_ (List.forall_mem_singleton.mpr (hcont _)) rest
    · rw [charWidth_eq, UInt8.toNat_ofNat']
      split_ifs <;> first | rfl | omega
    · rw [allowsSecond_iff, UInt8.toNat_ofNat', UInt8.toNat_ofNat']
      omega
  · refine characterSpan_eq [_, _] ?_ ?_
      (List.forall_mem_cons.mpr ⟨hcont _, List.forall_mem_singleton.mpr (hcont _)⟩) rest
    · rw [charWidth_eq, UInt8.toNat_ofNat']
      split_ifs <;> first | rfl | omega
    · rw [allowsSecond_iff, UInt8.toNat_ofNat', UInt8.toNat_ofNat']
      omega

theorem fromUtf8LossyUpTo_asBytes :
    ∀ (s : Str) {fuel : Nat}, (asBytes s).length ≤ fuel → fromUtf8LossyUpTo fuel (asBytes s) = s := by
  intro s
  induction s with
  | nil =>
    intro fuel _
    cases fuel <;> rfl
  | cons c s ih =>
    intro fuel hfuel
    have hsplit : asBytes (c :: s) = String.utf8EncodeChar c ++ asBytes s := List.flatMap_cons
    have hne : 0 < (String.utf8EncodeChar c).length :=
      List.length_pos_of_ne_nil String.utf8EncodeChar_ne_nil
    rw [hsplit, List.length_append] at hfuel
    obtain ⟨fuel, rfl⟩ := Nat.exists_eq_succ_of_ne_zero (show fuel ≠ 0 by omega)
    have hone : fromUtf8 (String.utf8EncodeChar c) = some [c] := by
      have h := fromUtf8_asBytes [c]
      rwa [asBytes, List.flatMap_singleton] at h
    rw [fromUtf8LossyUpTo, hsplit, if_neg (by simp [String.utf8EncodeChar_ne_nil])]
    dsimp only
    rw [characterSpan_encode, List.take_left, List.drop_left, hone, ih (by omega)]
    rfl

/-- A text survives lossy decoding. -/
theorem fromUtf8Lossy_asBytes (s : Str) : fromUtf8Lossy (asBytes s) = s :=
  fromUtf8LossyUpTo_asBytes s (Nat.le_refl _)

/-! ## Text up to a zero byte -/

/-- No byte of a character is zero but that of U+0000. -/
theorem takeWhile_asBytes (s : Str) :
    (asBytes s).takeWhile (· != 0) = asBytes (s.takeWhile (· != '\x00')) := by
  induction s with
  | nil => rfl
  | cons c s ih =>
    by_cases hc : c = '\x00'
    · subst hc
      rw [asBytes_ascii (by decide)]
      rfl
    · have hpos : ∀ b ∈ String.utf8EncodeChar c, (b != 0) = true := by
        intro b hb
        rw [bne_iff_ne]
        rintro rfl
        rcases mem_utf8EncodeChar hb with h | h
        · exact hc (Char.ext (UInt32.toNat_inj.mp h.1.symm))
        · exact absurd h.1 (by decide)
      rw [List.takeWhile_cons_of_pos (by simpa using hc)]
      show (String.utf8EncodeChar c ++ asBytes s).takeWhile _ = String.utf8EncodeChar c ++ _
      rw [List.takeWhile_append_of_pos hpos, ih]
      rfl

/-! ## Numbers -/

theorem isDigit_of_mem_decimal {n : Nat} {c : Char} (h : c ∈ decimal n) :
    48 ≤ c.toNat ∧ c.toNat ≤ 57 := by
  have := Nat.isDigit_of_mem_toDigits (by decide) (by decide) h
  simp only [Char.isDigit, Bool.and_eq_true, decide_eq_true_eq] at this
  exact this

theorem decimal_ne_nil (n : Nat) : decimal n ≠ [] := Nat.toDigits_ne_nil

theorem length_decimal_le {n k : Nat} (hk : 0 < k) (h : n < 10 ^ k) :
    (asBytes (decimal n)).length ≤ k := by
  rw [length_asBytes_ascii fun c hc => Nat.lt_of_le_of_lt (isDigit_of_mem_decimal hc).2 (by omega)]
  exact (Nat.length_toDigits_le_iff (by omega) hk).mpr h

/-- Reading digits without overflow. -/
theorem parseDigits_eq {bound : Nat} :
    ∀ {s : Str} {acc : Nat}, (∀ c ∈ s, 48 ≤ c.toNat ∧ c.toNat ≤ 57) →
      Nat.ofDigitChars 10 s acc < bound → parseDigits bound acc s = some (Nat.ofDigitChars 10 s acc)
  | [], acc, _, _ => by rw [parseDigits, Nat.ofDigitChars_nil]
  | c :: s, acc, hd, hb => by
    have hc := hd c List.mem_cons_self
    rw [Nat.ofDigitChars_cons] at hb ⊢
    have hacc : acc * 10 + (c.toNat - 48) = 10 * acc + (c.toNat - '0'.toNat) := by
      rw [show '0'.toNat = 48 by rfl]
      omega
    have hle : 10 * acc + (c.toNat - '0'.toNat)
        ≤ Nat.ofDigitChars 10 s (10 * acc + (c.toNat - '0'.toNat)) := by
      rw [Nat.ofDigitChars_eq_ofDigitChars_zero]
      exact Nat.le_add_right_of_le (Nat.le_mul_of_pos_left _ (Nat.pow_pos (by omega)))
    rw [parseDigits, toDigit, if_pos hc]
    dsimp only
    rw [hacc, if_pos (Nat.lt_of_le_of_lt hle hb)]
    exact parseDigits_eq (fun x hx => hd x (List.mem_cons_of_mem _ hx)) hb

/-- What is read fits into the type. -/
theorem parseDigits_lt {bound : Nat} :
    ∀ {s : Str} {acc n : Nat}, acc < bound → parseDigits bound acc s = some n → n < bound
  | [], acc, n, hacc, h => by
    obtain rfl := Option.some.inj h
    exact hacc
  | c :: s, acc, n, _, h => by
    rw [parseDigits] at h
    cases hd : toDigit c with
    | none =>
      rw [hd] at h
      cases h
    | some d =>
      rw [hd] at h
      dsimp only at h
      split_ifs at h with hlt
      exact parseDigits_lt hlt h

theorem parseUnsigned_lt {bound n : Nat} {s : Str} (hb : 0 < bound)
    (h : parseUnsigned bound s = some n) : n < bound := by
  unfold parseUnsigned at h
  split at h
  · cases h
  · split_ifs at h
    · exact parseDigits_lt hb h
    · exact parseDigits_lt hb h

/-- **A number printed in decimal is read back.** -/
theorem parseUnsigned_decimal {bound n : Nat} (h : n < bound) :
    parseUnsigned bound (decimal n) = some n := by
  have hd : ∀ c ∈ decimal n, 48 ≤ c.toNat ∧ c.toNat ≤ 57 := fun c => isDigit_of_mem_decimal
  have hv : Nat.ofDigitChars 10 (decimal n) 0 = n := Nat.ofDigitChars_ten_toDigits
  have hp : parseDigits bound 0 (decimal n) = _ := parseDigits_eq hd (by rw [hv]; exact h)
  rw [hv] at hp
  match hs : decimal n, decimal_ne_nil n with
  | c :: s, _ =>
    have hc := hd c (by rw [hs]; exact List.mem_cons_self)
    rw [parseUnsigned, if_neg, ← hs, hp]
    rintro rfl
    exact absurd hc.1 (by decide)

/-- Text without white space at its ends is its own trimming. -/
theorem trim_eq_self {s : Str} (h : ∀ c ∈ s, isWhitespace c = false) : trim s = s := by
  have h1 : s.dropWhile isWhitespace = s := by
    rw [List.dropWhile_eq_self_iff]
    intro hl
    simp [h _ (List.getElem_mem hl)]
  rw [trim, h1, List.rdropWhile_eq_self_iff]
  intro hl
  simp [h _ (List.getLast_mem hl)]

theorem trim_decimal (n : Nat) : trim (decimal n) = decimal n := by
  refine trim_eq_self fun c hc => ?_
  have := isDigit_of_mem_decimal hc
  simp only [isWhitespace, Bool.or_eq_false_iff, Bool.and_eq_false_iff, beq_eq_false_iff_ne,
    decide_eq_false_iff_not]
  omega

/-! ## Splitting -/

theorem splitOnce_append {sep : Char} :
    ∀ {a : Str} (b : Str), sep ∉ a → splitOnce sep (a ++ sep :: b) = some (a, b)
  | [], b, _ => by rw [List.nil_append, splitOnce, if_pos rfl]
  | c :: a, b, h => by
    have hc : c ≠ sep := by
      rintro rfl
      exact h List.mem_cons_self
    rw [List.cons_append, splitOnce, if_neg hc,
      splitOnce_append b fun hm => h (List.mem_cons_of_mem _ hm)]
    rfl

/-- Splitting happens at the first separator, and only where there is one. -/
theorem splitOnce_eq_some {sep : Char} :
    ∀ {s a b : Str}, splitOnce sep s = some (a, b) ↔ sep ∉ a ∧ s = a ++ sep :: b
  | [], a, b => by simp [splitOnce]
  | c :: s, a, b => by
    constructor
    · intro h
      rw [splitOnce] at h
      split_ifs at h with hc
      · obtain ⟨rfl, rfl⟩ := Prod.mk.inj (Option.some.inj h)
        exact ⟨List.not_mem_nil, by rw [hc]; rfl⟩
      · obtain ⟨⟨a', b'⟩, hs, heq⟩ := Option.map_eq_some_iff.mp h
        obtain ⟨rfl, rfl⟩ := Prod.mk.inj heq
        obtain ⟨hno, rfl⟩ := splitOnce_eq_some.mp hs
        exact ⟨by simpa [Ne.symm hc] using hno, rfl⟩
    · rintro ⟨hno, heq⟩
      rw [heq]
      exact splitOnce_append b hno

theorem splitOnce_eq_none {sep : Char} {s : Str} : splitOnce sep s = none ↔ sep ∉ s := by
  constructor
  · intro h hm
    obtain ⟨a, b, rfl, ha⟩ := List.eq_append_cons_of_mem hm
    rw [splitOnce_append b ha] at h
    cases h
  · intro h
    cases hs : splitOnce sep s with
    | none => rfl
    | some p =>
      rw [(splitOnce_eq_some.mp hs).2] at h
      exact absurd (List.mem_append_right _ List.mem_cons_self) h

theorem splitn3_eq_some {sep : Char} {s a b c : Str} :
    splitn3 sep s = some (a, b, c) ↔ sep ∉ a ∧ sep ∉ b ∧ s = a ++ sep :: (b ++ sep :: c) := by
  constructor
  · intro h
    unfold splitn3 at h
    cases h1 : splitOnce sep s with
    | none => rw [h1] at h; cases h
    | some p =>
      obtain ⟨a', r⟩ := p
      rw [h1] at h
      obtain ⟨⟨b', c'⟩, h2, heq⟩ := Option.map_eq_some_iff.mp h
      cases heq
      obtain ⟨ha, rfl⟩ := splitOnce_eq_some.mp h1
      obtain ⟨hb, rfl⟩ := splitOnce_eq_some.mp h2
      exact ⟨ha, hb, rfl⟩
  · rintro ⟨ha, hb, rfl⟩
    rw [splitn3, splitOnce_append _ ha]
    dsimp only
    rw [splitOnce_append _ hb]
    rfl

theorem splitn3_append {sep : Char} {a b : Str} (c : Str) (ha : sep ∉ a) (hb : sep ∉ b) :
    splitn3 sep (a ++ sep :: (b ++ sep :: c)) = some (a, b, c) :=
  splitn3_eq_some.mpr ⟨ha, hb, rfl⟩

theorem split_of_notMem {sep : Char} : ∀ {s : Str}, sep ∉ s → split sep s = [s]
  | [], _ => rfl
  | c :: s, h => by
    have hc : c ≠ sep := by
      rintro rfl
      exact h List.mem_cons_self
    rw [split, if_neg hc, split_of_notMem fun hm => h (List.mem_cons_of_mem _ hm)]

theorem split_append {sep : Char} :
    ∀ {a : Str} (b : Str), sep ∉ a → split sep (a ++ sep :: b) = a :: split sep b
  | [], b, _ => by rw [List.nil_append, split, if_pos rfl]
  | c :: a, b, h => by
    have hc : c ≠ sep := by
      rintro rfl
      exact h List.mem_cons_self
    rw [List.cons_append, split, if_neg hc,
      split_append b fun hm => h (List.mem_cons_of_mem _ hm)]

/-- The first part ends at the first separator. -/
theorem split_head (sep : Char) (s : Str) : (split sep s)[0]? = some (s.takeWhile (· != sep)) := by
  induction s with
  | nil => rfl
  | cons c s ih =>
    rw [split]
    by_cases hc : c = sep
    · rw [if_pos hc, List.takeWhile_cons_of_neg (by simp [hc])]
      rfl
    · rw [if_neg hc, List.takeWhile_cons_of_pos (by simp [hc])]
      cases hs : split sep s with
      | nil =>
        rw [hs] at ih
        cases ih
      | cons a as =>
        rw [hs] at ih
        obtain rfl := Option.some.inj ih
        rfl

/-- What a prefix was stripped from. -/
theorem stripPrefix_eq_some {α : Type} [DecidableEq α] {line pre rest : List α} :
    stripPrefix line pre = some rest ↔ line = pre ++ rest := by
  unfold stripPrefix
  constructor
  · intro h
    split_ifs at h with hp
    obtain ⟨tail, rfl⟩ := List.isPrefixOf_iff_prefix.mp hp
    obtain rfl := Option.some.inj h
    rw [List.drop_left]
  · rintro rfl
    rw [if_pos (List.isPrefixOf_iff_prefix.mpr (List.prefix_append pre rest)), List.drop_left]

theorem stripPrefix_append {α : Type} [DecidableEq α] (pre rest : List α) :
    stripPrefix (pre ++ rest) pre = some rest := stripPrefix_eq_some.mpr rfl

end Text
