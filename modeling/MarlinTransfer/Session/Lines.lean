import MarlinTransfer.Session.Replies

/-!
# The lines a device sends

The device's side of the conversation, as text: `ok<n>`, `ss<sync>,<block>,<version>`, and
lines of other text such as the `PFT:` ones. Each is read back as the reply it means.
-/

namespace MarlinTransfer

open Codec Text

/-- `ok<n>`. -/
def okText (n : UInt8) : Str := ['o', 'k'] ++ decimal n.toNat

/-- `ss<sync>,<block>,<version>`. -/
def ssText (sync : UInt8) (block : UInt16) (version : Str) : Str :=
  ['s', 's'] ++ (decimal sync.toNat ++ ',' :: (decimal block.toNat ++ ',' :: version))

def okLine (n : UInt8) : Bytes := asBytes (okText n)

def ssLine (sync : UInt8) (block : UInt16) (version : Str) : Bytes :=
  asBytes (ssText sync block version)

/-- A line feed or a carriage return. -/
def isLineEnding (c : Char) : Bool := c == '\n' || c == '\r'

theorem eq_of_toNat_eq {c d : Char} (h : c.toNat = d.toNat) : c = d :=
  Char.ext (UInt32.toNat_inj.mp h)

/-- A line feed among the bytes is one among the characters. -/
theorem lf_notMem_asBytes {s : Str} (h : '\n' ∉ s) : (0x0A : UInt8) ∉ asBytes s := by
  intro hm
  obtain ⟨c, hc, hn⟩ := mem_asBytes hm (by decide)
  exact h (eq_of_toNat_eq (c := c) (d := '\n') hn ▸ hc)

theorem notMem_decimal {c : Char} (h : c.toNat < 48 ∨ 57 < c.toNat) (n : Nat) : c ∉ decimal n := by
  intro hm
  have := isDigit_of_mem_decimal hm
  omega

theorem lf_notMem_okText (n : UInt8) : '\n' ∉ okText n := by
  simp [okText, notMem_decimal (c := '\n') (by decide) n.toNat]

theorem lf_notMem_okLine (n : UInt8) : (0x0A : UInt8) ∉ okLine n :=
  lf_notMem_asBytes (lf_notMem_okText n)

theorem lf_notMem_ssLine (sync : UInt8) (block : UInt16) {version : Str} (h : '\n' ∉ version) :
    (0x0A : UInt8) ∉ ssLine sync block version := by
  refine lf_notMem_asBytes ?_
  simp [ssText, notMem_decimal (c := '\n') (by decide) sync.toNat,
    notMem_decimal (c := '\n') (by decide) block.toNat, h]

namespace Session

/-- Line endings are stripped from text as from its bytes. -/
theorem stripLineEndings_asBytes (s : Str) :
    stripLineEndings (asBytes s) = asBytes (s.rdropWhile isLineEnding) := by
  induction s using List.reverseRecOn with
  | nil => rfl
  | append_singleton s c ih =>
    by_cases hc : isLineEnding c = true
    · rw [List.rdropWhile_concat_pos _ _ _ hc, ← ih, asBytes_append]
      have h1 : ∃ b, asBytes [c] = [b] ∧ (b == 0x0A || b == 0x0D) = true := by
        rcases Bool.or_eq_true_iff.mp hc with h | h
        · rw [beq_iff_eq.mp h]
          exact ⟨0x0A, by decide +kernel, rfl⟩
        · rw [beq_iff_eq.mp h]
          exact ⟨0x0D, by decide +kernel, rfl⟩
      obtain ⟨b, hb, hp⟩ := h1
      rw [hb]
      exact List.rdropWhile_concat_pos _ _ _ hp
    · rw [List.rdropWhile_concat_neg _ _ _ hc, asBytes_append]
      -- the last byte of another character ends no line
      have hlast : ∀ b ∈ asBytes [c], (b == 0x0A || b == 0x0D) = false := by
        intro b hb
        rw [Bool.eq_false_iff]
        intro hor
        refine hc ?_
        rcases Bool.or_eq_true_iff.mp hor with h | h <;> rw [beq_iff_eq.mp h] at hb
        · obtain ⟨d, hd, hn⟩ := mem_asBytes hb (by decide)
          obtain rfl := List.mem_singleton.mp hd
          rw [eq_of_toNat_eq (c := d) (d := '\n') hn]
          rfl
        · obtain ⟨d, hd, hn⟩ := mem_asBytes hb (by decide)
          obtain rfl := List.mem_singleton.mp hd
          rw [eq_of_toNat_eq (c := d) (d := '\r') hn]
          rfl
      have hne : asBytes [c] ≠ [] := by
        intro h
        have hdec := fromUtf8_asBytes [c]
        rw [h, ← asBytes_nil, fromUtf8_asBytes] at hdec
        cases hdec
      unfold stripLineEndings
      rw [List.rdropWhile_eq_self_iff]
      intro hl
      rw [List.getLast_append_of_ne_nil _ hne]
      simp only [hlast _ (List.getLast_mem hne), Bool.false_eq_true, not_false_eq_true]

end Session

/-- Stripping stops at what ends no line. -/
theorem rdropWhile_append_of_last {s t : Str} {c : Char} (hc : isLineEnding c = false) :
    (s ++ c :: t).rdropWhile isLineEnding = s ++ c :: t.rdropWhile isLineEnding := by
  induction t using List.reverseRecOn with
  | nil => exact List.rdropWhile_concat_neg _ _ _ (by simp [hc])
  | append_singleton t d ih =>
    have hassoc : s ++ c :: (t ++ [d]) = (s ++ c :: t) ++ [d] := by simp
    by_cases hd : isLineEnding d = true
    · rw [hassoc, List.rdropWhile_concat_pos _ _ _ hd, ih, List.rdropWhile_concat_pos _ _ _ hd]
    · rw [hassoc, List.rdropWhile_concat_neg _ _ _ hd, List.rdropWhile_concat_neg _ _ _ hd]
      simp

/-- Trailing line endings are white space. -/
theorem trim_rdropWhile_isLineEnding (s : Str) : trim (s.rdropWhile isLineEnding) = trim s := by
  induction s using List.reverseRecOn with
  | nil => rfl
  | append_singleton s c ih =>
    by_cases hc : isLineEnding c = true
    · rw [List.rdropWhile_concat_pos _ _ _ hc, ih]
      have hw : isWhitespace c = true := by
        rcases Bool.or_eq_true_iff.mp hc with h | h
        · rw [beq_iff_eq.mp h]
          decide
        · rw [beq_iff_eq.mp h]
          decide
      unfold trim
      rw [List.dropWhile_append]
      split_ifs with hempty
      · rw [List.isEmpty_iff.mp hempty]
        simp [hw]
      · rw [List.rdropWhile_concat_pos _ _ _ hw]
    · rw [List.rdropWhile_concat_neg _ _ _ hc]

/-- A non-empty text that does not end its own line, as a reply. -/
theorem reply_asBytes {s : Str} (hne : s ≠ []) (hs : s.rdropWhile isLineEnding = s) :
    reply (asBytes s) = classify (asBytes s) := by
  have hne' : asBytes s ≠ [] := by
    intro h
    have hdec := fromUtf8_asBytes s
    rw [h, ← asBytes_nil, fromUtf8_asBytes] at hdec
    exact hne (Option.some.inj hdec).symm
  unfold reply
  rw [Session.stripLineEndings_asBytes, hs, if_neg (by simpa using hne')]

theorem asBytes_cons_cons {c d : Char} (hc : c.toNat < 128) (hd : d.toNat < 128) (s : Str) :
    asBytes ([c, d] ++ s) = [UInt8.ofNat c.toNat, UInt8.ofNat d.toNat] ++ asBytes s := by
  show asBytes (c :: d :: s) = _
  rw [asBytes_ascii hc, asBytes_ascii hd]
  rfl

theorem parseDecimalU8_decimal (n : UInt8) :
    Session.parseDecimalU8 (asBytes (decimal n.toNat)) = some n := by
  have hlt := n.toNat_lt
  have hne : (asBytes (decimal n.toNat)).isEmpty = false := by
    rw [List.isEmpty_eq_false_iff]
    intro h
    have hdec := fromUtf8_asBytes (decimal n.toNat)
    rw [h, ← asBytes_nil, fromUtf8_asBytes] at hdec
    exact decimal_ne_nil _ (Option.some.inj hdec).symm
  unfold Session.parseDecimalU8
  rw [hne, if_neg (by decide), fromUtf8_asBytes]
  dsimp only
  rw [trim_decimal, parseUnsigned_decimal (by omega)]
  dsimp only
  rw [if_neg (by omega), UInt8.ofNat_toNat]

/-- **`ok<n>` is read as it is meant.** -/
theorem reply_okLine (n : UInt8) : reply (okLine n) = .ok n := by
  have hlast : (okText n).rdropWhile isLineEnding = okText n := by
    unfold okText
    rw [List.rdropWhile_eq_self_iff]
    intro hl
    rw [List.getLast_append_of_ne_nil _ (decimal_ne_nil _)]
    have hd := isDigit_of_mem_decimal (List.getLast_mem (decimal_ne_nil n.toNat))
    intro hend
    rcases Bool.or_eq_true_iff.mp hend with h | h <;> rw [beq_iff_eq.mp h] at hd <;>
      exact absurd hd.1 (by decide)
  unfold okLine
  rw [reply_asBytes (by simp [okText]) hlast]
  unfold classify okText
  rw [asBytes_cons_cons (by decide) (by decide)]
  rw [show [UInt8.ofNat 'o'.toNat, UInt8.ofNat 'k'.toNat] = [0x6F, 0x6B] by decide,
    stripPrefix_append, Option.bind_some, parseDecimalU8_decimal]

theorem parseSs_text (sync : UInt8) (block : UInt16) (version : Str) :
    Session.parseSs
        (asBytes (decimal sync.toNat ++ ',' :: (decimal block.toNat ++ ',' :: version)))
      = some (sync.toUInt16, block, trim version) := by
  have hcomma : ∀ n, ',' ∉ decimal n := fun n => notMem_decimal (c := ',') (by decide) n
  have h1 := sync.toNat_lt
  have h2 := block.toNat_lt
  unfold Session.parseSs
  rw [fromUtf8_asBytes]
  dsimp only
  rw [splitn3_append version (hcomma _) (hcomma _)]
  dsimp only
  rw [trim_decimal, parseUnsigned_decimal (by omega)]
  dsimp only
  rw [trim_decimal, parseUnsigned_decimal (by omega)]
  dsimp only
  have hsync : UInt16.ofNat sync.toNat = sync.toUInt16 := by
    apply UInt16.toNat_inj.mp
    rw [UInt16.toNat_ofNat', UInt8.toNat_toUInt16]
    omega
  rw [UInt16.ofNat_toNat, hsync]

theorem toUInt8_mod_syncMod (n : UInt8) : (n.toUInt16 % syncMod).toUInt8 = n := by
  have hlt := n.toNat_lt
  apply UInt8.toNat_inj.mp
  rw [UInt16.toNat_toUInt8, UInt16.toNat_mod, UInt8.toNat_toUInt16]
  show n.toNat % 256 % 256 = n.toNat
  omega

/-- **`ss<sync>,<block>,<version>` is read as it is meant**, the version trimmed. -/
theorem reply_ssLine (sync : UInt8) (block : UInt16) (version : Str) :
    reply (ssLine sync block version) = .ss sync block (trim version) := by
  -- stripping the line stops at the second comma
  have hstrip : (ssText sync block version).rdropWhile isLineEnding
      = ssText sync block (version.rdropWhile isLineEnding) := by
    have hassoc : ∀ v, ssText sync block v
        = (['s', 's'] ++ (decimal sync.toNat ++ ',' :: decimal block.toNat)) ++ ',' :: v := by
      intro v
      simp [ssText]
    rw [hassoc, hassoc]
    exact rdropWhile_append_of_last (by decide)
  unfold ssLine reply
  rw [Session.stripLineEndings_asBytes, hstrip]
  unfold ssText
  rw [asBytes_cons_cons (by decide) (by decide)]
  rw [show [UInt8.ofNat 's'.toNat, UInt8.ofNat 's'.toNat] = [0x73, 0x73] by decide]
  rw [if_neg (by simp)]
  unfold classify
  rw [show stripPrefix ([0x73, 0x73] ++ asBytes (decimal sync.toNat ++ ',' ::
      (decimal block.toNat ++ ',' :: version.rdropWhile isLineEnding))) [0x6F, 0x6B] = none by
    rfl]
  rw [show stripPrefix ([0x73, 0x73] ++ asBytes (decimal sync.toNat ++ ',' ::
      (decimal block.toNat ++ ',' :: version.rdropWhile isLineEnding))) [0x72, 0x73] = none by
    rfl]
  dsimp only [Option.bind_none]
  rw [stripPrefix_append]
  dsimp only
  rw [parseSs_text, trim_rdropWhile_isLineEnding]
  dsimp only
  rw [toUInt8_mod_syncMod]

/-- Text that begins like no other reply is passed through. -/
theorem reply_text {c : Char} {s : Str} (hc : c.toNat < 128)
    (h1 : c ≠ 'o' ∧ c ≠ 'r' ∧ c ≠ 's' ∧ c ≠ 'f')
    (hs : (c :: s).rdropWhile isLineEnding = c :: s) : reply (asBytes (c :: s)) = .text (c :: s) := by
  have hbyte : ∀ d : Char, d.toNat < 128 → c ≠ d → UInt8.ofNat c.toNat ≠ UInt8.ofNat d.toNat := by
    intro d hd hne heq
    have := congrArg UInt8.toNat heq
    rw [UInt8.toNat_ofNat', UInt8.toNat_ofNat'] at this
    exact hne (eq_of_toNat_eq (by omega))
  have hpre : ∀ (d : Char) (x : UInt8), d.toNat < 128 → c ≠ d →
      stripPrefix (asBytes (c :: s)) [UInt8.ofNat d.toNat, x] = none := by
    intro d x hd hne
    rw [asBytes_ascii hc, stripPrefix, if_neg]
    simp [List.isPrefixOf, (hbyte d hd hne).symm]
  rw [reply_asBytes (List.cons_ne_nil c s) hs]
  unfold classify
  rw [show ([0x6F, 0x6B] : Bytes) = [UInt8.ofNat 'o'.toNat, 0x6B] by decide,
    hpre 'o' _ (by decide) h1.1, Option.bind_none]
  dsimp only
  rw [show ([0x72, 0x73] : Bytes) = [UInt8.ofNat 'r'.toNat, 0x73] by decide,
    hpre 'r' _ (by decide) h1.2.1, Option.bind_none]
  dsimp only
  rw [show ([0x73, 0x73] : Bytes) = [UInt8.ofNat 's'.toNat, 0x73] by decide,
    hpre 's' _ (by decide) h1.2.2.1]
  dsimp only
  rw [if_neg, fromUtf8_asBytes]
  rw [asBytes_ascii hc]
  intro heq
  exact hbyte 'f' (by decide) h1.2.2.2 (List.cons.inj heq).1

/-! ## A line on the wire -/

/-- A line as it is sent, with carriage returns in front of the line feed or without. -/
def lineBytes (line : Str) (returns : Nat) : Bytes :=
  asBytes (line ++ List.replicate returns '\r') ++ [0x0A]

theorem rdropWhile_returns (line : Str) (returns : Nat) :
    (line ++ List.replicate returns '\r').rdropWhile isLineEnding
      = line.rdropWhile isLineEnding := by
  induction returns with
  | zero => rw [List.replicate_zero, List.append_nil]
  | succ n ih =>
    rw [List.replicate_succ', ← List.append_assoc, List.rdropWhile_concat_pos _ _ _ rfl, ih]

theorem rdropWhile_of_complete {line : Str} (hlf : '\n' ∉ line)
    (hcr : line.getLast? ≠ some '\r') : line.rdropWhile isLineEnding = line := by
  refine List.rdropWhile_eq_self_iff.mpr fun hne hlast => ?_
  rcases Bool.or_eq_true_iff.mp hlast with h | h
  · have hmem := List.getLast_mem hne
    rw [beq_iff_eq.mp h] at hmem
    exact hlf hmem
  · exact hcr (by rw [List.getLast?_eq_some_getLast hne, beq_iff_eq.mp h])

/-- Carriage returns at the end of a line are not read. -/
theorem reply_returns (line : Str) (returns : Nat) :
    reply (asBytes (line ++ List.replicate returns '\r')) = reply (asBytes line) := by
  unfold reply
  rw [Session.stripLineEndings_asBytes, Session.stripLineEndings_asBytes, rdropWhile_returns]

theorem lf_notMem_returns {line : Str} (h : '\n' ∉ line) (returns : Nat) :
    (0x0A : UInt8) ∉ asBytes (line ++ List.replicate returns '\r') := by
  refine lf_notMem_asBytes fun hm => ?_
  rcases List.mem_append.mp hm with hm | hm
  · exact h hm
  · exact absurd (List.eq_of_mem_replicate hm) (by decide)

/-- A complete line of text is one reply. -/
theorem replies_lineBytes {c : Char} {s : Str} (hc : c.toNat < 128)
    (h1 : c ≠ 'o' ∧ c ≠ 'r' ∧ c ≠ 's' ∧ c ≠ 'f') (hlf : '\n' ∉ c :: s)
    (hcr : (c :: s).getLast? ≠ some '\r') (returns : Nat) :
    Session.replies (lineBytes (c :: s) returns) = [.text (c :: s)]
      ∧ (Lines.cut 0x0A (lineBytes (c :: s) returns)).2 = [] := by
  have hreply : reply (asBytes (c :: s ++ List.replicate returns '\r')) = .text (c :: s) := by
    rw [reply_returns, reply_text hc h1 (rdropWhile_of_complete hlf hcr)]
  have hcut := Lines.cut_append_sep [] (lf_notMem_returns hlf returns)
  unfold Session.replies lineBytes
  rw [hcut]
  exact ⟨by rw [← hreply]; rfl, rfl⟩

end MarlinTransfer
