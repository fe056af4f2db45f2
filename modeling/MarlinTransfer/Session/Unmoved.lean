import Mathlib.Data.List.ReduceOption
import MarlinTransfer.Session.Handshakes
import MarlinTransfer.Session.Events
import MarlinTransfer.Session.Lines

/-!
# What does not move the session

Two lines move a session: a well-formed `ss`, and the `ok` with the number of the data packet
in flight. Whatever else arrives is told, at most one event a line, and changes nothing that
the session sends by: not the counter, not the packet in flight or its timestamps, not the
queue or the bytes that wait. An `ss` that finds a data packet in flight leaves that alone too.
-/

namespace MarlinTransfer

open Codec Text

/-! ## The lines by their shape -/

/-- A tag and a number that fits a byte, white space around the number allowed. -/
def Numbered (tag line : Bytes) (n : UInt8) : Prop :=
  ∃ text : Str, line = tag ++ asBytes text ∧ parseUnsigned (2 ^ 32) (trim text) = some n.toNat

/-- `ok<n>`. -/
def OkLine (line : Bytes) (n : UInt8) : Prop := Numbered [0x6F, 0x6B] line n

/-- `rs<n>`. -/
def RsLine (line : Bytes) (n : UInt8) : Prop := Numbered [0x72, 0x73] line n

/-- `ss<sync>,<block>,<version>` with fields that parse. -/
def SsLine (line : Bytes) : Prop :=
  ∃ rest sync block version, line = [0x73, 0x73] ++ rest ∧ SsFields rest sync block version

theorem parseDecimalU8_eq_some {b : Bytes} {n : UInt8} :
    Session.parseDecimalU8 b = some n ↔
      ∃ text : Str, b = asBytes text ∧ parseUnsigned (2 ^ 32) (trim text) = some n.toNat := by
  have hn := n.toNat_lt
  unfold Session.parseDecimalU8
  constructor
  · intro h
    split_ifs at h
    cases htext : fromUtf8 b with
    | none => rw [htext] at h; cases h
    | some text =>
      rw [htext] at h
      dsimp only at h
      cases hm : parseUnsigned (2 ^ 32) (trim text) with
      | none => rw [hm] at h; cases h
      | some m =>
        rw [hm] at h
        dsimp only at h
        split_ifs at h with hbig
        obtain rfl := Option.some.inj h
        refine ⟨text, fromUtf8_eq_some.mp htext, ?_⟩
        rw [hm, UInt8.toNat_ofNat', Nat.mod_eq_of_lt (by omega)]
  · rintro ⟨text, rfl, hm⟩
    -- no number is read from an empty text
    have hne : (asBytes text).isEmpty = false := by
      rw [List.isEmpty_eq_false_iff]
      intro h0
      have htext := fromUtf8_asBytes text
      rw [h0, ← asBytes_nil, fromUtf8_asBytes] at htext
      rw [← Option.some.inj htext] at hm
      cases hm
    rw [hne, if_neg (by decide), fromUtf8_asBytes]
    dsimp only
    rw [hm]
    dsimp only
    rw [if_neg (by omega), UInt8.ofNat_toNat]

theorem numbered_iff {tag line : Bytes} {n : UInt8} :
    (stripPrefix line tag).bind Session.parseDecimalU8 = some n ↔ Numbered tag line n := by
  constructor
  · intro h
    obtain ⟨rest, hrest, hn⟩ := Option.bind_eq_some_iff.mp h
    obtain ⟨text, rfl, hm⟩ := parseDecimalU8_eq_some.mp hn
    exact ⟨text, stripPrefix_eq_some.mp hrest, hm⟩
  · rintro ⟨text, rfl, hm⟩
    rw [stripPrefix_append, Option.bind_some, parseDecimalU8_eq_some]
    exact ⟨text, rfl, hm⟩

theorem not_numbered {tag line : Bytes}
    (h : (stripPrefix line tag).bind Session.parseDecimalU8 = none) (n : UInt8) :
    ¬ Numbered tag line n := by
  intro hn
  rw [numbered_iff.mpr hn] at h
  cases h

/-- The `ok` lines are the replies of that kind. -/
theorem classify_eq_ok {line : Bytes} {n : UInt8} : classify line = .ok n ↔ OkLine line n := by
  constructor
  · intro h
    unfold classify at h
    cases hok : (stripPrefix line [0x6F, 0x6B]).bind Session.parseDecimalU8 with
    | some m =>
      rw [hok] at h
      obtain rfl := Reply.ok.inj h
      exact numbered_iff.mp hok
    | none =>
      -- none of the other branches is an `ok`
      rw [hok] at h
      dsimp only at h
      repeat' split at h
      all_goals cases h
  · intro h
    unfold classify
    rw [numbered_iff.mpr h]

/-- So are the `ss` lines. -/
theorem ssLine_iff {line : Bytes} :
    SsLine line ↔ ∃ sync block version, classify line = .ss sync block version := by
  constructor
  · rintro ⟨rest, sync, block, version, rfl, hf⟩
    exact ⟨_, _, _, classify_fields hf⟩
  · rintro ⟨sync, block, version, h⟩
    have hprefix : ∃ rest, line = [0x73, 0x73] ++ rest := by
      by_contra hno
      have hnone : stripPrefix line [0x73, 0x73] = none := by
        cases hrest : stripPrefix line [0x73, 0x73] with
        | none => rfl
        | some rest => exact absurd ⟨rest, stripPrefix_eq_some.mp hrest⟩ hno
      unfold classify at h
      simp only [hnone] at h
      repeat' split at h
      all_goals cases h
    obtain ⟨rest, rfl⟩ := hprefix
    rw [classify_ss] at h
    cases hp : Session.parseSs rest with
    | none => rw [hp] at h; cases h
    | some p =>
      obtain ⟨newSync, newBlock, newVersion, hf⟩ := fields_of_parseSs hp
      exact ⟨rest, newSync, newBlock, newVersion, rfl, hf⟩

/-! ## What is told of the others -/

/-- What the session tells of a line that does not move it, with `flight` in flight. -/
inductive Heard (flight : Option InFlight) (line : Bytes) : Option Event → Prop where
  /-- An `ok` for another packet, or for a handshake, which no `ok` answers. -/
  | refused (f : InFlight) (n : UInt8) (hf : flight = some f) (hok : OkLine line n) :
      Heard flight line (some (.outOfSync f.sync n))
  /-- An `ok` that nothing waits for. -/
  | stray (n : UInt8) (hf : flight = none) (hok : OkLine line n) :
      Heard flight line (some (.asciiLine (okText n)))
  | resend (n : UInt8) (hrs : RsLine line n) : Heard flight line (some (.resendRequested n))
  | fatal (hfe : line = [0x66, 0x65]) : Heard flight line (some .fatalError)
  /-- Any other text, passed through. -/
  | text (s : Str) (hs : line = asBytes s) (hok : ∀ n, ¬ OkLine line n)
      (hrs : ∀ n, ¬ RsLine line n) (hss : ¬ [0x73, 0x73] <+: line) (hfe : line ≠ [0x66, 0x65]) :
      Heard flight line (some (.asciiLine s))
  /-- An `ss` that does not parse, or bytes that are no text. -/
  | dropped (hok : ∀ n, ¬ OkLine line n) (hrs : ∀ n, ¬ RsLine line n)
      (hno : [0x73, 0x73] <+: line ∨ ∀ s, line ≠ asBytes s) : Heard flight line none

namespace Session

variable {s : Session} {line : Bytes}

/-- The same session with more events waiting. -/
def tell (s : Session) (e : Option Event) : Session := { s with events := s.events ++ e.toList }

theorem tell_none (s : Session) : s.tell none = s := by
  unfold tell
  rw [Option.toList_none, List.append_nil]

/-- An `ok` that the packet in flight, if any, does not wait for. -/
theorem processLine_ok
    (hok : ∀ f, s.inFlight = some f → f.isSyncHandshake = false → ¬ OkLine line f.sync)
    {n : UInt8} (hn : OkLine line n) (now : Instant) :
    ∃ e, Heard s.inFlight line e ∧ s.processLine line now = s.tell e := by
  have hline := classify_eq_ok.mpr hn
  rw [processLine_eq, hline]
  cases hf : s.inFlight with
  | none => exact ⟨_, .stray n rfl hn, take_ok_idle hf n now⟩
  | some f =>
    have hother : f.isSyncHandshake = true ∨ n ≠ f.sync := by
      by_contra hno
      obtain ⟨hdata, hsync⟩ := not_or.mp hno
      rw [not_not.mp hsync] at hn
      exact hok f hf (Bool.eq_false_iff.mpr hdata) hn
    exact ⟨_, .refused f n rfl hn, take_ok_refused hf hother now⟩

/-- **One line.** Neither an `ss` nor the `ok` that is waited for: it is told, and that is all. -/
theorem processLine_unmoved (hss : ¬ SsLine line)
    (hok : ∀ f, s.inFlight = some f → f.isSyncHandshake = false → ¬ OkLine line f.sync)
    (now : Instant) :
    ∃ e, Heard s.inFlight line e ∧ s.processLine line now = s.tell e := by
  by_cases hn : ∃ n, OkLine line n
  · obtain ⟨n, hn⟩ := hn
    exact processLine_ok hok hn now
  · have hnone : ∀ n, ¬ OkLine line n := fun n h => hn ⟨n, h⟩
    unfold processLine
    cases h1 : (stripPrefix line [0x6F, 0x6B]).bind parseDecimalU8 with
    | some n => exact absurd (numbered_iff.mp h1) (hnone n)
    | none =>
      dsimp only
      cases h2 : (stripPrefix line [0x72, 0x73]).bind parseDecimalU8 with
      | some n => exact ⟨_, .resend n (numbered_iff.mp h2), rfl⟩
      | none =>
        dsimp only
        cases h3 : stripPrefix line [0x73, 0x73] with
        | some rest =>
          -- it starts with `ss` and is not well formed
          obtain rfl := stripPrefix_eq_some.mp h3
          have hbad : ∀ sync block version, ¬ SsFields rest sync block version :=
            fun sync block version hf => hss ⟨rest, sync, block, version, rfl, hf⟩
          refine ⟨none, .dropped hnone (not_numbered h2) (.inl (List.prefix_append _ _)), ?_⟩
          dsimp only
          rw [handleSs_malformed hbad, tell_none]
        | none =>
          have hpre : ¬ [0x73, 0x73] <+: line := by
            rintro ⟨rest, rfl⟩
            rw [stripPrefix_append] at h3
            cases h3
          dsimp only
          by_cases hfe : line = [0x66, 0x65]
          · rw [if_pos hfe]
            exact ⟨_, .fatal hfe, rfl⟩
          · rw [if_neg hfe]
            cases htext : fromUtf8 line with
            | some str =>
              exact ⟨_, .text str (fromUtf8_eq_some.mp htext) hnone (not_numbered h2) hpre hfe, rfl⟩
            | none =>
              refine ⟨none, .dropped hnone (not_numbered h2) (.inr ?_), (tell_none s).symm⟩
              rintro str rfl
              rw [fromUtf8_asBytes] at htext
              cases htext

/-! ## A feed -/

/-- The lines that fed bytes complete, stripped of their endings, the empty ones left out. -/
def completed (s : Session) (bytes : Bytes) : List Bytes :=
  ((Lines.cut 0x0A (s.inboundBuf ++ bytes)).1.map stripLineEndings).filter fun line => !line.isEmpty

/-- The bytes after the last line feed. -/
def unfinished (s : Session) (bytes : Bytes) : Bytes := (Lines.cut 0x0A (s.inboundBuf ++ bytes)).2

theorem feed_completed (s : Session) (bytes : Bytes) (now : Instant) :
    s.feed bytes now
      = { (s.completed bytes).foldl (fun s line => s.processLine line now) s with
          inboundBuf := s.unfinished bytes } := feed_byLines s bytes now

/-- **Any number of lines**: what is in flight at the last is what was at the first. -/
theorem processLines_unmoved (now : Instant) :
    ∀ (lines : List Bytes) (s : Session), (∀ line ∈ lines, ¬ SsLine line) →
      (∀ f, s.inFlight = some f → f.isSyncHandshake = false →
        ∀ line ∈ lines, ¬ OkLine line f.sync) →
      ∃ said : List (Option Event), List.Forall₂ (Heard s.inFlight) lines said
        ∧ lines.foldl (fun s line => s.processLine line now) s
          = { s with events := s.events ++ said.reduceOption } := by
  intro lines
  induction lines with
  | nil =>
    intro s _ _
    exact ⟨[], .nil, by rw [List.reduceOption_nil, List.append_nil, List.foldl_nil]⟩
  | cons line lines ih =>
    intro s hss hok
    obtain ⟨e, he, hstep⟩ := processLine_unmoved (hss line List.mem_cons_self)
      (fun f hf hdata => hok f hf hdata line List.mem_cons_self) now
    -- the rest meets the session with one more event and the same packet in flight
    obtain ⟨said, hsaid, hrest⟩ := ih (s.tell e) (fun l hl => hss l (List.mem_cons_of_mem _ hl))
      fun f hf hdata l hl => hok f hf hdata l (List.mem_cons_of_mem _ hl)
    refine ⟨e :: said, .cons he hsaid, ?_⟩
    rw [List.foldl_cons, hstep, hrest]
    cases e with
    | none =>
      rw [tell_none]
      rfl
    | some e =>
      rw [List.reduceOption_cons_of_some, List.append_cons]
      rfl

/-- An `ss` that finds a data packet in flight leaves it, the queue and what waits to go out. -/
theorem processLine_ss_busy {f : InFlight} (hf : s.inFlight = some f)
    (hdata : f.isSyncHandshake = false) (hss : SsLine line) (now : Instant) :
    (s.processLine line now).inFlight = some f ∧ (s.processLine line now).queued = s.queued
      ∧ (s.processLine line now).outbound = s.outbound := by
  obtain ⟨sync, block, version, hline⟩ := ssLine_iff.mp hss
  have hkept : (s.adopt sync block version).inFlight = some f := by
    rw [adopt_inFlight_data, hf]
    intro g hg
    obtain rfl := Option.some.inj (hf.symm.trans hg)
    exact hdata
  have hadopt : s.processLine line now = s.adopt sync block version := by
    rw [processLine_eq, hline]
    exact dispatchIfIdle_busy hkept now
  rw [hadopt]
  exact ⟨hkept, rfl, rfl⟩

end Session

/--
**Only the right reply moves the session.** Of any session and any bytes fed to it: when no
line they complete is a well-formed `ss`, and none is the `ok` of the data packet in flight,
each line is told as `Heard` says, with one event or none, and the rest of the session stays as
it was, apart from the bytes of the line still to be finished. And an `ss` processed while a
data packet is in flight leaves that packet, the queue and the outbound bytes alone.
-/
theorem only_right_reply_moves (s : Session) (now : Instant) :
    (∀ bytes : Bytes, (∀ line ∈ s.completed bytes, ¬ SsLine line) →
        (∀ f, s.inFlight = some f → f.isSyncHandshake = false →
          ∀ line ∈ s.completed bytes, ¬ OkLine line f.sync) →
        ∃ said : List (Option Event),
          List.Forall₂ (Heard s.inFlight) (s.completed bytes) said
            ∧ s.feed bytes now
              = { s with
                  events := s.events ++ said.reduceOption
                  inboundBuf := s.unfinished bytes })
      ∧ ∀ (f : InFlight) (line : Bytes), s.inFlight = some f → f.isSyncHandshake = false →
          SsLine line →
          (s.processLine line now).inFlight = some f ∧ (s.processLine line now).queued = s.queued
            ∧ (s.processLine line now).outbound = s.outbound := by
  refine ⟨fun bytes hss hok => ?_, fun f line hf hdata hss =>
    Session.processLine_ss_busy hf hdata hss now⟩
  obtain ⟨said, hsaid, hlines⟩ := Session.processLines_unmoved now (s.completed bytes) s hss hok
  exact ⟨said, hsaid, by rw [Session.feed_completed, hlines]⟩

/-- A handshake, and a data packet in flight under the number 5. -/
def sendingFive : Option Session :=
  ((Session.new.connect 0).feed "ss5,512,1.0\n".toUTF8.data.toList 1).send 1 0 [] 2

/-- The `ok` of another packet, an `ss` with one field, an empty line and half a line. -/
def besideFive : Bytes := "ok4\nss5\r\n\r\nPFT:bu".toUTF8.data.toList

theorem only_right_reply_moves_besideFive :
    ∃ s said, sendingFive = some s ∧ List.Forall₂ (Heard s.inFlight) (s.completed besideFive) said
      ∧ s.feed besideFive 3
        = { s with
            events := s.events ++ said.reduceOption
            inboundBuf := s.unfinished besideFive } := by
  have hsome : sendingFive.isSome := by decide +kernel
  obtain ⟨s, hs⟩ := Option.isSome_iff_exists.mp hsome
  have hreplies : (s.completed besideFive).map classify = [.ok 4, .noise] := by
    have h : sendingFive.map (fun s => (s.completed besideFive).map classify)
        = some [.ok 4, .noise] := by decide +kernel
    rw [hs] at h
    exact Option.some.inj h
  have hflight : s.inFlight.map InFlight.sync = some 5 := by
    have h : sendingFive.map (fun s => s.inFlight.map InFlight.sync) = some (some 5) := by
      decide +kernel
    rw [hs] at h
    exact Option.some.inj h
  have hmem : ∀ line ∈ s.completed besideFive, classify line ∈ [.ok 4, .noise] := fun line hl =>
    hreplies ▸ List.mem_map_of_mem hl
  obtain ⟨said, hsaid⟩ := (only_right_reply_moves s 3).1 besideFive
    (by
      intro line hl hss
      obtain ⟨sync, block, version, hline⟩ := ssLine_iff.mp hss
      simpa [hline] using hmem line hl)
    (by
      intro f hf _ line hl hok
      have hsync : f.sync = 5 := by simpa [hf] using hflight
      have hline := classify_eq_ok.mpr hok
      rw [hsync] at hline
      simpa [hline] using hmem line hl)
  exact ⟨s, said, hs, hsaid⟩

end MarlinTransfer
