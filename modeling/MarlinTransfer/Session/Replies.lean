import MarlinTransfer.Session.Model
import MarlinTransfer.Lib.Lines

/-!
# What the device says

`processLine` looks at a line only to find out which reply it is, and `feed` looks at
bytes only to cut lines out of them. `reply` is the first half, `Session.take` what the
session does with the answer, and `feed_eq` puts the two together: feeding bytes is
taking the replies they complete, one after the other.
-/

namespace MarlinTransfer

open Codec Text

/-- A line as the session understands it. -/
inductive Reply where
  | ok (n : UInt8)
  | rs (n : UInt8)
  | ss (sync : UInt8) (maxBlockSize : UInt16) (protocolVersion : Str)
  | fe
  | text (line : Str)
  /-- An `ss` line that does not parse, an empty line, or bytes that are no text. -/
  | noise
  deriving DecidableEq, Repr

/-- Which reply a non-empty line is, its ending stripped. -/
def classify (line : Bytes) : Reply :=
  match (stripPrefix line [0x6F, 0x6B]).bind Session.parseDecimalU8 with
  | some n => .ok n
  | none =>
    match (stripPrefix line [0x72, 0x73]).bind Session.parseDecimalU8 with
    | some n => .rs n
    | none =>
      match stripPrefix line [0x73, 0x73] with
      | some rest =>
        match Session.parseSs rest with
        | some (newSync, maxBlockSize, version) =>
          .ss (newSync % syncMod).toUInt8 maxBlockSize version
        | none => .noise
      | none =>
        if line = [0x66, 0x65] then .fe
        else match fromUtf8 line with
          | some str => .text str
          | none => .noise

/-- Which reply a line is, as it comes off the wire. -/
def reply (line : Bytes) : Reply :=
  let trimmed := Session.stripLineEndings line
  if trimmed.isEmpty then .noise else classify trimmed

namespace Session

/-- What an `ss` reply does before anything is dispatched. -/
def adopt (s : Session) (sync : UInt8) (block : UInt16) (version : Str) : Session :=
  { s with
    sync
    maxBlockSize := some block
    protocolVersion := some version
    isSynced := true
    inFlight := s.inFlight.filter fun flight => !flight.isSyncHandshake
    events := s.events ++ [.synced block version] }

/-- What the `ok` for the packet in flight does before anything is dispatched. -/
def advance (s : Session) (n : UInt8) : Session :=
  { s with
    sync := ((s.sync.toUInt16 + 1) % syncMod).toUInt8
    inFlight := none
    events := s.events ++ [.ack n] }

/-- What the session does with a reply. -/
def take (s : Session) (r : Reply) (now : Instant) : Session :=
  match r with
  | .ok n => s.handleOk n now
  | .rs n => s.pushEvent (.resendRequested n)
  | .ss sync block version => (s.adopt sync block version).dispatchIfIdle now
  | .fe => s.pushEvent .fatalError
  | .text line => s.pushEvent (.asciiLine line)
  | .noise => s

theorem handleSs_eq (s : Session) (rest : Bytes) (now : Instant) :
    s.handleSs rest now
      = match parseSs rest with
        | none => s
        | some (newSync, block, version) =>
          (s.adopt (newSync % syncMod).toUInt8 block version).dispatchIfIdle now := by
  unfold handleSs
  cases parseSs rest with
  | none => rfl
  | some p =>
    obtain ⟨newSync, block, version⟩ := p
    dsimp only
    cases h : s.inFlight with
    | none => simp [adopt, pushEvent, h]
    | some flight =>
      dsimp only
      cases hf : flight.isSyncHandshake <;> simp [adopt, pushEvent, h, hf, Option.filter]

/-- A line matters only through the reply it is. -/
theorem processLine_eq (s : Session) (line : Bytes) (now : Instant) :
    s.processLine line now = s.take (classify line) now := by
  unfold processLine classify
  cases (stripPrefix line [0x6F, 0x6B]).bind parseDecimalU8 with
  | some n => rfl
  | none =>
    dsimp only
    cases (stripPrefix line [0x72, 0x73]).bind parseDecimalU8 with
    | some n => rfl
    | none =>
      dsimp only
      cases stripPrefix line [0x73, 0x73] with
      | some rest =>
        dsimp only
        rw [handleSs_eq]
        cases parseSs rest with
        | none => rfl
        | some p => rfl
      | none =>
        dsimp only
        split_ifs with hfe
        · rfl
        · cases fromUtf8 line with
          | none => rfl
          | some str => rfl

/-! ## The buffer of unfinished lines -/

/-- The same session with other unfinished bytes. -/
def withBuf (s : Session) (buf : Bytes) : Session := { s with inboundBuf := buf }

theorem dispatchIfIdle_withBuf (s : Session) (buf : Bytes) (now : Instant) :
    (s.withBuf buf).dispatchIfIdle now = (s.dispatchIfIdle now).withBuf buf := by
  unfold dispatchIfIdle withBuf
  dsimp only
  split
  · rfl
  · split <;> rfl

theorem handleOk_withBuf (s : Session) (buf : Bytes) (n : UInt8) (now : Instant) :
    (s.withBuf buf).handleOk n now = (s.handleOk n now).withBuf buf := by
  unfold handleOk
  rw [show (s.withBuf buf).inFlight = s.inFlight by rfl]
  cases s.inFlight with
  | none => rfl
  | some flight =>
    dsimp only
    split_ifs
    · rfl
    · rfl
    · exact dispatchIfIdle_withBuf (s.advance n) buf now

/-- Taking a reply leaves the unfinished bytes alone. -/
theorem take_withBuf (s : Session) (buf : Bytes) (r : Reply) (now : Instant) :
    (s.withBuf buf).take r now = (s.take r now).withBuf buf := by
  cases r with
  | ok n => exact handleOk_withBuf s buf n now
  | ss sync block version =>
    exact dispatchIfIdle_withBuf (s.adopt sync block version) buf now
  | rs n => rfl
  | fe => rfl
  | text line => rfl
  | noise => rfl

/-- Taking replies one after the other. -/
def takeAll (s : Session) (rs : List Reply) (now : Instant) : Session :=
  rs.foldl (fun s r => s.take r now) s

@[simp] theorem takeAll_nil (s : Session) (now : Instant) : s.takeAll [] now = s := rfl

@[simp] theorem takeAll_cons (s : Session) (r : Reply) (rs : List Reply) (now : Instant) :
    s.takeAll (r :: rs) now = (s.take r now).takeAll rs now := rfl

theorem takeAll_append (s : Session) (rs rs' : List Reply) (now : Instant) :
    s.takeAll (rs ++ rs') now = (s.takeAll rs now).takeAll rs' now := List.foldl_append

theorem takeAll_withBuf (s : Session) (buf : Bytes) (rs : List Reply) (now : Instant) :
    (s.withBuf buf).takeAll rs now = (s.takeAll rs now).withBuf buf := by
  induction rs generalizing s with
  | nil => rfl
  | cons r rs ih => rw [takeAll_cons, takeAll_cons, take_withBuf, ih]

theorem stripLineEndings_append_lf (line : Bytes) :
    stripLineEndings (line ++ [0x0A]) = stripLineEndings line := by
  unfold stripLineEndings
  rw [List.rdropWhile_concat_pos _ _ _ (by rfl)]

/-- The replies that bytes complete, and the bytes they leave unfinished. -/
def replies (buf : Bytes) : List Reply := (Lines.cut 0x0A buf).1.map reply

/-- The loop of `feed` takes every complete line and stops. -/
theorem feedLoop_eq (now : Instant) :
    ∀ (fuel : Nat) (s : Session), s.inboundBuf.length ≤ fuel →
      feedLoop fuel s now
        = (s.takeAll (replies s.inboundBuf) now).withBuf (Lines.cut 0x0A s.inboundBuf).2 := by
  intro fuel
  induction fuel with
  | zero =>
    intro s h
    have h0 : s.inboundBuf = [] := List.length_eq_zero_iff.mp (Nat.le_zero.mp h)
    rw [feedLoop, replies, h0]
    show s = s.withBuf []
    rw [← h0]
    rfl
  | succ fuel ih =>
    intro s h
    rw [feedLoop]
    cases hpos : s.inboundBuf.findIdx? (· == 0x0A) with
    | none =>
      -- no line feed: nothing completes
      have hno : (0x0A : UInt8) ∉ s.inboundBuf := by
        rw [List.findIdx?_eq_none_iff] at hpos
        intro hm
        simpa using hpos _ hm
      dsimp only
      rw [replies, Lines.cut_of_notMem hno]
      rfl
    | some pos =>
      dsimp only
      obtain ⟨hlt, hat, hbefore⟩ := List.findIdx?_eq_some_iff_getElem.mp hpos
      have hat' : s.inboundBuf[pos] = 0x0A := by simpa using hat
      obtain ⟨line, rest, hbuf, hline, hno⟩ : ∃ line rest, s.inboundBuf = line ++ 0x0A :: rest
          ∧ line.length = pos ∧ (0x0A : UInt8) ∉ line := by
        refine ⟨s.inboundBuf.take pos, s.inboundBuf.drop (pos + 1), ?_, ?_, ?_⟩
        · conv_lhs => rw [← List.take_append_drop pos s.inboundBuf,
            List.drop_eq_getElem_cons hlt, hat']
        · rw [List.length_take]
          omega
        · intro hm
          obtain ⟨i, hi, hi'⟩ := List.getElem_of_mem hm
          rw [List.length_take] at hi
          rw [List.getElem_take] at hi'
          have := hbefore i (by omega)
          simp [hi'] at this
      have hlen : (line ++ [0x0A]).length = pos + 1 := by rw [List.length_append, hline]; rfl
      have hbuf' : s.inboundBuf = (line ++ [0x0A]) ++ rest := by rw [hbuf, List.append_assoc]; rfl
      have htake : s.inboundBuf.take (pos + 1) = line ++ [0x0A] := by
        rw [hbuf', ← hlen, List.take_left]
      have hdrop : s.inboundBuf.drop (pos + 1) = rest := by
        rw [hbuf', ← hlen, List.drop_left]
      have hrest : rest.length ≤ fuel := by
        rw [hbuf, List.length_append, List.length_cons] at h
        omega
      have hcut : Lines.cut 0x0A s.inboundBuf
          = (line :: (Lines.cut 0x0A rest).1, (Lines.cut 0x0A rest).2) := by
        rw [hbuf, Lines.cut_append_sep rest hno]
      rw [htake, hdrop, stripLineEndings_append_lf, replies, hcut, List.map_cons, takeAll_cons]
      have key : ∀ s' : Session, s'.inboundBuf = rest →
          feedLoop fuel s' now
            = (s'.takeAll ((Lines.cut 0x0A rest).1.map reply) now).withBuf
                (Lines.cut 0x0A rest).2 := by
        intro s' hs'
        rw [ih s' (by rw [hs']; exact hrest), replies, hs']
      have hswap : ∀ s' : Session,
          ((s'.withBuf rest).takeAll ((Lines.cut 0x0A rest).1.map reply) now).withBuf
              (Lines.cut 0x0A rest).2
            = (s'.takeAll ((Lines.cut 0x0A rest).1.map reply) now).withBuf
                (Lines.cut 0x0A rest).2 := by
        intro s'
        rw [takeAll_withBuf]
        rfl
      split_ifs with hempty
      · rw [show reply line = .noise by unfold reply; rw [if_pos hempty]]
        rw [key _ rfl]
        exact hswap s
      · rw [show reply line = classify (stripLineEndings line) by unfold reply; rw [if_neg hempty]]
        rw [processLine_eq]
        have hb : (s.withBuf rest).take (classify (stripLineEndings line)) now
            = (s.take (classify (stripLineEndings line)) now).withBuf rest :=
          take_withBuf s rest _ now
        rw [show ({ s with inboundBuf := rest } : Session) = s.withBuf rest from rfl, hb,
          key _ rfl]
        exact hswap _

/-- **What `feed` does**: take the replies completed by the new bytes, keep the rest. -/
theorem feed_eq (s : Session) (bytes : Bytes) (now : Instant) :
    s.feed bytes now
      = (s.takeAll (replies (s.inboundBuf ++ bytes)) now).withBuf
          (Lines.cut 0x0A (s.inboundBuf ++ bytes)).2 := by
  unfold feed
  rw [feedLoop_eq now _ _ (Nat.le_refl _)]
  show ((s.withBuf (s.inboundBuf ++ bytes)).takeAll (replies (s.inboundBuf ++ bytes)) now).withBuf _
    = _
  rw [takeAll_withBuf]
  rfl

end Session

end MarlinTransfer
