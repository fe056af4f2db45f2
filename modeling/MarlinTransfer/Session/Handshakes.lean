import MarlinTransfer.Session.Journal

/-!
# The counter and the handshake

What a session knows of the device is what the last well-formed `ss` line said, and its
counter is that line's plus one for every ack since; before the first such line it knows
nothing, has told no ack, and whatever is outstanding is a handshake. An `ss` line with a
field that does not parse changes nothing at all.
-/

namespace MarlinTransfer

open Codec Text Session

namespace Mark

/-- What an `ss` line said, when the line was one that parses. -/
def greeting : Mark → Option (UInt8 × UInt16 × Str)
  | read (.ss sync block version) => some (sync, block, version)
  | _ => none

def isAck : Mark → Bool
  | told (.ack _) => true
  | _ => false

end Mark

/-- The well-formed `ss` lines, in order. -/
def greetings (h : List Mark) : List (UInt8 × UInt16 × Str) := h.filterMap Mark.greeting

/-- What came after the last of them. -/
def sinceGreeting (h : List Mark) : List Mark := h.rtakeWhile fun m => m.greeting.isNone

def acksIn (h : List Mark) : Nat := h.countP Mark.isAck

@[simp] theorem acksIn_append (h h' : List Mark) : acksIn (h ++ h') = acksIn h + acksIn h' :=
  List.countP_append

theorem greetings_quiet (h : List Mark) {ms : List Mark} (hq : greetings ms = []) :
    greetings (h ++ ms) = greetings h ∧ sinceGreeting (h ++ ms) = sinceGreeting h ++ ms := by
  constructor
  · show (h ++ ms).filterMap Mark.greeting = h.filterMap Mark.greeting
    rw [List.filterMap_append, show ms.filterMap Mark.greeting = [] from hq, List.append_nil]
  · have hall : ∀ m ∈ ms.reverse, m.greeting.isNone = true := by
      intro m hm
      rw [List.filterMap_eq_nil_iff.mp hq m (List.mem_reverse.mp hm)]
      rfl
    unfold sinceGreeting List.rtakeWhile
    rw [List.reverse_append, List.takeWhile_append_of_pos hall, List.reverse_append,
      List.reverse_reverse]

theorem greetings_anew (h : List Mark) {m : Mark} {ms : List Mark} {g : UInt8 × UInt16 × Str}
    (hm : m.greeting = some g) (hq : greetings ms = []) :
    (greetings (h ++ m :: ms)).getLast? = some g ∧ sinceGreeting (h ++ m :: ms) = ms := by
  have hsplit : h ++ m :: ms = (h ++ [m]) ++ ms := by simp
  obtain ⟨h1, h2⟩ := greetings_quiet (h ++ [m]) hq
  rw [hsplit, h1, h2]
  constructor
  · show ((h ++ [m]).filterMap Mark.greeting).getLast? = some g
    rw [List.filterMap_append, List.filterMap_cons_some hm]
    simp
  · unfold sinceGreeting
    rw [List.rtakeWhile_concat_neg _ _ _ (by simp [hm]), List.nil_append]

section Noted

variable {w w' : Watched} {now : Instant}

theorem greetings_noted : greetings (w.noted w' now) = [] := by
  refine List.filterMap_eq_nil_iff.mpr fun m hm => ?_
  rcases List.mem_append.mp hm with hm | hm
  · obtain ⟨p, -, rfl⟩ := List.mem_map.mp hm
    rfl
  · obtain ⟨p, -, rfl⟩ := List.mem_map.mp hm
    rfl

/-- The acks among the marks of a step are those it told. -/
theorem acksIn_noted {es : List (Event × Option Nat)}
    (he : w'.log.emitted = w.log.emitted ++ es) :
    acksIn (w.noted w' now) = es.countP fun p => Mark.isAck (.told p.1) := by
  have hplaced : ∀ ps : List (Nat × Bytes),
      (ps.map fun p => Mark.placed p.1 now).countP Mark.isAck = 0 := by
    intro ps
    refine List.countP_eq_zero.mpr fun m hm => ?_
    obtain ⟨p, -, rfl⟩ := List.mem_map.mp hm
    exact Bool.false_ne_true
  unfold acksIn Watched.noted
  rw [List.countP_append, hplaced, Nat.add_zero, he, List.drop_left, List.countP_map]
  rfl

theorem greetings_requests (w : Watched) (r : Reply) : greetings (w.requests r) = [] :=
  List.filterMap_eq_nil_iff.mpr fun m hm => by rw [mem_requests hm]; rfl

theorem acksIn_requests (w : Watched) (r : Reply) : acksIn (w.requests r) = 0 :=
  List.countP_eq_zero.mpr fun m hm => by rw [mem_requests hm]; exact Bool.false_ne_true

theorem acksIn_readOne (w : Watched) (r : Reply) (now : Instant) :
    acksIn (w.readOne r now) = acksIn (w.noted (w.take r now) now) := by
  show acksIn ([.read r] ++ (w.requests r ++ w.noted (w.take r now) now)) = _
  rw [acksIn_append, acksIn_append, acksIn_requests]
  show 0 + (0 + _) = _
  rw [Nat.zero_add, Nat.zero_add]

/-- Only an `ss` line greets. -/
theorem greetings_readOne {r : Reply} (hr : ∀ sync block version, r ≠ .ss sync block version) :
    greetings (w.readOne r now) = [] := by
  have hread : greetings [.read r] = [] := by
    cases r with
    | ss sync block version => exact absurd rfl (hr sync block version)
    | _ => rfl
  show List.filterMap _ ([.read r] ++ (w.requests r ++ w.noted (w.take r now) now)) = _
  rw [List.filterMap_append, List.filterMap_append]
  show greetings _ ++ (greetings _ ++ greetings _) = _
  rw [hread, greetings_requests, greetings_noted]
  rfl

theorem greetings_lateness : greetings (w.lateness now) = [] := by
  unfold Watched.lateness
  split
  · rfl
  · split <;> rfl

theorem acksIn_lateness : acksIn (w.lateness now) = 0 := by
  unfold Watched.lateness
  split
  · rfl
  · split <;> rfl

end Noted

namespace Session

/-- What a session knows of the device. -/
def known (s : Session) : Bool × Option UInt16 × Option Str :=
  (s.isSynced, s.maxBlockSize, s.protocolVersion)

@[simp] theorem dispatchIfIdle_known (s : Session) (now : Instant) :
    (s.dispatchIfIdle now).known = s.known := by
  unfold dispatchIfIdle
  split
  · rfl
  · split <;> rfl

theorem take_known {r : Reply} (hr : ∀ sync block version, r ≠ .ss sync block version)
    (s : Session) (now : Instant) : (s.take r now).known = s.known := by
  cases r with
  | ss sync block version => exact absurd rfl (hr sync block version)
  | ok n =>
    show (s.handleOk n now).known = _
    unfold handleOk
    split
    · rfl
    · split_ifs
      · rfl
      · rfl
      · exact dispatchIfIdle_known (s.advance n) now
  | rs n => rfl
  | fe => rfl
  | text line => rfl
  | noise => rfl

theorem tick_known (s : Session) (now : Instant) : (s.tick now).known = s.known := by
  unfold tick
  split
  · rfl
  · rename_i f _
    split_ifs
    · exact dispatchIfIdle_known (s.giveUp f.sync) now
    · rfl
    · rfl

end Session

/-- **The law of the counter**, against the journal. -/
structure Greeted (w : Watched) (h : List Mark) : Prop where
  before : (greetings h).getLast? = none →
    w.session.known = (false, none, none) ∧ w.session.sync = 0 ∧ acksIn h = 0 ∧ OnlyHandshakes w
  after : ∀ sync block version, (greetings h).getLast? = some (sync, block, version) →
    w.session.known = (true, some block, some version)
      ∧ w.session.sync = sync + UInt8.ofNat (acksIn (sinceGreeting h))

namespace Greeted

variable {w w' : Watched} {h ms : List Mark}

theorem start (s : Session) : Greeted (Watched.start s.reset) [] where
  before := fun _ => ⟨rfl, rfl, rfl, ⟨fun _ hf => (nomatch hf), fun _ hq => (nomatch hq)⟩⟩
  after := fun _ _ _ hg => by cases hg

/-- No greeting and no ack. -/
theorem quiet (hg : Greeted w h) (hq : greetings ms = []) (ha : acksIn ms = 0)
    (hk : w'.session.known = w.session.known) (hc : w'.session.sync = w.session.sync)
    (ho : w.session.isSynced = false → OnlyHandshakes w → OnlyHandshakes w') :
    Greeted w' (h ++ ms) := by
  obtain ⟨h1, h2⟩ := greetings_quiet h hq
  constructor
  · intro hnone
    rw [h1] at hnone
    obtain ⟨hk', hc', ha', ho'⟩ := hg.before hnone
    exact ⟨hk.trans hk', hc.trans hc', by rw [acksIn_append, ha', ha],
      ho (congrArg Prod.fst hk') ho'⟩
  · intro sync block version hsome
    rw [h1] at hsome
    obtain ⟨hk', hc'⟩ := hg.after sync block version hsome
    exact ⟨hk.trans hk', by rw [hc, hc', h2, acksIn_append, ha, Nat.add_zero]⟩

theorem take {ds : List Dispatch} (hg : Greeted w h) (hc : Conserved w ds) (r : Reply)
    (now : Instant) : Greeted (w.take r now) (h ++ w.readOne r now) := by
  by_cases hr : ∀ sync block version, r ≠ .ss sync block version
  · -- a reply that is no `ss`: what is known stays, and the counter moves with the acks
    have hk : (w.take r now).session.known = w.session.known := take_known hr w.session now
    have hq : greetings (w.readOne r now) = [] := greetings_readOne hr
    cases taken hc r now with
    | quiet ht hsync =>
      refine hg.quiet hq ?_ hk ?_ ?_
      · rw [acksIn_readOne, acksIn_noted (by rw [ht.log]), List.countP_map]
        refine List.countP_eq_zero.mpr fun e he => ?_
        cases r with
        | ok n =>
          cases hf : w.session.inFlight <;> rw [hf] at he <;>
            (obtain rfl := List.mem_singleton.mp he; exact Bool.false_ne_true)
        | ss sync block version => exact absurd rfl (hr sync block version)
        | rs n => obtain rfl := List.mem_singleton.mp he; exact Bool.false_ne_true
        | fe => obtain rfl := List.mem_singleton.mp he; exact Bool.false_ne_true
        | text line => obtain rfl := List.mem_singleton.mp he; exact Bool.false_ne_true
        | noise => cases he
      · rw [hsync]
        cases r with
        | ss sync block version => exact absurd rfl (hr sync block version)
        | _ => rfl
      · intro _ ho
        unfold OnlyHandshakes
        rw [ht.inFlight, ht.queued]
        exact ho
    | acked f hrf hf ht hsync =>
      have ha : acksIn (w.readOne r now) = 1 := by
        rw [acksIn_readOne, acksIn_noted ht.emitted]
        rfl
      obtain ⟨h1, h2⟩ := greetings_quiet h hq
      constructor
      · -- a packet that an `ok` retires was sent after a greeting
        intro hnone
        rw [h1] at hnone
        have := (hg.before hnone).2.2.2.1 f ht.was
        rw [hf] at this
        cases this
      · intro sync block version hsome
        rw [h1] at hsome
        obtain ⟨hk', hc'⟩ := hg.after sync block version hsome
        refine ⟨hk.trans hk', ?_⟩
        rw [hsync, hc', h2, acksIn_append, ha, UInt8.ofNat_add, ← UInt8.add_assoc]
        rfl
    | synced f sync block version hrf => exact absurd hrf (hr sync block version)
  · -- an `ss`: everything starts anew from it
    obtain ⟨sync, block, version, rfl⟩ : ∃ sync block version, r = .ss sync block version := by
      by_contra hno
      exact hr fun sync block version heq => hno ⟨sync, block, version, heq⟩
    have hrest : greetings (w.noted (w.take (.ss sync block version) now) now) = [] :=
      greetings_noted
    obtain ⟨h1, h2⟩ := greetings_anew h
      (m := .read (.ss sync block version)) (g := (sync, block, version)) rfl hrest
    have hmarks : w.readOne (.ss sync block version) now = .read (.ss sync block version)
        :: w.noted (w.take (.ss sync block version) now) now := rfl
    have hsync : (w.take (.ss sync block version) now).session.sync = sync := by
      show ((w.session.adopt sync block version).dispatchIfIdle now).sync = _
      rw [dispatchIfIdle_sync]
      rfl
    have hack : acksIn (w.noted (w.take (.ss sync block version) now) now) = 0 := by
      cases taken hc (.ss sync block version) now with
      | quiet ht =>
        rw [acksIn_noted (by rw [ht.log])]
        rfl
      | acked f hrf => cases hrf
      | synced f sync' block' version' hrf hf ht =>
        rw [acksIn_noted ht.emitted]
        rfl
    constructor
    · intro hnone
      rw [hmarks, h1] at hnone
      cases hnone
    · intro sync' block' version' hsome
      rw [hmarks, h1] at hsome
      obtain ⟨rfl, heq⟩ := Prod.mk.inj (Option.some.inj hsome)
      obtain ⟨rfl, rfl⟩ := Prod.mk.inj heq
      refine ⟨?_, ?_⟩
      · show ((w.session.adopt sync block version).dispatchIfIdle now).known = _
        rw [dispatchIfIdle_known]
        rfl
      · rw [hmarks, h2, hack, hsync]
        simp

theorem tick (hg : Greeted w h) (now : Instant) :
    Greeted (w.tick now) (h ++ (w.lateness now ++ w.noted (w.tick now) now)) := by
  -- a tick reads no line
  have hq : greetings (w.lateness now ++ w.noted (w.tick now) now) = [] := by
    show List.filterMap _ _ = _
    rw [List.filterMap_append]
    show greetings _ ++ greetings _ = _
    rw [greetings_lateness, greetings_noted]
    rfl
  -- and acks nothing
  have ha : ∀ es : List (Event × Option Nat),
      (w.tick now).log.emitted = w.log.emitted ++ es →
      es.countP (fun p => Mark.isAck (.told p.1)) = 0 →
      acksIn (w.lateness now ++ w.noted (w.tick now) now) = 0 := by
    intro es he h0
    rw [acksIn_append, acksIn_lateness, acksIn_noted he, h0]
  have hk : (w.tick now).session.known = w.session.known := tick_known w.session now
  cases ticked w now with
  | early heq =>
    refine hg.quiet hq (ha [] ?_ rfl) hk (by rw [heq]) fun _ ho => by rw [heq]; exact ho
    rw [heq, List.append_nil]
  | late f now' hf hf' hqu hsync hsy hl =>
    refine hg.quiet hq (ha [] ?_ rfl) hk hsync fun _ ho => ?_
    · rw [hl, List.append_nil]
    · refine ⟨fun g hg => ?_, by rw [hqu]; exact ho.2⟩
      obtain rfl := Option.some.inj (hf'.symm.trans hg)
      exact ho.1 f hf
  | expired f ht hsync hsy =>
    exact hg.quiet hq (ha _ ht.emitted rfl) hk hsync fun _ ho => ho.resumes ht.resumes

theorem submitted {q : Queued} (hg : Greeted w h) (hs : Submitted q w w')
    (hk : w'.session.known = w.session.known) (hc : w'.session.sync = w.session.sync)
    (ho : w.session.isSynced = false → q.isSyncHandshake = true) (now : Instant) :
    Greeted w' (h ++ w.noted w' now) := by
  have he : w'.log.emitted = w.log.emitted ++ [] := by
    cases hs with
    | waits _ _ _ hl => rw [hl, List.append_nil]
    | launched _ _ _ _ _ hl => rw [hl, List.append_nil]
  refine hg.quiet greetings_noted (by rw [acksIn_noted he]; rfl) hk hc fun hsy hoh => ?_
  cases hs with
  | waits hbusy hf hq hl =>
    refine ⟨by rw [hf]; exact hoh.1, fun r hr => ?_⟩
    rw [hq] at hr
    rcases List.mem_append.mp hr with hr | hr
    · exact hoh.2 r hr
    · rw [List.mem_singleton.mp hr]
      exact ho hsy
  | launched f hidle hf hcar hq hl =>
    refine ⟨fun g hg => ?_, by rw [hq]; simp⟩
    obtain rfl := Option.some.inj (hf.symm.trans hg)
    rw [hcar.handshake_eq]
    exact ho hsy

/-- **Every step keeps it.** -/
theorem lasting : Lasting Greeted where
  connect := fun {w ds h} hc hg now => by
    refine hg.submitted (submitted_connect hc now) ?_ ?_ (fun _ => rfl) now
    · exact dispatchIfIdle_known (w.session.queue syncPacket true) now
    · exact dispatchIfIdle_sync (w.session.queue syncPacket true) now
  send := fun {w w' ds h protocol packetType payload now} hc hg hs => by
    obtain ⟨hsy, -, hsync, b, -, -, -, hsub⟩ := submitted_send hc hs
    have hk : w'.session.known = w.session.known := by
      have hs' := w.send_session protocol packetType payload now
      rw [hs, Option.map_some] at hs'
      obtain ⟨b', -, -, -, -, heq⟩ := send_eq_some.mp hs'.symm
      rw [heq, dispatchIfIdle_known]
      rfl
    -- a session that nobody has greeted sends nothing
    refine hg.submitted hsub hk hsync (fun hno => ?_) now
    rw [hsy] at hno
    cases hno
  take := fun hc hg r now => hg.take hc r now
  tick := fun _ hg now => hg.tick now
  withBuf := fun hg _ => ⟨hg.before, hg.after⟩
  pollOutbound := fun {w h} hg => by
    unfold Watched.pollOutbound Session.pollOutbound
    cases w.session.outbound with
    | nil => exact hg
    | cons b rest => exact ⟨hg.before, hg.after⟩
  pollEvent := fun {w h} hg => by
    unfold Watched.pollEvent Session.pollEvent
    cases w.session.events with
    | nil => exact hg
    | cons e rest => exact ⟨hg.before, hg.after⟩

end Greeted

/-! ## Which `ss` lines are well formed -/

/-- The fields of `ss<sync>,<block>,<version>` after its `ss`: two numbers below `2^16`, white
space around them allowed, and any text, which may hold commas and is trimmed. -/
def SsFields (rest : Bytes) (sync block : Nat) (version : Str) : Prop :=
  ∃ syncStr bsizeStr versionStr : Str,
    rest = asBytes (syncStr ++ ',' :: (bsizeStr ++ ',' :: versionStr))
      ∧ ',' ∉ syncStr ∧ ',' ∉ bsizeStr ∧ parseUnsigned (2 ^ 16) (trim syncStr) = some sync
      ∧ parseUnsigned (2 ^ 16) (trim bsizeStr) = some block ∧ trim versionStr = version

theorem parseSs_of_fields {rest : Bytes} {sync block : Nat} {version : Str}
    (h : SsFields rest sync block version) :
    parseSs rest = some (UInt16.ofNat sync, UInt16.ofNat block, version) := by
  obtain ⟨syncStr, bsizeStr, versionStr, rfl, h1, h2, h3, h4, h5⟩ := h
  unfold parseSs
  rw [fromUtf8_asBytes]
  dsimp only
  rw [splitn3_append versionStr h1 h2]
  dsimp only
  rw [h3]
  dsimp only
  rw [h4]
  dsimp only
  rw [h5]

theorem fields_of_parseSs {rest : Bytes} {p : UInt16 × UInt16 × Str} (h : parseSs rest = some p) :
    ∃ sync block version, SsFields rest sync block version := by
  unfold parseSs at h
  cases h0 : fromUtf8 rest with
  | none => rw [h0] at h; cases h
  | some s =>
    rw [h0] at h
    dsimp only at h
    cases h1 : splitn3 ',' s with
    | none => rw [h1] at h; cases h
    | some q =>
      obtain ⟨syncStr, bsizeStr, versionStr⟩ := q
      rw [h1] at h
      dsimp only at h
      cases h2 : parseUnsigned (2 ^ 16) (trim syncStr) with
      | none => rw [h2] at h; cases h
      | some sync =>
        rw [h2] at h
        dsimp only at h
        cases h3 : parseUnsigned (2 ^ 16) (trim bsizeStr) with
        | none => rw [h3] at h; cases h
        | some block =>
          obtain ⟨hs, hb, rfl⟩ := splitn3_eq_some.mp h1
          exact ⟨sync, block, trim versionStr, syncStr, bsizeStr, versionStr,
            fromUtf8_eq_some.mp h0, hs, hb, h2, h3, rfl⟩

/-- No line is both `ss` and one of the numbered ones. -/
theorem classify_ss (rest : Bytes) :
    classify ([0x73, 0x73] ++ rest)
      = match parseSs rest with
        | some (newSync, block, version) => .ss (newSync % syncMod).toUInt8 block version
        | none => .noise := by
  unfold classify
  rw [show stripPrefix ([0x73, 0x73] ++ rest) [0x6F, 0x6B] = none from rfl,
    show stripPrefix ([0x73, 0x73] ++ rest) [0x72, 0x73] = none from rfl]
  dsimp only [Option.bind_none]
  rewrite [stripPrefix_append]
  cases hp : parseSs rest with
  | none =>
    dsimp only
    rw [hp]
  | some p =>
    dsimp only
    rw [hp]

/-- A well-formed `ss` line is one, its counter taken modulo 256. -/
theorem classify_fields {rest : Bytes} {sync block : Nat} {version : Str}
    (h : SsFields rest sync block version) :
    classify ([0x73, 0x73] ++ rest)
      = .ss (UInt8.ofNat (sync % 256)) (UInt16.ofNat block) version := by
  rw [classify_ss, parseSs_of_fields h]
  dsimp only
  congr 1
  apply UInt8.toNat_inj.mp
  rw [UInt16.toNat_toUInt8, UInt16.toNat_mod, UInt16.toNat_ofNat', UInt8.toNat_ofNat']
  show sync % 65536 % 256 % 256 = sync % 256 % 256
  omega

/-- A line that starts with `ss` goes to `handle_ss`. -/
theorem processLine_ss (s : Session) (rest : Bytes) (now : Instant) :
    s.processLine ([0x73, 0x73] ++ rest) now = s.handleSs rest now := by
  rw [processLine_eq, classify_ss, handleSs_eq]
  cases parseSs rest with
  | none => rfl
  | some p => rfl

theorem handleSs_malformed {rest : Bytes}
    (h : ∀ sync block version, ¬ SsFields rest sync block version) (s : Session) (now : Instant) :
    s.handleSs rest now = s := by
  have hnone : parseSs rest = none := by
    cases hp : parseSs rest with
    | none => rfl
    | some p =>
      obtain ⟨sync, block, version, hf⟩ := fields_of_parseSs hp
      exact absurd hf (h sync block version)
  rw [handleSs_eq, hnone]

/-- Any other line that starts with `ss` is nothing. -/
theorem processLine_malformed {rest : Bytes}
    (h : ∀ sync block version, ¬ SsFields rest sync block version) (s : Session) (now : Instant) :
    s.processLine ([0x73, 0x73] ++ rest) now = s :=
  (processLine_ss s rest now).trans (handleSs_malformed h s now)

theorem mem_greetings_iff {h : List Mark} {sync : UInt8} {block : UInt16} {version : Str} :
    (sync, block, version) ∈ greetings h ↔ .read (.ss sync block version) ∈ h := by
  constructor
  · intro hm
    obtain ⟨m, hm, hg⟩ := List.mem_filterMap.mp hm
    cases m with
    | read r =>
      cases r with
      | ss sync' block' version' => cases hg; exact hm
      | _ => cases hg
    | _ => cases hg
  · intro hm
    exact List.mem_filterMap.mpr ⟨_, hm, rfl⟩

/--
**The law of the counter and the handshake.** In every run since construction or a reset: the
session is synced, and knows a block size and a version, exactly when a well-formed `ss` line
was read; before that its counter is 0 and it has told no ack; afterwards block size and
version are those of the last such line, and the counter is that line's plus the number of
acks told since, modulo 256. What counts as well formed is `SsFields`, and an `ss` line that is
not leaves the session as it was.
-/
theorem handshake_law (s : Session) (ops : List Op) (w : Watched)
    (hr : (Watched.start s.reset).run ops = some w) :
    (w.session.isSynced = w.session.maxBlockSize.isSome
        ∧ w.session.isSynced = w.session.protocolVersion.isSome
        ∧ (w.session.isSynced = true ↔ ∃ sync block version,
            .read (.ss sync block version) ∈ Watched.journal ops (Watched.start s.reset)))
      ∧ (w.session.isSynced = false → w.session.sync = 0
          ∧ acksIn (Watched.journal ops (Watched.start s.reset)) = 0)
      ∧ (∀ sync block version,
          (greetings (Watched.journal ops (Watched.start s.reset))).getLast?
              = some (sync, block, version) →
            w.session.maxBlockSize = some block ∧ w.session.protocolVersion = some version
              ∧ w.session.sync.toNat = (sync.toNat
                + acksIn (sinceGreeting (Watched.journal ops (Watched.start s.reset)))) % 256)
      ∧ (∀ rest sync block version, SsFields rest sync block version →
          classify ([0x73, 0x73] ++ rest)
            = .ss (UInt8.ofNat (sync % 256)) (UInt16.ofNat block) version)
      ∧ ∀ rest, (∀ sync block version, ¬ SsFields rest sync block version) →
          ∀ (s : Session) (now : Instant), s.processLine ([0x73, 0x73] ++ rest) now = s := by
  have hg := Greeted.lasting.run (conserved_start s) (Greeted.start s) hr
  rw [List.nil_append] at hg
  generalize Watched.journal ops (Watched.start s.reset) = h at hg
  refine ⟨?_, ?_, ?_, fun rest sync block version => classify_fields,
    fun rest hno s now => processLine_malformed hno s now⟩
  · -- synced means that there was a greeting
    cases hlast : (greetings h).getLast? with
    | none =>
      obtain ⟨hk, -⟩ := hg.before hlast
      obtain ⟨h1, hk⟩ := Prod.mk.inj hk
      obtain ⟨h2, h3⟩ := Prod.mk.inj hk
      refine ⟨by rw [h1, h2]; rfl, by rw [h1, h3]; rfl, ?_⟩
      rw [h1]
      refine ⟨fun hf => (nomatch hf), ?_⟩
      rintro ⟨sync, block, version, hm⟩
      have hmem := mem_greetings_iff.mpr hm
      rw [List.getLast?_eq_none_iff.mp hlast] at hmem
      cases hmem
    | some g =>
      obtain ⟨sync, block, version⟩ := g
      obtain ⟨hk, -⟩ := hg.after sync block version hlast
      obtain ⟨h1, hk⟩ := Prod.mk.inj hk
      obtain ⟨h2, h3⟩ := Prod.mk.inj hk
      refine ⟨by rw [h1, h2]; rfl, by rw [h1, h3]; rfl, fun _ => ?_, fun _ => h1⟩
      exact ⟨sync, block, version, mem_greetings_iff.mp (List.mem_of_getLast? hlast)⟩
  · -- no greeting: the counter is where it was, and nothing was acked
    intro hsy
    cases hlast : (greetings h).getLast? with
    | none =>
      obtain ⟨-, hc, ha, -⟩ := hg.before hlast
      exact ⟨hc, ha⟩
    | some g =>
      obtain ⟨sync, block, version⟩ := g
      have h1 := congrArg Prod.fst (hg.after sync block version hlast).1
      rw [show w.session.known.1 = w.session.isSynced from rfl, hsy] at h1
      cases h1
  · -- the last greeting, and the acks since
    intro sync block version hlast
    obtain ⟨hk, hc⟩ := hg.after sync block version hlast
    obtain ⟨-, hk⟩ := Prod.mk.inj hk
    obtain ⟨h2, h3⟩ := Prod.mk.inj hk
    refine ⟨h2, h3, ?_⟩
    rw [hc, UInt8.toNat_add, UInt8.toNat_ofNat']
    exact Nat.add_mod_mod _ _ _

/-- Two greetings, the second with a comma in its version and a counter past 255, and an ack
after each. -/
def greetedTwice : List Op :=
  [.connect 0, .feed ("ss5,512,1.0\n".toUTF8.data.toList) 1, .send 1 0 [] 2,
    .feed ("ok5\nss65535,256, 2,0 \n".toUTF8.data.toList) 3, .send 1 0 [] 4,
    .feed ("ok255\nss7,99999,3\n".toUTF8.data.toList) 5]

theorem handshake_law_greetedTwice :
    ∃ w, (Watched.start Session.new.reset).run greetedTwice = some w
      ∧ w.session.maxBlockSize = some 256 ∧ w.session.protocolVersion = some ['2', ',', '0']
      ∧ w.session.sync.toNat = (255 + 1) % 256 := by
  have hsome : ((Watched.start Session.new.reset).run greetedTwice).isSome := by decide +kernel
  obtain ⟨w, hw⟩ := Option.isSome_iff_exists.mp hsome
  have hlast : (greetings (Watched.journal greetedTwice
      (Watched.start Session.new.reset))).getLast? = some (255, 256, ['2', ',', '0']) := by
    decide +kernel
  have hacks : acksIn (sinceGreeting (Watched.journal greetedTwice
      (Watched.start Session.new.reset))) = 1 := by
    decide +kernel
  have h := (handshake_law Session.new greetedTwice w hw).2.2.1 255 256 ['2', ',', '0'] hlast
  rw [hacks] at h
  exact ⟨w, hw, h⟩

end MarlinTransfer
