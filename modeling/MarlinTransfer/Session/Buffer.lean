import MarlinTransfer.Session.Effects

/-!
# The bytes of unfinished lines

What arrives is cut into lines, and what no line feed completes waits. Only `feed`
touches what waits, chunking makes no difference to it, and it never holds a line feed.
Whatever waits can be disposed of: a byte that is no text turns it into noise.
-/

namespace MarlinTransfer

open Codec Text Session

namespace Session

@[simp] theorem withBuf_self (s : Session) : s.withBuf s.inboundBuf = s := rfl

theorem dispatchIfIdle_inboundBuf (s : Session) (now : Instant) :
    (s.dispatchIfIdle now).inboundBuf = s.inboundBuf := by
  have h := dispatchIfIdle_withBuf s s.inboundBuf now
  rw [withBuf_self] at h
  rw [h]
  rfl

theorem connect_inboundBuf (s : Session) (now : Instant) :
    (s.connect now).inboundBuf = s.inboundBuf := dispatchIfIdle_inboundBuf _ now

theorem send_inboundBuf {s s' : Session} {protocol packetType : UInt8} {payload : Bytes}
    {now : Instant} (h : s.send protocol packetType payload now = some s') :
    s'.inboundBuf = s.inboundBuf := by
  obtain ⟨b, -, -, -, -, rfl⟩ := send_eq_some.mp h
  exact dispatchIfIdle_inboundBuf _ now

theorem tick_inboundBuf (s : Session) (now : Instant) :
    (s.tick now).inboundBuf = s.inboundBuf := by
  unfold tick
  split
  · rfl
  · split_ifs
    · exact dispatchIfIdle_inboundBuf _ now
    · rfl
    · rfl

theorem pollOutbound_inboundBuf (s : Session) : s.pollOutbound.2.inboundBuf = s.inboundBuf := by
  unfold pollOutbound
  split <;> rfl

theorem pollEvent_inboundBuf (s : Session) : s.pollEvent.2.inboundBuf = s.inboundBuf := by
  unfold pollEvent
  split <;> rfl

/-- **Chunking makes no difference** to what a session becomes. -/
theorem feed_append (s : Session) (a b : Bytes) (now : Instant) :
    s.feed (a ++ b) now = (s.feed a now).feed b now := by
  have hcut := Lines.cut_append 0x0A (s.inboundBuf ++ a) b
  rw [List.append_assoc] at hcut
  rw [feed_eq s (a ++ b), feed_eq s a]
  rw [feed_eq ((s.takeAll (replies (s.inboundBuf ++ a)) now).withBuf _) b]
  show _ = ((((s.takeAll _ now).withBuf _).takeAll (replies (_ ++ b)) now)).withBuf _
  rw [takeAll_withBuf]
  unfold replies
  rw [hcut, List.map_append, takeAll_append]
  rfl

end Session

namespace Watched

/-- A byte that is no line feed waits. -/
theorem feed_byte {w : Watched} {b : UInt8} (hbuf : (0x0A : UInt8) ∉ w.session.inboundBuf)
    (hb : b ≠ 0x0A) (now : Instant) :
    w.feed [b] now = w.withBuf (w.session.inboundBuf ++ [b]) := by
  have hno : (0x0A : UInt8) ∉ w.session.inboundBuf ++ [b] := by
    intro hm
    rcases List.mem_append.mp hm with hm | hm
    · exact hbuf hm
    · exact hb (List.mem_singleton.mp hm).symm
  unfold feed replies
  rw [Lines.cut_of_notMem hno]
  rfl

/-- A line feed completes the line that waits. -/
theorem feed_lf {w : Watched} (hbuf : (0x0A : UInt8) ∉ w.session.inboundBuf) (now : Instant) :
    w.feed [0x0A] now = (w.take (reply w.session.inboundBuf) now).withBuf [] := by
  have hcut : Lines.cut 0x0A (w.session.inboundBuf ++ [0x0A]) = ([w.session.inboundBuf], []) :=
    Lines.cut_append_sep [] hbuf
  unfold feed replies
  rw [hcut]
  rfl

end Watched

/-- No operation leaves a complete line behind. -/
theorem unfinished_step {w w' : Watched} (h : (0x0A : UInt8) ∉ w.session.inboundBuf) {op : Op}
    (hs : w.step op = some w') : (0x0A : UInt8) ∉ w'.session.inboundBuf := by
  cases op with
  | connect now =>
    cases hs
    rw [Watched.connect_session, connect_inboundBuf]
    exact h
  | send protocol packetType payload now =>
    have hs' := w.send_session protocol packetType payload now
    rw [show w.send protocol packetType payload now = some w' from hs, Option.map_some] at hs'
    rw [send_inboundBuf hs'.symm]
    exact h
  | feed bytes now =>
    cases hs
    exact (Lines.notMem_cut 0x0A _).2
  | tick now =>
    cases hs
    show (0x0A : UInt8) ∉ (w.session.tick now).inboundBuf
    rw [tick_inboundBuf]
    exact h
  | pollOutbound =>
    cases hs
    rw [Watched.pollOutbound_session, pollOutbound_inboundBuf]
    exact h
  | pollEvent =>
    cases hs
    rw [Watched.pollEvent_session, pollEvent_inboundBuf]
    exact h

theorem unfinished_run {ops : List Op} {w w' : Watched}
    (h : (0x0A : UInt8) ∉ w.session.inboundBuf) (hr : w.run ops = some w') :
    (0x0A : UInt8) ∉ w'.session.inboundBuf :=
  Watched.run_invariant (P := fun w => (0x0A : UInt8) ∉ w.session.inboundBuf)
    (fun h hs => unfinished_step h hs) h hr

/-! ## Disposing of what waits -/

/-- What is left of bytes with a byte that is no text, past a prefix that is. -/
theorem ff_mem_of_stripPrefix {line pre rest : Bytes} (hm : (0xFF : UInt8) ∈ line)
    (hp : (0xFF : UInt8) ∉ pre) (h : stripPrefix line pre = some rest) : (0xFF : UInt8) ∈ rest := by
  unfold stripPrefix at h
  split_ifs at h with hpre
  obtain ⟨tail, rfl⟩ := List.isPrefixOf_iff_prefix.mp hpre
  rw [List.drop_left] at h
  rw [← Option.some.inj h]
  exact (List.mem_append.mp hm).resolve_left hp

theorem parseDecimalU8_eq_none_of_ff {b : Bytes} (h : (0xFF : UInt8) ∈ b) :
    parseDecimalU8 b = none := by
  unfold parseDecimalU8
  split_ifs
  · rfl
  · rw [fromUtf8_eq_none_of_ff h]

/-- A line with a byte that is no text means nothing. -/
theorem classify_ff {line : Bytes} (h : (0xFF : UInt8) ∈ line) : classify line = .noise := by
  have hnum : ∀ pre : Bytes, (0xFF : UInt8) ∉ pre →
      (stripPrefix line pre).bind parseDecimalU8 = none := by
    intro pre hp
    cases hs : stripPrefix line pre with
    | none => rfl
    | some rest => exact parseDecimalU8_eq_none_of_ff (ff_mem_of_stripPrefix h hp hs)
  unfold classify
  rw [hnum _ (by decide), hnum _ (by decide)]
  dsimp only
  cases hs : stripPrefix line [0x73, 0x73] with
  | some rest =>
    have hrest := ff_mem_of_stripPrefix h (by decide) hs
    have hss : parseSs rest = none := by
      unfold parseSs
      rw [fromUtf8_eq_none_of_ff hrest]
    dsimp only
    rw [hss]
  | none =>
    dsimp only
    rw [if_neg, fromUtf8_eq_none_of_ff h]
    rintro rfl
    exact absurd h (by decide)

theorem reply_ff (buf : Bytes) : reply (buf ++ [0xFF]) = .noise := by
  have hstrip : stripLineEndings (buf ++ [0xFF]) = buf ++ [0xFF] := by
    unfold stripLineEndings
    rw [List.rdropWhile_concat_neg _ _ _ (by decide)]
  unfold reply
  rw [hstrip, if_neg (by simp)]
  exact classify_ff (by simp)

namespace Watched

/-- Lines fed after the byte that is no text are taken for what they are. -/
theorem feed_lines {w : Watched} (hbuf : (0x0A : UInt8) ∉ w.session.inboundBuf)
    {ls : List Bytes} (hl : ∀ x ∈ ls, (0x0A : UInt8) ∉ x) (now : Instant) :
    w.feed (Lines.unlines 0x0A ([0xFF] :: ls)) now
      = (w.takeAll (ls.map reply) now).withBuf [] := by
  have hff : (0x0A : UInt8) ∉ w.session.inboundBuf ++ [0xFF] := by
    rw [List.mem_append]
    rintro (h | h)
    · exact hbuf h
    · revert h
      decide
  have hcut : Lines.cut 0x0A (w.session.inboundBuf ++ Lines.unlines 0x0A ([0xFF] :: ls))
      = ((w.session.inboundBuf ++ [0xFF]) :: ls, []) := by
    have hun : w.session.inboundBuf ++ Lines.unlines 0x0A ([0xFF] :: ls)
        = Lines.unlines 0x0A ((w.session.inboundBuf ++ [0xFF]) :: ls) ++ [] := by
      simp
    rw [hun, Lines.cut_unlines _ (by simp)]
    intro x hx
    rcases List.mem_cons.mp hx with rfl | hx
    · exact hff
    · exact hl x hx
  unfold feed replies
  rw [hcut, List.map_cons, reply_ff, takeAll_cons]
  -- noise moves nothing
  rw [show w.take .noise now = w from after_self w]

end Watched

end MarlinTransfer
