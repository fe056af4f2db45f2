import MarlinTransfer.Fixtures.Reception

/-!
# The listing of a capture

`examples/inspect.rs`: it goes through a captured stream with `decode`, prints every packet with
its offset, skips a byte where there is none, and breaks off where the capture is incomplete. It is
the receive loop of a device once more, over a whole file and with an offset instead of a buffer.
-/

namespace MarlinTransfer

open Codec Incremental

/-- A line the inspector prints. -/
inductive Finding where
  | packet (offset : Nat) (pkt : Packet)
  | incomplete (offset need have_ : Nat)
  | error (offset : Nat) (e : DecodeError)

/-- What a receive loop makes of it. -/
def Finding.turn : Finding → Option (Turn Packet)
  | .packet _ pkt => some (.message pkt)
  | .incomplete _ _ _ => none
  | .error _ _ => some .resync

/-- The loop of `main`; `none` where `decode` panics. -/
def inspectFrom (bytes : Bytes) : Nat → Nat → Option (List Finding)
  | 0, _ => none
  | fuel + 1, offset =>
    if offset < bytes.length then
      match decode (bytes.drop offset) with
      | none => none
      | some (.ok (pkt, consumed)) =>
        (inspectFrom bytes fuel (offset + consumed)).map (.packet offset pkt :: ·)
      | some (.error (.incomplete need have_)) => some [.incomplete offset need have_]
      | some (.error e) => (inspectFrom bytes fuel (offset + 1)).map (.error offset e :: ·)
    else some []

/-- `main`. Every turn takes at least a byte, so the fuel is enough. -/
def inspect (bytes : Bytes) : Option (List Finding) := inspectFrom bytes (bytes.length + 1) 0

/-- A listing that accounts for every byte from an offset on, but for those it leaves. -/
inductive Accounts : Nat → Bytes → List Finding → Bytes → Prop where
  | done (offset : Nat) : Accounts offset [] [] []
  | incomplete (offset need : Nat) {left : Bytes} (hne : left ≠ []) (hneed : left.length < need) :
      Accounts offset left [.incomplete offset need left.length] left
  | packet (offset : Nat) {pkt : Packet} {rest left : Bytes} {fs : List Finding} (hv : pkt.Valid)
      (h : Accounts (offset + pkt.wireLen) rest fs left) :
      Accounts offset (pkt.wire ++ rest) (.packet offset pkt :: fs) left
  | error (offset : Nat) {b : UInt8} {e : DecodeError} {rest left : Bytes} {fs : List Finding}
      (hd : decode (b :: rest) = some (.error e)) (h : Accounts (offset + 1) rest fs left) :
      Accounts offset (b :: rest) (.error offset e :: fs) left

/-- **The loop lists what a receive loop takes**, from any offset. -/
theorem inspectFrom_eq (bytes : Bytes) {buf rest : Bytes} {ts : List (Turn Packet)}
    (h : Receives Codec.verdict buf ts rest) :
    ∀ (fuel offset : Nat), bytes.drop offset = buf → offset ≤ bytes.length → buf.length < fuel →
      ∃ fs, inspectFrom bytes fuel offset = some fs ∧ fs.filterMap Finding.turn = ts
        ∧ Accounts offset buf fs rest := by
  induction h with
  | @stop buf hw =>
    intro fuel offset hdrop hle hf
    obtain ⟨need, hneed⟩ := hw
    obtain ⟨have_, hd⟩ := decode_of_more hneed
    obtain ⟨rfl, hlt, -⟩ := incomplete_cases hd
    obtain ⟨fuel, rfl⟩ := Nat.exists_eq_succ_of_ne_zero (show fuel ≠ 0 by omega)
    have hlen : bytes.length - offset = buf.length := by rw [← hdrop, List.length_drop]
    cases buf with
    | nil =>
      refine ⟨[], ?_, rfl, .done offset⟩
      rw [inspectFrom, if_neg (by rw [List.length_nil] at hlen; omega)]
    | cons b buf =>
      refine ⟨_, ?_, rfl, .incomplete offset need (List.cons_ne_nil b buf) hlt⟩
      rw [inspectFrom, if_pos (by rw [List.length_cons] at hlen; omega), hdrop, hd]
  | @message buf rest pkt n ts hv _ ih =>
    intro fuel offset hdrop hle hf
    obtain ⟨hpos, hn⟩ := stable_verdict.consumes hv
    obtain ⟨hvalid, rfl, -, htake⟩ := wire_of_decode (decode_of_done hv)
    obtain ⟨fuel, rfl⟩ := Nat.exists_eq_succ_of_ne_zero (show fuel ≠ 0 by omega)
    have hlen : bytes.length - offset = buf.length := by rw [← hdrop, List.length_drop]
    obtain ⟨fs, hfs, hts, hacc⟩ := ih fuel (offset + pkt.wireLen)
      (by rw [← hdrop, List.drop_drop]) (by omega) (by rw [List.length_drop]; omega)
    refine ⟨.packet offset pkt :: fs, ?_, ?_, ?_⟩
    · rw [inspectFrom, if_pos (by omega), hdrop, decode_of_done hv]
      dsimp only
      rw [hfs]
      rfl
    · rw [← hts]
      rfl
    · have h := Accounts.packet offset hvalid hacc
      rw [← htake, List.take_append_drop] at h
      exact h
  | @resync b buf rest e ts hv _ ih =>
    intro fuel offset hdrop hle hf
    obtain ⟨err, hd, -, hfinal⟩ := decode_of_bad hv
    obtain ⟨fuel, rfl⟩ := Nat.exists_eq_succ_of_ne_zero (show fuel ≠ 0 by omega)
    have hlen : bytes.length - offset = buf.length + 1 := by rw [← List.length_drop, hdrop]; rfl
    rw [List.length_cons] at hf
    have hrest : bytes.drop (offset + 1) = buf := by
      rw [← List.tail_drop, hdrop]
      rfl
    obtain ⟨fs, hfs, hts, hacc⟩ := ih fuel (offset + 1) hrest (by omega) (by omega)
    refine ⟨.error offset err :: fs, ?_, by rw [← hts]; rfl, .error offset hd hacc⟩
    rw [inspectFrom, if_pos (by omega), hdrop, hd]
    cases err with
    | incomplete need have_ => exact absurd rfl (hfinal need have_)
    | _ =>
      dsimp only
      rw [hfs]
      rfl

/--
**The inspector shows what a device takes.** The listing of a capture never fails and accounts for
every byte: the packets at their offsets, one byte for every error, and the end where it is
incomplete. A device with an empty buffer that is fed the same bytes, cut into chunks anywhere,
makes the same turns, one for every packet and every error listed, and has the incomplete end in
its buffer.
-/
theorem inspect_shows_what_is_taken (chunks : List Bytes) (d : FakeDevice) (hd : d.inbound = []) :
    ∃ fs ts d', inspect chunks.flatten = some fs ∧ d.feedAll chunks = some (ts, d')
      ∧ fs.filterMap Finding.turn = ts ∧ d' = (ts.foldl FakeDevice.turn d).withInbound d'.inbound
      ∧ Accounts 0 chunks.flatten fs d'.inbound := by
  obtain ⟨ts, rest, h⟩ := stable_verdict.receives chunks.flatten
  obtain ⟨fs, hfs, hts, hacc⟩ := inspectFrom_eq chunks.flatten h _ 0 rfl (Nat.zero_le _)
    (Nat.lt_succ_self _)
  have hwaits : Waits Codec.verdict d.inbound := by
    rw [hd]
    exact stable_verdict.nil
  have hfeed : d.feedAll chunks = some (ts, (ts.foldl FakeDevice.turn d).withInbound rest) := by
    rw [FakeDevice.feedAll_flatten hwaits]
    exact FakeDevice.feed_eq (by rw [hd]; exact h)
  exact ⟨fs, ts, _, hfs, hfeed, hts, rfl, hacc⟩

/-- A byte that belongs to nothing, the SYNC packet, and the beginning of another. -/
def capturedChunks : List Bytes := [[7, 0xAD, 0xB5, 0], [1, 0, 0, 1, 3], [0xAD, 0xB5]]

theorem inspect_shows_what_is_taken_capturedChunks :
    ∃ fs, inspect capturedChunks.flatten = some fs
      ∧ fs.filterMap Finding.turn = [.resync, .message ⟨0, 0, 1, []⟩]
      ∧ Accounts 0 capturedChunks.flatten fs [0xAD, 0xB5] := by
  obtain ⟨fs, ts, d', hfs, hfeed, hts, -, hacc⟩ :=
    inspect_shows_what_is_taken capturedChunks (FakeDevice.new 512 ['1'] 0) rfl
  have hrun : ((FakeDevice.new 512 ['1'] 0).feedAll capturedChunks).map
      (fun r => (r.1, r.2.inbound)) = some ([.resync, .message ⟨0, 0, 1, []⟩], [0xAD, 0xB5]) := by
    decide +kernel
  rw [hfeed] at hrun
  obtain ⟨rfl, hin⟩ := Prod.mk.inj (Option.some.inj hrun)
  rw [show d'.inbound = _ from hin] at hacc
  exact ⟨fs, hfs, hts, hacc⟩

end MarlinTransfer
