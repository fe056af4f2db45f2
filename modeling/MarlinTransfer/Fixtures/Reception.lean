import MarlinTransfer.Fixtures.FakeDevice

/-!
# What a receive loop makes of a stream of packets

The loop of the fake device is the receive loop of a stable decoder, with a handler that
leaves the buffer alone. So a stream of encoded packets, cut in any way, is handled packet
by packet and leaves nothing behind.
-/

namespace MarlinTransfer

open Codec Text Incremental

namespace FakeDevice

/-! ## The handler and the buffer -/

/-- The device with another buffer. -/
def withInbound (d : FakeDevice) (buf : Bytes) : FakeDevice := { d with inbound := buf }

@[simp] theorem withInbound_inbound (d : FakeDevice) (buf : Bytes) :
    (d.withInbound buf).inbound = buf := rfl

@[simp] theorem withInbound_withInbound (d : FakeDevice) (buf buf' : Bytes) :
    (d.withInbound buf).withInbound buf' = d.withInbound buf' := rfl

theorem withInbound_self (d : FakeDevice) : d.withInbound d.inbound = d := rfl

theorem writeSuccess_withInbound (d : FakeDevice) (buf : Bytes) :
    (d.withInbound buf).writeSuccess = d.writeSuccess.withInbound buf := by
  unfold writeSuccess
  show (if d.behaviour.skipPftOnTerminal then _ else _) = _
  split_ifs <;> rfl

theorem readOpen_withInbound (d : FakeDevice) (buf payload : Bytes) :
    (d.withInbound buf).readOpen payload = (d.readOpen payload).withInbound buf := by
  unfold readOpen
  split_ifs <;> rfl

theorem answerOpen_withInbound (d : FakeDevice) (buf : Bytes) :
    (d.withInbound buf).answerOpen = d.answerOpen.withInbound buf := by
  unfold answerOpen
  show (if d.behaviour.busyOnNextOpen then _ else if d.behaviour.failOnNextOpen then _ else _) = _
  split_ifs <;> rfl

/-- **The handler works beside the buffer.** -/
theorem handle_withInbound (d : FakeDevice) (buf : Bytes) (pkt : Packet) :
    (d.withInbound buf).handle pkt = (d.handle pkt).withInbound buf := by
  unfold handle
  show (if some pkt.sync = d.behaviour.resendOnceForSync then _ else _) = _
  split_ifs
  · rfl
  split
  · rfl
  · rfl
  · rfl
  · rw [readOpen_withInbound, answerOpen_withInbound]
    rfl
  · show ((FakeDevice.withInbound { d with closed := true } buf).writeSuccess).writeLine _ = _
    rw [writeSuccess_withInbound]
    rfl
  · rfl
  · show ((FakeDevice.withInbound { d with aborted := true } buf).writeSuccess).writeLine _ = _
    rw [writeSuccess_withInbound]
    rfl
  · rfl

theorem handle_inbound (d : FakeDevice) (pkt : Packet) : (d.handle pkt).inbound = d.inbound := by
  have h := handle_withInbound d d.inbound pkt
  rw [withInbound_self] at h
  rw [h, withInbound_inbound]

/-! ## The loop -/

/-- What a turn of the loop does to the device beside its buffer. -/
def turn (d : FakeDevice) : Turn Packet → FakeDevice
  | .message pkt => d.handle pkt
  | .resync => d

theorem turns_withInbound (buf : Bytes) (ts : List (Turn Packet)) (d : FakeDevice) :
    ts.foldl turn (d.withInbound buf) = (ts.foldl turn d).withInbound buf := by
  induction ts generalizing d with
  | nil => rfl
  | cons t ts ih =>
    rw [List.foldl_cons, List.foldl_cons]
    cases t with
    | message pkt =>
      show ts.foldl turn ((d.withInbound buf).handle pkt) = _
      rw [handle_withInbound]
      exact ih _
    | resync => exact ih d

theorem turns_messages (ps : List Packet) (d : FakeDevice) :
    (ps.map .message).foldl turn d = ps.foldl handle d :=
  List.foldl_map

/-- **The loop of `feed` is the receive loop**, given fuel for every byte of the buffer. -/
theorem loop_eq {buf rest : Bytes} {ts : List (Turn Packet)}
    (h : Receives Codec.verdict buf ts rest) (d : FakeDevice) {fuel : Nat} (hf : buf.length < fuel) :
    loop fuel (d.withInbound buf) = some (ts, (ts.foldl turn d).withInbound rest) := by
  induction h generalizing d fuel with
  | stop hw =>
    obtain ⟨need, hneed⟩ := hw
    obtain ⟨have_, hd⟩ := decode_of_more hneed
    obtain ⟨fuel, rfl⟩ := Nat.exists_eq_add_of_lt hf
    rw [loop, withInbound_inbound, hd]
    rfl
  | @message buf rest pkt n ts hv hr ih =>
    obtain ⟨hpos, hle⟩ := stable_verdict.consumes hv
    obtain ⟨fuel, rfl⟩ := Nat.exists_eq_succ_of_ne_zero (show fuel ≠ 0 by omega)
    rw [loop, withInbound_inbound, decode_of_done hv]
    dsimp only
    rw [if_pos hle]
    show (loop fuel (((d.withInbound (buf.drop n))).handle pkt)).map _ = _
    rw [handle_withInbound, ih (d.handle pkt) (by rw [List.length_drop]; omega)]
    rfl
  | @resync b buf rest e ts hv hr ih =>
    obtain ⟨err, hd, -, hfinal⟩ := decode_of_bad hv
    obtain ⟨fuel, rfl⟩ := Nat.exists_eq_succ_of_ne_zero (show fuel ≠ 0 by omega)
    rw [List.length_cons] at hf
    rw [loop, withInbound_inbound, hd]
    cases err with
    | incomplete need have_ => exact absurd rfl (hfinal need have_)
    | _ =>
      show (loop fuel (d.withInbound buf)).map _ = _
      rw [ih d (by omega)]
      rfl

theorem feed_eq {d : FakeDevice} {bytes rest : Bytes} {ts : List (Turn Packet)}
    (h : Receives Codec.verdict (d.inbound ++ bytes) ts rest) :
    d.feed bytes = some (ts, (ts.foldl turn d).withInbound rest) :=
  loop_eq h d (Nat.lt_succ_self _)

theorem feedAll_eq {d : FakeDevice} {buf rest : Bytes} {chunks : List Bytes}
    {ts : List (Turn Packet)} (h : ReceivesAll Codec.verdict buf chunks ts rest) :
    (d.withInbound buf).feedAll chunks = some (ts, (ts.foldl turn d).withInbound rest) := by
  induction h generalizing d with
  | nil => rfl
  | @cons buf chunk rest rest' chunks ts ts' h _ ih =>
    rw [feedAll, feed_eq h, turns_withInbound, withInbound_withInbound]
    show ((((ts.foldl turn d).withInbound rest).feedAll chunks).bind fun r =>
      some (ts ++ r.1, r.2)) = _
    rw [ih, List.foldl_append]
    rfl

/-- **However a stream is cut**, a device that waits for more makes the same turns on it and
ends up the same, also where the stream is broken. -/
theorem feedAll_flatten {d : FakeDevice} (hw : Waits Codec.verdict d.inbound)
    (chunks : List Bytes) : d.feedAll chunks = d.feed chunks.flatten := by
  obtain ⟨ts, rest, h⟩ := stable_verdict.receivesAll d.inbound chunks
  rw [feed_eq (h.flatten stable_verdict hw)]
  exact feedAll_eq (d := d) h

end FakeDevice

/-! ## Streams of packets -/

/-- The encodings of packets, one appended to the other. -/
def encodeAll (ps : List Packet) (out : Bytes) : Bytes :=
  ps.foldl (fun out p => (encode p out).2) out

theorem encodeAll_eq {ps : List Packet} (h : ∀ p ∈ ps, p.Valid) (out : Bytes) :
    encodeAll ps out = out ++ ps.flatMap Packet.wire := by
  induction ps generalizing out with
  | nil => exact (List.append_nil out).symm
  | cons p ps ih =>
    rw [encodeAll, List.foldl_cons, encode_valid (h p List.mem_cons_self)]
    rw [List.flatMap_cons, ← List.append_assoc]
    exact ih (fun q hq => h q (List.mem_cons_of_mem _ hq)) _

theorem receives_wire {ps : List Packet} (h : ∀ p ∈ ps, p.Valid) :
    Receives Codec.verdict (ps.flatMap Packet.wire) (ps.map .message) [] := by
  refine stable_verdict.receives_encoded fun p hp => ?_
  have hd := decode_wire (h p hp) []
  rw [List.append_nil] at hd
  rw [Codec.verdict, hd, p.wire_length]

/--
**Incremental decoding.**

A device with an empty buffer that is fed the encodings of packets, in chunks of any size,
handles exactly these packets in their order, is left with an empty buffer and never drops
a byte. Underneath: a verdict other than `Incomplete` stands whatever comes; `Incomplete`
says how long the buffer is and asks for more, the same until that much is there, and once
more at most, when it was the header that was missing; a packet that is cut short never
asks for more than the packet has.
-/
theorem incremental_decoding :
    (∀ (d : FakeDevice) (ps : List Packet) (chunks : List Bytes), d.inbound = [] →
        (∀ p ∈ ps, Packet.new p.sync p.protocol p.packetType p.payload = .ok p) →
        chunks.flatten = encodeAll ps [] →
          d.feedAll chunks = some (ps.map .message, ps.foldl FakeDevice.handle d)
            ∧ (ps.foldl FakeDevice.handle d).inbound = [])
    ∧ (∀ (buf more : Bytes) (r : Except DecodeError (Packet × Nat)), decode buf = some r →
        (∀ need have_, r ≠ .error (.incomplete need have_)) → decode (buf ++ more) = some r)
    ∧ (∀ (buf : Bytes) (need have_ : Nat), decode buf = some (.error (.incomplete need have_)) →
        have_ = buf.length ∧ have_ < need
          ∧ (∀ more : Bytes, (buf ++ more).length < need →
              decode (buf ++ more) = some (.error (.incomplete need (buf ++ more).length)))
          ∧ (∀ more : Bytes, need ≤ (buf ++ more).length →
              ∃ r, decode (buf ++ more) = some r ∧ (Final r ∨ ∃ need',
                r = .error (.incomplete need' (buf ++ more).length)
                  ∧ need = headerLen ∧ need < need'
                  ∧ ∀ more' : Bytes, need' ≤ (buf ++ more ++ more').length →
                      ∃ r', decode (buf ++ more ++ more') = some r' ∧ Final r')))
    ∧ (∀ (p : Packet), Packet.new p.sync p.protocol p.packetType p.payload = .ok p →
        ∀ (n : Nat) (bytes : Bytes), encode p [] = (.ok n, bytes) → ∀ k < bytes.length,
          ∃ need ≤ n, decode (bytes.take k) = some (.error (.incomplete need k))) := by
  refine ⟨?_, fun buf more r h hf => decode_append h hf more, ?_, ?_⟩
  · intro d ps chunks hd hps hch
    have hv : ∀ p ∈ ps, p.Valid := fun p hp => (Packet.new_eq_ok.mp (hps p hp)).2
    have hbuf : ∀ d : FakeDevice, (ps.foldl FakeDevice.handle d).inbound = d.inbound := by
      clear hps hch hv
      induction ps with
      | nil => exact fun d => rfl
      | cons p ps ih => exact fun d => (ih _).trans (d.handle_inbound p)
    refine ⟨?_, (hbuf d).trans hd⟩
    -- the encodings are a stream of valid packets
    have hr : Receives Codec.verdict (d.inbound ++ chunks.flatten) (ps.map .message) [] := by
      rw [hd, hch, encodeAll_eq hv, List.nil_append, List.nil_append]
      exact receives_wire hv
    have hw : Waits Codec.verdict d.inbound := by
      rw [hd]
      exact stable_verdict.nil
    rw [FakeDevice.feedAll_flatten hw, FakeDevice.feed_eq hr, FakeDevice.turns_messages]
    congr 2
    rw [FakeDevice.withInbound, ← hd, ← hbuf d]
  · intro buf need have_ h
    -- `Incomplete`: below what is asked for nothing changes, and there it is decided
    obtain ⟨rfl, hlt, -⟩ := incomplete_cases h
    refine ⟨rfl, hlt, fun more hmore => decode_append_short h hmore, fun more hmore => ?_⟩
    obtain ⟨r, hr, hf | ⟨need', rfl, hneed, hlt', ha⟩⟩ := decode_append_long h hmore
    · exact ⟨r, hr, .inl hf⟩
    · exact ⟨_, hr, .inr ⟨need', rfl, hneed, hlt', fun more' hmore' =>
        (ha.append more').final hmore'⟩⟩
  · intro p hp n bytes henc k hk
    have hv := (Packet.new_eq_ok.mp hp).2
    rw [encode_valid hv, List.nil_append] at henc
    obtain ⟨hn, rfl⟩ := Prod.mk.inj henc
    obtain rfl := Except.ok.inj hn
    rw [p.wire_length] at hk
    exact decode_take_wire hv hk

/-- A SYNC and a WRITE, cut in a header, between the packets and in a payload. -/
theorem incremental_decoding_cut :
    (FakeDevice.new 512 ['1'] 0).feedAll
        [(encodeAll [⟨0, 0, 1, []⟩, ⟨0, 1, 3, [7, 8]⟩] []).take 3,
          ((encodeAll [⟨0, 0, 1, []⟩, ⟨0, 1, 3, [7, 8]⟩] []).drop 3).take 5,
          ((encodeAll [⟨0, 0, 1, []⟩, ⟨0, 1, 3, [7, 8]⟩] []).drop 8).take 9,
          (encodeAll [⟨0, 0, 1, []⟩, ⟨0, 1, 3, [7, 8]⟩] []).drop 17]
      = some ([.message ⟨0, 0, 1, []⟩, .message ⟨0, 1, 3, [7, 8]⟩],
        [⟨0, 0, 1, []⟩, ⟨0, 1, 3, [7, 8]⟩].foldl FakeDevice.handle (FakeDevice.new 512 ['1'] 0)) := by
  refine (incremental_decoding.1 _ [⟨0, 0, 1, []⟩, ⟨0, 1, 3, [7, 8]⟩] _ rfl ?_ ?_).1
  · intro p hp
    rcases List.mem_cons.mp hp with rfl | hp
    · rfl
    · obtain rfl := List.mem_singleton.mp hp
      rfl
  · decide +kernel

end MarlinTransfer
