import MarlinTransfer.Adapters.Keeping
import MarlinTransfer.Fixtures.Noise
import MarlinTransfer.Fixtures.Service
import MarlinTransfer.Lib.Interaction

/-!
# The upload helper on a fake device

The transport of the adapter tests feeds what is written to a device and reads back what the
device replies. On it a drive loop is one dialogue of two turns, the packet and its answer: the
loop returns in its first turn, so neither the budget of the loop nor the clock ever matter.
-/

namespace MarlinTransfer

open Codec Text Session Triple Interaction

/-! ## The transport -/

/-- `DeviceTransport`. -/
structure DeviceTransport where
  device : FakeDevice
  pending : Bytes
  deriving DecidableEq

namespace DeviceTransport

/-- Its `write`; `none` is a panic of the device. -/
def write (t : DeviceTransport) (buf : Bytes) : Option DeviceTransport :=
  (t.device.feed buf).map fun r => { t with device := r.2 }

/-- What the device has replied is fetched when nothing is left of the last time. -/
def refill (t : DeviceTransport) : DeviceTransport :=
  if t.pending.isEmpty then
    let (reply, device) := t.device.drainReply
    ⟨device, reply⟩
  else t

/-- A read off what is pending, into a buffer of `readBufLen` bytes. -/
def take (t : DeviceTransport) : ReadResult × DeviceTransport :=
  if t.pending.isEmpty then (.timedOut, t)
  else
    (.data (t.pending.take readBufLen) (List.length_take_le _ _),
      { t with pending := t.pending.drop readBufLen })

/-- Its `read`. -/
def read (t : DeviceTransport) : ReadResult × DeviceTransport := t.refill.take

/-- The transport as the partner of a program; a panic ends the conversation. -/
def machine : Machine (Option DeviceTransport) Bytes ReadResult where
  hear t buf := t.bind fun t => t.write buf
  answer t := match t with
    | none => (.failed 0, none)
    | some t => let (r, t) := t.read; (r, some t)

/-- What a fed device replies is what is read next. -/
theorem read_reply {d : FakeDevice} (hd : d.Listens) {ls : List Str} (hls : ls ≠ [])
    (hlen : (Lines.unlines 0x0A (ls.map asBytes)).length ≤ readBufLen) :
    (DeviceTransport.mk (d.replying ls) []).read
      = (.data (Lines.unlines 0x0A (ls.map asBytes)) hlen, ⟨d, []⟩) := by
  have hne : (Lines.unlines 0x0A (ls.map asBytes)).isEmpty = false := by
    cases ls with
    | nil => exact absurd rfl hls
    | cons l ls => simp
  have hrefill : (DeviceTransport.mk (d.replying ls) []).refill
      = ⟨d, Lines.unlines 0x0A (ls.map asBytes)⟩ := by
    unfold refill
    rw [if_pos (show ([] : Bytes).isEmpty = true from rfl)]
    dsimp only
    rw [hd.drainReply ls]
  unfold read
  rw [hrefill, take, if_neg (by rw [hne]; decide)]
  congr 2
  · exact List.take_of_length_le hlen
  · exact List.drop_of_length_le hlen

/-- A packet is handled when it is written, and its answer is read. -/
theorem follows_packet {d d' : FakeDevice} (hd : d.inbound = []) {p : Packet} (hp : p.Valid)
    {ls : List Str} (hans : d.handle p = d'.replying ls) (hd' : d'.Listens) (hls : ls ≠ [])
    (hlen : (Lines.unlines 0x0A (ls.map asBytes)).length ≤ readBufLen) :
    Interaction.Follows machine (some ⟨d, []⟩)
      [.tells p.wire, .hears (.data (Lines.unlines 0x0A (ls.map asBytes)) hlen)]
      (some ⟨d', []⟩) := by
  have hwrite : machine.hear (some ⟨d, []⟩) p.wire = some ⟨d'.replying ls, []⟩ := by
    show (d.feed p.wire).map _ = _
    rw [FakeDevice.feed_wire hd hp, hans]
    rfl
  have hread : machine.answer (some ⟨d'.replying ls, []⟩)
      = (.data (Lines.unlines 0x0A (ls.map asBytes)) hlen, some ⟨d', []⟩) :=
    congrArg (fun r => (r.1, some r.2)) (read_reply hd' hls hlen)
  refine .tells ?_
  rw [hwrite]
  exact .hears hread .nil

/-- **The handshake**: the trigger stays in the buffer of the device, which drops it when the SYNC
packet comes behind it. -/
theorem follows_greeting {d : FakeDevice} (hd : d.Listens) {p : Packet} (hp : p.Valid)
    {ls : List Str} (hans : d.handle p = d.replying ls) (hls : ls ≠ [])
    (hlen : (Lines.unlines 0x0A (ls.map asBytes)).length ≤ readBufLen) :
    Interaction.Follows machine (some ⟨d, []⟩)
      [.tells Blocking.binaryTrigger, .tells p.wire,
        .hears (.data (Lines.unlines 0x0A (ls.map asBytes)) hlen)]
      (some ⟨d, []⟩) := by
  have htrigger : d.feed Blocking.binaryTrigger
      = some ([], d.withInbound Blocking.binaryTrigger) := by
    have hr : Incremental.Receives Codec.verdict (d.inbound ++ Blocking.binaryTrigger) []
        Blocking.binaryTrigger := by
      rw [hd.inbound, List.nil_append]
      exact .stop ⟨headerLen, rfl⟩
    exact FakeDevice.feed_eq hr
  have hnoise : Noise Blocking.binaryTrigger := noise_of_no_token (by decide)
  have hpacket : (d.withInbound Blocking.binaryTrigger).feed p.wire
      = some (streamTurns [(Blocking.binaryTrigger, p)], d.replying ls) := by
    have hlegible : Legible [(Blocking.binaryTrigger, p)] := by
      simpa [Legible] using ⟨hnoise, hp⟩
    have hr := receives_stream hlegible
    rw [streamBytes, List.flatMap_singleton] at hr
    rw [FakeDevice.feed_eq hr, turns_stream, ← hans]
    show some (_, ((d.withInbound _).handle p).withInbound []) = _
    rw [FakeDevice.handle_withInbound, FakeDevice.withInbound_withInbound, ← hd.inbound,
      ← d.handle_inbound p, FakeDevice.withInbound_self]
  have hread : machine.answer (some ⟨d.replying ls, []⟩)
      = (.data (Lines.unlines 0x0A (ls.map asBytes)) hlen, some ⟨d, []⟩) :=
    congrArg (fun r => (r.1, some r.2)) (read_reply hd hls hlen)
  refine .tells (.tells ?_)
  have hheard : machine.hear (machine.hear (some ⟨d, []⟩) Blocking.binaryTrigger) p.wire
      = some ⟨d.replying ls, []⟩ := by
    show ((d.feed Blocking.binaryTrigger).map _).bind _ = _
    rw [htrigger]
    show ((d.withInbound Blocking.binaryTrigger).feed p.wire).map _ = _
    rw [hpacket]
    rfl
  rw [hheard]
  exact .hears hread .nil

end DeviceTransport

/-! ## What the device says fits into one read -/

namespace FakeDevice

/-- A version short enough for the lines that carry it. -/
def Brief (d : FakeDevice) : Prop := (asBytes d.protocolVersion).length + 38 ≤ readBufLen

variable {d : FakeDevice}

/-- A field, its separator, and what comes behind. -/
theorem length_field (field : Str) {sep : Char} (h : sep.toNat < 128) (more : Str) :
    (asBytes (field ++ sep :: more)).length
      = (asBytes field).length + 1 + (asBytes more).length := by
  rw [asBytes_append, asBytes_ascii h, List.length_append, List.length_cons]
  omega

theorem length_decimal_byte (n : UInt8) : (asBytes (decimal n.toNat)).length ≤ 3 :=
  length_decimal_le (by decide) (Nat.lt_trans n.toNat_lt (by decide))

theorem length_okText (n : UInt8) : (asBytes (okText n)).length ≤ 5 := by
  rw [okText, asBytes_append, List.length_append]
  exact Nat.add_le_add (by decide : (asBytes ['o', 'k']).length ≤ 2) (length_decimal_byte n)

theorem length_render (spec : CompressionSpec) : (asBytes spec.render).length ≤ 18 := by
  cases spec with
  | none => decide
  | heatshrink window lookahead =>
    have hpre : (asBytes "heatshrink,".toList).length = 11 :=
      (length_asBytes_ascii (by simp)).trans (by decide)
    have hparams := length_field (decimal window.toNat) (by decide : (',' : Char).toNat < 128)
      (decimal lookahead.toNat)
    have hw := length_decimal_byte window
    have hl := length_decimal_byte lookahead
    unfold CompressionSpec.render
    dsimp only
    rw [asBytes_append, List.length_append, hparams, hpre]
    omega

theorem length_versionText (version spec : Str) :
    (asBytes (versionText version spec)).length
      = 12 + ((asBytes version).length + 1 + (asBytes spec).length) := by
  have hpre : (asBytes "PFT:version:".toList).length = 12 :=
    (length_asBytes_ascii (by simp)).trans (by decide)
  have hfields := length_field version (by decide : (':' : Char).toNat < 128) spec
  unfold versionText
  rw [asBytes_append, List.length_append, hfields, hpre]

theorem length_openText (d : FakeDevice) : (asBytes d.openText).length ≤ 11 := by
  unfold openText
  split_ifs
  · exact Nat.le_trans (Nat.le_of_eq (length_asBytes_ascii (by simp))) (by decide)
  · exact Nat.le_trans (Nat.le_of_eq (length_asBytes_ascii (by simp))) (by decide)
  · exact Nat.le_trans (Nat.le_of_eq (length_asBytes_ascii (by simp))) (by decide)

theorem length_terminalLines (d : FakeDevice) :
    (Lines.unlines 0x0A (d.terminalLines.map asBytes)).length ≤ 12 := by
  unfold terminalLines
  split_ifs
  · exact Nat.zero_le _
  · rw [List.map_singleton, Lines.unlines_cons, Lines.unlines_nil, List.length_append,
      length_asBytes_ascii (by simp)]
    decide

theorem Brief.greeting (h : d.Brief) :
    (Lines.unlines 0x0A
      ([ssText d.initialSync d.maxBlockSize d.protocolVersion].map asBytes)).length
      ≤ readBufLen := by
  have hs := length_decimal_byte d.initialSync
  have hb : (asBytes (decimal d.maxBlockSize.toNat)).length ≤ 5 :=
    length_decimal_le (by decide) (Nat.lt_trans d.maxBlockSize.toNat_lt (by decide))
  have hpre : (asBytes ['s', 's']).length = 2 := by decide
  unfold Brief at h
  rw [List.map_singleton, Lines.unlines_cons, Lines.unlines_nil, ssText, asBytes_append,
    List.length_append, List.length_append, List.length_singleton, hpre,
    length_field (decimal d.initialSync.toNat) (by decide),
    length_field (decimal d.maxBlockSize.toNat) (by decide)]
  omega

theorem Brief.answer (h : d.Brief) (op : Operation) (n : UInt8) :
    (Lines.unlines 0x0A ((d.verdictLines op ++ [okText n]).map asBytes)).length ≤ readBufLen := by
  have hok := length_okText n
  have hlines : (Lines.unlines 0x0A ((d.verdictLines op).map asBytes)).length + 6 ≤ readBufLen := by
    unfold Brief at h
    cases op with
    | query =>
      have hspec := length_render d.compression
      rw [verdictLines, List.map_singleton, Lines.unlines_cons, Lines.unlines_nil,
        List.length_append, List.length_singleton, length_versionText]
      omega
    | «open» =>
      rw [verdictLines, List.map_singleton, Lines.unlines_cons, Lines.unlines_nil,
        List.length_append, List.length_singleton]
      have := d.length_openText
      omega
    | write => exact (by decide : 0 + 6 ≤ readBufLen)
    | close => exact Nat.le_trans (Nat.add_le_add_right d.length_terminalLines 6) (by decide)
    | abort => exact Nat.le_trans (Nat.add_le_add_right d.length_terminalLines 6) (by decide)
  rw [List.map_append, Lines.unlines_append, List.length_append, List.map_singleton,
    Lines.unlines_cons, Lines.unlines_nil, List.length_append, List.length_singleton]
  omega

theorem Brief.served (h : d.Brief) (payload : Bytes) (op : Operation) :
    (d.served payload op).Brief := by
  have hversion : (d.served payload op).protocolVersion = d.protocolVersion := by
    cases op with
    | «open» =>
      show (d.readOpen payload).rearmed.protocolVersion = _
      unfold rearmed readOpen
      split_ifs <;> rfl
    | _ => rfl
  unfold Brief
  rw [hversion]
  exact h

end FakeDevice

/-! ## The program's side of the dialogue -/

/-- The environment with other reads. -/
def Env.reading (env : Env) (reads : Nat → ReadResult) : Env := { env with reads }

/-- What the helper wrote, and how often it has read. -/
def observer : Observer World Bytes where
  read := World.reads
  told w := written w.log

/-- Where the code is: the transfer and its session. -/
structure World.At (ft : FileTransfer) (s : Session) (w : World) : Prop where
  transfer : w.ft = ft
  session : w.session = s
  conserved : ∃ ds, Conserved w.transfer.host ds

/-- The dialogue of a program from one place, on a script that breaks off with an error. -/
abbrev Says (ft : FileTransfer) (s : Session) {α : Type} (x : (Nat → ReadResult) → Upload α)
    (tr : List (Interaction.Turn Bytes ReadResult)) (Q : Except Stop α → World → Prop) : Prop :=
  Converses observer (.failed 0) (World.At ft s) x tr Q

/-- The host makes a step of its own. -/
theorem World.At.withHost {ft : FileTransfer} {s s' : Session} {w : World} (h : w.At ft s)
    {host : Watched} (hc : ∃ ds, Conserved host ds) (hs : host.session = s') :
    (w.withHost host).At ft s' :=
  ⟨h.transfer, hs, hc⟩

theorem World.At.pollOutbound {ft : FileTransfer} {s : Session} {w : World} (h : w.At ft s) :
    (w.withHost w.transfer.host.pollOutbound).At ft s.pollOutbound.2 := by
  obtain ⟨ds, hc⟩ := h.conserved
  refine h.withHost ⟨ds, hc.pollOutbound⟩ ?_
  rw [Watched.pollOutbound_session, ← h.session]
  rfl

namespace Blocking

variable {env : Env} {ft ft' : FileTransfer} {s s' : Session}

theorem says_now : Says ft s (fun f => now (env.reading f)) [] (Returns fun _ w => w.At ft s) := by
  refine .of_exec rfl fun script w h => ?_
  exact ⟨_, _, rfl, ⟨_, rfl, h.transfer, h.session, h.conserved⟩, rfl, (List.append_nil _).symm⟩

theorem says_writeAll (hw : ∀ k, env.writes k = none) (bytes : Bytes) :
    Says ft s (fun f => writeAll (env.reading f) bytes) [.tells bytes]
      (Returns fun _ w => w.At ft s) := by
  refine .of_exec rfl fun script w h => ?_
  refine ⟨_, _, exec_writeAll (env.reading script) hw bytes w,
    ⟨_, rfl, h.transfer, h.session, h.conserved⟩, rfl, ?_⟩
  exact written_append _ _

theorem says_read {bytes : Bytes} (fits : bytes.length ≤ readBufLen) :
    Says ft s (fun f => read (env.reading f)) [.hears (.data bytes fits)]
      (Returns fun b w => b = bytes ∧ w.At ft s) where
  whole script w h ha := by
    have hread : script w.reads = .data bytes fits := ha 0 Nat.zero_lt_one
    refine ⟨.ok bytes, { w with reads := w.reads + 1 }, ?_,
      ⟨bytes, rfl, rfl, h.transfer, h.session, h.conserved⟩, rfl, (List.append_nil _).symm⟩
    unfold read
    rw [exec_bind, exec_get]
    dsimp only [Env.reading]
    rw [exec_bind, exec_modify]
    dsimp only
    rw [hread]
    rfl
  broken script w tr₁ a tr₂ h htr _ hhalt := by
    obtain ⟨rfl, -⟩ : tr₁ = [] ∧ tr₂ = [] := by
      cases tr₁ with
      | nil => exact ⟨rfl, (List.cons.inj htr).2.symm⟩
      | cons t tr₁ => cases tr₁ <;> cases (List.cons.inj htr).2
    have hread : script w.reads = .failed 0 := hhalt
    refine ⟨.err (.io 0), { w with reads := w.reads + 1 }, ?_, (List.append_nil _).symm⟩
    unfold read
    rw [exec_bind, exec_get]
    dsimp only [Env.reading]
    rw [exec_bind, exec_modify]
    dsimp only
    rw [hread]
    rfl

theorem says_feed {bytes : Bytes} (hne : bytes ≠ []) (hs : ∀ now, s.feed bytes now = s') :
    Says ft s (fun f => feed (env.reading f) bytes) [] (Returns fun _ w => w.At ft s') := by
  refine .of_exec rfl fun script w h => ?_
  have hx : ∃ w', exec (feed (env.reading script) bytes) w = (.ok ⟨⟩, w')
      ∧ w' = { w.withHost (w.transfer.host.feed bytes (env.clock w.nows)) with
        nows := w.nows + 1
        log := w.log ++ hearings w.session (env.clock w.nows)
          (replies (w.session.inboundBuf ++ bytes)) } := by
    refine ⟨_, ?_, rfl⟩
    unfold feed
    rw [if_pos (List.length_pos_of_ne_nil hne)]
    rfl
  obtain ⟨w', hx, rfl⟩ := hx
  refine ⟨_, _, hx, ⟨_, rfl, ?_⟩, rfl, ?_⟩
  · obtain ⟨ds, hc⟩ := h.conserved
    refine ⟨h.transfer, ?_, hc.feed bytes _⟩
    show (w.transfer.host.feed bytes _).session = s'
    rw [Watched.feed_session, ← hs (env.clock w.nows), ← h.session]
    rfl
  · show written (w.log ++ _) = written w.log ++ []
    rw [written_append, written_hearings]

/-- **The packet that is outbound is written**, and nothing else is. -/
theorem says_flush (hw : ∀ k, env.writes k = none) {out : Bytes} (ho : s.outbound = [out]) :
    Says ft s (fun f => flush (env.reading f)) [.tells out]
      (Returns fun _ w => w.At ft { s with outbound := [] }) := by
  refine .of_exec rfl fun script w h => ?_
  have hpoll : s.pollOutbound = (some out, { s with outbound := [] }) := by
    unfold Session.pollOutbound
    rw [ho]
  have hone : w.session.pollOutbound.1 = some out := by rw [h.session, hpoll]
  have h1 := h.pollOutbound
  rw [hpoll] at h1
  -- the world once the packet is written
  let w₁ : World := { w.withHost w.transfer.host.pollOutbound with
    writes := w.writes + 1, log := w.log ++ [.wrote out] }
  have hat : w₁.At ft { s with outbound := [] } := ⟨h1.transfer, h1.session, h1.conserved⟩
  have h2 := hat.pollOutbound
  have hx : exec (flush (env.reading script)) w
      = (.ok ⟨⟩, w₁.withHost w₁.transfer.host.pollOutbound) := by
    have hwrite : exec (do writeAll (env.reading script) out; pure none : Upload (Option Unit))
        (w.withHost w.transfer.host.pollOutbound) = (.ok none, w₁) := by
      rw [exec_bind, exec_writeAll (env.reading script) hw]
      rfl
    have hfirst : exec pollOutbound w
        = (.ok (some out), w.withHost w.transfer.host.pollOutbound) := by
      rw [← hone]
      rfl
    have hsecond :
        exec pollOutbound w₁ = (.ok none, w₁.withHost w₁.transfer.host.pollOutbound) := by
      rw [← show w₁.session.pollOutbound.1 = none by rw [hat.session]; rfl]
      rfl
    unfold flush
    rw [exec_bind, exec_get]
    dsimp only
    rw [h.session, ho, List.length_singleton, exec_bind, exec_whileSome_next hfirst hwrite,
      exec_whileSome_done hsecond]
    rfl
  refine ⟨_, _, hx, ⟨_, rfl, h2⟩, rfl, ?_⟩
  exact written_append _ _

/-- One poll, from one place to another. -/
def Polls {γ : Type} (next : Upload (Option γ)) (ft : FileTransfer) (s : Session) (x : γ)
    (ft' : FileTransfer) (s' : Session) : Prop :=
  ∀ w : World, w.At ft s → ∃ w', exec next w = (.ok (some x), w') ∧ w'.At ft' s'
    ∧ w'.reads = w.reads ∧ w'.log = w.log

theorem polls_pollEvent {e : Event} (he : s.events = [e]) :
    Polls pollEvent ft s e ft { s with events := [] } := by
  intro w h
  have hpoll : w.session.pollEvent = (some e, { s with events := [] }) := by
    rw [h.session]
    unfold Session.pollEvent
    rw [he]
  obtain ⟨ds, hc⟩ := h.conserved
  refine ⟨w.withHost w.transfer.host.pollEvent, ?_, h.withHost ⟨ds, hc.pollEvent⟩ ?_, rfl, rfl⟩
  · rw [← show w.session.pollEvent.1 = some e by rw [hpoll]]
    rfl
  · rw [Watched.pollEvent_session]
    exact congrArg Prod.snd hpoll

theorem polls_poll {ev : FileEvent} (hp : ft.poll s = (some ev, ft', s')) :
    Polls poll ft s ev ft' s' := by
  intro w h
  obtain ⟨ds, hc⟩ := h.conserved
  have hpoll : w.ft.poll w.session = (some ev, ft', s') := by
    rw [h.transfer, h.session, hp]
  have heq := hpoll.symm.trans (Transfer.poll_eq hc)
  obtain ⟨-, heq⟩ := Prod.mk.inj heq
  obtain ⟨hft, hs⟩ := Prod.mk.inj heq
  refine ⟨w.polledFile, ?_, ⟨hft.symm, hs.symm, ?_⟩, rfl, rfl⟩
  · rw [← show (w.ft.poll w.session).1 = some ev by rw [hpoll]]
    rfl
  · exact Transfer.conserved_step (c := .poll) hc rfl

section Drive

variable {γ α : Type} {next : Upload (Option γ)} {answer : γ → Answer α} {giveUp : UploadError}
  {x : γ} {s₁ : Session} {out bytes : Bytes}

/-- What a loop makes of the answer to its packet. -/
def Answered (ft' : FileTransfer) (s' : Session) :
    Except UploadError α → Except Stop α → World → Prop
  | .ok a => Returns fun a' w => a' = a ∧ w.At ft' s'
  | .error e => Stops (.err e)

theorem says_answerAll (hnext : Polls next ft s₁ x ft' s') {r : Except UploadError α}
    (ha : answer x = some r) :
    Says ft s₁ (fun _ => answerAll next answer) []
      (match r with
        | .ok a => Returns fun a' w => a' = some a ∧ w.At ft' s'
        | .error e => Stops (.err e)) := by
  refine .of_exec rfl fun script w h => ?_
  obtain ⟨w', hx, hat, hreads, hlog⟩ := hnext w h
  have htold : written w'.log = written w.log ++ [] := by
    rw [hlog, List.append_nil]
  unfold answerAll
  rw [exec_bind, exec_get]
  dsimp only
  cases r with
  | ok a =>
    have hb : exec (respond (answer x)) w' = (.ok (some a), w') := by rw [ha]; rfl
    exact ⟨_, _, exec_whileSome_leave hx hb _, ⟨_, rfl, rfl, hat⟩, hreads, htold⟩
  | error e =>
    have hb : exec (respond (answer x)) w' = (.error (.err e), w') := by rw [ha]; rfl
    exact ⟨_, _, exec_whileSome_throw hx hb _, rfl, hreads, htold⟩

/-- **A drive loop on a device that answers**: the packet, and what it is answered. -/
theorem says_drive (hw : ∀ k, env.writes k = none) (ho : s.outbound = [out]) (hne : bytes ≠ [])
    (fits : bytes.length ≤ readBufLen)
    (hs : ∀ now, ({ s with outbound := [] } : Session).feed bytes now = s₁)
    (hnext : Polls next ft s₁ x ft' s') {r : Except UploadError α} (ha : answer x = some r) :
    Says ft s (fun f => drive (env.reading f) next answer giveUp)
      [.tells out, .hears (.data bytes fits)] (Answered ft' s' r) := by
  have hturn : Says ft s (fun f => turn (env.reading f) next answer)
      ([.tells out] ++ ([.hears (.data bytes fits)] ++ ([] ++ ([] ++ []))))
      (match r with
        | .ok a => Returns fun a' w => a' = some a ∧ w.At ft' s'
        | .error e => Stops (.err e)) := by
    refine (says_flush hw ho).bind _ fun _ => (says_read fits).bind_value ?_
    refine (says_feed hne hs).bind _ fun _ => ?_
    have hanswer := says_answerAll hnext ha
    cases r with
    | ok a =>
      refine hanswer.bind_value (.of_exec rfl fun script w h => ?_)
      exact ⟨_, _, rfl, ⟨_, rfl, rfl, h⟩, rfl, (List.append_nil _).symm⟩
    | error e => exact hanswer.bind_stops
  cases r with
  | ok a =>
    refine hturn.bind_value (.of_exec rfl fun script w h => ?_)
    exact ⟨_, _, rfl, ⟨_, rfl, rfl, h⟩, rfl, (List.append_nil _).symm⟩
  | error e => exact hturn.bind_stops

end Drive

end Blocking

/-! ## One request -/

/-- How a request is called. -/
def Request.call (r : Request) (now : Instant) : Call :=
  match r with
  | .query compression => .query compression now
  | .open name dummy => .open name dummy now
  | .write chunk => .write chunk now
  | .close => .close now
  | .abort => .abort now

theorem Transfer.step_call (t : Transfer) (r : Request) (now : Instant) :
    t.step (r.call now)
      = t.called r.operation (r.payload t.ft) (r.issue t.ft t.host.session now) := by
  cases r <;> rfl

namespace Blocking

variable {env : Env} {ft ft' : FileTransfer} {s s' : Session} {r : Request}

/-- The call of a request that is refused. -/
theorem says_call_none {now : Instant} (h : r.issue ft s now = none) :
    Says ft s (fun _ => call (r.call now)) [] (Stops .panic) := by
  refine .of_exec rfl fun script w hw => ?_
  have hstep : w.transfer.step (r.call now) = none := by
    rw [Transfer.step_call, show w.transfer.ft = ft from hw.transfer,
      show w.transfer.host.session = s from hw.session, h]
    rfl
  refine ⟨.error .panic, w, ?_, rfl, rfl, (List.append_nil _).symm⟩
  unfold call
  rw [exec_bind, exec_get]
  dsimp only
  rw [hstep]
  rfl

theorem says_call {now : Instant} (h : r.issue ft s now = some (ft', s')) :
    Says ft s (fun _ => call (r.call now)) [] (Returns fun _ w => w.At ft' s') := by
  refine .of_exec rfl fun script w hw => ?_
  obtain ⟨ds, hc⟩ := hw.conserved
  have hstep : ∃ t, w.transfer.step (r.call now) = some t ∧ t.ft = ft' ∧ t.host.session = s' := by
    rw [Transfer.step_call, show w.transfer.ft = ft from hw.transfer,
      show w.transfer.host.session = s from hw.session, h]
    exact ⟨_, rfl, rfl, rfl⟩
  obtain ⟨t, hstep, hft, hs⟩ := hstep
  refine ⟨.ok ⟨⟩, { w with transfer := t }, ?_,
    ⟨_, rfl, hft, hs, Transfer.conserved_step hc hstep⟩, rfl, (List.append_nil _).symm⟩
  unfold call
  rw [exec_bind, exec_get]
  dsimp only
  rw [hstep]
  rfl

/-- **A request and its answer.** -/
theorem says_request {α : Type} {rig rig' : Rig} {ev : FileEvent} (h : rig.Answered r ev rig')
    (hw : ∀ k, env.writes k = none)
    (fits : (Lines.unlines 0x0A ((rig.device.verdictLines r.operation
      ++ [okText rig.session.sync]).map asBytes)).length ≤ readBufLen)
    {answer : FileEvent → Answer α} (giveUp : UploadError) {res : Except UploadError α}
    (ha : answer ev = some res) :
    Says rig.ft rig.session
      (fun f => do
        call (r.call (← now (env.reading f)))
        drive (env.reading f) poll answer giveUp)
      [.tells (r.packet rig.ft rig.session.sync).wire, .hears (.data _ fits)]
      (Answered rig'.ft rig'.session res) := by
  have hcalled : ∀ now, Says rig.ft rig.session
      (fun f => do
        call (r.call now)
        drive (env.reading f) poll answer giveUp)
      ([] ++ [.tells (r.packet rig.ft rig.session.sync).wire, .hears (.data _ fits)])
      (Answered rig'.ft rig'.session res) := by
    intro now
    obtain ⟨f, hsync, hf, hissue⟩ := h.sent now
    refine (says_call hissue).bind _ fun _ => says_drive hw rfl (by simp) fits ?_
      (polls_poll h.polled) ha
    exact h.rest.feed hsync hf (FakeDevice.plain_verdictLines h.listens.oneLine _)
  exact says_now.bind _ hcalled

end Blocking

end MarlinTransfer
