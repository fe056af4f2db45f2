import MarlinTransfer.FileTransfer.Overtaken
import MarlinTransfer.Link.Script
import MarlinTransfer.Session.Lines

/-!
# A device that answers every copy

Over a link that loses nothing, a device that answers every copy of a data packet by one
`ok`, and every copy of a SYNC by one `ss`. A packet that was retransmitted is answered
twice, and the second `ok` is out of sync if it meets the next packet in flight. As long as
every packet is dispatched with no earlier `ok` outstanding, that cannot happen: whatever
`ok` arrives is one for the packet in flight.
-/

namespace MarlinTransfer

open Codec Text Runs Session

/-- `PFT:success`. -/
def successText : Str := "PFT:success".toList

/-- What a device says of itself. -/
structure Profile where
  block : UInt16
  version : Str
  /-- The compression it supports, as it spells it. -/
  compression : Str
  version_plain : ∀ c ∈ version, isLineEnding c = false ∧ c ≠ ':'
  compression_plain : ∀ c ∈ compression, isLineEnding c = false

namespace Profile

variable (profile : Profile)

/-- `PFT:version:<version>:<compression>`. -/
def versionText : Str :=
  "PFT:version:".toList ++ (profile.version ++ ':' :: profile.compression)

/-- The line that goes ahead of the `ok`, where the packet type requires one. -/
def announced (p : Packet) : List Str :=
  if p.protocol = protocolFileTransfer then
    if p.packetType = ptQuery then [profile.versionText]
    else if p.packetType = ptOpen ∨ p.packetType = ptClose ∨ p.packetType = ptAbort then
      [successText]
    else []
  else []

/-- The answer to a copy, `current` being the sync number the device is at. -/
def answer (current : UInt8) (bytes : Bytes) : List Bytes :=
  match decode bytes with
  | some (.ok (p, _)) =>
    if p.isSync then [ssLine current profile.block profile.version]
    else (profile.announced p).map asBytes ++ [okLine p.sync]
  | _ => []

/-- The lines of text a device may say. -/
def Says (line : Str) : Prop := line = profile.versionText ∨ line = successText

theorem says_announced {p : Packet} {line : Str} (h : line ∈ profile.announced p) :
    profile.Says line := by
  unfold announced at h
  split_ifs at h
  · exact .inl (List.mem_singleton.mp h)
  · exact .inr (List.mem_singleton.mp h)
  · cases h
  · cases h

/-- A text without line endings is no other than its lines. -/
theorem plain_versionText : ∀ c ∈ profile.versionText, isLineEnding c = false := by
  intro c hc
  unfold versionText at hc
  rcases List.mem_append.mp hc with hc | hc
  · have hprefix : ∀ c ∈ "PFT:version:".toList, isLineEnding c = false := by simp [isLineEnding]
    exact hprefix c hc
  · rcases List.mem_append.mp hc with hc | hc
    · exact (profile.version_plain c hc).1
    · rcases List.mem_cons.mp hc with rfl | hc
      · rfl
      · exact profile.compression_plain c hc

variable {profile}

theorem Says.plain {line : Str} (h : profile.Says line) : ∀ c ∈ line, isLineEnding c = false := by
  rcases h with rfl | rfl
  · exact profile.plain_versionText
  · have hall : ∀ c ∈ "PFT:success".toList, isLineEnding c = false := by simp [isLineEnding]
    exact hall

/-- What it says is read as text. -/
theorem Says.reply_eq {line : Str} (h : profile.Says line) : reply (asBytes line) = .text line := by
  have hend : line.rdropWhile isLineEnding = line := by
    rw [List.rdropWhile_eq_self_iff]
    intro hl
    simp only [h.plain _ (List.getLast_mem hl), Bool.false_eq_true, not_false_eq_true]
  have hhead : ∃ rest, line = 'P' :: rest := by
    rcases h with rfl | rfl
    · exact ⟨_, rfl⟩
    · exact ⟨_, rfl⟩
  obtain ⟨rest, rfl⟩ := hhead
  exact reply_text (by decide) (by decide) hend

theorem Says.lf_notMem {line : Str} (h : profile.Says line) : (0x0A : UInt8) ∉ asBytes line := by
  refine lf_notMem_asBytes fun hm => ?_
  have := h.plain _ hm
  cases this

theorem lf_notMem_answer {current : UInt8} {bytes : Bytes} :
    ∀ line ∈ profile.answer current bytes, (0x0A : UInt8) ∉ line := by
  intro line hm
  unfold answer at hm
  split at hm
  · split_ifs at hm
    · rw [List.mem_singleton.mp hm]
      refine lf_notMem_ssLine _ _ fun hv => ?_
      have := (profile.version_plain _ hv).1
      cases this
    · rcases List.mem_append.mp hm with hm | hm
      · obtain ⟨text, ht, rfl⟩ := List.mem_map.mp hm
        exact (profile.says_announced ht).lf_notMem
      · rw [List.mem_singleton.mp hm]
        exact lf_notMem_okLine _
  · cases hm

/-- A device of this profile: it answers every copy it receives, and however its sync number
moves, it says nothing unasked. -/
def device (profile : Profile) : Device UInt8 where
  hears current c _ lines := lines = profile.answer current c.2
  speaks _ _ _ := False
  hears_lines := by
    intro d c d' ls h line hm
    rw [h] at hm
    exact lf_notMem_answer line hm
  speaks_lines := fun h => h.elim

end Profile

/-- The sync number of the `ok` that answers a copy. -/
def okFor (bytes : Bytes) : Option UInt8 :=
  match decode bytes with
  | some (.ok (p, _)) => if p.isSync then none else some p.sync
  | _ => none

/-- The replies an answer is read as. -/
theorem Profile.reply_answer (profile : Profile) (current : UInt8) (bytes : Bytes) :
    (∃ block version, (profile.answer current bytes).map reply = [.ss current block version]
        ∧ okFor bytes = none)
      ∨ ((profile.answer current bytes).map reply = [] ∧ okFor bytes = none)
      ∨ ∃ p n, decode bytes = some (.ok (p, n)) ∧ okFor bytes = some p.sync
        ∧ (profile.answer current bytes).map reply
          = (profile.announced p).map .text ++ [.ok p.sync] := by
  unfold answer okFor
  split
  · rename_i p n hdec
    split_ifs with hs
    · exact .inl ⟨profile.block, trim profile.version, by
        rw [List.map_singleton, reply_ssLine], rfl⟩
    · refine .inr (.inr ⟨p, n, hdec, rfl, ?_⟩)
      rw [List.map_append, List.map_singleton, reply_okLine, List.map_map]
      congr 1
      exact List.map_congr_left fun line hl => (profile.says_announced hl).reply_eq
  · exact .inr (.inl ⟨rfl, rfl⟩)

/-! ## The condition -/

/-- The `ok`s of earlier packets have all been read when a packet is dispatched. -/
structure Settled (w w' : Wire UInt8) : Prop where
  /-- No copy that is on its way will be answered by one. -/
  forward : ∀ c ∈ w.forward, okFor c.2 = none
  /-- And none is on its way back. -/
  back : ∀ n, Reply.ok n ∉ w'.back

/-- The condition on a step: no packet is given up by it, and one that is dispatched by it is
dispatched with no earlier `ok` outstanding. -/
def Calm (w w' : Wire UInt8) : Prop :=
  w'.host.NoTimeout
    ∧ (w'.host.log.counters.length ≠ w.host.log.counters.length → Settled w w')

instance (w w' : Wire UInt8) : Decidable (Settled w w') :=
  decidable_of_iff ((∀ c ∈ w.forward, okFor c.2 = none)
      ∧ ∀ r ∈ w'.back, (match r with | .ok _ => false | _ => true) = true)
    ⟨fun ⟨h1, h2⟩ => ⟨h1, fun n hn => by simpa using h2 _ hn⟩,
      fun ⟨h1, h2⟩ => ⟨h1, fun r hr => by
        cases r with
        | ok n => exact absurd hr (h2 n)
        | _ => rfl⟩⟩

instance (w w' : Wire UInt8) : Decidable (Calm w w') :=
  inferInstanceAs (Decidable (_ ∧ _))

/-! ## The invariant -/

/-- The replies of such a device. -/
def Profile.Replies (profile : Profile) : Reply → Prop
  | .ok _ => True
  | .ss _ _ _ => True
  | .text line => profile.Says line
  | _ => False

/-- The events of a session that is told nothing else and stays in sync. -/
def Profile.Told (profile : Profile) : Event → Prop
  | .synced _ _ => True
  | .ack _ => True
  | .asciiLine line => profile.Says line ∨ ∃ n, line = okText n
  | _ => False

/-- The packet in flight and the `ok`s that are outstanding. -/
structure Answers (w : Wire UInt8) (f : InFlight) : Prop where
  own : ∀ n, okFor f.bytes = some n → f.isSyncHandshake = false ∧ n = f.sync
  forward : ∀ c ∈ w.forward, okFor c.2 = none ∨ c.2 = f.bytes
  back : ∀ n, Reply.ok n ∈ w.back → f.isSyncHandshake = false ∧ n = f.sync

/-- **The invariant**: every `ok` that is outstanding is one for the packet in flight. -/
structure InStep (profile : Profile) (w : Wire UInt8) : Prop where
  conserved : ∃ ds, Conserved w.host ds
  /-- What waits as a handshake is a SYNC. -/
  queued : ∀ q ∈ w.host.session.queued, q.isSyncHandshake = true → q.content = ⟨0, 1, []⟩
  current : ∀ f, w.host.session.inFlight = some f → Answers w f
  back : ∀ r ∈ w.back, profile.Replies r
  told : ∀ p ∈ w.host.log.emitted, profile.Told p.1

/-- The packet in flight is answered by its own number, unless it is a SYNC. -/
theorem Session.Carries.okFor_eq {f : InFlight} {q : Queued} {sync : UInt8} (hc : Carries f q sync)
    (hq : q.isSyncHandshake = true → q.content = ⟨0, 1, []⟩) :
    ∀ n, okFor f.bytes = some n → f.isSyncHandshake = false ∧ n = f.sync := by
  intro n hn
  have hdec := decode_wire (q.packet_valid sync) []
  rw [List.append_nil, ← hc.bytes_eq] at hdec
  unfold okFor at hn
  rw [hdec] at hn
  dsimp only at hn
  split_ifs at hn with hs
  refine ⟨?_, ?_⟩
  · rw [hc.handshake_eq]
    refine Bool.eq_false_iff.mpr fun hh => hs ?_
    obtain ⟨h1, h2, -⟩ := Content.mk.inj (hq hh)
    unfold Packet.isSync Queued.packet BytesBuilder.packet
    rw [h1, h2]
    rfl
  · rw [← Option.some.inj hn, hc.sync_eq]
    rfl

namespace InStep

variable {profile : Profile} {w w' : Wire UInt8}

theorem start (profile : Profile) (s : Session) (d : UInt8) :
    InStep profile (Link.start s d).wire where
  conserved := ⟨[], conserved_start s⟩
  queued := fun _ hq => (List.not_mem_nil hq).elim
  current := fun _ hf => nomatch hf
  back := fun _ hr => (List.not_mem_nil hr).elim
  told := fun _ hp => (List.not_mem_nil hp).elim

/-- A packet that is dispatched with nothing outstanding. -/
theorem answers_of_settled {f : InFlight} (hg : Settled w w')
    (hfw : ∀ c ∈ w'.forward, c ∈ w.forward ∨ c.2 = f.bytes)
    (hown : ∀ n, okFor f.bytes = some n → f.isSyncHandshake = false ∧ n = f.sync) :
    Answers w' f where
  own := hown
  forward := by
    intro c hc
    rcases hfw c hc with hc | hc
    · exact .inl (hg.forward c hc)
    · exact .inr hc
  back := fun n hn => absurd hn (hg.back n)

/-- A submission puts nothing new in flight, or a packet that is dispatched with
nothing outstanding. -/
theorem after_submitted (h : InStep profile w) {host : Watched} {q : Queued}
    (hs : Submitted q w.host host) (hg : Calm w (w.act host))
    (hcons : ∃ ds, Conserved host ds)
    (hq : q.isSyncHandshake = true → q.content = ⟨0, 1, []⟩) : InStep profile (w.act host) := by
  cases hs with
  | waits hbusy hf hqueue hl =>
    have hfw : (w.act host).forward = w.forward := Wire.act_forward_same (by rw [hl])
    refine ⟨hcons, ?_, ?_, h.back, ?_⟩
    · intro q' hq'
      rw [show (w.act host).host.session.queued = w.host.session.queued ++ [q] from hqueue] at hq'
      rcases List.mem_append.mp hq' with hq' | hq'
      · exact h.queued q' hq'
      · rw [List.mem_singleton.mp hq']
        exact hq
    · intro f hf'
      obtain ⟨h1, h2, h3⟩ := h.current f (by rw [← hf]; exact hf')
      exact ⟨h1, by rw [hfw]; exact h2, h3⟩
    · rw [show (w.act host).host.log = host.log from rfl, hl]
      exact h.told
  | launched f hidle hf hc hqueue hl =>
    have hfw : (w.act host).forward = w.forward ++ [(w.host.log.retired.length, f.bytes)] :=
      Wire.act_forward (by rw [hl])
    -- a dispatch happens with no earlier `ok` outstanding
    have hsettled : Settled w (w.act host) := by
      refine hg.2 ?_
      show host.log.counters.length ≠ _
      rw [hl, List.length_append]
      exact Nat.ne_of_gt (Nat.lt_succ_self _)
    refine ⟨hcons, ?_, ?_, h.back, ?_⟩
    · intro q' hq'
      rw [show (w.act host).host.session.queued = [] from hqueue] at hq'
      cases hq'
    · intro g hg'
      obtain rfl : f = g := Option.some.inj (hf.symm.trans hg')
      refine answers_of_settled hsettled (fun c hcm => ?_) (hc.okFor_eq hq)
      rw [hfw] at hcm
      rcases List.mem_append.mp hcm with hcm | hcm
      · exact .inl hcm
      · rw [List.mem_singleton.mp hcm]
        exact .inr rfl
    · rw [show (w.act host).host.log = host.log from rfl, hl]
      exact h.told

/-- Nothing is in flight, or a packet that was dispatched with nothing outstanding. -/
theorem after_retires (h : InStep profile w) (hg : Calm w w') {f : InFlight} {e : Event}
    (hr : Retires f e w.host w'.host) (hcons : ∃ ds, Conserved w'.host ds)
    (hfw : w'.forward = w.forward ++ w'.host.log.placed.drop w.host.log.placed.length)
    (hb : ∀ r ∈ w'.back, r ∈ w.back) (he : profile.Told e) : InStep profile w' := by
  have htold : ∀ p ∈ w'.host.log.emitted, profile.Told p.1 := by
    intro p hp
    rw [hr.emitted] at hp
    rcases List.mem_append.mp hp with hp | hp
    · exact h.told p hp
    · rw [List.mem_singleton.mp hp]
      exact he
  cases hr.resumes with
  | idle hq hq' hf hp hk =>
    refine ⟨hcons, ?_, ?_, fun r hr' => h.back r (hb r hr'), htold⟩
    · intro q hm
      rw [hq'] at hm
      cases hm
    · intro g hg'
      rw [hf] at hg'
      cases hg'
  | launch q f' hq hf hc hp hk =>
    -- the next packet goes out, with no earlier `ok` outstanding
    have hsettled : Settled w w' := by
      refine hg.2 ?_
      rw [hk, List.length_append]
      exact Nat.ne_of_gt (Nat.lt_succ_self _)
    refine ⟨hcons, ?_, ?_, fun r hr' => h.back r (hb r hr'), htold⟩
    · intro q' hm
      exact h.queued q' (by rw [hq]; exact List.mem_cons_of_mem _ hm)
    · intro g hg'
      obtain rfl : f' = g := Option.some.inj (hf.symm.trans hg')
      refine answers_of_settled hsettled (fun c hcm => ?_)
        (hc.okFor_eq (h.queued q (by rw [hq]; exact List.mem_cons_self)))
      rw [hfw, hp, List.drop_left] at hcm
      rcases List.mem_append.mp hcm with hcm | hcm
      · exact .inl hcm
      · rw [List.mem_singleton.mp hcm]
        exact .inr rfl

/-- Only what the host does not look at changed. -/
theorem of_untouched (h : InStep profile w) (hcons : ∃ ds, Conserved w'.host ds)
    (hu : Untouched w.host w'.host) (hfw : ∀ c ∈ w'.forward, c ∈ w.forward)
    (hb : ∀ r ∈ w'.back, r ∈ w.back) : InStep profile w' where
  conserved := hcons
  queued := by rw [hu.queued]; exact h.queued
  current := by
    intro f hf
    obtain ⟨h1, h2, h3⟩ := h.current f (by rw [← hu.inFlight]; exact hf)
    exact ⟨h1, fun c hc => h2 c (hfw c hc), fun n hn => h3 n (hb _ hn)⟩
  back := fun r hr => h.back r (hb r hr)
  told := by rw [hu.emitted]; exact h.told

theorem after_tick (h : InStep profile w) (now : Instant)
    (hg : Calm w (w.act (w.host.tick now))) : InStep profile (w.act (w.host.tick now)) := by
  obtain ⟨ds, hc⟩ := h.conserved
  cases ticked w.host now with
  | early heq =>
    have hact : w.act (w.host.tick now) = w := by
      rw [heq]
      unfold Wire.act
      simp
    rw [hact]
    exact h
  | late f now' hf hf' hq hsync hsy hl =>
    have hfw : (w.act (w.host.tick now)).forward
        = w.forward ++ [(w.host.log.retired.length, f.bytes)] := Wire.act_forward (by rw [hl])
    obtain ⟨h1, h2, h3⟩ := h.current f hf
    refine ⟨hc.tick now, ?_, ?_, h.back, ?_⟩
    · intro q hm
      rw [show (w.act (w.host.tick now)).host.session.queued = _ from hq] at hm
      exact h.queued q hm
    · intro g hg'
      obtain rfl : { f with lastSent := now' } = g := Option.some.inj (hf'.symm.trans hg')
      refine ⟨h1, fun c hcm => ?_, h3⟩
      rw [hfw] at hcm
      rcases List.mem_append.mp hcm with hcm | hcm
      · exact h2 c hcm
      · rw [List.mem_singleton.mp hcm]
        exact .inr rfl
    · rw [show (w.act (w.host.tick now)).host.log = (w.host.tick now).log from rfl, hl]
      exact h.told
  | expired f ht =>
    -- a calm run sees no timeout
    refine absurd rfl (hg.1 (.timeout f.sync, some w.host.log.retired.length) ?_ f.sync)
    show _ ∈ (w.host.tick now).log.emitted
    rw [ht.emitted]
    exact List.mem_append_right _ List.mem_cons_self

/-- **A reply is read**: an `ok` that arrives retires the packet in flight. -/
theorem after_read (h : InStep profile w) {r : Reply} {rest : List Reply} (buf : Bytes)
    (now : Instant) (hb : w.back = r :: rest)
    (hg : Calm w { w.act ((w.host.take r now).withBuf buf) with back := rest }) :
    InStep profile { w.act ((w.host.take r now).withBuf buf) with back := rest } := by
  obtain ⟨ds, hc⟩ := h.conserved
  have hcons : ∃ ds', Conserved ((w.host.take r now).withBuf buf) ds' := by
    obtain ⟨ds', hc'⟩ := hc.take r now
    exact ⟨ds', hc'.withBuf buf⟩
  have htail : ∀ r' ∈ rest, r' ∈ w.back := fun r' hr' => by
    rw [hb]
    exact List.mem_cons_of_mem _ hr'
  have hhead : r ∈ w.back := by
    rw [hb]
    exact List.mem_cons_self
  cases taken hc r now with
  | quiet ht hsync hsy hok hss =>
    have hfw : (w.act ((w.host.take r now).withBuf buf)).forward = w.forward :=
      Wire.act_forward_same (by rw [Watched.withBuf_log, ht.log])
    refine ⟨hcons, ?_, ?_, fun r' hr' => h.back r' (htail r' hr'), ?_⟩
    · intro q hm
      exact h.queued q (ht.queued ▸ hm)
    · intro f hf
      obtain ⟨h1, h2, h3⟩ := h.current f (ht.inFlight ▸ hf)
      exact ⟨h1, fun c hcm => h2 c (hfw ▸ hcm), fun n hn => h3 n (htail _ hn)⟩
    · intro p hp
      rw [show ({ w.act ((w.host.take r now).withBuf buf) with back := rest } : Wire UInt8).host.log
        = (w.host.take r now).log from rfl, ht.log] at hp
      rcases List.mem_append.mp hp with hp | hp
      · exact h.told p hp
      · obtain ⟨e, he, rfl⟩ := List.mem_map.mp hp
        have hr := h.back r hhead
        cases r with
        | ok n =>
          cases hf : w.host.session.inFlight with
          | none =>
            rw [hf] at he
            rw [List.mem_singleton.mp he]
            exact .inr ⟨n, rfl⟩
          | some f =>
            -- it is one for the packet in flight, which it would have retired
            obtain ⟨hflag, rfl⟩ := (h.current f hf).back n hhead
            exact absurd rfl (hok f hf hflag)
        | ss sync block version =>
          rw [List.mem_singleton.mp he]
          trivial
        | text line =>
          rw [List.mem_singleton.mp he]
          exact .inl hr
        | rs n => exact hr.elim
        | fe => exact hr.elim
        | noise => exact hr.elim
  | acked f hr hf ht =>
    exact h.after_retires hg (ht.withBuf buf) hcons rfl htail trivial
  | synced f sync block version hr hf ht =>
    exact h.after_retires hg (ht.withBuf buf) hcons rfl htail trivial

/-- **A copy is heard** and answered. -/
theorem after_hear (h : InStep profile w) {c : Nat × Bytes} {rest : List (Nat × Bytes)} {d : UInt8}
    (hq : w.forward = c :: rest) :
    InStep profile { w with
      forward := rest
      device := d
      back := w.back ++ (profile.answer w.device c.2).map reply } := by
  have htail : ∀ c' ∈ rest, c' ∈ w.forward := fun c' hc' => by
    rw [hq]
    exact List.mem_cons_of_mem _ hc'
  have hhead : c ∈ w.forward := by
    rw [hq]
    exact List.mem_cons_self
  refine ⟨h.conserved, h.queued, ?_, ?_, h.told⟩
  · intro f hf
    -- an `ok` that the answer adds is for the packet in flight, whose copy was heard
    obtain ⟨h1, h2, h3⟩ := h.current f hf
    refine ⟨h1, fun c' hc' => h2 c' (htail c' hc'), fun n hn => ?_⟩
    rcases List.mem_append.mp hn with hn | hn
    · exact h3 n hn
    · rcases profile.reply_answer w.device c.2 with ⟨block, version, heq, -⟩ | ⟨heq, -⟩ |
        ⟨p, m, hdec, hfor, heq⟩
      · rw [heq] at hn
        cases List.mem_singleton.mp hn
      · rw [heq] at hn
        cases hn
      · rw [heq] at hn
        have hn' : n = p.sync := by
          rcases List.mem_append.mp hn with hn | hn
          · obtain ⟨line, -, hl⟩ := List.mem_map.mp hn
            cases hl
          · exact Reply.ok.inj (List.mem_singleton.mp hn)
        rcases h2 c hhead with hnone | hbytes
        · rw [hnone] at hfor
          cases hfor
        · rw [hn']
          exact h1 p.sync (hbytes ▸ hfor)
  · intro r hr
    rcases List.mem_append.mp hr with hr | hr
    · exact h.back r hr
    · rcases profile.reply_answer w.device c.2 with ⟨block, version, heq, -⟩ | ⟨heq, -⟩ |
        ⟨p, m, hdec, hfor, heq⟩
      · rw [heq] at hr
        rw [List.mem_singleton.mp hr]
        trivial
      · rw [heq] at hr
        cases hr
      · rw [heq] at hr
        rcases List.mem_append.mp hr with hr | hr
        · obtain ⟨line, hl, rfl⟩ := List.mem_map.mp hr
          exact profile.says_announced hl
        · rw [List.mem_singleton.mp hr]
          trivial

/-- **One move.** -/
theorem step (h : InStep profile w) {act : Act} (hm : Move profile.device false act w w')
    (hg : Calm w w') : InStep profile w' := by
  obtain ⟨ds, hc⟩ := h.conserved
  cases hm with
  | connect now =>
    exact h.after_submitted (submitted_connect hc now) hg (hc.connect now) fun _ => rfl
  | send protocol packetType payload now host hs =>
    obtain ⟨-, -, -, b, -, -, -, hsub⟩ := submitted_send hc hs
    exact h.after_submitted hsub hg (hc.send hs) fun hf => nomatch hf
  | tick now => exact h.after_tick now hg
  | pollEvent =>
    exact h.of_untouched ⟨ds, hc.pollEvent⟩ (untouched_pollEvent w.host) (fun _ hc => hc)
      fun _ hr => hr
  | transmit =>
    exact h.of_untouched ⟨ds, hc.pollOutbound⟩ (untouched_pollOutbound w.host) (fun _ hc => hc)
      fun _ hr => hr
  | loseCopy a b c hl => cases hl
  | loseLine a b r hl => cases hl
  | hear c rest d lines hq hd =>
    rw [show lines = profile.answer w.device c.2 from hd]
    exact h.after_hear hq
  | speak d lines hd => exact hd.elim
  | arrive => exact h
  | buffer buf now =>
    exact h.of_untouched ⟨ds, hc.withBuf buf⟩ (untouched_withBuf w.host buf) (fun _ hc => hc)
      fun _ hr => hr
  | read r rest buf now hb => exact h.after_read buf now hb hg

end InStep

/-- The runs over a link that loses nothing, without timeouts, in which every packet is
dispatched with no earlier `ok` outstanding. -/
def CalmRun (profile : Profile) (s : Session) (d : UInt8) (l : Link UInt8) : Prop :=
  Reach (Guarded (Step profile.device false) fun _ l l' => Calm l.wire l'.wire)
    (Link.start s d) l

theorem CalmRun.inStep {profile : Profile} {s : Session} {d : UInt8} {l : Link UInt8}
    (h : CalmRun profile s d l) : l.WellFormed ∧ InStep profile l.wire := by
  refine h.invariant (P := fun l => l.WellFormed ∧ InStep profile l.wire)
    ⟨Link.wellFormed_start s d, InStep.start profile s d⟩ ?_
  rintro act l l' ⟨hwf, hinv⟩ ⟨hs, hg⟩
  obtain ⟨hwf', hm⟩ := hs.move hwf
  exact ⟨hwf', hinv.step hm hg⟩

end MarlinTransfer
