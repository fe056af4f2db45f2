import MarlinTransfer.Link.Script

/-!
# No false acknowledgement

Against a device that says `ok<n>` only in answer to a copy carrying `n`, an ack retires
a packet the device has received, provided no packet is dispatched under a sync number
that is still in use: by a copy of an earlier packet that may yet be answered, or by an
`ok` that is already under way. The proviso is needed. A packet that times out leaves its
sync number to the next one, and the late `ok` for the first then retires the second.
-/

namespace MarlinTransfer

open Codec Text Runs Session

/-- What an honest device remembers. -/
structure Honest where
  /-- The numbers of the packets it received a copy of. -/
  received : List Nat
  /-- The copies it has not answered, each with the sync number it carries. -/
  pending : List (Nat × UInt8)
  deriving DecidableEq

/-- The sync number a copy carries. -/
def carriedSync (bytes : Bytes) : Option UInt8 :=
  match decode bytes with
  | some (.ok (p, _)) => some p.sync
  | _ => none

namespace Honest

def empty : Honest := ⟨[], []⟩

/-- It notes every copy. -/
def hear (d : Honest) (c : Nat × Bytes) : Honest × List Bytes :=
  ({ received := d.received ++ [c.1]
     pending := d.pending ++ ((carriedSync c.2).map (c.1, ·)).toList }, [])

/-- It may say anything at any time, and settle copies without an `ok` by it; but an `ok<n>`
answers a copy that carries `n`. -/
inductive Says (d : Honest) : Honest → List Bytes → Prop where
  | ok (line : Bytes) (n : UInt8) (i : Nat) (a b : List (Nat × UInt8))
      (hline : (0x0A : UInt8) ∉ line) (hr : reply line = .ok n)
      (hp : d.pending = a ++ (i, n) :: b) : Says d { d with pending := a ++ b } [line]
  | other (line : Bytes) (pending : List (Nat × UInt8)) (hline : (0x0A : UInt8) ∉ line)
      (hr : ∀ n, reply line ≠ .ok n) (hp : pending.Sublist d.pending) :
      Says d { d with pending } [line]

end Honest

/-- The honest device at the end of a link. -/
def honest : Device Honest where
  hears d c d' ls := (d', ls) = d.hear c
  speaks := Honest.Says
  hears_lines := by
    intro d c d' ls h line hm
    rw [(Prod.mk.inj h).2] at hm
    cases hm
  speaks_lines := by
    intro d d' ls h line hm
    cases h with
    | ok line' n i a b hline => rwa [List.mem_singleton.mp hm]
    | other line' pending hline => rwa [List.mem_singleton.mp hm]

/-- Nothing outstanding speaks for another packet than number `i` under sync `n`. -/
structure Fresh (w : Wire Honest) (n : UInt8) (i : Nat) : Prop where
  forward : ∀ c ∈ w.forward, carriedSync c.2 = some n → c.1 = i
  pending : ∀ p ∈ w.device.pending, p.2 = n → p.1 = i
  back : Reply.ok n ∉ w.back

/-- The condition on a step: a data packet it dispatches is fresh. -/
def DispatchesFresh (w w' : Wire Honest) : Prop :=
  w'.host.log.counters.length ≠ w.host.log.counters.length →
    ∀ f, w'.host.session.inFlight = some f → f.isSyncHandshake = false →
      Fresh w' f.sync w'.host.log.retired.length

instance (w : Wire Honest) (n : UInt8) (i : Nat) : Decidable (Fresh w n i) :=
  decidable_of_iff ((∀ c ∈ w.forward, carriedSync c.2 = some n → c.1 = i)
      ∧ (∀ p ∈ w.device.pending, p.2 = n → p.1 = i) ∧ Reply.ok n ∉ w.back)
    ⟨fun ⟨h1, h2, h3⟩ => ⟨h1, h2, h3⟩, fun ⟨h1, h2, h3⟩ => ⟨h1, h2, h3⟩⟩

instance (w w' : Wire Honest) : Decidable (DispatchesFresh w w') :=
  decidable_of_iff (w'.host.log.counters.length ≠ w.host.log.counters.length →
      ∀ f ∈ w'.host.session.inFlight, f.isSyncHandshake = false →
        Fresh w' f.sync w'.host.log.retired.length) Iff.rfl

/-- What ties the packet in flight to what is outstanding. -/
structure Outstanding (w : Wire Honest) (f : InFlight) (i : Nat) : Prop where
  forward : ∀ c ∈ w.forward, carriedSync c.2 = some f.sync → c.1 = i
  pending : ∀ p ∈ w.device.pending, p.2 = f.sync → p.1 = i
  /-- An `ok` under way answers a copy of it. -/
  back : Reply.ok f.sync ∈ w.back → i ∈ w.device.received

theorem Fresh.outstanding {w : Wire Honest} {f : InFlight} {i : Nat} (h : Fresh w f.sync i) :
    Outstanding w f i := ⟨h.forward, h.pending, fun hm => absurd hm h.back⟩

structure NoFalseAck (w : Wire Honest) : Prop where
  conserved : ∃ ds, Conserved w.host ds
  pending_received : ∀ p ∈ w.device.pending, p.1 ∈ w.device.received
  current : ∀ f, w.host.session.inFlight = some f → f.isSyncHandshake = false →
    Outstanding w f w.host.log.retired.length
  /-- **What was acked was received.** -/
  acked : ∀ (i : Nat) (f : InFlight) (n : UInt8),
    w.host.log.retired[i]? = some (f, .ack n) → i ∈ w.device.received

namespace NoFalseAck

variable {w w' : Wire Honest}

theorem start (s : Session) : NoFalseAck (Link.start s Honest.empty).wire where
  conserved := ⟨[], conserved_start s⟩
  pending_received := by simp [Link.wire, Link.start, Honest.empty]
  current := by simp [Link.wire, Link.start, Watched.start, Session.reset]
  acked := by simp [Link.wire, Link.start, Watched.start, Ledger.empty]

/-- What was acked before is still accounted for once another packet is retired. -/
theorem acked_append (h : NoFalseAck w) {f : InFlight} {e : Event}
    (he : ∀ n, e = .ack n → w.host.log.retired.length ∈ w.device.received) (i : Nat)
    (g : InFlight) (n : UInt8) (hi : (w.host.log.retired ++ [(f, e)])[i]? = some (g, .ack n)) :
    i ∈ w.device.received := by
  rcases Nat.lt_trichotomy i w.host.log.retired.length with hlt | heq | hgt
  · rw [List.getElem?_append_left hlt] at hi
    exact h.acked i g n hi
  · subst heq
    rw [List.getElem?_concat_length] at hi
    exact he n (Prod.mk.inj (Option.some.inj hi)).2
  · rw [List.getElem?_eq_none (by rw [List.length_append]; exact hgt)] at hi
    cases hi

/-- After a retirement nothing is in flight, or a packet that was dispatched fresh. -/
theorem after_retires (h : NoFalseAck w) (hg : DispatchesFresh w w') {f : InFlight} {e : Event}
    (hr : Retires f e w.host w'.host) (hdev : w'.device = w.device)
    (hcons : ∃ ds, Conserved w'.host ds)
    (he : ∀ n, e = .ack n → w.host.log.retired.length ∈ w.device.received) : NoFalseAck w' where
  conserved := hcons
  pending_received := by rw [hdev]; exact h.pending_received
  current := by
    intro g hf hdata
    cases hr.resumes with
    | idle _ _ hf' => rw [hf'] at hf; cases hf
    | launch q f' _ hf' _ _ hk =>
      refine (hg ?_ g hf hdata).outstanding
      rw [hk, List.length_append]
      exact Nat.ne_of_gt (Nat.lt_succ_self _)
  acked := by
    intro i g n hi
    rw [hdev]
    rw [hr.retired] at hi
    exact h.acked_append he i g n hi

/-- A submission puts nothing new in flight, or a packet that is fresh. -/
theorem after_submitted (h : NoFalseAck w) {host : Watched} {q : Queued}
    (hs : Submitted q w.host host) (hg : DispatchesFresh w (w.act host))
    (hcons : ∃ ds, Conserved host ds) : NoFalseAck (w.act host) := by
  cases hs with
  | waits hbusy hf hq hl =>
    have hfw : (w.act host).forward = w.forward := Wire.act_forward_same (by rw [hl])
    refine ⟨hcons, h.pending_received, ?_, ?_⟩
    · intro f hf' hdata
      obtain ⟨h1, h2, h3⟩ := h.current f (by rw [← hf]; exact hf') hdata
      have hn : (w.act host).host.log.retired.length = w.host.log.retired.length := by
        show host.log.retired.length = _
        rw [hl]
      rw [hn]
      exact ⟨by rw [hfw]; exact h1, h2, h3⟩
    · intro i f n hi
      refine h.acked i f n ?_
      rw [show (w.act host).host.log = host.log from rfl, hl] at hi
      exact hi
  | launched f hidle hf hc hq hl =>
    refine ⟨hcons, h.pending_received, ?_, ?_⟩
    · intro g hg' hdata
      refine (hg ?_ g hg' hdata).outstanding
      show host.log.counters.length ≠ _
      rw [hl, List.length_append]
      exact Nat.ne_of_gt (Nat.lt_succ_self _)
    · intro i f n hi
      refine h.acked i f n ?_
      rw [show (w.act host).host.log = host.log from rfl, hl] at hi
      exact hi

/-- A step that moves neither the host's packets nor the device. -/
theorem of_same (h : NoFalseAck w) (hcons : ∃ ds, Conserved w'.host ds)
    (hf : w'.host.session.inFlight = w.host.session.inFlight)
    (hr : w'.host.log.retired = w.host.log.retired) (hdev : w'.device = w.device)
    (hfw : ∀ c ∈ w'.forward, c ∈ w.forward) (hb : ∀ r ∈ w'.back, r ∈ w.back) :
    NoFalseAck w' where
  conserved := hcons
  pending_received := by rw [hdev]; exact h.pending_received
  current := by
    intro f hf' hdata
    obtain ⟨h1, h2, h3⟩ := h.current f (by rw [← hf]; exact hf') hdata
    rw [hr]
    exact ⟨fun c hc => h1 c (hfw c hc), by rw [hdev]; exact h2,
      fun hm => by rw [hdev]; exact h3 (hb _ hm)⟩
  acked := by rw [hr, hdev]; exact h.acked

theorem after_tick (h : NoFalseAck w) (now : Instant)
    (hg : DispatchesFresh w (w.act (w.host.tick now))) :
    NoFalseAck (w.act (w.host.tick now)) := by
  obtain ⟨ds, hc⟩ := h.conserved
  have hcons := hc.tick now
  cases ticked w.host now with
  | early heq =>
    refine h.of_same hcons ?_ ?_ rfl ?_ fun r hr => hr
    · rw [show (w.act (w.host.tick now)).host = w.host.tick now from rfl, heq]
    · rw [show (w.act (w.host.tick now)).host = w.host.tick now from rfl, heq]
    · intro c hc
      unfold Wire.act at hc
      rw [heq] at hc
      simpa using hc
  | late f now' hf hf' hq hsync hs hl =>
    have hfw : (w.act (w.host.tick now)).forward
        = w.forward ++ [(w.host.log.retired.length, f.bytes)] :=
      Wire.act_forward (by rw [hl])
    refine ⟨hcons, h.pending_received, ?_, ?_⟩
    · intro g hg' hdata
      -- the packet in flight is the same but for its timestamp
      obtain rfl : { f with lastSent := now' } = g := Option.some.inj (hf'.symm.trans hg')
      obtain ⟨h1, h2, h3⟩ := h.current f hf hdata
      have hn : (w.act (w.host.tick now)).host.log.retired.length
          = w.host.log.retired.length := by
        show (w.host.tick now).log.retired.length = _
        rw [hl]
      rw [hn]
      refine ⟨?_, h2, h3⟩
      intro c hc hsync
      rw [hfw] at hc
      rcases List.mem_append.mp hc with hc | hc
      · exact h1 c hc hsync
      · rw [List.mem_singleton.mp hc]
    · intro i g n hi
      refine h.acked i g n ?_
      rw [show (w.act (w.host.tick now)).host.log = (w.host.tick now).log from rfl, hl] at hi
      exact hi
  | expired f hr =>
    exact h.after_retires hg hr rfl hcons fun n he => by cases he

theorem after_read (h : NoFalseAck w) {r : Reply} {rest : List Reply} (buf : Bytes)
    (now : Instant) (hb : w.back = r :: rest)
    (hg : DispatchesFresh w { w.act ((w.host.take r now).withBuf buf) with back := rest }) :
    NoFalseAck { w.act ((w.host.take r now).withBuf buf) with back := rest } := by
  obtain ⟨ds, hc⟩ := h.conserved
  have hcons : ∃ ds', Conserved ((w.host.take r now).withBuf buf) ds' := by
    obtain ⟨ds', hc'⟩ := hc.take r now
    exact ⟨ds', hc'.withBuf buf⟩
  have htail : ∀ r' ∈ rest, r' ∈ w.back := fun r' hr' => by
    rw [hb]
    exact List.mem_cons_of_mem _ hr'
  cases taken hc r now with
  | quiet ht =>
    refine h.of_same hcons ht.inFlight ?_ rfl ?_ htail
    · show (w.host.take r now).log.retired = _
      rw [ht.log]
    · intro c hc'
      unfold Wire.act at hc'
      rw [Watched.withBuf_log, ht.log] at hc'
      simpa using hc'
  | acked f hr hf ht =>
    have hmem : Reply.ok f.sync ∈ w.back := by
      rw [hb, hr]
      exact List.mem_cons_self
    exact h.after_retires hg (ht.withBuf buf) rfl hcons fun n _ => (h.current f ht.was hf).back hmem
  | synced f sync block version hr hf ht =>
    exact h.after_retires hg (ht.withBuf buf) rfl hcons fun n he => by cases he

theorem after_hear (h : NoFalseAck w) {c : Nat × Bytes} {rest : List (Nat × Bytes)} {d : Honest}
    {lines : List Bytes} (hc : w.forward = c :: rest) (hd : (d, lines) = w.device.hear c) :
    NoFalseAck { w with forward := rest, device := d, back := w.back ++ lines.map reply } := by
  obtain ⟨hd1, hd2⟩ := Prod.mk.inj hd
  subst hd1 hd2
  have hmem : ∀ p, p ∈ ((carriedSync c.2).map (c.1, ·)).toList →
      p.1 = c.1 ∧ carriedSync c.2 = some p.2 := by
    intro p hp
    obtain ⟨n, hn, rfl⟩ := Option.map_eq_some_iff.mp (Option.mem_toList.mp hp)
    exact ⟨rfl, hn⟩
  refine ⟨h.conserved, ?_, ?_, fun i f n hi => List.mem_append_left _ (h.acked i f n hi)⟩
  · intro p hp
    rcases List.mem_append.mp hp with hp | hp
    · exact List.mem_append_left _ (h.pending_received p hp)
    · rw [(hmem p hp).1]
      exact List.mem_append_right _ List.mem_cons_self
  · intro f hf hdata
    obtain ⟨h1, h2, h3⟩ := h.current f hf hdata
    refine ⟨fun c' hc' => h1 c' ?_, ?_, ?_⟩
    · rw [hc]
      exact List.mem_cons_of_mem _ hc'
    · intro p hp hsync
      rcases List.mem_append.mp hp with hp | hp
      · exact h2 p hp hsync
      · obtain ⟨hp1, hp2⟩ := hmem p hp
        rw [hp1]
        refine h1 c ?_ (by rw [hp2, hsync])
        rw [hc]
        exact List.mem_cons_self
    · intro hm
      rw [List.map_nil, List.append_nil] at hm
      exact List.mem_append_left _ (h3 hm)

theorem after_speak (h : NoFalseAck w) {d : Honest} {lines : List Bytes}
    (hd : w.device.Says d lines) :
    NoFalseAck { w with device := d, back := w.back ++ lines.map reply } := by
  cases hd with
  | ok line n i a b hline hr hp =>
    have hsub : ∀ p ∈ a ++ b, p ∈ w.device.pending := by
      intro p hm
      rw [hp]
      rcases List.mem_append.mp hm with hm | hm
      · exact List.mem_append_left _ hm
      · exact List.mem_append_right _ (List.mem_cons_of_mem _ hm)
    have hin : (i, n) ∈ w.device.pending := by
      rw [hp]
      exact List.mem_append_right _ List.mem_cons_self
    refine ⟨h.conserved, fun p hm => h.pending_received p (hsub p hm), ?_, h.acked⟩
    intro f hf hdata
    obtain ⟨h1, h2, h3⟩ := h.current f hf hdata
    refine ⟨h1, fun p hm => h2 p (hsub p hm), ?_⟩
    intro hm
    rcases List.mem_append.mp hm with hm | hm
    · exact h3 hm
    · -- the new `ok` answers a copy of the packet in flight, which was received
      rw [List.map_singleton, List.mem_singleton, hr] at hm
      have hn : n = f.sync := (Reply.ok.inj hm).symm
      rw [← h2 (i, n) hin hn]
      exact h.pending_received (i, n) hin
  | other line pending hline hr hp =>
    refine ⟨h.conserved, fun p hm => h.pending_received p (hp.subset hm), ?_, h.acked⟩
    intro f hf hdata
    obtain ⟨h1, h2, h3⟩ := h.current f hf hdata
    refine ⟨h1, fun p hm => h2 p (hp.subset hm), ?_⟩
    intro hm
    rcases List.mem_append.mp hm with hm | hm
    · exact h3 hm
    · rw [List.map_singleton, List.mem_singleton] at hm
      exact absurd hm.symm (hr f.sync)

/-- **One move.** -/
theorem step (h : NoFalseAck w) {act : Act} (hm : Move honest true act w w')
    (hg : DispatchesFresh w w') : NoFalseAck w' := by
  obtain ⟨ds, hc⟩ := h.conserved
  cases hm with
  | connect now => exact h.after_submitted (submitted_connect hc now) hg (hc.connect now)
  | send protocol packetType payload now host hs =>
    obtain ⟨-, -, -, b, -, -, -, hsub⟩ := submitted_send hc hs
    exact h.after_submitted hsub hg (hc.send hs)
  | tick now => exact h.after_tick now hg
  | pollEvent =>
    have hu := untouched_pollEvent w.host
    exact h.of_same ⟨ds, hc.pollEvent⟩ hu.inFlight hu.retired rfl (fun _ hc => hc) fun _ hr => hr
  | transmit =>
    have hu := untouched_pollOutbound w.host
    exact h.of_same ⟨ds, hc.pollOutbound⟩ hu.inFlight hu.retired rfl (fun _ hc => hc) fun _ hr => hr
  | loseCopy a b c _ hq =>
    refine h.of_same ⟨ds, hc⟩ rfl rfl rfl (fun x hx => ?_) fun _ hr => hr
    rw [hq]
    rcases List.mem_append.mp hx with hx | hx
    · exact List.mem_append_left _ hx
    · exact List.mem_append_right _ (List.mem_cons_of_mem _ hx)
  | loseLine a b r _ hq =>
    refine h.of_same ⟨ds, hc⟩ rfl rfl rfl (fun _ hx => hx) fun x hx => ?_
    rw [hq]
    rcases List.mem_append.mp hx with hx | hx
    · exact List.mem_append_left _ hx
    · exact List.mem_append_right _ (List.mem_cons_of_mem _ hx)
  | hear c rest d lines hq hd => exact h.after_hear hq hd
  | speak d lines hd => exact h.after_speak hd
  | arrive => exact h
  | buffer buf now =>
    exact h.of_same ⟨ds, hc.withBuf buf⟩ rfl rfl rfl (fun _ hx => hx) fun _ hr => hr
  | read r rest buf now hb => exact h.after_read buf now hb hg

end NoFalseAck

/-- The runs in which every data packet is dispatched fresh. -/
def FreshRun (s : Session) (l : Link Honest) : Prop :=
  Reach (Guarded (Step honest true) fun _ l l' => DispatchesFresh l.wire l'.wire)
    (Link.start s Honest.empty) l

/--
**No false acknowledgement.** In a run in which every data packet is dispatched fresh,
whatever is lost, delayed or given up, the device has received a copy of every packet
that an ack retired.
-/
theorem acks_are_received (s : Session) (l : Link Honest) (hr : FreshRun s l) (i : Nat)
    (f : InFlight) (n : UInt8) (hi : l.host.log.retired[i]? = some (f, .ack n)) :
    i ∈ l.device.received := by
  have hinv : l.WellFormed ∧ NoFalseAck l.wire := by
    refine hr.invariant (P := fun l => l.WellFormed ∧ NoFalseAck l.wire)
      ⟨Link.wellFormed_start s _, NoFalseAck.start s⟩ ?_
    rintro act l l' ⟨hwf, hinv⟩ ⟨hs, hg⟩
    obtain ⟨hwf', hm⟩ := hs.move hwf
    exact ⟨hwf', hinv.step hm hg⟩
  exact hinv.2.acked i f n hi

/-- A device that opens with `ss0,512,1` and answers a copy under sync 0 in its own time. -/
def okConduct : Link.Conduct Honest where
  hear := Honest.hear
  say d :=
    match d.pending with
    | [(0, 0)] => some ({ d with pending := [] }, ["ss0,512,1".toUTF8.data.toList])
    | [(_, 0)] => some ({ d with pending := [] }, ["ok0".toUTF8.data.toList])
    | _ => none

theorem okConduct_fits : okConduct.Fits honest where
  hears := fun _ _ => rfl
  speaks := by
    intro d d' lines h
    unfold okConduct at h
    dsimp only at h
    split at h
    · cases h
      have hr : reply "ss0,512,1".toUTF8.data.toList = .ss 0 512 ['1'] := by decide +kernel
      exact .other _ [] (by decide +kernel) (fun n => by rw [hr]; exact Reply.noConfusion)
        (List.nil_sublist _)
    · rename_i i _ hp
      cases h
      exact .ok _ 0 i [] [] (by decide +kernel) (by decide +kernel) hp
    · cases h

/-! ## A packet that is given up -/

/-- The runs by script in which every data packet is dispatched fresh. -/
def runFresh (acts : List Act) (l : Link Honest) : Option (Link Honest) :=
  l.runScript okConduct (fun _ l l' => DispatchesFresh l.wire l'.wire) acts

theorem runFresh_reach {acts : List Act} {l l' : Link Honest} (hr : FreshRun Session.new l)
    (h : runFresh acts l = some l') : FreshRun Session.new l' :=
  runScript_reach okConduct_fits hr h

/-- The one copy under way is lost. -/
theorem FreshRun.loseCopy {s : Session} {l : Link Honest} (hr : FreshRun s l)
    (h : l.toDevice.length = 1) : FreshRun s { l with toDevice := [] } := by
  obtain ⟨c, hc⟩ := List.length_eq_one_iff.mp h
  exact hr.tail ⟨.loseCopy [] [] c rfl hc, fun hne => absurd rfl hne⟩

/-- The one line under way is lost. -/
theorem FreshRun.loseLine {s : Session} {l : Link Honest} (hr : FreshRun s l)
    (h : l.toHost.length = 1) : FreshRun s { l with toHost := [] } := by
  obtain ⟨line, hline⟩ := List.length_eq_one_iff.mp h
  exact hr.tail ⟨.loseLine [] [] line rfl hline, fun hne => absurd rfl hne⟩

/-- A handshake, two packets, and a copy of the first, which is lost. -/
def lostCopyScript : List Act :=
  [.connect 0, .transmit, .hear, .speak, .arrive] ++ List.replicate 10 (.read 1)
    ++ [.send 1 3 [1] 1, .send 1 3 [2] 1, .transmit]

/-- The next copy is received, and its answer is lost. -/
def lostLineScript : List Act := [.tick 1000000001, .transmit, .hear, .speak]

/-- The packet is given up, and the second one goes out under the same number. -/
def nextPacketScript : List Act :=
  [.tick (1 + defaultTotalTimeout), .transmit, .hear, .speak, .arrive]
    ++ List.replicate 4 (.read 30000000000)

/-- The run, and the two states in which something is lost. -/
def givenUpRun : Option (Link Honest × Link Honest × Link Honest) :=
  (runFresh lostCopyScript (Link.start Session.new Honest.empty)).bind fun l₁ =>
    (runFresh lostLineScript { l₁ with toDevice := [] }).bind fun l₂ =>
      (runFresh nextPacketScript { l₂ with toHost := [] }).map fun l => (l₁, l₂, l)

theorem acks_are_received_givenUp :
    ∃ l f, FreshRun Session.new l ∧ l.host.log.retired[1]?.map Prod.snd = some (.timeout 0)
      ∧ l.host.log.placed.map Prod.fst = [0, 1, 1, 2]
      ∧ l.host.log.retired[2]? = some (f, .ack 0) ∧ 2 ∈ l.device.received := by
  have hrun : givenUpRun.any (fun r =>
      r.1.toDevice.length = 1 ∧ r.2.1.toHost.length = 1
        ∧ r.2.2.host.log.retired[1]?.map Prod.snd = some (.timeout 0)
        ∧ r.2.2.host.log.placed.map Prod.fst = [0, 1, 1, 2]
        ∧ r.2.2.host.log.retired[2]?.map Prod.snd = some (.ack 0)) = true := by
    decide +kernel
  obtain ⟨r, hr, hobs⟩ := (Option.any_eq_true _ _).mp hrun
  obtain ⟨hcopy, hline, htimeout, hplaced, hack⟩ := of_decide_eq_true hobs
  obtain ⟨l₁, h₁, hr⟩ := Option.bind_eq_some_iff.mp hr
  obtain ⟨l₂, h₂, hr⟩ := Option.bind_eq_some_iff.mp hr
  obtain ⟨l, h₃, rfl⟩ := Option.map_eq_some_iff.mp hr
  have hfresh₁ : FreshRun Session.new l₁ := runFresh_reach .init h₁
  have hfresh₂ : FreshRun Session.new l₂ := runFresh_reach (hfresh₁.loseCopy hcopy) h₂
  have hfresh : FreshRun Session.new l := runFresh_reach (hfresh₂.loseLine hline) h₃
  obtain ⟨⟨f, e⟩, hget, rfl⟩ := Option.map_eq_some_iff.mp hack
  exact ⟨l, f, hfresh, htimeout, hplaced, hget, acks_are_received Session.new l hfresh 2 f 0 hget⟩

/-- Packet 1 is received and given up, and its `ok` arrives once packet 2 is in flight. -/
def lateOkScript : List Act :=
  [.connect 0, .transmit, .hear, .speak, .arrive] ++ List.replicate 10 (.read 1)
    ++ [.send 1 3 [1] 1, .send 1 3 [2] 1, .transmit, .hear, .tick (1 + defaultTotalTimeout),
      .speak, .arrive] ++ List.replicate 4 (.read 30000000000)

/-- **The late ok.** Packet 2 is retired by an ack, and the device has seen nothing of it. -/
theorem late_ok_acks_next_packet :
    ∃ l f, Reach (Step honest true) (Link.start Session.new Honest.empty) l
      ∧ l.host.log.retired[1]?.map Prod.snd = some (.timeout 0)
      ∧ l.host.log.retired[2]? = some (f, .ack 0)
      ∧ l.device.received = [0, 1] := by
  have hrun : ((Link.start Session.new Honest.empty).runScript okConduct (fun _ _ _ => True)
      lateOkScript).map
        (fun l => (l.host.log.retired[1]?.map Prod.snd, l.host.log.retired[2]?.map Prod.snd,
          l.device.received)) = some (some (.timeout 0), some (.ack 0), [0, 1]) := by
    decide +kernel
  obtain ⟨l, hl, hobs⟩ := Option.map_eq_some_iff.mp hrun
  obtain ⟨h1, h23⟩ := Prod.mk.inj hobs
  obtain ⟨h2, h3⟩ := Prod.mk.inj h23
  obtain ⟨⟨f, e⟩, hget, rfl⟩ := Option.map_eq_some_iff.mp h2
  exact ⟨l, f, reach_of_guarded (runScript_reach okConduct_fits .init hl), h1, hget, h3⟩

end MarlinTransfer
