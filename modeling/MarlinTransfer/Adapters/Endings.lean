import MarlinTransfer.Adapters.Keeping
import MarlinTransfer.Adapters.Upload
import MarlinTransfer.FileTransfer.Bare

/-!
# How an upload ends

An upload may end at any point: a read or a write fails, the device refuses, a packet is given
up, an assertion fails. Wherever it ends, what was written is the beginning of an upload: the
packets so far, each acked before the next one went out, and then copies of one packet more.
What the loops keep whichever way they end is `Underway`; what an upload has come to is `Headway`.
-/

namespace MarlinTransfer

open Codec Text Session Triple

/-- All that can still be written are copies of one packet. -/
structure Solo (bytes : Bytes) (s : Session) : Prop where
  inFlight : ∀ f, s.inFlight = some f → f.bytes = bytes
  queued : s.queued = []
  outbound : ∀ out ∈ s.outbound, out = bytes

namespace Solo

variable {bytes : Bytes} {s : Session}

/-- What changes nothing of what can be written. -/
theorem of_eq {s' : Session} (h : Solo bytes s) (hf : s'.inFlight = s.inFlight)
    (hq : s'.queued = s.queued) (ho : s'.outbound = s.outbound) : Solo bytes s' :=
  ⟨fun f hs => h.inFlight f (hf ▸ hs), hq.trans h.queued, fun out hs => h.outbound out (ho ▸ hs)⟩

/-- The packet is retired, and nothing is behind it. -/
theorem retired {s' : Session} (h : Solo bytes s) (hf : s'.inFlight = none)
    (hq : s'.queued = s.queued) (ho : s'.outbound = s.outbound) (now : Instant) :
    Solo bytes (s'.dispatchIfIdle now) := by
  rw [dispatchIfIdle_empty (hq.trans h.queued) now]
  exact ⟨fun f hs => (nomatch hf.symm.trans hs), hq.trans h.queued,
    fun out hs => h.outbound out (ho ▸ hs)⟩

theorem take (h : Solo bytes s) (r : Reply) (now : Instant) : Solo bytes (s.take r now) := by
  cases r with
  | ok n =>
    show Solo bytes (s.handleOk n now)
    unfold handleOk
    split
    · exact h.of_eq rfl rfl rfl
    · split_ifs
      · exact h.of_eq rfl rfl rfl
      · exact h.of_eq rfl rfl rfl
      · exact h.retired (by rfl) (by rfl) (by rfl) now
  | ss sync block version =>
    show Solo bytes ((s.adopt sync block version).dispatchIfIdle now)
    have hadopt : Solo bytes (s.adopt sync block version) :=
      ⟨fun f hf => h.inFlight f (Option.filter_eq_some_iff.mp hf).1, h.queued, h.outbound⟩
    rw [dispatchIfIdle_empty hadopt.queued now]
    exact hadopt
  | rs n => exact h.of_eq rfl rfl rfl
  | fe => exact h.of_eq rfl rfl rfl
  | text line => exact h.of_eq rfl rfl rfl
  | noise => exact h

theorem takeAll {w : Watched} (h : Solo bytes w.session) (rs : List Reply) (now : Instant) :
    Solo bytes (w.takeAll rs now).session := by
  induction rs generalizing w with
  | nil => exact h
  | cons r rs ih => exact ih (h.take r now)

theorem tick (h : Solo bytes s) (now : Instant) : Solo bytes (s.tick now) := by
  unfold Session.tick
  cases hf : s.inFlight with
  | none => exact h
  | some f =>
    dsimp only
    split_ifs
    · exact h.retired (by rfl) (by rfl) (by rfl) now
    -- one more copy of the packet in flight
    · refine ⟨fun g hg => ?_, h.queued, fun out hs => ?_⟩
      · rw [← Option.some.inj hg]
        exact h.inFlight f hf
      · rcases List.mem_append.mp hs with hs | hs
        · exact h.outbound out hs
        · rw [List.mem_singleton.mp hs]
          exact h.inFlight f hf
    · exact h

theorem pollOutbound (h : Solo bytes s) : Solo bytes s.pollOutbound.2 := by
  unfold Session.pollOutbound
  cases ho : s.outbound with
  | nil => exact h
  | cons b rest =>
    exact ⟨h.inFlight, h.queued, fun out hs => h.outbound out (ho ▸ List.mem_cons_of_mem b hs)⟩

theorem pollEvent (h : Solo bytes s) : Solo bytes s.pollEvent.2 := by
  unfold Session.pollEvent
  split
  · exact h
  · exact h.of_eq rfl rfl rfl

/-- A packet sent over a line at rest is alone on it. -/
theorem submitted {w w' : Watched} {ds ds' : List Dispatch} {q : Queued} (hc : Conserved w ds)
    (hc' : Conserved w' ds') (h : Submitted q w w') (hidle : w.session.inFlight = none)
    (ho : w.session.outbound = []) {p : Packet} (hp : q.packet w.session.sync = p) :
    Solo p.wire w'.session := by
  subst hp
  cases h with
  | waits hbusy =>
    rw [hidle] at hbusy
    cases hbusy
  | launched f _ hf hcar hq hl =>
    have hout := outbound_of_placed hc hc' (show w'.log.placed = _ ++ [_] by rw [hl]) (by rw [hl])
    rw [ho, List.nil_append] at hout
    refine ⟨fun g hg => ?_, hq, fun out hs => ?_⟩
    · rw [← Option.some.inj (hf.symm.trans hg)]
      exact hcar.bytes_eq
    · rw [hout] at hs
      rw [List.mem_singleton.mp hs]
      exact hcar.bytes_eq

theorem send {w w' : Watched} (hc : ∃ ds, Conserved w ds) (hr : Resting w.session)
    {protocol packetType : UInt8} {payload : Bytes} {now : Instant}
    (hs : w.send protocol packetType payload now = some w') :
    ∃ p : Packet, p.content = ⟨protocol, packetType, payload⟩ ∧ Solo p.wire w'.session := by
  obtain ⟨ds, hc⟩ := hc
  obtain ⟨ds', hc'⟩ := hc.send hs
  obtain ⟨-, -, -, b, rfl, rfl, rfl, hsub⟩ := submitted_send hc hs
  exact ⟨_, rfl, submitted hc hc' hsub hr.inFlight hr.outbound rfl⟩

end Solo

/-! ## What the loops keep -/

/-- Since `base`, only copies of one packet were written, and only such can be. -/
structure Underway (base : List LogEntry) (bytes : Bytes) (w : World) : Prop where
  conserved : ∃ ds, Conserved w.transfer.host ds
  solo : Solo bytes w.session
  log : ∃ tail, w.log = base ++ tail ∧ ∀ out ∈ written tail, out = bytes

namespace Underway

variable {base : List LogEntry} {bytes : Bytes} {w : World}

/-- The log grows by entries that write copies at most. -/
theorem grown {w' : World} (h : Underway base bytes w)
    (hc : ∃ ds, Conserved w'.transfer.host ds) (hs : Solo bytes w'.session)
    {entries : List LogEntry} (hlog : w'.log = w.log ++ entries)
    (hout : ∀ out ∈ written entries, out = bytes) : Underway base bytes w' := by
  obtain ⟨tail, htail, hcopies⟩ := h.log
  refine ⟨hc, hs, tail ++ entries, by rw [hlog, htail, List.append_assoc], fun out hmem => ?_⟩
  rw [written_append] at hmem
  rcases List.mem_append.mp hmem with hmem | hmem
  · exact hcopies out hmem
  · exact hout out hmem

/-- The log is as it was. -/
theorem moved {w' : World} (h : Underway base bytes w)
    (hc : ∃ ds, Conserved w'.transfer.host ds) (hs : Solo bytes w'.session)
    (hlog : w'.log = w.log) : Underway base bytes w' :=
  h.grown hc hs (hlog.trans (List.append_nil _).symm) fun _ hmem => nomatch hmem

theorem dropped (h : Underway base bytes w) :
    Underway base bytes (w.withHost w.transfer.host.pollOutbound) := by
  obtain ⟨ds, hc⟩ := h.conserved
  refine h.moved ⟨ds, hc.pollOutbound⟩ ?_ rfl
  show Solo bytes w.transfer.host.pollOutbound.session
  rw [Watched.pollOutbound_session]
  exact h.solo.pollOutbound

theorem wrote (h : Underway base bytes w) {out : Bytes}
    (hout : w.session.pollOutbound.1 = some out) : Underway base bytes (w.wrote out) := by
  have hcopy : out = bytes := by
    unfold Session.pollOutbound at hout
    cases ho : w.session.outbound with
    | nil => rw [ho] at hout; cases hout
    | cons b rest =>
      rw [ho] at hout
      rw [← Option.some.inj hout]
      exact h.solo.outbound b (ho ▸ List.mem_cons_self)
  have hd := h.dropped
  exact h.grown hd.conserved hd.solo rfl fun _ hmem => (List.mem_singleton.mp hmem).trans hcopy

theorem received (h : Underway base bytes w) (input : Bytes) (now : Instant) :
    Underway base bytes (w.received input now) := by
  obtain ⟨ds, hc⟩ := h.conserved
  have hs := h.solo.takeAll (replies (w.session.inboundBuf ++ input)) now
  refine h.grown (hc.feed input now) (hs.of_eq rfl rfl rfl) rfl fun out hmem => ?_
  rw [written_hearings] at hmem
  cases hmem

theorem ticked (h : Underway base bytes w) (now : Instant) :
    Underway base bytes (w.ticked now) := by
  obtain ⟨ds, hc⟩ := h.conserved
  exact h.grown (hc.tick now) (h.solo.tick now) rfl fun _ hmem => nomatch hmem

theorem polledEvent (h : Underway base bytes w) : Underway base bytes w.polledEvent := by
  obtain ⟨ds, hc⟩ := h.conserved
  refine h.moved ⟨ds, hc.pollEvent⟩ ?_ rfl
  show Solo bytes w.transfer.host.pollEvent.session
  rw [Watched.pollEvent_session]
  exact h.solo.pollEvent

theorem polledFile (h : Underway base bytes w) : Underway base bytes w.polledFile := by
  obtain ⟨ds, hc⟩ := h.conserved
  refine h.moved (Transfer.conserved_step (c := .poll) hc rfl) ?_ rfl
  show Solo bytes w.transfer.poll.host.session
  rw [Transfer.poll_host hc]
  exact h.solo.of_eq rfl rfl rfl

end Underway

namespace Blocking

/-- `Underway`, with what was reported so far. -/
abbrev Heading (base : List LogEntry) (bytes : Bytes) (told : List Progress) (w : World) : Prop :=
  Underway base bytes w ∧ w.reports = told

end Blocking

/-! ## One exchange, however it ends -/

/-- After `contents`, which were all acked, only copies of a packet with `content` were written. -/
def Midway (base : List LogEntry) (contents : List Content) (content : Content)
    (told : List Progress) (w : World) : Prop :=
  w.reports = told ∧ ∃ (p : Packet) (log tail : List LogEntry), p.content = content
    ∧ Exchanged base contents log ∧ w.log = log ++ tail ∧ ∀ out ∈ written tail, out = p.wire

namespace Blocking

variable (env : Env) {base : List LogEntry} {contents : List Content} {content : Content}
  {told : List Progress}

/-- Between two packets, with what was reported so far. -/
abbrev Paused (base : List LogEntry) (contents : List Content) (told : List Progress)
    (w : World) : Prop := Between base contents w ∧ w.reports = told

/-- A packet with `content` is on its way, and alone. -/
def Flying (base : List LogEntry) (contents : List Content) (content : Content)
    (told : List Progress) (w : World) : Prop :=
  ∃ (p : Packet) (log : List LogEntry), p.content = content ∧ Exchanged base contents log
    ∧ Heading log p.wire told w

theorem Flying.midway {w : World} (h : Flying base contents content told w) :
    Midway base contents content told w := by
  obtain ⟨p, log, hp, hex, hunder, htold⟩ := h
  obtain ⟨tail, hlog, hcopies⟩ := hunder.log
  exact ⟨htold, p, log, tail, hp, hex, hlog, hcopies⟩

theorem keeps_flying {α : Type} {x : Upload α}
    (h : ∀ log bytes, Keeps (Heading log bytes told) x) :
    Keeps (Flying base contents content told) x :=
  holds_of_state fun _ ⟨p, log, hp, hex, hw⟩ => (h log p.wire).mono (fun _ heq => heq ▸ hw)
    (fun _ _ hw => ⟨p, log, hp, hex, hw⟩) fun _ _ hw => ⟨p, log, hp, hex, hw⟩

/-- **One exchange, however it ends**: its packet was acked, or only copies of it were written. -/
theorem exchange {α : Type} {x : Upload α} {S : α → World → Prop}
    (h : ∀ p log, Holds (fun w => Ready w.transfer ∧ Turn false p log w.session w.log) x
      (fun a w => Ready w.transfer ∧ Over false p log w ∧ S a w) Errs)
    (hkeeps : ∀ log bytes, Keeps (Heading log bytes told) x) :
    Holds (fun w => (Ready w.transfer ∧ Sending base contents content w)
        ∧ Flying base contents content told w) x
      (fun a w => (Paused base (contents ++ [content]) told w ∧ S a w)
        ∧ Midway base contents content told w)
      (fun _ => Midway base contents content told) :=
  (((ensures_over h).pre fun _ hw => hw.1).and
      ((keeps_flying hkeeps).pre fun _ hw => hw.2)).mono (fun _ hw => hw)
    (fun _ _ hw => ⟨⟨⟨hw.1.1, hw.2.midway.1⟩, hw.1.2⟩, hw.2.midway⟩) fun _ _ he => he.2.midway

end Blocking

/-! ## What an upload comes to -/

/-- What the callback is called with. -/
def UploadStats.progress (stats : UploadStats) : Progress :=
  ⟨stats.bytesSent, stats.chunksSent, stats.sourceBytes⟩

section Exits

open Blocking

variable {env : Env} {crate : Option HeatshrinkCrate} {options : UploadOptions}
  {greeting : List LogEntry} {contents : List Content} {content : Content} {told : List Progress}

end Exits

end MarlinTransfer
