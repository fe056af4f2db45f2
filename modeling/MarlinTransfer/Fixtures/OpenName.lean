import MarlinTransfer.Adapters.Compression

/-!
# The name in an OPEN, read back

OPEN carries a name as its bytes and a zero byte behind them, and the device takes the name up
to the first zero byte. Between the two, queue and codec lose nothing: the device reads the
dummy flag, the compression byte and a name. The name is the caller's when that holds no
U+0000, which nobody checks, and otherwise what comes before the first.
-/

namespace MarlinTransfer

open Codec Text

/-! ## The payload -/

namespace FakeDevice

/-- What the device takes from a payload with something behind the two flags. -/
theorem readOpen_eq (d : FakeDevice) (dummy comp : UInt8) {rest : Bytes} (h : rest ≠ []) :
    d.readOpen (dummy :: comp :: rest)
      = { d with
          lastOpenDummy := some (dummy != 0)
          lastOpenCompressionByte := some comp
          lastOpenFilename := some (fromUtf8Lossy (rest.takeWhile (· != 0))) } := by
  have hlen : 3 ≤ (dummy :: comp :: rest).length := by
    have := List.length_pos_of_ne_nil h
    simp only [List.length_cons]
    omega
  -- the end of the name, counted from behind the two flags
  have hend : ((((dummy :: comp :: rest).drop 2).findIdx? (· == 0)).map (· + 2)).getD
      (dummy :: comp :: rest).length = rest.findIdx (· == 0) + 2 := by
    rw [List.findIdx_eq_getD_findIdx?]
    show ((rest.findIdx? (· == 0)).map (· + 2)).getD (rest.length + 2) = _
    cases rest.findIdx? (· == 0) with
    | none => rfl
    | some k => rfl
  have hname : rest.take (rest.findIdx (· == 0)) = rest.takeWhile (· != 0) := by
    rw [List.takeWhile_eq_take_findIdx_not]
    simp only [bne, Bool.not_not]
  unfold readOpen
  rw [if_pos hlen]
  dsimp only
  rw [hend, List.take_succ_cons, List.take_succ_cons, List.drop_succ_cons, List.drop_succ_cons,
    List.drop_zero, hname]
  rfl

end FakeDevice

/-- The text up to its first U+0000, as the device sees it. -/
def untilNul (name : Str) : Str := name.takeWhile (· != '\x00')

/-- Nothing is lost exactly when there is no U+0000. -/
theorem untilNul_eq_self_iff {name : Str} : untilNul name = name ↔ '\x00' ∉ name := by
  unfold untilNul
  rw [List.takeWhile_eq_self_iff]
  constructor
  · intro h hm
    exact absurd (h _ hm) (by decide)
  · intro h c hc
    rw [bne_iff_ne]
    rintro rfl
    exact h hc

theorem takeWhile_name (name : Str) :
    (asBytes name ++ [(0 : UInt8)]).takeWhile (· != 0) = asBytes (untilNul name) := by
  have hzero : asBytes name ++ [(0 : UInt8)] = asBytes (name ++ ['\x00']) := by
    rw [asBytes_append]
    rfl
  rw [hzero, takeWhile_asBytes]
  congr 1
  unfold untilNul
  rw [List.takeWhile_append]
  split_ifs with h
  · rw [(List.takeWhile_prefix _).eq_of_length h]
    exact List.append_nil name
  · rfl

/-- **The payload of OPEN, read by the device.** -/
theorem readOpen_openPayload (d : FakeDevice) {ft : FileTransfer} {c : Compression}
    (hc : ft.negotiated = some c) (name : Str) (dummy : Bool) :
    d.readOpen (ft.openPayload name dummy)
      = { d with
          lastOpenDummy := some dummy
          lastOpenCompressionByte := some (compressionByte c)
          lastOpenFilename := some (untilNul name) } := by
  have hpayload : ft.openPayload name dummy
      = (if dummy then 1 else 0) :: compressionByte c :: (asBytes name ++ [(0 : UInt8)]) := by
    unfold FileTransfer.openPayload
    rw [hc]
    cases c <;> rfl
  have hflag : ((if dummy then 1 else 0 : UInt8) != 0) = dummy := by cases dummy <;> rfl
  rw [hpayload, FakeDevice.readOpen_eq d _ _ (by simp), takeWhile_name, fromUtf8Lossy_asBytes,
    hflag]

/-! ## The packet -/

/-- The bytes are one packet, an OPEN, and this is what any device reads in it. -/
def ReadsAs (bytes : Bytes) (dummy : Bool) (comp : UInt8) (name : Str) : Prop :=
  ∃ p : Packet, decode bytes = some (.ok (p, bytes.length))
    ∧ p.protocol = protocolFileTransfer ∧ p.packetType = ptOpen
    ∧ ∀ d : FakeDevice, (d.readOpen p.payload).lastOpenDummy = some dummy
      ∧ (d.readOpen p.payload).lastOpenCompressionByte = some comp
      ∧ (d.readOpen p.payload).lastOpenFilename = some name

/-- No packet is read in two ways. -/
theorem ReadsAs.name_eq {bytes : Bytes} {dummy dummy' : Bool} {comp comp' : UInt8}
    {name name' : Str} (h : ReadsAs bytes dummy comp name)
    (h' : ReadsAs bytes dummy' comp' name') : name = name' := by
  obtain ⟨p, hp, -, -, hread⟩ := h
  obtain ⟨p', hp', -, -, hread'⟩ := h'
  rw [hp] at hp'
  obtain rfl := congrArg Prod.fst (Except.ok.inj (Option.some.inj hp'))
  obtain ⟨-, -, hname⟩ := hread (FakeDevice.new 0 [] 0)
  obtain ⟨-, -, hname'⟩ := hread' (FakeDevice.new 0 [] 0)
  rw [hname] at hname'
  exact Option.some.inj hname'

section Opening

variable {s : Session} {ops : List Op} {w w' : Watched} {earlier : List Call}
variable {t t' : Transfer} {name : Str} {dummy : Bool} {now : Instant}

/-- A transfer that opens has negotiated. -/
theorem negotiated_of_open (hr : (Transfer.start w).run earlier = some t)
    (hs : t.step (.open name dummy now) = some t') : ∃ c, t.ft.negotiated = some c := by
  have hv : t.ft.Versed := FileTransfer.versed_lasts.run FileTransfer.versed_new hr
  have hc : Calls .open t t' := calls_of_operation rfl hs
  exact hv.settled hc.required

/-- What `open` submits. -/
theorem submitted_open (hr : (Transfer.start w).run earlier = some t)
    (hs : t.step (.open name dummy now) = some t') :
    t'.host.log.submitted = t.host.log.submitted
      ++ [(⟨protocolFileTransfer, ptOpen, t.ft.openPayload name dummy⟩, false)] := by
  have hv : t.ft.Versed := FileTransfer.versed_lasts.run FileTransfer.versed_new hr
  rw [submitted_of_send (sent_of_request .open t.ft.requestedCompression hs), hv.protocol]
  rfl

/-- **Every copy of the OPEN** is read as its flags and the name up to the first U+0000. -/
theorem readsAs_of_placed (hw : (Watched.start s.reset).run ops = some w)
    (hr : (Transfer.start w).run earlier = some t) (hs : t.step (.open name dummy now) = some t')
    {c : Compression} (hc : t.ft.negotiated = some c) (later : List Op)
    (hl : t'.host.run later = some w') {bytes : Bytes} (hb : (t.host.log.submitted.length, bytes) ∈ w'.log.placed) :
    ReadsAs bytes dummy (compressionByte c) (untilNul name) := by
  obtain ⟨ds1, h1⟩ := Transfer.conserved hw hr
  obtain ⟨ds2, h2⟩ := conserved_run h1 (Transfer.host_step hs)
  obtain ⟨ds3, h3⟩ := conserved_run h2 hl
  obtain ⟨q, sync, hq, rfl⟩ := h3.placed_entry hb
  -- the packet with this number is the one that `open` submitted
  obtain ⟨rest, hrest⟩ := submitted_run hl
  rw [← hrest, submitted_open hr hs, List.append_assoc, List.getElem?_append_right (Nat.le_refl _),
    Nat.sub_self] at hq
  have hcontent := congrArg Prod.fst (Option.some.inj hq)
  obtain ⟨hprotocol, htype, hpayload⟩ := Content.mk.inj hcontent
  refine ⟨q.packet sync, ?_, hprotocol.symm, htype.symm, fun d => ?_⟩
  · have hdec := decode_wire (q.packet_valid sync) []
    rw [List.append_nil, ← Packet.wire_length] at hdec
    exact hdec
  · rw [show (q.packet sync).payload = t.ft.openPayload name dummy from hpayload.symm,
      readOpen_openPayload d hc name dummy]
    exact ⟨rfl, rfl, rfl⟩

/-- Over a line that is free the OPEN goes out at once. -/
theorem placed_of_idle (hw : (Watched.start s.reset).run ops = some w)
    (hr : (Transfer.start w).run earlier = some t) (hs : t.step (.open name dummy now) = some t')
    (hidle : t.host.session.inFlight = none) :
    ∃ bytes, (t.host.log.submitted.length, bytes) ∈ t'.host.log.placed := by
  obtain ⟨ds1, h1⟩ := Transfer.conserved hw hr
  have hsent := sent_of_request .open t.ft.requestedCompression hs
  obtain ⟨-, -, -, b, -, -, -, hsub⟩ := submitted_send h1 hsent
  cases hsub with
  | waits hbusy => rw [hidle] at hbusy; cases hbusy
  | launched f _ _ _ _ hlog =>
    refine ⟨f.bytes, ?_⟩
    have hlen := h1.submitted_length
    rw [hidle, h1.idle hidle] at hlen
    rw [hlog, hlen]
    exact List.mem_append_right _ (List.mem_singleton.mpr rfl)

end Opening

/--
**The name in an OPEN.** In every run of a transfer on any session: what `open` is called with,
after a query has settled on a compression, is what a device reads in every copy of the packet
that is ever placed outbound, at once if the line is free, if and only if the name holds no
U+0000.
-/
theorem open_reads_back_iff (s : Session) (ops : List Op) (w : Watched)
    (hw : (Watched.start s.reset).run ops = some w) (earlier : List Call) (t : Transfer)
    (hr : (Transfer.start w).run earlier = some t) (name : Str) (dummy : Bool) (now : Instant)
    (t' : Transfer) (hs : t.step (.open name dummy now) = some t') :
    ∃ c, t.ft.negotiated = some c
      ∧ (t.host.session.inFlight = none →
        ∃ bytes, (t.host.log.submitted.length, bytes) ∈ t'.host.log.placed)
      ∧ ∀ (later : List Op) (w' : Watched), t'.host.run later = some w' →
          ∀ bytes, (t.host.log.submitted.length, bytes) ∈ w'.log.placed →
            (ReadsAs bytes dummy (compressionByte c) name ↔ '\x00' ∉ name) := by
  obtain ⟨c, hc⟩ := negotiated_of_open hr hs
  refine ⟨c, hc, placed_of_idle hw hr hs, fun later w' hl bytes hb => ?_⟩
  have hread := readsAs_of_placed hw hr hs hc later hl hb
  rw [← untilNul_eq_self_iff]
  constructor
  · exact fun h => hread.name_eq h
  · intro h
    rw [h] at hread
    exact hread

/-- A name outside ASCII. -/
def accentedName : Str := ['é', 't', 'é', '.', 'g']

theorem open_reads_back_iff_accentedName :
    ∃ t t' bytes, (Transfer.start handshaken).run negotiatedCalls = some t
      ∧ t.step (.open accentedName true 4) = some t'
      ∧ (t.host.log.submitted.length, bytes) ∈ t'.host.log.placed
      ∧ ReadsAs bytes true 0 accentedName := by
  have hrun : ((Transfer.start handshaken).run negotiatedCalls).map (fun t =>
      (t.ft.negotiated, t.host.session.inFlight, (t.step (.open accentedName true 4)).isSome))
      = some (some .none, none, true) := by
    decide +kernel
  obtain ⟨t, ht, hobs⟩ := Option.map_eq_some_iff.mp hrun
  obtain ⟨hneg, hobs⟩ := Prod.mk.inj hobs
  obtain ⟨hidle, hsome⟩ := Prod.mk.inj hobs
  obtain ⟨t', ht'⟩ := Option.isSome_iff_exists.mp hsome
  obtain ⟨c, hc, hout, hread⟩ := open_reads_back_iff Session.new handshakeOps handshaken
    handshaken_run negotiatedCalls t ht accentedName true 4 t' ht'
  obtain rfl := Option.some.inj (hc.symm.trans hneg)
  obtain ⟨bytes, hb⟩ := hout hidle
  exact ⟨t, t', bytes, ht, ht', hb, (hread [] t'.host rfl bytes hb).mpr (by decide)⟩

/-- A name with a U+0000 inside. -/
def brokenName : Str := ['a', '\x00', 'b']

/-- The device opens `a` when it is told to open `a\0b`. -/
theorem open_loses_brokenName :
    ∃ t t' bytes, (Transfer.start handshaken).run negotiatedCalls = some t
      ∧ t.step (.open brokenName false 4) = some t'
      ∧ (t.host.log.submitted.length, bytes) ∈ t'.host.log.placed
      ∧ ReadsAs bytes false 0 ['a'] ∧ ¬ ReadsAs bytes false 0 brokenName := by
  have hrun : ((Transfer.start handshaken).run negotiatedCalls).map (fun t =>
      (t.ft.negotiated, t.host.session.inFlight, (t.step (.open brokenName false 4)).isSome))
      = some (some .none, none, true) := by
    decide +kernel
  obtain ⟨t, ht, hobs⟩ := Option.map_eq_some_iff.mp hrun
  obtain ⟨hneg, hobs⟩ := Prod.mk.inj hobs
  obtain ⟨hidle, hsome⟩ := Prod.mk.inj hobs
  obtain ⟨t', ht'⟩ := Option.isSome_iff_exists.mp hsome
  obtain ⟨bytes, hb⟩ := placed_of_idle handshaken_run ht ht' hidle
  have hread : ReadsAs bytes false 0 ['a'] :=
    readsAs_of_placed handshaken_run ht ht' hneg [] rfl hb
  refine ⟨t, t', bytes, ht, ht', hb, hread, fun h => ?_⟩
  exact absurd (h.name_eq hread) (by decide)

end MarlinTransfer
