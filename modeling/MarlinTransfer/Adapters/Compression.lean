import MarlinTransfer.Adapters.Sizes
import MarlinTransfer.FileTransfer.Committed

/-!
# One compression for both ends

What a query settles is used twice: the byte in OPEN tells the device, and the host compresses
or does not. Both read it from the same place, so they agree: whatever an upload writes was
compressed if and only if its OPEN says so.
-/

namespace MarlinTransfer

open Codec Text Session Triple

/-- What is said of a compression in OPEN. -/
def compressionByte : Compression → UInt8
  | .heatshrink _ _ => 1
  | _ => 0

theorem openContent_byte (options : UploadOptions) (c : Compression) :
    (openContent options c).payload[1]? = some (compressionByte c) := by
  cases c <;> rfl

/-- What becomes of the source: the encoder's output, with the parameters that were negotiated, in
its range, if the byte is one, and the source as it is if the byte is zero. -/
def Carries (crate : Option HeatshrinkCrate) (c : Compression) (source payload : Bytes) : Prop :=
  compressionByte c = 1 ∧ (∃ heatshrink window lookahead, crate = some heatshrink
      ∧ c = .heatshrink window lookahead
      ∧ heatshrink.Takes window lookahead
      ∧ payload = heatshrink.encode window lookahead source)
    ∨ compressionByte c = 0 ∧ c = .none ∧ payload = source

theorem carries_of_isPayload {crate : Option HeatshrinkCrate} {source payload : Bytes}
    {c : Compression} (h : IsPayload crate source payload c) : Carries crate c source payload := by
  cases c with
  | none => exact .inr ⟨rfl, rfl, h⟩
  | heatshrink window lookahead =>
    obtain ⟨heatshrink, hcrate, hpayload⟩ := h
    exact .inl ⟨rfl, heatshrink, window, lookahead, hcrate, rfl, hpayload⟩
  | auto => exact h.elim

/-- Without the crate nothing is compressed. -/
theorem byte_of_carries {c : Compression} {source payload : Bytes}
    (h : Carries none c source payload) : compressionByte c = 0 := by
  rcases h with ⟨-, heatshrink, window, lookahead, hcrate, -⟩ | ⟨h, -⟩
  · cases hcrate
  · exact h

/-! ## What an upload submits -/

/-- The packets of `send`, none of them a SYNC. -/
def sentAs (contents : List Content) : List (Content × Bool) := contents.map (·, false)

/-- What an upload has submitted when it waits for the answer to its query. -/
def enquired : List (Content × Bool) :=
  (helloPacket.content, true) :: sentAs [fileContent ptQuery []]

/-- What it has submitted once it said OPEN. -/
def saidOpen (options : UploadOptions) (c : Compression) : List (Content × Bool) :=
  enquired ++ sentAs [openContent options c]

/-- What it has submitted when it returns. -/
def saidAll (options : UploadOptions) (c : Compression) (chunks : List Bytes) :
    List (Content × Bool) :=
  saidOpen options c ++ sentAs (chunks.map (fileContent ptWrite))
    ++ sentAs [fileContent ptClose []] ++ sentAs [controlClose]

namespace Blocking

variable (env : Env) {l : List (Content × Bool)}

/-- The transfer is ready, and this was submitted. -/
def Sent (l : List (Content × Bool)) (w : World) : Prop := Ready w.transfer ∧ w.submitted = l

/-- What a program that submits nothing ensures, and that it submits nothing. -/
theorem holds_sent {α : Type} {x : Upload α} {P : World → Prop} {Q : α → World → Prop}
    (h : Holds P x Q Errs) (hx : Mute x) :
    Holds (fun w => P w ∧ w.submitted = l) x (fun a w => Q a w ∧ w.submitted = l)
      (fun _ w => w.submitted = l) :=
  ((h.pre fun _ hw => hw.1).and ((hx l).pre fun _ hw => hw.2)).stops fun _ _ he => he.2.1

/-- The time of a call. -/
theorem holds_now_sent {P : World → Prop} (hP : Untallied P) :
    Holds (fun w => P w ∧ w.submitted = l) (now env) (fun _ w => P w ∧ w.submitted = l)
      (fun _ w => w.submitted = l) :=
  holds_sent (holds_now env hP) (mute_now env)

/-- A transfer does not look at the counters. -/
theorem untallied_ready : Untallied fun w => Ready w.transfer := fun _ _ _ _ h => h

/-- **A call** submits the packet of its operation, or nothing. -/
theorem holds_call_sent {P : World → Prop} {c : Call} (op : Operation) (payload : Bytes)
    (hop : c.operation = some op) (hP : ∀ w, P w → Sent l w)
    (hpayload : ∀ w, P w → c.payload w.ft = payload) :
    Holds P (call c) (fun _ => Sent (l ++ sentAs [fileContent op.packetType payload]))
      (fun _ w => w.submitted = l) := by
  refine holds_bind (fun w0 w => P w ∧ w = w0) (holds_get fun w hw => ⟨hw, rfl⟩) fun w0 => ?_
  cases hs : w0.transfer.step c with
  | none => exact holds_throw fun w hw => (hP w hw.1).2
  | some t =>
    refine holds_modify ?_
    rintro w ⟨hw, rfl⟩
    obtain ⟨hr, hl⟩ := hP w hw
    obtain ⟨now, hsent⟩ := sent_of_step hop hs
    refine ⟨hr.step hs, ?_⟩
    show t.host.log.submitted = _
    rw [submitted_of_send hsent, hr.prompt.protocol, show c.payload w.transfer.ft = payload from
      hpayload w hw, show w.transfer.host.log.submitted = l from hl]
    rfl

theorem holds_event_sent (pred : FileEvent → Bool) :
    Holds (Sent l) (driveUntilEvent env pred) (fun _ => Sent l) (fun _ w => w.submitted = l) :=
  holds_sent (holds_drive_file env fun _ _ _ h _ _ => h.poll.2) (mute_drive env mute_poll _ _)

/-- **The chunks are submitted in order**, as many as there is time for. -/
theorem holds_writeChunks_sent (options : UploadOptions) :
    ∀ (chunks : List Bytes) (stats : UploadStats) (l : List (Content × Bool)),
      Holds (Sent l) (writeChunks env options chunks stats)
        (fun _ => Sent (l ++ sentAs (chunks.map (fileContent ptWrite))))
        (fun _ w => w.submitted <+: l ++ sentAs (chunks.map (fileContent ptWrite))) := by
  intro chunks
  induction chunks with
  | nil =>
    intro stats l
    refine holds_pure fun w hw => ?_
    rw [List.map_nil, sentAs, List.map_nil, List.append_nil]
    exact hw
  | cons chunk chunks ih =>
    intro stats l
    have hall : l ++ sentAs ((chunk :: chunks).map (fileContent ptWrite))
        = (l ++ sentAs [fileContent ptWrite chunk])
          ++ sentAs (chunks.map (fileContent ptWrite)) := by
      rw [List.append_assoc]
      rfl
    have hone : ∀ {w : World}, w.submitted <+: l ++ sentAs [fileContent ptWrite chunk] →
        w.submitted <+: l ++ sentAs ((chunk :: chunks).map (fileContent ptWrite)) :=
      fun h => h.trans (hall ▸ List.prefix_append _ _)
    have hrest := ih { stats with
      bytesSent := stats.bytesSent + chunk.length
      chunksSent := stats.chunksSent + 1 } (l ++ sentAs [fileContent ptWrite chunk])
    rw [← hall] at hrest
    refine holds_bind _ ((holds_now_sent env untallied_ready).stops fun _ w he => ?_) fun now => ?_
    · exact hone (he ▸ List.prefix_append _ _)
    refine holds_bind _ ((holds_call_sent .write chunk rfl (fun _ hw => hw) fun _ _ => rfl).stops
      fun _ w he => ?_) fun _ => ?_
    · exact hone (he ▸ List.prefix_append _ _)
    refine holds_bind _ ((holds_event_sent env _).stops fun _ w he =>
      hone (he ▸ List.prefix_rfl)) fun _ => ?_
    dsimp only
    split_ifs
    · exact holds_bind _ (holds_modify fun w hw => hw) fun _ => hrest
    · exact hrest

/-! ## Up to OPEN -/

theorem holds_handshake_sent :
    Holds (fun w => w = World.start) (handshake env)
      (fun _ w => Live w.transfer.host ∧ w.submitted = [(helloPacket.content, true)])
      (fun _ w => w.submitted <+: [(helloPacket.content, true)]) := by
  have hmute : ∀ {α : Type} {x : Upload α} {P : World → Prop} {Q : α → World → Prop}
      {l : List (Content × Bool)}, l <+: [(helloPacket.content, true)] → Holds P x Q Errs →
      Mute x → Holds (fun w => P w ∧ w.submitted = l) x (fun a w => Q a w ∧ w.submitted = l)
        (fun _ w => w.submitted <+: [(helloPacket.content, true)]) :=
    fun hl h hx => (holds_sent h hx).stops fun _ _ he => he ▸ hl
  refine holds_bind (fun _ _ => True) ?_ fun _ => ?_
  · refine (hmute List.nil_prefix (P := fun _ => True) (Q := fun _ _ => True)
      (holds_writeAll env binaryTrigger (fun _ _ _ _ h => h) fun _ h => h)
      (mute_writeAll env binaryTrigger)).mono (fun w hw => ⟨trivial, ?_⟩) (fun _ _ _ => trivial)
      fun _ _ he => he
    rw [hw]
    rfl
  refine holds_bind (fun _ w => w.transfer.host = Watched.start Session.new ∧ w.submitted = [])
    (holds_modify fun w _ => ⟨rfl, rfl⟩) fun _ => ?_
  refine holds_bind (fun _ w => Greeting w.transfer.host
    ∧ w.submitted = [(helloPacket.content, true)]) ?_ fun _ => ?_
  · refine holds_bind _ (hmute List.nil_prefix (holds_now env fun _ _ _ _ h => h) (mute_now env))
      fun now => holds_modify ?_
    rintro w ⟨hhost, -⟩
    show Greeting (w.transfer.host.connect now) ∧ (w.transfer.host.connect now).log.submitted = _
    rw [hhost]
    exact ⟨Greeting.connect_start now, rfl⟩
  exact hmute List.prefix_rfl (holds_driveSessionUntilSynced env)
    (mute_drive env mute_pollEvent _ _)

/-- **Up to OPEN**: what the query settled is what the transfer goes on with. -/
theorem holds_negotiate_sent (options : UploadOptions) :
    Holds (fun w => w = World.start) (negotiate env options)
      (fun p w => (Ready w.transfer ∧ w.ft.negotiated = some p.2 ∧ p.2 ≠ .auto)
        ∧ w.submitted = enquired)
      (fun _ w => w.submitted <+: enquired) := by
  have hhello : [(helloPacket.content, true)] <+: enquired := List.prefix_append _ _
  refine holds_bind _ ((holds_handshake_sent env).stops fun _ _ he => he.trans hhello) fun _ => ?_
  refine holds_bind (fun _ w => Live w.transfer.host
    ∧ w.submitted = [(helloPacket.content, true)]) (holds_get fun _ hw => hw) fun w0 => ?_
  refine holds_bind (fun _ => Sent [(helloPacket.content, true)]) (holds_modify fun w hw =>
    ⟨ready_start hw.1, hw.2⟩) fun _ => ?_
  refine holds_bind _ ((holds_now_sent env untallied_ready).stops fun _ _ he => he ▸ hhello)
    fun now => ?_
  refine holds_bind _ ((holds_call_sent .query [] rfl (fun _ hw => hw) fun _ _ => rfl).stops
    fun _ _ he => he ▸ hhello) fun _ => ?_
  refine holds_bind _ ((holds_sent (holds_drive_file (S := fun c w => Ready w.transfer
    ∧ w.ft.negotiated = some c ∧ c ≠ .auto) env fun w ev a h hev hans => ?_)
    (mute_drive env mute_poll _ _)).stops fun _ _ he => he ▸ List.prefix_rfl) fun c =>
      holds_pure fun w hw => hw
  cases ev with
  | negotiated version c =>
    obtain rfl : c = a := by simpa using hans
    exact ⟨h.poll.2, negotiated_polled h hev, negotiated_ne_auto h hev⟩
  | _ => simp at hans

/-! ## From OPEN on -/

/-- The source was read, and its payload was cut into chunks. -/
structure Prepared (crate : Option HeatshrinkCrate) (c : Compression) (source payload : Bytes)
    (chunks : List Bytes) : Prop where
  read : env.source = .ok source
  carries : Carries crate c source payload
  flatten : chunks.flatten = payload

/-- An upload that stopped: before its payload was there, or while it was written. -/
def Stopped (crate : Option HeatshrinkCrate) (options : UploadOptions) (c : Compression)
    (w : World) : Prop :=
  w.submitted <+: saidOpen options c
    ∨ ∃ source payload chunks, Prepared env crate c source payload chunks
      ∧ w.submitted <+: saidAll options c chunks

/-- An upload that returned. -/
def Finished (crate : Option HeatshrinkCrate) (options : UploadOptions) (c : Compression)
    (w : World) : Prop :=
  ∃ source payload chunks, Prepared env crate c source payload chunks
    ∧ w.submitted = saidAll options c chunks

theorem holds_sendControlClose_sent :
    Holds (Sent l) (sendControlClose env)
      (fun _ w => w.submitted = l ++ sentAs [controlClose]) (fun _ w => w.submitted = l) := by
  refine holds_bind _ (holds_now_sent env untallied_ready) fun now => ?_
  refine holds_bind (fun w0 w => w.submitted = l ∧ w = w0) (holds_get fun w hw => ⟨hw.2, rfl⟩)
    fun w0 => ?_
  cases hs : w0.transfer.host.send 0 2 [] now with
  | none => exact holds_throw fun w hw => hw.1
  | some host =>
    refine holds_modify ?_
    rintro w ⟨hl, rfl⟩
    show host.log.submitted = _
    rw [submitted_of_send hs, show w.transfer.host.log.submitted = l from hl]
    rfl

/-- **From OPEN on**, OPEN and the payload follow the same compression. -/
theorem holds_finish_sent (crate : Option HeatshrinkCrate) (options : UploadOptions)
    (deviceMax : UInt16) {c : Compression} (hc : c ≠ .auto) :
    Holds (fun w => (Ready w.transfer ∧ w.ft.negotiated = some c) ∧ w.submitted = enquired)
      (finish env crate options deviceMax c) (fun _ => Finished env crate options c)
      (fun _ => Stopped env crate options c) := by
  have hasked : ∀ {w : World}, w.submitted = enquired → Stopped env crate options c w :=
    fun h => .inl (h ▸ List.prefix_append _ _)
  have hopened : ∀ {w : World}, w.submitted = saidOpen options c → Stopped env crate options c w :=
    fun h => .inl (h ▸ List.prefix_rfl)
  have hun : Untallied fun w => Ready w.transfer ∧ w.ft.negotiated = some c :=
    fun _ _ _ _ h => h
  refine holds_bind _ ((holds_now_sent env hun).stops fun _ _ he => hasked he) fun now => ?_
  refine holds_bind (fun _ => Sent (saidOpen options c)) ((holds_call_sent .open
    (openContent options c).payload rfl (fun _ hw => ⟨hw.1.1, hw.2⟩) fun w hw => ?_).stops
      fun _ _ he => hasked he) fun _ => ?_
  · show w.ft.openPayload options.destFilename options.dummy = _
    unfold FileTransfer.openPayload
    rw [hw.1.2]
    cases c <;> rfl
  refine holds_bind _ ((holds_event_sent env _).stops fun _ _ he => hopened he) fun _ => ?_
  refine holds_bind (fun source w => env.source = .ok source ∧ Sent (saidOpen options c) w) ?_
    fun source => ?_
  · unfold readToEnd
    cases env.source with
    | ok source => exact holds_pure fun w hw => ⟨rfl, hw⟩
    | error err => exact holds_throw fun w hw => hopened hw.2
  refine holds_bind (fun payload w => (env.source = .ok source
    ∧ Carries crate c source payload) ∧ Sent (saidOpen options c) w) ?_ fun payload => ?_
  · refine holds_of_fact fun hsource => ?_
    refine ((ensures_payloadOf (P := Sent (saidOpen options c)) crate source c).and
      ((mute_payloadOf crate source hc (saidOpen options c)).pre fun _ hw => hw.2)).mono
        (fun _ hw => hw) (fun payload w hq => ?_) fun _ _ he => hopened he.2.1
    exact ⟨⟨hsource, carries_of_isPayload hq.1.2⟩, hq.1.1⟩
  refine holds_of_fact fun ⟨hsource, hcarries⟩ => ?_
  -- from here on the run is one of these chunks
  have hprep : Prepared env crate c source payload
      (Chunks.chunks (resolveChunkSize options.chunkSize deviceMax) payload) :=
    ⟨hsource, hcarries, Chunks.flatten_chunks (resolveChunkSize_pos _ _) payload⟩
  have hstop : ∀ {w : World} {l l' : List (Content × Bool)}, w.submitted = l →
      saidAll options c (Chunks.chunks (resolveChunkSize options.chunkSize deviceMax) payload)
        = l ++ l' → Stopped env crate options c w := by
    intro w l l' hw hl
    exact .inr ⟨_, _, _, hprep, hw ▸ hl ▸ List.prefix_append _ _⟩
  refine holds_bind _ ((holds_writeChunks_sent env options _ _ _).stops fun _ w he => ?_)
    fun stats => ?_
  · refine .inr ⟨_, _, _, hprep, he.trans ?_⟩
    unfold saidAll
    rw [List.append_assoc]
    exact List.prefix_append _ _
  refine holds_bind _ ((holds_now_sent env untallied_ready).stops fun _ _ he =>
    hstop he (List.append_assoc _ _ _)) fun now => ?_
  refine holds_bind _ ((holds_call_sent .close [] rfl (fun _ hw => hw) fun _ _ => rfl).stops
    fun _ _ he => hstop he (List.append_assoc _ _ _)) fun _ => ?_
  refine holds_bind _ ((holds_event_sent env _).stops fun _ _ he => hstop he rfl) fun _ => ?_
  refine holds_bind _ ((holds_sendControlClose_sent env).stops fun _ _ he => hstop he rfl)
    fun _ => ?_
  refine holds_bind _ ((mute_drive env mute_pollEvent _ _ _).stops fun _ _ he =>
    hstop he.1 (List.append_nil _).symm) fun _ => ?_
  exact holds_pure fun w hw => ⟨source, payload, _, hprep, hw⟩

end Blocking

/-! ## The theorem -/

/-- The spec on a version line, and the device it speaks for: what the device renders, or for a
device without compression anything that cannot be read. -/
def SpeaksFor (spec : Str) (device : CompressionSpec) : Prop :=
  spec = device.render ∨ device = .none ∧ '\n' ∉ spec ∧ spec.getLast? ≠ some '\r'
    ∧ ∀ window lookahead, ¬ ReadsHeatshrink spec window lookahead

theorem SpeaksFor.complete {spec : Str} {device : CompressionSpec} (h : SpeaksFor spec device) :
    '\n' ∉ spec ∧ spec.getLast? ≠ some '\r' := by
  rcases h with rfl | ⟨-, hlf, hcr, -⟩
  · exact render_complete device
  · exact ⟨hlf, hcr⟩

theorem SpeaksFor.parse {spec : Str} {device : CompressionSpec} (h : SpeaksFor spec device) :
    parseCompressionSpec spec = device.compression := by
  rcases h with rfl | ⟨rfl, -, -, hno⟩
  · exact parseCompressionSpec_render device
  · exact parseCompressionSpec_unreadable hno

/-- Every later OPEN of a transfer says this compression. -/
def OpensUnder (c : Compression) (t : Transfer) : Prop :=
  ∀ (calls : List Call) (t1 t2 : Transfer) (name : Str) (dummy : Bool) (now : Instant),
    t.run calls = some t1 → t1.step (.open name dummy now) = some t2 →
      ∃ content, t2.host.log.submitted = t1.host.log.submitted ++ [(content, false)]
        ∧ content.packetType = ptOpen ∧ content.payload[1]? = some (compressionByte c)

theorem opensUnder_of_committed {t : Transfer} {ds : List Dispatch} (hc : Conserved t.host ds)
    {c : Compression} (h : t.ft.Committed (some c)) : OpensUnder c t := by
  intro calls t1 t2 name dummy now hr hs
  have hbare : t.bare.run calls = some t1.bare := by
    rw [← Transfer.bare_run hc, hr]
    rfl
  have h1 : t1.bare.ft.Committed (some c) := committed_run (b := t.bare) h hbare
  have hsent := sent_of_request .open t1.ft.requestedCompression hs
  refine ⟨_, submitted_of_send hsent, rfl, ?_⟩
  show (t1.ft.openPayload name dummy)[1]? = _
  rw [show t1.ft = t1.bare.ft from rfl, h1.openPayload]
  cases c <;> rfl

/-- What a query comes to, by what was agreed on. -/
def ComesTo (t t' : Transfer) (version : Str) : Option Compression → Prop
  | some c => t'.returned = t.returned ++ [.negotiated version c] ∧ t'.ft.negotiated = some c
    ∧ c ≠ .auto ∧ OpensUnder c t'
  | none => t'.returned = t.returned ++ [.failed .compressionUnsupported]
    ∧ t'.ft.state = .failed ∧ t'.ft.negotiated = none

section Dialogues

variable {s : Session} {ops : List Op} {w : Watched} {earlier : List Call} {t : Transfer}
variable {requested : Compression} {now : Instant} {calls : List Call}
variable {pre mid after : List Bytes}

/-- **With a version line** the query comes to what caller and device agree on. -/
theorem QueryDialogue.comesTo (hw : (Watched.start s.reset).run ops = some w)
    (hr : (Transfer.start w).run earlier = some t) {version spec : Str} {device : CompressionSpec}
    {returns : Nat} (hv : ':' ∉ version) (hlf : '\n' ∉ version) (hspec : SpeaksFor spec device)
    (hother : ∀ line ∈ pre ++ mid ++ after, OtherLine line)
    (h : QueryDialogue t requested now calls (pre ++ versionLine version spec returns :: mid)
      after) :
    ∃ t', t.run (.query requested now :: (calls ++ [.poll])) = some t'
      ∧ ComesTo t t' version (agree requested device) := by
  have hline := reply_versionLine hlf hspec.complete.1 hspec.complete.2 returns
  have hpre : ∀ line ∈ pre, OtherLine line := fun line hl =>
    hother line (List.mem_append_left _ (List.mem_append_left _ hl))
  have hmid : ∀ line ∈ mid, OtherLine line := fun line hl =>
    hother line (List.mem_append_left _ (List.mem_append_right _ hl))
  have hquiet : ∀ {line}, OtherLine line → (0x0A : UInt8) ∉ line ∧ (reply line).quiet = true :=
    fun hl => ⟨hl.1, Reply.quiet_of_other hl.2⟩
  have hmap : ∀ {lines : List Bytes}, (∀ line ∈ lines, OtherLine line) →
      ∀ r ∈ lines.map reply, r.other = true := by
    intro lines hl r hr
    obtain ⟨line, hm, rfl⟩ := List.mem_map.mp hr
    exact (hl line hm).2
  have hbefore : ∀ line ∈ pre ++ versionLine version spec returns :: mid,
      (0x0A : UInt8) ∉ line ∧ (reply line).quiet = true := by
    intro line hl
    rcases List.mem_append.mp hl with hl | hl
    · exact hquiet (hpre line hl)
    rcases List.mem_cons.mp hl with rfl | hl
    · exact ⟨lf_notMem_versionLine hlf hspec.complete.1 returns, by rw [hline]; rfl⟩
    · exact hquiet (hmid line hl)
  -- the lines reach the query as replies, whatever chunks they came in
  obtain ⟨t', ht', hret, hft⟩ := h.answered hw hr hbefore fun line hl =>
    hquiet (hother line (List.mem_append_right _ hl))
  refine ⟨t', ht', ?_⟩
  have hout := enquiry_version t.bare requested now hv hspec.parse (hmap hpre) (hmap hmid)
  rw [List.map_append, List.map_cons, hline] at hret hft
  obtain ⟨ds', hc'⟩ := Transfer.conserved hw hr
  obtain ⟨ds'', hc''⟩ := conserved_run hc' (Transfer.host_run ht')
  cases ha : agree requested device with
  | some c =>
    rw [ha] at hout
    obtain ⟨h1, -, h3⟩ := hout
    rw [← hft] at h3
    exact ⟨hret.trans (by rw [h1]), h3.negotiated, agree_ne_auto ha,
      opensUnder_of_committed hc'' h3⟩
  | none =>
    rw [ha] at hout
    obtain ⟨h1, h2, h3⟩ := hout
    rw [← hft] at h2 h3
    exact ⟨hret.trans (by rw [h1]), h2, h3.negotiated⟩

/-- **Without one** it comes to nothing. -/
theorem QueryDialogue.silent (hw : (Watched.start s.reset).run ops = some w)
    (hr : (Transfer.start w).run earlier = some t)
    (hother : ∀ line ∈ pre ++ after, OtherLine line)
    (h : QueryDialogue t requested now calls pre after) :
    ∃ t', t.run (.query requested now :: (calls ++ [.poll])) = some t'
      ∧ t'.returned = t.returned ++ [.failed (.protocolViolation "AwaitingQueryReply"
        "PFT:version:<v>:<compression-spec>")]
      ∧ t'.ft.state = .failed ∧ t'.ft.negotiated = none := by
  have hquiet : ∀ {line}, OtherLine line → (0x0A : UInt8) ∉ line ∧ (reply line).quiet = true :=
    fun hl => ⟨hl.1, Reply.quiet_of_other hl.2⟩
  obtain ⟨t', ht', hret, hft⟩ := h.answered hw hr
    (fun line hl => hquiet (hother line (List.mem_append_left _ hl)))
    fun line hl => hquiet (hother line (List.mem_append_right _ hl))
  have hmap : ∀ r ∈ pre.map reply, r.other = true := by
    intro r hr
    obtain ⟨line, hm, rfl⟩ := List.mem_map.mp hr
    exact (hother line (List.mem_append_left _ hm)).2
  obtain ⟨h1, h2, h3⟩ := enquiry_silent t.bare requested now hmap
  rw [← hft] at h2 h3
  exact ⟨t', ht', hret.trans (by rw [h1]), h2, h3.negotiated⟩

end Dialogues

open Blocking in
/-- **How an upload follows what it negotiated.** One that has no answer to its query submits
nothing more. One that has goes on with it: OPEN says it, and whatever is written was prepared
by it. -/
def FollowsThrough (env : Env) (crate : Option HeatshrinkCrate) (options : UploadOptions) : Prop :=
  match exec (negotiate env options) World.start with
  | (.error e, w1) =>
    exec (upload env crate options) World.start = (.error e, w1) ∧ w1.submitted <+: enquired
  | (.ok (_, c), w1) => w1.ft.negotiated = some c ∧ c ≠ .auto
    ∧ (openContent options c).payload[1]? = some (compressionByte c)
    ∧ match exec (upload env crate options) World.start with
      | (.error _, w) => Stopped env crate options c w
      | (.ok _, w) => Finished env crate options c w

open Blocking in
theorem followsThrough (env : Env) (crate : Option HeatshrinkCrate) (options : UploadOptions) :
    FollowsThrough env crate options := by
  have hneg := holds_negotiate_sent env options World.start rfl
  unfold FollowsThrough
  rw [upload_eq, exec_bind]
  cases hx : exec (negotiate env options) World.start with
  | mk r w1 =>
    rw [hx] at hneg
    cases r with
    | error e => exact ⟨rfl, hneg⟩
    | ok p =>
      obtain ⟨⟨hready, hc, hauto⟩, hsent⟩ := hneg
      refine ⟨hc, hauto, openContent_byte options p.2, ?_⟩
      have hfin := holds_finish_sent env crate options p.1 hauto w1 ⟨⟨hready, hc⟩, hsent⟩
      dsimp only
      cases hy : exec (finish env crate options p.1 p.2) w1 with
      | mk r w =>
        rw [hy] at hfin
        cases r <;> exact hfin

open Blocking in
/-- A build without the crate writes nothing under an OPEN that says one. -/
theorem writes_nothing_without_crate {env : Env} {options : UploadOptions} {deviceMax : UInt16}
    {c : Compression} {w1 : World}
    (hneg : exec (negotiate env options) World.start = (.ok (deviceMax, c), w1))
    (hbyte : compressionByte c = 1) {r : Except Stop UploadStats} {w : World}
    (hr : exec (upload env none options) World.start = (r, w)) :
    (∃ e, r = .error e) ∧ w.submitted <+: saidOpen options c := by
  have hno : ∀ {source payload : Bytes} {chunks : List Bytes},
      ¬ Prepared env none c source payload chunks := by
    intro source payload chunks h
    have h0 := byte_of_carries h.carries
    rw [hbyte] at h0
    exact absurd h0 (by decide)
  have h := followsThrough env none options
  unfold FollowsThrough at h
  rw [hneg, hr] at h
  obtain ⟨-, -, -, h⟩ := h
  cases r with
  | ok stats =>
    obtain ⟨source, payload, chunks, hprep, -⟩ := h
    exact absurd hprep hno
  | error e =>
    rcases h with h | ⟨source, payload, chunks, hprep, -⟩
    · exact ⟨⟨e, rfl⟩, h⟩
    · exact absurd hprep hno

open Blocking in
/--
**One compression for both ends.** For every transfer that was not used, every request and
every way the answer is cut and fed: a version line before the ack settles the query by what
caller and device agree on, whatever other lines come with it; without one the ack is a
violation. No version line without a second colon counts as one. What is settled is never
`Auto`, and every later OPEN says it. An upload goes on with what it negotiated: OPEN says it,
and the source goes through the encoder, with its parameters, if and only if the byte in OPEN is
one;
without the crate an upload whose byte is one writes nothing and does not return `Ok`.
-/
theorem compression_agreed :
    (∀ (s : Session) (ops : List Op) (w : Watched) (earlier : List Call) (t : Transfer)
        (requested : Compression) (now : Instant) (calls : List Call) (pre mid after : List Bytes),
      (Watched.start s.reset).run ops = some w → (Transfer.start w).run earlier = some t →
      (∀ line ∈ pre ++ mid ++ after, OtherLine line) →
        (∀ (version spec : Str) (device : CompressionSpec) (returns : Nat), ':' ∉ version →
          '\n' ∉ version → SpeaksFor spec device →
          QueryDialogue t requested now calls (pre ++ versionLine version spec returns :: mid)
            after →
          ∃ t', t.run (.query requested now :: (calls ++ [.poll])) = some t'
            ∧ ComesTo t t' version (agree requested device))
        ∧ (QueryDialogue t requested now calls (pre ++ mid) after →
          ∃ t', t.run (.query requested now :: (calls ++ [.poll])) = some t'
            ∧ t'.returned = t.returned ++ [.failed (.protocolViolation "AwaitingQueryReply"
              "PFT:version:<v>:<compression-spec>")]
            ∧ t'.ft.state = .failed ∧ t'.ft.negotiated = none))
      ∧ (∀ (version : Str) (returns : Nat), ':' ∉ version → '\n' ∉ version →
        version.getLast? ≠ some '\r' → OtherLine (bareVersionLine version returns))
      ∧ (∀ env crate options, FollowsThrough env crate options)
      ∧ ∀ env options deviceMax c w1 r w,
        exec (negotiate env options) World.start = (.ok (deviceMax, c), w1) →
        compressionByte c = 1 → exec (upload env none options) World.start = (r, w) →
          (∃ e, r = .error e) ∧ w.submitted <+: saidOpen options c := by
  refine ⟨?_, fun version returns hv hlf hcr => otherLine_bareVersion hv hlf hcr returns,
    followsThrough, fun env options deviceMax c w1 r w hneg hbyte hr =>
      writes_nothing_without_crate hneg hbyte hr⟩
  intro s ops w earlier t requested now calls pre mid after hw hr hother
  exact ⟨fun version spec device returns hv hlf hspec h => h.comesTo hw hr hv hlf hspec hother,
    fun h => h.silent hw hr hother⟩

/-- A version line that is cut in two, after a line of chatter. -/
def cutVersionCalls : List Call :=
  [.feed (asBytes "echo:busy\nPFT:version:1:heatsh".toList) 3, .poll,
    .feed (asBytes "rink,8,4\r\nok5\n".toList) 4]

theorem compression_agreed_cut :
    ∃ t', (Transfer.start handshaken).run (.query .auto 2 :: (cutVersionCalls ++ [.poll])) = some t'
      ∧ ComesTo (Transfer.start handshaken) t' ['1'] (some (.heatshrink 8 4)) := by
  have hfree : handshaken.session.inFlight = none ∧ handshaken.session.events = []
      ∧ handshaken.session.isSynced = true := by
    decide +kernel
  have hother : ∀ line ∈ [asBytes "echo:busy".toList] ++ [] ++ [], OtherLine line := by
    intro line hl
    rw [List.mem_singleton.mp hl]
    exact ⟨by decide +kernel, by decide +kernel⟩
  refine (compression_agreed.1 Session.new handshakeOps handshaken [] (Transfer.start handshaken)
    .auto 2 cutVersionCalls [asBytes "echo:busy".toList] [] [] handshaken_run rfl hother).1
    ['1'] _ (.heatshrink 8 4) 1 (by decide) (by decide) (.inl rfl) ⟨rfl, hfree.2.2, hfree.1, ?_,
      by decide +kernel, 0, [], List.not_mem_nil, by decide +kernel⟩
  intro e he
  rw [show (Transfer.start handshaken).host.session.events = [] from hfree.2.1] at he
  cases he

/-- A device that can decompress, and answers as far as OPEN. -/
def heatshrinkEnv : Env :=
  .ofTexts ["ss0,512,1.0\n", "PFT:version:1:heatshrink,8,4\nok0\n", "PFT:success\nok1\n"]
    [7, 8, 9]

def autoOptions : UploadOptions := ⟨['a'], .auto, false, 2, false⟩

open Blocking in
/-- Without the crate OPEN has said one when the upload finds that it cannot compress. -/
theorem heatshrink_disabled_after_open :
    (match (exec (upload heatshrinkEnv none autoOptions) World.start).1 with
      | .ok _ => none
      | .error e => some e) = some (.err .compressionFeatureDisabled)
      ∧ (exec (upload heatshrinkEnv none autoOptions) World.start).2.submitted
        = saidOpen autoOptions (.heatshrink 8 4)
      ∧ (openContent autoOptions (.heatshrink 8 4)).payload[1]? = some 1
      ∧ ¬ ∃ payload, Carries none (.heatshrink 8 4) [7, 8, 9] payload := by
  refine ⟨by decide +kernel, by decide +kernel, rfl, fun ⟨payload, h⟩ => ?_⟩
  exact absurd (byte_of_carries h) (by decide)

end MarlinTransfer
