import MarlinTransfer.Adapters.Drives

/-!
# An upload that returns

Whatever the transport delivers: an upload that returns `Ok` has written the trigger and
then one packet after the other, each once or more, with nothing in between, and each was
acked under its own number before the next one was written. The chunks of the WRITE
packets make up the payload.
-/

namespace MarlinTransfer

open Codec Text Session Triple

/-- The packets of a file transfer, without their numbers. -/
def fileContent (packetType : UInt8) (payload : Bytes) : Content :=
  ⟨protocolFileTransfer, packetType, payload⟩

/-- The payload of OPEN under a compression that was negotiated. -/
def openContent (options : UploadOptions) (c : Compression) : Content :=
  fileContent ptOpen
    ([if options.dummy then (1 : UInt8) else 0, match c with
      | .heatshrink _ _ => 1
      | _ => 0] ++ asBytes options.destFilename ++ [(0 : UInt8)])

/-- The control CLOSE. -/
def controlClose : Content := ⟨0, 2, []⟩

/-- What an upload sends after the handshake. -/
def uploadContents (options : UploadOptions) (c : Compression) (chunks : List Bytes) :
    List Content :=
  [fileContent ptQuery [], openContent options c] ++ chunks.map (fileContent ptWrite)
    ++ [fileContent ptClose [], controlClose]

/-- The SYNC packet of a session just constructed. -/
def helloPacket : Packet := ⟨0, 0, 1, []⟩

/-! ## The packets so far -/

/-- After `base` the log is one phase after the other, of packets with these contents. -/
def Exchanged (base : List LogEntry) (contents : List Content) (log : List LogEntry) : Prop :=
  ∃ (packets : List Packet) (phases : List (List LogEntry)), log = base ++ phases.flatten
    ∧ List.Forall₂ (Phase false) packets phases ∧ packets.map (·.content) = contents

theorem exchanged_nil (base : List LogEntry) : Exchanged base [] base :=
  ⟨[], [], (List.append_nil base).symm, .nil, rfl⟩

theorem Exchanged.snoc {base log : List LogEntry} {contents : List Content}
    (h : Exchanged base contents log) {p : Packet} {seg : List LogEntry} (hp : Phase false p seg) :
    Exchanged base (contents ++ [p.content]) (log ++ seg) := by
  obtain ⟨packets, phases, rfl, hall, rfl⟩ := h
  refine ⟨packets ++ [p], phases ++ [seg], ?_, List.rel_append hall (.cons hp .nil), ?_⟩
  · rw [List.flatten_append, List.append_assoc, List.flatten_singleton]
  · rw [List.map_append, List.map_singleton]

/-- Between two packets. -/
structure Between (base : List LogEntry) (contents : List Content) (w : World) : Prop where
  ready : Ready w.transfer
  resting : Resting w.session
  exchanged : Exchanged base contents w.log

theorem Between.of_over {base log : List LogEntry} {contents : List Content} {w : World}
    (h : Exchanged base contents log) (hr : Ready w.transfer) {p : Packet}
    (ho : Over false p log w) : Between base (contents ++ [p.content]) w := by
  obtain ⟨seg, hlog, hphase⟩ := ho.phase
  exact ⟨hr, ho.resting, hlog ▸ h.snoc hphase⟩

/-- A packet with this content is on its way. -/
def Sending (base : List LogEntry) (contents : List Content) (content : Content) (w : World) :
    Prop :=
  ∃ p : Packet, p.content = content
    ∧ ∃ log, Exchanged base contents log ∧ Turn false p log w.session w.log

/-! ## Sending a packet -/

/-- What a call sends. -/
def Call.payload (ft : FileTransfer) : Call → Bytes
  | .open name dummy _ => ft.openPayload name dummy
  | .write chunk _ => chunk
  | _ => []

theorem sent_of_step {t t' : Transfer} {c : Call} {op : Operation} (hop : c.operation = some op)
    (hs : t.step c = some t') :
    ∃ now, t.host.send t.ft.protocolId op.packetType (c.payload t.ft) now = some t'.host := by
  cases c with
  | query compression now =>
    obtain rfl := Option.some.inj hop
    exact ⟨now, sent_of_request .query _ hs⟩
  | «open» name dummy now =>
    obtain rfl := Option.some.inj hop
    exact ⟨now, sent_of_request .open t.ft.requestedCompression hs⟩
  | write chunk now =>
    obtain rfl := Option.some.inj hop
    exact ⟨now, sent_of_request .write t.ft.requestedCompression hs⟩
  | close now =>
    obtain rfl := Option.some.inj hop
    exact ⟨now, sent_of_request .close t.ft.requestedCompression hs⟩
  | abort now =>
    obtain rfl := Option.some.inj hop
    exact ⟨now, sent_of_request .abort t.ft.requestedCompression hs⟩
  | _ => cases hop

/-- **A send over a line at rest** puts its packet on the way. -/
theorem turn_send {w w' : Watched} (hc : ∃ ds, Conserved w ds) (hr : Resting w.session)
    {protocol packetType : UInt8} {payload : Bytes} {now : Instant}
    (hs : w.send protocol packetType payload now = some w') (log : List LogEntry) :
    ∃ p : Packet, p.content = ⟨protocol, packetType, payload⟩
      ∧ Turn false p log w'.session log := by
  obtain ⟨ds, hc⟩ := hc
  obtain ⟨ds', hc'⟩ := hc.send hs
  obtain ⟨-, -, -, b, rfl, rfl, rfl, hsub⟩ := submitted_send hc hs
  exact ⟨b.packet w.session.sync, rfl, turn_submitted hc hc' hsub hr.inFlight hr.outbound
    (fun e he => not_landing_of_not_ack (hr.noAck e he)) log⟩

namespace Blocking

variable (env : Env) {base : List LogEntry} {contents : List Content}

theorem untallied_between : Untallied (Between base contents) :=
  fun _ _ _ _ h => ⟨h.ready, h.resting, h.exchanged⟩

/-- A call puts the packet of its operation on the way. -/
theorem ensures_call {c : Call} (op : Operation) (payload : Bytes) {P : World → Prop}
    (hop : c.operation = some op) (hP : ∀ w, P w → Between base contents w)
    (hpayload : ∀ w, P w → c.payload w.ft = payload) :
    Ensures P (call c)
      (fun _ w => Ready w.transfer
        ∧ Sending base contents (fileContent op.packetType payload) w) := by
  refine holds_bind (fun w0 w => P w ∧ w = w0)
    (holds_get fun w hw => ⟨hw, rfl⟩) fun w0 => ?_
  cases hs : w0.transfer.step c with
  | none => exact holds_throw fun _ _ => trivial
  | some t =>
    refine holds_modify ?_
    rintro w ⟨hw, rfl⟩
    have h := hP w hw
    refine ⟨h.ready.step hs, ?_⟩
    obtain ⟨now, hsent⟩ := sent_of_step hop hs
    rw [h.ready.prompt.protocol, show c.payload w.transfer.ft = payload from hpayload w hw] at hsent
    obtain ⟨p, hp, hturn⟩ := turn_send h.ready.live.conserved h.resting hsent w.log
    exact ⟨p, hp, w.log, h.exchanged, hturn⟩

/-- **One exchange**: a packet on its way, and a loop that takes it to the end of its phase. -/
theorem ensures_over {α : Type} {x : Upload α} {content : Content} {S : α → World → Prop}
    (h : ∀ p log, Holds (fun w => Ready w.transfer ∧ Turn false p log w.session w.log) x
      (fun a w => Ready w.transfer ∧ Over false p log w ∧ S a w) Errs) :
    Ensures (fun w => Ready w.transfer ∧ Sending base contents content w) x
      (fun a w => Between base (contents ++ [content]) w ∧ S a w) := by
  rintro w ⟨hr, p, rfl, log, hex, hturn⟩
  have := (h p log).ensures w ⟨hr, hturn⟩
  cases hx : exec x w with
  | mk r w' =>
    rw [hx] at this
    cases r with
    | error e => trivial
    | ok a => exact ⟨.of_over hex this.1 this.2.1, this.2.2⟩

theorem ensures_event {content : Content} (pred : FileEvent → Bool) :
    Ensures (fun w => Ready w.transfer ∧ Sending base contents content w)
      (driveUntilEvent env pred) (fun _ => Between base (contents ++ [content])) :=
  (ensures_over (S := fun _ _ => True) fun _ _ => (holds_event_turn env pred).post
    fun _ _ h => ⟨h.1, h.2, trivial⟩).post fun _ _ h => h.1

/-! ## The parts of the helper -/

/-- The statistics once chunks were written. -/
def UploadStats.after (stats : UploadStats) (chunks : List Bytes) : UploadStats :=
  { stats with
    bytesSent := stats.bytesSent + chunks.flatten.length
    chunksSent := stats.chunksSent + chunks.length }

/-- **The chunks are written in order**, and counted. -/
theorem ensures_writeChunks (options : UploadOptions) :
    ∀ (chunks : List Bytes) (stats : UploadStats) (contents : List Content),
      Ensures (Between base contents) (writeChunks env options chunks stats)
        (fun stats' w => stats' = UploadStats.after stats chunks
          ∧ Between base (contents ++ chunks.map (fileContent ptWrite)) w) := by
  intro chunks
  induction chunks with
  | nil =>
    intro stats contents
    refine holds_pure fun w hw => ⟨rfl, ?_⟩
    rw [List.map_nil, List.append_nil]
    exact hw
  | cons chunk chunks ih =>
    intro stats contents
    have hrest := ih { stats with
      bytesSent := stats.bytesSent + chunk.length
      chunksSent := stats.chunksSent + 1 } (contents ++ [fileContent ptWrite chunk])
    have hrest' : Ensures (Between base (contents ++ [fileContent ptWrite chunk]))
        (writeChunks env options chunks { stats with
          bytesSent := stats.bytesSent + chunk.length
          chunksSent := stats.chunksSent + 1 })
        (fun stats' w => stats' = UploadStats.after stats (chunk :: chunks)
          ∧ Between base (contents ++ (chunk :: chunks).map (fileContent ptWrite)) w) := by
      refine hrest.post fun stats' w h => ⟨h.1.trans ?_, ?_⟩
      · simp only [UploadStats.after, List.flatten_cons, List.length_append, List.length_cons]
        congr 1 <;> omega
      · have := h.2
        rw [List.append_assoc] at this
        exact this
    refine holds_bind _ (holds_now env untallied_between).ensures fun now => ?_
    refine holds_bind _ (ensures_call .write _ rfl (fun _ hw => hw) fun _ _ => rfl) fun _ => ?_
    refine holds_bind _ (ensures_event env _) fun _ => ?_
    dsimp only
    split_ifs
    · exact holds_bind _ (holds_modify fun w hw => ⟨hw.ready, hw.resting, hw.exchanged⟩)
        fun _ => hrest'
    · exact hrest'

theorem ensures_readToEnd {P : World → Prop} :
    Ensures P (readToEnd env) (fun source w => P w ∧ env.source = .ok source) := by
  unfold readToEnd
  cases env.source with
  | ok source => exact holds_pure fun w hw => ⟨hw, rfl⟩
  | error err => exact holds_throw fun _ _ => trivial

end Blocking

/-- The parameters that the encoder takes. -/
structure HeatshrinkCrate.Takes (crate : HeatshrinkCrate) (window lookahead : UInt8) : Prop where
  window_ge : crate.minWindowBits ≤ window
  window_le : window ≤ crate.maxWindowBits
  lookahead_ge : crate.minLookaheadBits ≤ lookahead
  lookahead_lt : lookahead < window

instance (crate : HeatshrinkCrate) (window lookahead : UInt8) :
    Decidable (crate.Takes window lookahead) :=
  decidable_of_iff (crate.minWindowBits ≤ window ∧ window ≤ crate.maxWindowBits
      ∧ crate.minLookaheadBits ≤ lookahead ∧ lookahead < window)
    ⟨fun ⟨h1, h2, h3, h4⟩ => ⟨h1, h2, h3, h4⟩, fun ⟨h1, h2, h3, h4⟩ => ⟨h1, h2, h3, h4⟩⟩

/-- **What compressing comes to**: the output of the encoder, if it takes the parameters. -/
theorem compress_eq (crate : HeatshrinkCrate) (source : Bytes) (window lookahead : UInt8) :
    compress crate source window lookahead
      = if crate.Takes window lookahead then .ok (crate.encode window lookahead source)
        else .error (.heatshrink window lookahead) := by
  unfold compress
  by_cases h : crate.Takes window lookahead
  · have hno : ¬ (¬ (crate.minWindowBits ≤ window ∧ window ≤ crate.maxWindowBits)
        ∨ lookahead < crate.minLookaheadBits ∨ lookahead ≥ window) := by
      rintro (hw | hl | hl)
      · exact hw ⟨h.window_ge, h.window_le⟩
      · exact absurd h.lookahead_ge (UInt8.not_le.mpr hl)
      · exact absurd h.lookahead_lt (UInt8.not_lt.mpr hl)
    rw [if_neg hno, if_pos h]
  · have hbad : ¬ (crate.minWindowBits ≤ window ∧ window ≤ crate.maxWindowBits)
        ∨ lookahead < crate.minLookaheadBits ∨ lookahead ≥ window := by
      by_contra hno
      rw [not_or, not_or, not_not] at hno
      obtain ⟨⟨hge, hle⟩, hl, hlt⟩ := hno
      exact h ⟨hge, hle, UInt8.not_lt.mp hl, UInt8.not_le.mp hlt⟩
    rw [if_pos hbad, if_neg h]

/-- The payload of a source under the compression that was negotiated: the source, or what the
encoder makes of the source with the parameters that were negotiated, in its range. -/
def IsPayload (crate : Option HeatshrinkCrate) (source payload : Bytes) : Compression → Prop
  | .none => payload = source
  | .heatshrink window lookahead =>
    ∃ c, crate = some c ∧ c.Takes window lookahead ∧ payload = c.encode window lookahead source
  | .auto => False

theorem isPayload_of_compress {crate : HeatshrinkCrate} {source payload : Bytes}
    {window lookahead : UInt8} (h : compress crate source window lookahead = .ok payload) :
    IsPayload (some crate) source payload (.heatshrink window lookahead) := by
  rw [compress_eq] at h
  split_ifs at h with htakes
  exact ⟨crate, rfl, htakes, (Except.ok.inj h).symm⟩

namespace Blocking

variable (env : Env) {base : List LogEntry} {contents : List Content}

theorem ensures_payloadOf {P : World → Prop} (crate : Option HeatshrinkCrate) (source : Bytes)
    (c : Compression) :
    Ensures P (payloadOf crate source c)
      (fun payload w => P w ∧ IsPayload crate source payload c) := by
  cases c with
  | none => exact holds_pure fun w hw => ⟨hw, rfl⟩
  | auto => exact holds_throw fun _ _ => trivial
  | heatshrink window lookahead =>
    unfold payloadOf
    cases crate with
    | none => exact holds_throw fun _ _ => trivial
    | some crate =>
      dsimp only
      cases hc : compress crate source window lookahead with
      | ok payload => exact holds_pure fun w hw => ⟨hw, isPayload_of_compress hc⟩
      | error e => exact holds_throw fun _ _ => trivial

/-- A session just constructed puts the SYNC packet on its way. -/
theorem ensures_connect :
    Ensures (fun w => w.transfer.host = Watched.start Session.new ∧ w.log = base
        ∧ advertised base = none) (connect env)
      (fun _ w => Greets w ∧ Turn true helloPacket base w.session w.log) := by
  refine holds_bind _ (holds_now env fun _ _ _ _ h => h).ensures fun now => holds_modify ?_
  rintro w ⟨hhost, rfl, hadv⟩
  have hc : Conserved (Watched.start Session.new) [] := conserved_start Session.new
  obtain ⟨ds, hc'⟩ := hc.connect now
  refine ⟨⟨?_, ?_⟩, ?_⟩
  · show Greeting (w.transfer.host.connect now)
    rw [hhost]
    exact Greeting.connect_start now
  · show (w.transfer.host.connect now).session.maxBlockSize = advertised w.log
    rw [hhost, hadv]
    exact dispatchIfIdle_maxBlockSize _ now
  · show Turn true helloPacket w.log (w.transfer.host.connect now).session w.log
    rw [hhost]
    exact turn_submitted hc hc' (submitted_connect hc now) rfl rfl
      (fun e he => (List.not_mem_nil he).elim) w.log

theorem ensures_sendControlClose :
    Ensures (Between base contents) (sendControlClose env)
      (fun _ w => (∃ ds, Conserved w.transfer.host ds)
        ∧ Sending base contents controlClose w) := by
  refine holds_bind _ (holds_now env untallied_between).ensures fun now => ?_
  refine holds_bind (fun w0 w => Between base contents w ∧ w = w0)
    (holds_get fun w hw => ⟨hw, rfl⟩) fun w0 => ?_
  cases hs : w0.transfer.host.send 0 2 [] now with
  | none => exact holds_throw fun _ _ => trivial
  | some host =>
    refine holds_modify ?_
    rintro w ⟨h, rfl⟩
    obtain ⟨ds, hc⟩ := h.ready.live.conserved
    obtain ⟨p, hp, hturn⟩ := turn_send ⟨ds, hc⟩ h.resting hs w.log
    exact ⟨hc.send hs, p, hp, w.log, h.exchanged, hturn⟩

theorem ensures_idle {content : Content} :
    Ensures (fun w => (∃ ds, Conserved w.transfer.host ds) ∧ Sending base contents content w)
      (driveSessionUntilIdle env) (fun _ w => Exchanged base (contents ++ [content]) w.log) := by
  rintro w ⟨hc, p, rfl, log, hex, hturn⟩
  have := (holds_idle_turn env).ensures w ⟨hc, hturn⟩
  cases hx : exec (driveSessionUntilIdle env) w with
  | mk r w' =>
    rw [hx] at this
    cases r with
    | error e => trivial
    | ok u =>
      obtain ⟨seg, hlog, hphase⟩ := this
      show Exchanged _ _ w'.log
      rw [hlog]
      exact hex.snoc hphase

/-! ## The helper -/

/-- What an upload that returned has done. -/
structure Uploaded (env : Env) (crate : Option HeatshrinkCrate) (options : UploadOptions)
    (stats : UploadStats) (greeting rest : List LogEntry) (source payload : Bytes)
    (chunks : List Bytes) : Prop where
  greeted : Phase true helloPacket greeting
  exchanged : Exchanged [] (uploadContents options stats.compression chunks) rest
  read : env.source = .ok source
  compressed : IsPayload crate source payload stats.compression
  chunks_flatten : chunks.flatten = payload
  chunk_size : ∀ c ∈ chunks, c ≠ []
    ∧ c.length ≤ resolveChunkSize options.chunkSize ((advertised greeting).getD 0)
  sourceBytes : stats.sourceBytes = source.length
  bytesSent : stats.bytesSent = payload.length
  chunksSent : stats.chunksSent = chunks.length

theorem Exchanged.of_base {base log : List LogEntry} {contents : List Content}
    (h : Exchanged base contents log) : ∃ rest, log = base ++ rest ∧ Exchanged [] contents rest := by
  obtain ⟨packets, phases, hlog, hall, hcontents⟩ := h
  exact ⟨phases.flatten, hlog, packets, phases, rfl, hall, hcontents⟩

theorem ensures_writeTrigger :
    Ensures (fun w => w = World.start) (writeAll env binaryTrigger)
      (fun _ w => w.log = [.wrote binaryTrigger]) := by
  have h : Ensures (fun w => w.log = []) (writeAll env binaryTrigger)
      (fun _ w => w.log = [.wrote binaryTrigger]) :=
    (holds_writeAll env binaryTrigger (fun _ _ _ _ h => h) fun w hw => by
      show w.log ++ _ = _
      rw [hw]
      rfl).ensures
  exact h.pre fun w hw => by rw [hw]; rfl

/-- **What an upload that returns has done.** -/
theorem ensures_upload (crate : Option HeatshrinkCrate) (options : UploadOptions) :
    Ensures (fun w => w = World.start) (upload env crate options)
      (fun stats w => ∃ greeting rest source payload chunks,
        w.log = .wrote binaryTrigger :: (greeting ++ rest)
          ∧ Uploaded env crate options stats greeting rest source payload chunks) := by
  refine holds_bind _ (ensures_writeTrigger env) fun _ => ?_
  refine holds_bind (fun _ w => w.transfer.host = Watched.start Session.new
    ∧ w.log = [.wrote binaryTrigger] ∧ advertised [.wrote binaryTrigger] = none)
    (holds_modify fun w hw => ⟨rfl, hw, rfl⟩) fun _ => ?_
  refine holds_bind _ (ensures_connect env) fun _ => ?_
  refine holds_bind _ (holds_synced_turn env).ensures fun _ => ?_
  -- the greeting is over, and everything below happens after it
  refine holds_of_state fun w0 hw0 => ?_
  obtain ⟨hlive, hblock, hover⟩ := hw0
  obtain ⟨greeting, hlog, hgreeting⟩ := hover.phase
  refine holds_bind (fun w w' => w = w0 ∧ w' = w0) (holds_get fun w hw => ⟨hw, hw⟩) fun w => ?_
  refine holds_bind (fun _ w' => w = w0 ∧ Between w0.log [] w') (holds_modify ?_) fun _ => ?_
  · rintro w' ⟨rfl, rfl⟩
    exact ⟨rfl, ready_start hlive, hover.resting, exchanged_nil _⟩
  refine holds_of_state fun w' ⟨hw, hbetween⟩ => ?_
  subst hw
  refine Holds.mono (P := Between w.log []) ?_ (fun _ hw => hw ▸ hbetween) (fun _ _ h => h)
    fun _ _ h => h
  refine holds_bind _ (holds_now env untallied_between).ensures fun now => ?_
  refine holds_bind _ (ensures_call .query _ rfl (fun _ hw => hw) fun _ _ => rfl) fun _ => ?_
  refine holds_bind _ (ensures_over fun _ _ => holds_negotiated_turn env) fun c => ?_
  have hun : Untallied fun w' =>
      Between w.log ([] ++ [fileContent ptQuery []]) w' ∧ w'.ft.negotiated = some c ∧ c ≠ .auto :=
    fun w' reads writes nows h => ⟨untallied_between w' reads writes nows h.1, h.2⟩
  refine holds_bind _ (holds_now env hun).ensures fun now => ?_
  refine holds_bind _ (ensures_call .open
    (openContent options c).payload rfl (fun _ hw => hw.1) fun w hw => ?_)
    fun _ => ?_
  · show w.ft.openPayload options.destFilename options.dummy = _
    unfold FileTransfer.openPayload
    rw [hw.2.1]
    cases c <;> rfl
  refine holds_bind _ (ensures_event env _) fun _ => ?_
  refine holds_bind _ (ensures_readToEnd env) fun source => ?_
  refine holds_bind _ (ensures_payloadOf crate source c) fun payload => ?_
  refine holds_of_state fun w1 hw1 => Holds.mono (P := Between w.log _)
    ?_ (fun w hw => hw ▸ hw1.1.1) (fun _ _ h => h) fun _ _ h => h
  refine holds_bind _ (ensures_writeChunks env options _ _ _) fun stats => ?_
  refine holds_of_state fun w2 hw2 => Holds.mono (P := Between w.log _)
    ?_ (fun w hw => hw ▸ hw2.2) (fun _ _ h => h) fun _ _ h => h
  refine holds_bind _ (holds_now env untallied_between).ensures fun now => ?_
  refine holds_bind _ (ensures_call .close _ rfl (fun _ hw => hw) fun _ _ => rfl) fun _ => ?_
  refine holds_bind _ (ensures_event env _) fun _ => ?_
  refine holds_bind _ (ensures_sendControlClose env) fun _ => ?_
  refine holds_bind _ (ensures_idle env) fun _ => holds_pure fun w3 hw3 => ?_
  obtain ⟨hstats, -⟩ := hw2
  have hcomp : stats.compression = c := by rw [hstats]; rfl
  obtain ⟨rest, hrest, hex⟩ := Exchanged.of_base hw3
  rw [hlog] at hrest
  have hadvertised : w.session.maxBlockSize = advertised greeting := by
    rw [hblock, hlog]
    rfl
  have hpos := resolveChunkSize_pos options.chunkSize (w.session.maxBlockSize.getD 0)
  refine ⟨greeting, rest, source, payload, _, hrest, hgreeting, ?_, hw1.1.2, hcomp ▸ hw1.2,
    Chunks.flatten_chunks hpos payload, ?_, by rw [hstats]; rfl, ?_, ?_⟩
  · rw [hcomp]
    simp only [uploadContents, List.append_assoc, List.nil_append] at hex ⊢
    exact hex
  · rw [← hadvertised]
    exact fun chunk hchunk => Chunks.mem_chunks hpos hchunk
  · rw [hstats, UploadStats.after, Chunks.flatten_chunks hpos]
    exact Nat.zero_add _
  · rw [hstats, UploadStats.after]
    exact Nat.zero_add _

end Blocking

/-! ## The theorem -/

/-- Packets, each as often as `copies` says. -/
def repeated (packets : List Packet) (copies : List Nat) : List Bytes :=
  (packets.zip copies).flatMap fun x => List.replicate x.2 x.1.wire

/-- What the phases of packets write: each packet, once or more. -/
theorem written_phases {packets : List Packet} {phases : List (List LogEntry)}
    (h : List.Forall₂ (Phase false) packets phases) :
    ∃ copies : List Nat, copies.length = packets.length ∧ (∀ k ∈ copies, 0 < k)
      ∧ written phases.flatten = repeated packets copies := by
  induction h with
  | nil => exact ⟨[], rfl, by simp, rfl⟩
  | cons hp _ ih =>
    obtain ⟨copies, hlen, hpos, hwritten⟩ := ih
    obtain ⟨k, hk, hcopies⟩ := hp.written
    refine ⟨k :: copies, congrArg (· + 1) hlen, ?_, ?_⟩
    · intro n hn
      rcases List.mem_cons.mp hn with rfl | hn
      · exact hk
      · exact hpos n hn
    · rw [List.flatten_cons, written_append, hcopies, hwritten]
      rfl

open Blocking in
/--
**A successful upload delivered the whole file in order.** For every script of the
transport and of the clock: the log is the trigger, then the greeting, then one phase after
the other. What was written is the trigger, and then SYNC, QUERY, OPEN, the WRITEs, the file
CLOSE and the control CLOSE, each once or more; every packet after SYNC was retired by the
`ok` of its own number, processed between its first copy and the next packet's. The chunks
make up the payload, none is empty or longer than the resolved chunk size, and the
statistics count them.
-/
theorem upload_delivers (env : Env) (crate : Option HeatshrinkCrate) (options : UploadOptions)
    (stats : UploadStats) (w : World)
    (h : exec (upload env crate options) World.start = (.ok stats, w)) :
    ∃ (greeting : List LogEntry) (packets : List Packet) (phases : List (List LogEntry))
      (copies : List Nat) (source payload : Bytes) (chunks : List Bytes),
      w.log = .wrote binaryTrigger :: (greeting ++ phases.flatten)
        ∧ Phase true helloPacket greeting ∧ List.Forall₂ (Phase false) packets phases
        ∧ packets.map (·.content) = [fileContent ptQuery [], openContent options stats.compression]
          ++ chunks.map (fileContent ptWrite) ++ [fileContent ptClose [], controlClose]
        ∧ copies.length = packets.length + 1 ∧ (∀ k ∈ copies, 0 < k)
        ∧ written w.log = binaryTrigger :: repeated (helloPacket :: packets) copies
        ∧ env.source = .ok source ∧ IsPayload crate source payload stats.compression
        ∧ chunks.flatten = payload
        ∧ (∀ c ∈ chunks, c ≠ []
          ∧ c.length ≤ resolveChunkSize options.chunkSize ((advertised greeting).getD 0))
        ∧ stats.sourceBytes = source.length ∧ stats.bytesSent = payload.length
        ∧ stats.chunksSent = chunks.length := by
  obtain ⟨greeting, rest, source, payload, chunks, hlog, hup⟩ :=
    (ensures_upload env crate options).returned rfl h
  obtain ⟨packets, phases, hrest, hall, hcontents⟩ := hup.exchanged
  rw [List.nil_append] at hrest
  subst hrest
  obtain ⟨copies, hlen, hpos, hwritten⟩ := written_phases hall
  obtain ⟨k, hk, hhello⟩ := hup.greeted.written
  refine ⟨greeting, packets, phases, k :: copies, source, payload, chunks, hlog, hup.greeted, hall,
    hcontents, congrArg (· + 1) hlen, ?_, ?_, hup.read, hup.compressed, hup.chunks_flatten,
    hup.chunk_size, hup.sourceBytes, hup.bytesSent, hup.chunksSent⟩
  · intro n hn
    rcases List.mem_cons.mp hn with rfl | hn
    · exact hk
    · exact hpos n hn
  · rw [hlog, show written (.wrote binaryTrigger :: (greeting ++ phases.flatten))
      = binaryTrigger :: written (greeting ++ phases.flatten) from rfl, written_append, hhello,
      hwritten]
    rfl

/-! ## An upload that is compressed -/

/-- The bits of a byte, the highest first. -/
def bitsOf (b : UInt8) : List Bool := (List.range 8).map fun i => b.toNat.testBit (7 - i)

/-- The byte that some bits begin, filled up with zeros. -/
def byteOf (bits : List Bool) : UInt8 :=
  .ofNat ((List.range 8).foldl (fun n i => 2 * n + (bits.getD i false).toNat) 0)

/-- The encoder on bytes that do not repeat: each is a one and its bits. -/
def literalCrate : HeatshrinkCrate where
  minWindowBits := 4
  maxWindowBits := 15
  minLookaheadBits := 3
  encode _ _ source := (Chunks.chunks 8 (source.flatMap fun b => true :: bitsOf b)).map byteOf

/-- An upload of three bytes to a device that can decompress. -/
def compressedEnv : Env :=
  .ofTexts ["ss0,512,1.0\n", "PFT:version:1:heatshrink,8,4\nok0\n", "PFT:success\nok1\n",
    "ok2\n", "ok3\n", "PFT:success\nok4\n", "ok5\n"] [7, 8, 9]

def compressedOptions : UploadOptions := { goodOptions with compression := .auto }

def compressedStats : UploadStats := ⟨3, 4, 2, .heatshrink 8 4⟩

theorem compressedUpload_returns :
    ∃ w, exec (Blocking.upload compressedEnv literalCrate compressedOptions) World.start
      = (.ok compressedStats, w) := by
  have hok : (match (exec (Blocking.upload compressedEnv literalCrate compressedOptions)
        World.start).1 with
      | .ok stats => some stats
      | .error _ => none) = some compressedStats := by
    decide +kernel
  revert hok
  cases exec (Blocking.upload compressedEnv literalCrate compressedOptions) World.start with
  | mk r w =>
    cases r with
    | ok stats => exact fun h => ⟨w, by rw [← Option.some.inj h]⟩
    | error e => exact fun h => nomatch h

theorem upload_delivers_compressed :
    ∃ (packets : List Packet) (chunks : List Bytes),
      packets.map (·.content)
          = [fileContent ptQuery [], openContent compressedOptions (.heatshrink 8 4)]
            ++ chunks.map (fileContent ptWrite) ++ [fileContent ptClose [], controlClose]
        ∧ chunks.flatten = [0x83, 0xC2, 0x21, 0x20] ∧ chunks.length = 2 := by
  obtain ⟨w, hr⟩ := compressedUpload_returns
  obtain ⟨greeting, packets, phases, copies, source, payload, chunks, -, -, -, hcontents, -, -, -,
    hsource, ⟨crate, hcrate, -, hpayload⟩, hchunks, -, -, -, hlen⟩ :=
    upload_delivers compressedEnv literalCrate compressedOptions compressedStats w hr
  obtain rfl : [7, 8, 9] = source := Except.ok.inj hsource
  obtain rfl := Option.some.inj hcrate
  have hencoded : literalCrate.encode 8 4 [7, 8, 9] = [0x83, 0xC2, 0x21, 0x20] := by
    decide +kernel
  exact ⟨packets, chunks, hcontents, hchunks.trans (hpayload.trans hencoded), hlen.symm⟩

end MarlinTransfer
