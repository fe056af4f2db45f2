import MarlinTransfer.Adapters.Upload
import MarlinTransfer.Fixtures.Loopback

/-!
# What an upload comes to

The upload as a client of the service: it asks, and a failure ends it. The helper run on the
transport of the tests ends as this client does, with the same result, and leaves the device as
the client leaves the printer. From there it is a calculation when an upload succeeds and what it
leaves behind.
-/

namespace MarlinTransfer

open Codec Text Session Triple Interaction Blocking

/-! ## The client -/

namespace Service

/-- A client of the service, which may stop as the helper may. -/
abbrev Client (α : Type) := Prog Service Stop α

def require {α : Type} : Except Stop α → Client α
  | .ok a => pure a
  | .error e => throw e

/-- A failure is the end. -/
def passed : FileEvent → Except Stop FileEvent
  | .failed err => .error (.err (.transfer err))
  | ev => .ok ev

/-- One request. A request that is refused panics. -/
def ask (r : Request) : Client FileEvent := do
  match (← get).serve r with
  | none => throw .panic
  | some (ev, sv) =>
    set sv
    require (passed ev)

theorem exec_ask_none {sv : Service} {r : Request} (h : sv.serve r = none) :
    exec (ask r) sv = (.error .panic, sv) := by
  unfold ask
  rw [exec_bind, exec_get]
  dsimp only
  rw [h]
  rfl

theorem exec_ask {sv sv' : Service} {r : Request} {ev : FileEvent}
    (h : sv.serve r = some (ev, sv')) :
    exec (ask r) sv = (passed ev, sv') := by
  unfold ask
  rw [exec_bind, exec_get]
  dsimp only
  rw [h]
  cases ev <;> rfl

/-- A request that is answered by its mere success. -/
def perform (r : Request) : Client Unit := do
  let _ ← ask r
  pure ()

/-- The compression that a query negotiates. -/
def query (requested : Compression) : Client Compression := do
  match ← ask (.query requested) with
  | .negotiated _ c => pure c
  | _ => throw .stuck

/-- What is sent of a source. -/
def encoded (crate : Option HeatshrinkCrate) (source : Bytes) : Compression → Except Stop Bytes
  | .none => .ok source
  | .heatshrink window lookahead =>
    match crate with
    | none => .error (.err .compressionFeatureDisabled)
    | some crate =>
      if crate.Takes window lookahead then .ok (crate.encode window lookahead source)
      else .error (.err (.heatshrink window lookahead))
  | .auto => .error .panic

def writeAll : List Bytes → Client Unit
  | [] => pure ()
  | chunk :: chunks => do
    perform (.write chunk)
    writeAll chunks

/-- The printer leaves the binary mode. -/
def release : Client Unit := modify fun sv => { sv with printer.released := true }

/-- An upload to a printer with this block size. -/
def uploadIn (blockSize : UInt16) (crate : Option HeatshrinkCrate) (options : UploadOptions)
    (source : Except IoError Bytes) : Client UploadStats := do
  let c ← query options.compression
  perform (.open options.destFilename options.dummy)
  let source ← require (source.mapError fun err => .err (.io err))
  let payload ← require (encoded crate source c)
  let chunks := Chunks.chunks (resolveChunkSize options.chunkSize blockSize) payload
  writeAll chunks
  perform .close
  release
  pure ⟨source.length, payload.length, chunks.length, c⟩

/-- An upload. -/
def upload (crate : Option HeatshrinkCrate) (options : UploadOptions)
    (source : Except IoError Bytes) : Client UploadStats := do
  uploadIn (← get).printer.blockSize crate options source

end Service

/-! ## The helper and the client side by side -/

/-- A device ready for the next packet, and the printer it is. -/
structure FakeDevice.Stands (d : FakeDevice) (p : Printer) : Prop where
  listens : d.Listens
  brief : d.Brief
  printer : d.printer = p

/-- Where the transport is, whether the helper goes on or has stopped. -/
def Left (t : Option DeviceTransport) (sv : Service) : Prop :=
  ∃ d : FakeDevice, t = some ⟨d, []⟩ ∧ d.Stands sv.printer

/-- The helper between two requests, and the client where it is. -/
def Beside : Coupling World (Option DeviceTransport) Service := fun P t sv =>
  ∃ (ft : FileTransfer) (s : Session) (d : FakeDevice),
    (∀ w, P w → w.At ft s) ∧ t = some ⟨d, []⟩ ∧ Rig.Implements ⟨ft, s, d⟩ sv ∧ d.Brief

theorem Beside.left {P : World → Prop} {t : Option DeviceTransport} {sv : Service}
    (h : Beside P t sv) : Left t sv := by
  obtain ⟨ft, s, d, -, ht, himp, hbrief⟩ := h
  exact ⟨d, ht, himp.device, hbrief, himp.printer⟩

/-- The helper does what the client does. -/
abbrev Mirrors {α : Type} (x : (Nat → ReadResult) → Upload α) (y : Service.Client α) : Prop :=
  Simulates observer (.failed 0) DeviceTransport.machine Left Beside x y Beside

/-- A loop over the transfer and the client make the same of an event. -/
def Alike {α : Type} (answer : FileEvent → Answer α) (k : FileEvent → Service.Client α) :
    FileEvent → Prop
  | .failed err => answer (.failed err) = some (.error (.transfer err))
  | ev => ∃ a, answer ev = some (.ok a) ∧ k ev = pure a

section Requests

variable {env : Env} {r : Request} {α : Type} {answer : FileEvent → Answer α}
  {k : FileEvent → Service.Client α} {giveUp : UploadError}

/-- **One request** of the client is one call and one drive loop of the helper. -/
theorem mirrors_ask (hw : ∀ k, env.writes k = none)
    (ha : ∀ sv ev sv', Service.serve sv r = some (ev, sv') → Alike answer k ev) :
    Mirrors
      (fun f => do
        call (r.call (← now (env.reading f)))
        drive (env.reading f) poll answer giveUp)
      (Service.ask r >>= k) := by
  rintro P t sv ⟨ft, s, d, hP, rfl, himp, hbrief⟩
  have hserve := himp.serve r
  rw [exec_bind]
  cases hsv : sv.serve r with
  | none =>
    rw [hsv] at hserve
    rw [Service.exec_ask_none hsv]
    refine ⟨[], _, .nil, ⟨d, rfl, himp.device, hbrief, himp.printer⟩, ?_⟩
    have hsays : Says ft s
        (fun f => do
          call (r.call (← now (env.reading f)))
          drive (env.reading f) poll answer giveUp) ([] ++ []) (Stops .panic) :=
      says_now.bind _ fun now => (says_call_none (hserve now)).bind_stops
    exact hsays.pre hP
  | some a =>
    obtain ⟨ev, sv'⟩ := a
    rw [hsv] at hserve
    obtain ⟨⟨ft', s', d'⟩, hans, himp'⟩ := hserve
    have hfits := hbrief.answer r.operation s.sync
    have hfollows := DeviceTransport.follows_packet hans.listens.inbound hans.valid hans.handled
      hans.listens' (by simp) hfits
    have hbrief' : d'.Brief := by
      rw [show d' = d.served _ _ from hans.device]
      exact hbrief.served _ _
    rw [Service.exec_ask hsv]
    have halike := ha sv ev sv' hsv
    refine ⟨_, _, hfollows, ?_⟩
    cases ev with
    | failed err =>
      have hsays := says_request hans hw hfits giveUp halike
      exact ⟨⟨d', rfl, himp'.device, hbrief', himp'.printer⟩, hsays.pre hP⟩
    | _ =>
      obtain ⟨a, ha, hk⟩ := halike
      have hsays := says_request hans hw hfits giveUp ha
      dsimp only [Service.passed]
      rw [hk]
      exact ⟨World.At ft' s', ⟨ft', s', d', fun _ h => h, rfl, himp', hbrief'⟩, hsays.pre hP⟩

/-- A request of which only the success is awaited. -/
theorem mirrors_perform (hw : ∀ k, env.writes k = none) {pred : FileEvent → Bool}
    (hpred : ∀ ev : FileEvent, ev.answers = some r.operation → pred ev = true) :
    Mirrors
      (fun f => do
        call (r.call (← now (env.reading f)))
        driveUntilEvent (env.reading f) pred)
      (Service.perform r) := by
  refine mirrors_ask hw fun sv ev sv' hsv => ?_
  rcases Service.serve_event hsv with ⟨err, rfl⟩ | hev
  · rfl
  · have := hpred ev hev
    cases ev with
    | failed err => cases hev
    | _ => exact ⟨⟨⟩, if_pos this, rfl⟩

theorem mirrors_query (hw : ∀ k, env.writes k = none) (requested : Compression) :
    Mirrors
      (fun f => do
        call (.query requested (← now (env.reading f)))
        driveUntilNegotiated (env.reading f))
      (Service.query requested) := by
  refine mirrors_ask (r := .query requested) hw fun sv ev sv' hsv => ?_
  rcases Service.serve_event hsv with ⟨err, rfl⟩ | hev
  · rfl
  · cases ev with
    | negotiated version c => exact ⟨c, rfl, rfl⟩
    | _ => cases hev

end Requests

section Parts

variable {env : Env}

theorem Mirrors.bind {α β : Type} {x : (Nat → ReadResult) → Upload α} {y : Service.Client α}
    {f : α → (Nat → ReadResult) → Upload β} {g : α → Service.Client β} (hx : Mirrors x y)
    (hf : ∀ a, Mirrors (f a) (g a)) :
    Mirrors (fun script => x script >>= fun a => f a script) (y >>= fun a => g a) :=
  Simulates.bind hx hf

theorem exec_require {α : Type} (r : Except Stop α) (sv : Service) :
    exec (Service.require r) sv = (r, sv) := by
  cases r <;> rfl

/-- Where nothing is sent and nothing asked. -/
theorem mirrors_require {α : Type} {x : Upload α} {r : Except Stop α}
    (hx : ∀ w, exec x w = (r, w)) : Mirrors (fun _ => x) (Service.require r) :=
  Simulates.stays (fun _ => hx) (exec_require r) fun _ _ _ h => h.left

theorem mirrors_readToEnd :
    Mirrors (fun f => readToEnd (env.reading f))
      (Service.require (env.source.mapError fun err => .err (.io err))) := by
  refine mirrors_require (x := readToEnd env) fun w => ?_
  unfold readToEnd
  cases env.source <;> rfl

theorem mirrors_payloadOf (crate : Option HeatshrinkCrate) (source : Bytes) (c : Compression) :
    Mirrors (fun _ => payloadOf crate source c)
      (Service.require (Service.encoded crate source c)) := by
  refine mirrors_require fun w => ?_
  cases c with
  | none => rfl
  | auto => rfl
  | heatshrink window lookahead =>
    cases crate with
    | none => rfl
    | some crate =>
      unfold payloadOf Service.encoded
      dsimp only
      rw [compress_eq]
      split_ifs <;> rfl

/-- The callback, if there is one. -/
def report (options : UploadOptions) (stats : UploadStats) : Upload Unit := do
  if options.progress then
    modify fun w => { w with
      reports := w.reports ++ [⟨stats.bytesSent, stats.chunksSent, stats.sourceBytes⟩] }

theorem mirrors_report (options : UploadOptions) (stats : UploadStats) :
    Mirrors (fun _ => report options stats) (pure ()) := by
  rintro P t sv ⟨ft, s, d, hP, ht, himp, hbrief⟩
  refine ⟨[], t, .nil, World.At ft s, ⟨ft, s, d, fun _ h => h, ht, himp, hbrief⟩, ?_⟩
  refine .of_exec rfl fun script w hw => ?_
  have hat := hP w hw
  unfold report
  cases options.progress with
  | false => exact ⟨_, w, rfl, ⟨_, rfl, rfl, hat⟩, rfl, (List.append_nil _).symm⟩
  | true =>
    exact ⟨_, _, rfl, ⟨_, rfl, rfl, hat.transfer, hat.session, hat.conserved⟩, rfl,
      (List.append_nil _).symm⟩

theorem writeChunks_cons (env : Env) (options : UploadOptions) (chunk : Bytes) (chunks : List Bytes)
    (stats : UploadStats) :
    writeChunks env options (chunk :: chunks) stats
      = (do
          call (.write chunk (← now env))
          driveUntilEvent env fun e => e = .writeAcked)
        >>= fun _ => report options (UploadStats.after stats [chunk])
        >>= fun _ => writeChunks env options chunks (UploadStats.after stats [chunk]) := by
  have hstats : UploadStats.after stats [chunk] = { stats with
      bytesSent := stats.bytesSent + chunk.length, chunksSent := stats.chunksSent + 1 } := by
    unfold UploadStats.after
    rw [List.flatten_singleton]
    rfl
  rw [writeChunks, hstats]
  simp only [bind_assoc]
  unfold report
  congr; funext _; congr; funext _; congr; funext _
  cases options.progress <;> rfl

theorem after_cons (stats : UploadStats) (chunk : Bytes) (chunks : List Bytes) :
    UploadStats.after (UploadStats.after stats [chunk]) chunks
      = UploadStats.after stats (chunk :: chunks) := by
  unfold UploadStats.after
  simp only [List.flatten_cons, List.flatten_nil, List.append_nil, List.length_append,
    List.length_cons, List.length_nil, UploadStats.mk.injEq, true_and, and_true]
  omega

/-- **The chunks are written** one after the other. -/
theorem mirrors_writeChunks (hw : ∀ k, env.writes k = none) (options : UploadOptions) :
    ∀ (chunks : List Bytes) (stats : UploadStats),
      Mirrors (fun f => writeChunks (env.reading f) options chunks stats)
        (do Service.writeAll chunks; pure (UploadStats.after stats chunks)) := by
  intro chunks
  induction chunks with
  | nil =>
    intro stats
    have hnone : UploadStats.after stats [] = stats := rfl
    rw [hnone]
    exact Simulates.pure (fun _ _ _ h => h) stats
  | cons chunk chunks ih =>
    intro stats
    have hpieces :
        (do Service.writeAll (chunk :: chunks); pure (UploadStats.after stats (chunk :: chunks)))
        = Service.perform (.write chunk) >>= fun _ => (pure () : Service.Client Unit) >>= fun _ =>
          (do
            Service.writeAll chunks
            pure (UploadStats.after (UploadStats.after stats [chunk]) chunks)) := by
      rw [Service.writeAll, after_cons]
      simp only [bind_assoc, pure_bind]
    rw [hpieces]
    simp only [writeChunks_cons]
    refine (mirrors_perform (r := .write chunk) hw fun ev hev => ?_).bind fun _ =>
      (mirrors_report options _).bind fun _ => ih _
    cases ev <;> first | rfl | cases hev

/-- The control CLOSE of the helper once the clock was read. -/
def closeAt (now : Instant) : Upload Unit := do
  let w ← get
  match w.transfer.host.send 0 2 [] now with
  | some host => modify fun w => w.withHost host
  | none => throw .panic

theorem sendControlClose_bind {α : Type} (env : Env) (x : Upload α) :
    (sendControlClose env >>= fun _ => x) = now env >>= fun now => closeAt now >>= fun _ => x :=
  bind_assoc (now env) closeAt fun _ => x

theorem says_closeAt (ft : FileTransfer) {s : Session} (hs : s.AtRest) (now : Instant) :
    ∃ f, f.sync = s.sync ∧ f.isSyncHandshake = false
      ∧ Says ft s (fun _ => closeAt now) []
        (Returns fun _ w => w.At ft (s.sending f [(⟨s.sync, 0, 2, []⟩ : Packet).wire])) := by
  obtain ⟨f, hsync, hf, hsend⟩ := hs.send (by decide : (0 : UInt8) ≤ 0xF)
    (by decide : (2 : UInt8) ≤ 0xF) (show ([] : Bytes).length ≤ maxPayload from Nat.zero_le _) now
  refine ⟨f, hsync, hf, .of_exec rfl fun script w hw => ?_⟩
  obtain ⟨ds, hc⟩ := hw.conserved
  have hhost : ∃ host, w.transfer.host.send 0 2 [] now = some host
      ∧ host.session = s.sending f [(⟨s.sync, 0, 2, []⟩ : Packet).wire] := by
    unfold Watched.send
    rw [show w.transfer.host.session = s from hw.session, hsend]
    exact ⟨_, rfl, rfl⟩
  obtain ⟨host, hhost, hsession⟩ := hhost
  refine ⟨.ok ⟨⟩, w.withHost host, ?_, ⟨_, rfl, hw.withHost (hc.send hhost) hsession⟩, rfl,
    (List.append_nil _).symm⟩
  unfold closeAt
  rw [exec_bind, exec_get]
  dsimp only
  rw [hhost]
  rfl

/-- **The control CLOSE** is acked, and the device leaves the binary mode. -/
theorem mirrors_release (hw : ∀ k, env.writes k = none) :
    Mirrors
      (fun f => do
        sendControlClose (env.reading f)
        driveSessionUntilIdle (env.reading f))
      Service.release := by
  simp only [sendControlClose_bind]
  rintro P t sv ⟨ft, s, d, hP, rfl, himp, hbrief⟩
  have hrest : s.AtRest := himp.session
  have hlisten : d.Listens := himp.device
  have hproto : (0 : UInt8) ≤ 0xF := by decide
  have htype : (2 : UInt8) ≤ 0xF := by decide
  have hvalid : (⟨s.sync, 0, 2, []⟩ : Packet).Valid := ⟨hproto, htype, Nat.zero_le _⟩
  let d' : FakeDevice := { d with controlClosed := true }
  have hlisten' : d'.Listens :=
    ⟨hlisten.inbound, hlisten.replyBuf, hlisten.resend, hlisten.oneLine, hlisten.noColon⟩
  have hans : d.handle ⟨s.sync, 0, 2, []⟩ = d'.replying [okText s.sync] := by
    unfold FakeDevice.handle
    rw [hlisten.resend, if_neg (fun h => nomatch h), ← FakeDevice.writeLine_eq]
    rfl
  have hprinter : d'.printer = { sv.printer with released := true } := by
    rw [← show d.printer = sv.printer from himp.printer]
    rfl
  have hfits : (Lines.unlines 0x0A ([okText s.sync].map asBytes)).length ≤ readBufLen :=
    hbrief.answer .write s.sync
  have hfollows :=
    DeviceTransport.follows_packet hlisten.inbound hvalid hans hlisten' (by simp) hfits
  have hsent : ∀ now, Says ft s
      (fun f => closeAt now >>= fun _ => driveSessionUntilIdle (env.reading f))
      ([] ++ [.tells (⟨s.sync, 0, 2, []⟩ : Packet).wire, .hears (.data _ hfits)])
      (Returns fun a' w => a' = ⟨⟩ ∧ w.At ft { s.answered [] with events := [] }) := by
    intro now
    obtain ⟨f, hsync, hf, hclose⟩ := says_closeAt ft hrest now
    refine hclose.bind _ fun _ => says_drive (r := .ok ()) hw rfl (by simp) hfits ?_
      (polls_pollEvent (e := .ack s.sync) rfl) rfl
    exact hrest.feed hsync hf fun line (hm : line ∈ []) => absurd hm List.not_mem_nil
  exact ⟨_, _, hfollows, World.At ft { s.answered [] with events := [] },
    ⟨ft, _, d', fun _ h => h, rfl,
      ⟨hrest.answered [], himp.transfer, himp.negotiated, hlisten', hprinter⟩, hbrief⟩,
    (says_now.bind _ hsent).pre hP⟩

end Parts

/-! ## The whole upload -/

section Whole

variable {env : Env}

/-- `upload` once the handshake is over. -/
def transfer (env : Env) (crate : Option HeatshrinkCrate) (options : UploadOptions)
    (deviceMax : UInt16) : Upload UploadStats := do
  call (.query options.compression (← now env))
  let negotiated ← driveUntilNegotiated env
  finish env crate options deviceMax negotiated

theorem stats_chunks (payload : Bytes) (sourceBytes requested : Nat) (deviceMax : UInt16)
    (c : Compression) :
    UploadStats.after ⟨sourceBytes, 0, 0, c⟩
        (Chunks.chunks (resolveChunkSize requested deviceMax) payload)
      = ⟨sourceBytes, payload.length,
          (Chunks.chunks (resolveChunkSize requested deviceMax) payload).length, c⟩ := by
  unfold UploadStats.after
  rw [Chunks.flatten_chunks (resolveChunkSize_pos _ _)]
  dsimp only
  rw [Nat.zero_add, Nat.zero_add]

theorem mirrors_transfer (hw : ∀ k, env.writes k = none) (crate : Option HeatshrinkCrate)
    (options : UploadOptions) (deviceMax : UInt16) :
    Mirrors (fun f => transfer (env.reading f) crate options deviceMax)
      (Service.uploadIn deviceMax crate options env.source) := by
  have hclient : Service.uploadIn deviceMax crate options env.source
      = Service.query options.compression >>= fun c =>
        Service.perform (.open options.destFilename options.dummy) >>= fun _ =>
        Service.require (env.source.mapError fun err => .err (.io err)) >>= fun source =>
        Service.require (Service.encoded crate source c) >>= fun payload =>
        (do
          let chunks := Chunks.chunks (resolveChunkSize options.chunkSize deviceMax) payload
          Service.writeAll chunks
          pure (UploadStats.after ⟨source.length, 0, 0, c⟩ chunks)) >>= fun stats =>
        Service.perform .close >>= fun _ => Service.release >>= fun _ => pure stats := by
    unfold Service.uploadIn
    simp only [bind_assoc, pure_bind, stats_chunks]
  have hhelper : ∀ env, transfer env crate options deviceMax
      = (do
          call (.query options.compression (← now env))
          driveUntilNegotiated env) >>= fun c =>
        (do
          call (.open options.destFilename options.dummy (← now env))
          driveUntilEvent env fun e => e = .opened) >>= fun _ =>
        readToEnd env >>= fun source => payloadOf crate source c >>= fun payload =>
        writeChunks env options
          (Chunks.chunks (resolveChunkSize options.chunkSize deviceMax) payload)
          ⟨source.length, 0, 0, c⟩ >>= fun stats =>
        (do
          call (.close (← now env))
          driveUntilEvent env fun e => e = .closed) >>= fun _ =>
        (do
          sendControlClose env
          driveSessionUntilIdle env) >>= fun _ => pure stats := by
    intro env
    unfold transfer finish
    simp only [bind_assoc]
  rw [hclient]
  simp only [hhelper]
  refine (mirrors_query hw options.compression).bind fun c => ?_
  refine (mirrors_perform (r := .open options.destFilename options.dummy) hw fun ev hev => ?_).bind
    fun _ => mirrors_readToEnd.bind fun source =>
      (mirrors_payloadOf crate source c).bind fun payload =>
        (mirrors_writeChunks hw options _ _).bind fun stats =>
          (mirrors_perform (r := .close) hw fun ev hev => ?_).bind fun _ =>
            (mirrors_release hw).bind fun _ => Simulates.pure (fun _ _ _ h => h) stats
  · cases ev <;> first | rfl | cases hev
  · cases ev <;> first | rfl | cases hev

/-- `upload` up to the first request, with the block size that the device advertised. -/
def greet (env : Env) : Upload UInt16 := do
  handshake env
  let deviceMax := (← get).session.maxBlockSize.getD 0
  modify fun w => { w with transfer := Transfer.start w.transfer.host }
  pure deviceMax

theorem upload_greet (env : Env) (crate : Option HeatshrinkCrate) (options : UploadOptions) :
    Blocking.upload env crate options
      = greet env >>= fun deviceMax => transfer env crate options deviceMax := by
  unfold Blocking.upload greet handshake transfer finish
  simp only [bind_assoc, pure_bind]

theorem World.start_at : World.start.At FileTransfer.new Session.new :=
  ⟨rfl, rfl, [], conserved_start Session.new⟩

/-- A SYNC packet is put on its way. -/
theorem says_connect {ft : FileTransfer} {s s' : Session} {now : Instant}
    (h : s.connect now = s') :
    Says ft s (fun _ => modify fun w => w.withHost (w.transfer.host.connect now)) []
      (Returns fun _ w => w.At ft s') := by
  refine .of_exec rfl fun script w hw => ?_
  obtain ⟨ds, hc⟩ := hw.conserved
  refine ⟨.ok ⟨⟩, _, rfl, ⟨_, rfl, hw.withHost (hc.connect now) ?_⟩, rfl, (List.append_nil _).symm⟩
  rw [Watched.connect_session, ← h, ← hw.session]
  rfl

/-- **The handshake**: the trigger, the SYNC packet, and the greeting. -/
theorem converses_greet (hw : ∀ k, env.writes k = none) {d : FakeDevice} (hd : d.Listens)
    (hb : d.Brief) :
    ∃ s : Session, s.AtRest ∧ Converses observer (.failed 0) (· = World.start)
      (fun f => greet (env.reading f))
      [.tells binaryTrigger, .tells (syncPacket.packet Session.new.sync).wire,
        .hears (.data _ hb.greeting)]
      (Returns fun m w => m = d.maxBlockSize ∧ w.At FileTransfer.new s) := by
  let s := Session.new.greeted d.initialSync d.maxBlockSize (trim d.protocolVersion)
  refine ⟨{ s with events := [] }, vacant_new.greeted _ _ _, ?_⟩
  have htrigger : Converses observer (.failed 0) (· = World.start)
      (fun f => Blocking.writeAll (env.reading f) binaryTrigger) [.tells binaryTrigger]
      (Returns fun _ w => w.At FileTransfer.new Session.new) :=
    (says_writeAll hw binaryTrigger).pre fun w hw => hw ▸ World.start_at
  have hfresh : Says FileTransfer.new Session.new
      (fun _ => modify fun w => { w with transfer := Transfer.start (Watched.start Session.new) })
      [] (Returns fun _ w => w.At FileTransfer.new Session.new) := by
    refine .of_exec rfl fun script w _ => ?_
    exact ⟨.ok ⟨⟩, _, rfl, ⟨_, rfl, World.start_at.transfer, World.start_at.session,
      World.start_at.conserved⟩, rfl, (List.append_nil _).symm⟩
  have hgreeted : ∀ now, Says FileTransfer.new Session.new
      (fun f => do
        modify fun w => w.withHost (w.transfer.host.connect now)
        driveSessionUntilSynced (env.reading f))
      ([] ++ [.tells (syncPacket.packet Session.new.sync).wire, .hears (.data _ hb.greeting)])
      (Returns fun a' w => a' = ⟨⟩ ∧ w.At FileTransfer.new { s with events := [] }) := by
    intro now
    obtain ⟨f, -, hf, hout⟩ := vacant_new.dispatch syncPacket true now
    refine (says_connect hout).bind _ fun _ => says_drive (r := .ok ()) hw rfl (by simp) hb.greeting
      ?_ (polls_pollEvent (e := .synced d.maxBlockSize (trim d.protocolVersion)) rfl) rfl
    exact fun now => vacant_new.feed hf _ _ hd.oneLine now
  have hmax : Says FileTransfer.new { s with events := [] }
      (fun _ => do
        let deviceMax := (← get).session.maxBlockSize.getD 0
        modify fun w => { w with transfer := Transfer.start w.transfer.host }
        pure deviceMax) []
      (Returns fun m w => m = d.maxBlockSize ∧ w.At FileTransfer.new { s with events := [] }) := by
    refine .of_exec rfl fun script w hw => ?_
    refine ⟨.ok (w.session.maxBlockSize.getD 0), _, rfl,
      ⟨_, rfl, ?_, rfl, hw.session, hw.conserved⟩, rfl, (List.append_nil _).symm⟩
    rw [hw.session]
    rfl
  have hprog : ∀ env, greet env
      = Blocking.writeAll env binaryTrigger >>= fun _ =>
        (modify fun w => { w with
          transfer := Transfer.start (Watched.start Session.new) }) >>= fun _ =>
        (do
          let now ← now env
          modify fun w => w.withHost (w.transfer.host.connect now)
          driveSessionUntilSynced env) >>= fun _ =>
        (do
          let deviceMax := (← get).session.maxBlockSize.getD 0
          modify fun w => { w with transfer := Transfer.start w.transfer.host }
          pure deviceMax) := by
    intro env
    unfold greet handshake Blocking.connect
    simp only [bind_assoc]
  simp only [hprog]
  exact htrigger.bind _ fun _ => hfresh.bind _ fun _ =>
    (says_now.bind _ hgreeted).bind_value hmax

/-- The script that the transport is for the helper: no write fails. -/
def loopEnv (clock : Nat → Instant) (source : Except IoError Bytes) (reads : Nat → ReadResult) :
    Env := ⟨reads, fun _ => none, clock, source⟩

/-- One upload, with the clock it reads. -/
structure Job where
  clock : Nat → Instant
  crate : Option HeatshrinkCrate
  options : UploadOptions
  source : Except IoError Bytes

/-- The helper on the transport. -/
def Job.upload (job : Job) (t : Option DeviceTransport) :
    (Except Stop UploadStats × World) × Option DeviceTransport :=
  meet observer (.failed 0)
    (fun reads => Blocking.upload (loopEnv job.clock job.source reads) job.crate job.options)
    World.start DeviceTransport.machine t

/-- The client of the service. -/
def Job.client (job : Job) (p : Printer) : Except Stop UploadStats × Service :=
  exec (Service.upload job.crate job.options job.source) ⟨.idle, p⟩

/-- **The helper ends as the client does**, and leaves the device as the client the printer. -/
theorem Job.upload_eq (job : Job) {d : FakeDevice} (hd : d.Listens) (hb : d.Brief) :
    ∃ w d', job.upload (some ⟨d, []⟩) = (((job.client d.printer).1, w), some ⟨d', []⟩)
      ∧ d'.Stands (job.client d.printer).2.printer := by
  obtain ⟨clock, crate, options, source⟩ := job
  let env := loopEnv clock source fun _ => .timedOut
  have hw : ∀ k, env.writes k = none := fun _ => rfl
  -- the handshake is where the client looks up the block size
  have hgreet : Simulates observer (.failed 0) DeviceTransport.machine Left
      (fun P t sv => P = (· = World.start) ∧ t = some ⟨d, []⟩ ∧ sv = ⟨.idle, d.printer⟩)
      (fun f => greet (env.reading f))
      (do return (← get).printer.blockSize : Service.Client UInt16) Beside := by
    rintro P t sv ⟨rfl, rfl, rfl⟩
    obtain ⟨s, hs, hconv⟩ := converses_greet hw hd hb
    have hans : d.handle (syncPacket.packet Session.new.sync)
        = d.replying [ssText d.initialSync d.maxBlockSize d.protocolVersion] := by
      unfold FakeDevice.handle
      rw [hd.resend, if_neg (fun h => nomatch h), ← FakeDevice.writeLine_eq]
      rfl
    refine ⟨_, _, DeviceTransport.follows_greeting hd (syncPacket.packet_valid _) hans (by simp)
      hb.greeting, World.At FileTransfer.new s, ⟨FileTransfer.new, s, d, fun _ h => h, rfl, ?_, hb⟩,
      hconv⟩
    exact ⟨hs, ⟨rfl, rfl, rfl, rfl⟩, (fun c hc => nomatch hc), hd, rfl⟩
  have hwhole := hgreet.bind fun m => mirrors_transfer hw crate options m
  obtain ⟨r, w, t, hmeet, hr, hend⟩ :=
    hwhole.meets (v := ⟨.idle, d.printer⟩) ⟨rfl, rfl, rfl⟩ rfl rfl
  have hleft : Left t (Job.client ⟨clock, crate, options, source⟩ d.printer).2 := by
    cases r with
    | ok stats =>
      obtain ⟨P, -, hbeside⟩ := hend
      exact hbeside.left
    | error e => exact hend
  obtain ⟨d', rfl, hd'⟩ := hleft
  refine ⟨w, d', ?_, hd'⟩
  unfold Job.upload
  simp only [upload_greet]
  rw [← show r = (Job.client ⟨clock, crate, options, source⟩ d.printer).1 from hr]
  exact hmeet

end Whole

/-- Uploads over one transport, one after the other. -/
def uploadAll : List Job → Option DeviceTransport →
    List (Except Stop UploadStats) × Option DeviceTransport
  | [], t => ([], t)
  | job :: jobs, t =>
    let (r, t) := job.upload t
    let (rs, t) := uploadAll jobs t
    (r.1 :: rs, t)

/-- Clients, one after the other. -/
def clientAll : List Job → Printer → List (Except Stop UploadStats) × Printer
  | [], p => ([], p)
  | job :: jobs, p =>
    let (r, sv) := job.client p
    let (rs, p) := clientAll jobs sv.printer
    (r :: rs, p)

/--
**An upload is the client of a service.** On the transport of the tests, over a device that has
nothing under way, asks for no packet twice and says its version on one short line without a
colon, any number of uploads one after the other, whatever is asked of them and however each one
ends, return what the clients return, at any reading of the clock, and leave the device as the
clients leave the printer, ready for the next.
-/
theorem uploads_refine_service (jobs : List Job) (d : FakeDevice) (hd : d.Listens) (hb : d.Brief) :
    ∃ d', uploadAll jobs (some ⟨d, []⟩) = ((clientAll jobs d.printer).1, some ⟨d', []⟩)
      ∧ d'.Listens ∧ d'.printer = (clientAll jobs d.printer).2 := by
  induction jobs generalizing d with
  | nil => exact ⟨d, rfl, hd, rfl⟩
  | cons job jobs ih =>
    obtain ⟨w, d₁, hupload, hd₁⟩ := job.upload_eq hd hb
    obtain ⟨d₂, hrest, hd₂, hp⟩ := ih d₁ hd₁.listens hd₁.brief
    rw [hd₁.printer] at hrest hp
    refine ⟨d₂, ?_, hd₂, hp⟩
    rw [uploadAll, hupload, clientAll]
    dsimp only
    rw [hrest]

/-- Two bytes, sent as they are. -/
def twoBytes : Job := ⟨id, none, ⟨['a'], .none, false, 0, false⟩, .ok [7, 8]⟩

theorem uploads_refine_service_busyDevice :
    ∃ d', uploadAll [twoBytes, twoBytes] (some ⟨busyDevice, []⟩)
        = ([.error (.err (.transfer .openBusy)), .ok ⟨2, 2, 1, .none⟩], some ⟨d', []⟩)
      ∧ d'.Listens ∧ d'.printer = { busyDevice.printer with
        busy := false, name := some ['a'], dummy := some false, flag := some 0, contents := [7, 8],
        closed := true, released := true } := by
  have hclients : clientAll [twoBytes, twoBytes] busyDevice.printer
      = ([.error (.err (.transfer .openBusy)), .ok ⟨2, 2, 1, .none⟩], { busyDevice.printer with
        busy := false, name := some ['a'], dummy := some false, flag := some 0, contents := [7, 8],
        closed := true, released := true }) := by
    decide +kernel
  have h := uploads_refine_service [twoBytes, twoBytes] busyDevice
    ⟨rfl, rfl, rfl, by decide, by decide⟩
    (by decide : (asBytes ['1', '.', '0']).length + 38 ≤ readBufLen)
  rw [hclients] at h
  exact h

end MarlinTransfer
