import MarlinTransfer.Fixtures.UploadService

/-!
# When an upload succeeds

What the client of the service comes to, step by step: an upload returns `Ok` if and only if
nothing stands in its way, and then the printer holds the payload. Any other does
not take it out of the binary mode.
-/

namespace MarlinTransfer

open Codec Text Triple

namespace Service

variable {p : Printer} {crate : Option HeatshrinkCrate} {options : UploadOptions}
  {source : Except IoError Bytes}

/-- An upload that nothing stands in the way of, with what is negotiated, read and sent. -/
structure Uploadable (p : Printer) (crate : Option HeatshrinkCrate) (options : UploadOptions)
    (source : Except IoError Bytes) (c : Compression) (bytes payload : Bytes) : Prop where
  agreed : agree options.compression p.compression = some c
  name : (asBytes options.destFilename).length + 3 ≤ maxPayload
  notBusy : p.busy = false
  notFailing : p.failing = false
  readable : source = .ok bytes
  encoded : IsPayload crate bytes payload c
  notSilent : p.silent = false

/-- What is sent is the payload. -/
theorem encoded_eq_ok {bytes payload : Bytes} {c : Compression} :
    encoded crate bytes c = .ok payload ↔ IsPayload crate bytes payload c := by
  cases c with
  | none =>
    show Except.ok bytes = Except.ok payload ↔ payload = bytes
    rw [Except.ok.injEq]
    exact eq_comm
  | auto => exact ⟨(fun h => nomatch h), fun h => h.elim⟩
  | heatshrink window lookahead =>
    cases crate with
    | none => exact ⟨(fun h => nomatch h), fun ⟨_, h, _⟩ => nomatch h⟩
    | some crate =>
      unfold encoded
      dsimp only
      constructor
      · intro h
        split_ifs at h with htakes
        exact ⟨crate, rfl, htakes, (Except.ok.inj h).symm⟩
      · rintro ⟨crate', hcrate, htakes, rfl⟩
        obtain rfl := Option.some.inj hcrate
        exact if_pos htakes

theorem Uploadable.unique {c c' : Compression} {bytes bytes' payload payload' : Bytes}
    (h : Uploadable p crate options source c bytes payload)
    (h' : Uploadable p crate options source c' bytes' payload') :
    c' = c ∧ bytes' = bytes ∧ payload' = payload := by
  obtain rfl : c' = c := Option.some.inj (h'.agreed.symm.trans h.agreed)
  obtain rfl : bytes' = bytes := Except.ok.inj (h'.readable.symm.trans h.readable)
  have hsent := encoded_eq_ok.mpr h.encoded
  rw [encoded_eq_ok.mpr h'.encoded] at hsent
  exact ⟨rfl, rfl, Except.ok.inj hsent⟩

/-- The printer once a file is open. -/
def noted (p : Printer) (options : UploadOptions) (c : Compression) : Printer :=
  { p with
    name := some (untilNul options.destFilename)
    dummy := some options.dummy
    flag := some (compressionByte c) }

/-- The printer after an upload. -/
def uploaded (p : Printer) (options : UploadOptions) (c : Compression) (payload : Bytes) :
    Printer :=
  { noted p options c with contents := p.contents ++ payload, closed := true, released := true }

/-- It ends early, with the printer in the binary mode if it was. -/
def Aborts {α : Type} (x : Client α) (sv : Service) : Prop :=
  ∃ e sv', exec x sv = (.error e, sv') ∧ sv'.printer.released = sv.printer.released

theorem Aborts.bind {α β : Type} {x : Client α} {sv : Service} (h : Aborts x sv)
    (f : α → Client β) : Aborts (x >>= f) sv := by
  obtain ⟨e, sv', hx, hr⟩ := h
  refine ⟨e, sv', ?_, hr⟩
  rw [exec_bind, hx]

theorem Aborts.after {α β : Type} {x : Client α} {sv sv' : Service} {a : α} {f : α → Client β}
    (hx : exec x sv = (.ok a, sv')) (hr : sv'.printer.released = sv.printer.released)
    (h : Aborts (f a) sv') : Aborts (x >>= f) sv := by
  obtain ⟨e, sv'', hf, hr'⟩ := h
  refine ⟨e, sv'', ?_, hr'.trans hr⟩
  rw [exec_bind, hx]
  exact hf

theorem exec_query {c : Compression} {requested : Compression}
    (h : agree requested p.compression = some c) :
    exec (query requested) ⟨.idle, p⟩ = (.ok c, ⟨.negotiated c, p⟩) := by
  have hserve : serve ⟨.idle, p⟩ (.query requested)
      = some (.negotiated p.version c, ⟨.negotiated c, p⟩) := by
    unfold serve negotiate
    dsimp only
    rw [h]
  unfold query
  rw [exec_bind, exec_ask hserve]
  rfl

theorem query_aborts {requested : Compression} (h : agree requested p.compression = none) :
    Aborts (query requested) ⟨.idle, p⟩ := by
  have hserve : serve ⟨.idle, p⟩ (.query requested)
      = some (.failed .compressionUnsupported, ⟨.failed, p⟩) := by
    unfold serve negotiate
    dsimp only
    rw [h]
  refine ⟨.err (.transfer .compressionUnsupported), ⟨.failed, p⟩, ?_, rfl⟩
  unfold query
  rw [exec_bind, exec_ask hserve]
  rfl

theorem exec_perform {sv sv' : Service} {r : Request} {ev : FileEvent}
    (h : sv.serve r = some (ev, sv')) (hev : passed ev = .ok ev) :
    exec (perform r) sv = (.ok ⟨⟩, sv') := by
  unfold perform
  rw [exec_bind, exec_ask h, hev]
  rfl

theorem perform_aborts {sv sv' : Service} {r : Request} {err : FileError}
    (h : sv.serve r = some (.failed err, sv'))
    (hr : sv'.printer.released = sv.printer.released) : Aborts (perform r) sv := by
  refine ⟨.err (.transfer err), sv', ?_, hr⟩
  unfold perform
  rw [exec_bind, exec_ask h]
  rfl

theorem perform_refused {sv : Service} {r : Request} (h : sv.serve r = none) :
    Aborts (perform r) sv := by
  refine ⟨.panic, sv, ?_, rfl⟩
  unfold perform
  rw [exec_bind, exec_ask_none h]

theorem exec_open {c : Compression} (hname : (asBytes options.destFilename).length + 3 ≤ maxPayload)
    (hb : p.busy = false) (hf : p.failing = false) :
    exec (perform (.open options.destFilename options.dummy)) ⟨.negotiated c, p⟩
      = (.ok ⟨⟩, ⟨.opened c, noted p options c⟩) := by
  have hserve : serve ⟨.negotiated c, p⟩ (.open options.destFilename options.dummy)
      = some (.opened, ⟨.opened c, noted p options c⟩) := by
    unfold serve openFile
    dsimp only
    rw [if_pos hname, if_neg (Bool.eq_false_iff.mp hb), if_neg (Bool.eq_false_iff.mp hf)]
    rfl
  exact exec_perform hserve rfl

theorem open_aborts {c : Compression} (h : ¬ ((asBytes options.destFilename).length + 3 ≤ maxPayload
    ∧ p.busy = false ∧ p.failing = false)) :
    Aborts (perform (.open options.destFilename options.dummy)) ⟨.negotiated c, p⟩ := by
  by_cases hname : (asBytes options.destFilename).length + 3 ≤ maxPayload
  swap
  · refine perform_refused ?_
    unfold serve
    exact if_neg hname
  have hserve : serve ⟨.negotiated c, p⟩ (.open options.destFilename options.dummy)
      = some (openFile p c options.destFilename options.dummy) := if_pos hname
  by_cases hb : p.busy = true
  · have hbusy : openFile p c options.destFilename options.dummy
        = (.failed .openBusy, ⟨.failed, { noted p options c with busy := false }⟩) := by
      unfold openFile
      exact if_pos hb
    exact perform_aborts (hserve.trans (congrArg some hbusy)) rfl
  by_cases hf : p.failing = true
  · have hfailing : openFile p c options.destFilename options.dummy
        = (.failed .openFail, ⟨.failed, { noted p options c with failing := false }⟩) := by
      unfold openFile
      exact (if_neg hb).trans (if_pos hf)
    exact perform_aborts (hserve.trans (congrArg some hfailing)) rfl
  exact absurd ⟨hname, Bool.eq_false_iff.mpr hb, Bool.eq_false_iff.mpr hf⟩ h

/-- What is written is appended. -/
theorem exec_writeAll {c : Compression} :
    ∀ {chunks : List Bytes} {p : Printer}, (∀ chunk ∈ chunks, chunk.length ≤ maxPayload) →
      exec (writeAll chunks) ⟨.opened c, p⟩
        = (.ok ⟨⟩, ⟨.opened c, { p with contents := p.contents ++ chunks.flatten }⟩) := by
  intro chunks
  induction chunks with
  | nil =>
    intro p _
    rw [List.flatten_nil, List.append_nil]
    rfl
  | cons chunk chunks ih =>
    intro p h
    have hserve : serve ⟨.opened c, p⟩ (.write chunk)
        = some (.writeAcked, ⟨.opened c, { p with contents := p.contents ++ chunk }⟩) :=
      if_pos (h chunk List.mem_cons_self)
    rw [writeAll, exec_bind, exec_perform hserve rfl]
    dsimp only
    rw [ih fun x hx => h x (List.mem_cons_of_mem _ hx), List.flatten_cons, List.append_assoc]

theorem exec_close {c : Compression} (h : p.silent = false) :
    exec (perform .close) ⟨.opened c, p⟩ = (.ok ⟨⟩, ⟨.closed, { p with closed := true }⟩) := by
  have hserve : serve ⟨.opened c, p⟩ .close
      = some (.closed, ⟨.closed, { p with closed := true }⟩) := by
    unfold serve conclude
    exact congrArg some (if_neg (Bool.eq_false_iff.mp h))
  exact exec_perform hserve rfl

theorem close_aborts {c : Compression} (h : p.silent = true) :
    Aborts (perform .close) ⟨.opened c, p⟩ := by
  have hserve : serve ⟨.opened c, p⟩ .close
      = some (.failed Operation.close.violation, ⟨.failed, { p with closed := true }⟩) := by
    unfold serve conclude
    exact congrArg some (if_pos h)
  exact perform_aborts hserve rfl

theorem require_aborts {α : Type} {r : Except Stop α} {e : Stop} (h : r = .error e) (sv : Service) :
    Aborts (require r) sv := ⟨e, sv, by rw [exec_require, h], rfl⟩

/-- The chunks of a payload fit into packets, and are the payload. -/
theorem exec_writeAll_chunks {c : Compression} (requested : Nat) (blockSize : UInt16)
    (payload : Bytes) :
    exec (writeAll (Chunks.chunks (resolveChunkSize requested blockSize) payload)) ⟨.opened c, p⟩
      = (.ok ⟨⟩, ⟨.opened c, { p with contents := p.contents ++ payload }⟩) := by
  have hpos := resolveChunkSize_pos requested blockSize
  rw [exec_writeAll fun chunk hm =>
    Nat.le_trans (Chunks.mem_chunks hpos hm).2 (resolveChunkSize_le requested blockSize),
    Chunks.flatten_chunks hpos]

/-- What is returned. -/
def stats (p : Printer) (options : UploadOptions) (c : Compression) (bytes payload : Bytes) :
    UploadStats :=
  let chunkSize := resolveChunkSize options.chunkSize p.blockSize
  ⟨bytes.length, payload.length, (payload.length + chunkSize - 1) / chunkSize, c⟩

theorem upload_succeeds {c : Compression} {bytes payload : Bytes}
    (h : Uploadable p crate options source c bytes payload) :
    exec (upload crate options source) ⟨.idle, p⟩
      = (.ok (stats p options c bytes payload), ⟨.closed, uploaded p options c payload⟩) := by
  have hlen := Chunks.length_chunks (resolveChunkSize_pos options.chunkSize p.blockSize) payload
  have hsource : source.mapError (fun err => Stop.err (.io err)) = .ok bytes := by
    rw [h.readable]
    rfl
  unfold upload uploadIn
  rw [exec_bind, exec_get]
  dsimp only
  rw [exec_bind, exec_query h.agreed]
  dsimp only
  rw [exec_bind, exec_open h.name h.notBusy h.notFailing]
  dsimp only
  rw [exec_bind, exec_require, hsource]
  dsimp only
  rw [exec_bind, exec_require, encoded_eq_ok.mpr h.encoded]
  dsimp only
  rw [exec_bind, exec_writeAll_chunks]
  dsimp only
  rw [exec_bind, exec_close]
  · dsimp only
    rw [hlen]
    rfl
  · exact h.notSilent

theorem upload_aborts (h : ∀ c bytes payload, ¬ Uploadable p crate options source c bytes payload) :
    Aborts (upload crate options source) ⟨.idle, p⟩ := by
  refine Aborts.after (exec_get _) rfl ?_
  dsimp only
  unfold uploadIn
  cases hagree : agree options.compression p.compression with
  | none => exact (query_aborts hagree).bind _
  | some c =>
    refine Aborts.after (exec_query hagree) rfl ?_
    by_cases hopen : (asBytes options.destFilename).length + 3 ≤ maxPayload
        ∧ p.busy = false ∧ p.failing = false
    swap
    · exact (open_aborts hopen).bind _
    obtain ⟨hname, hb, hf⟩ := hopen
    refine Aborts.after (exec_open hname hb hf) rfl ?_
    cases hsource : source with
    | error err => exact (require_aborts rfl _).bind _
    | ok bytes =>
      refine Aborts.after (exec_require (.ok bytes) _) rfl ?_
      cases hencoded : encoded crate bytes c with
      | error e => exact (require_aborts rfl _).bind _
      | ok payload =>
        refine Aborts.after (exec_require (.ok payload) _) rfl ?_
        refine Aborts.after (exec_writeAll_chunks _ _ payload) rfl ?_
        -- nothing is left to go wrong but the answer to CLOSE
        cases hsilent : p.silent with
        | true =>
          refine Aborts.bind (close_aborts ?_) _
          exact hsilent
        | false =>
          exact absurd ⟨hagree, hname, hb, hf, hsource, encoded_eq_ok.mp hencoded, hsilent⟩
            (h c bytes payload)

end Service

/--
**An upload succeeds exactly when nothing stands in its way.** On the transport of the tests, over
a device as above, an upload returns `Ok` if and only if host and device agree on a compression,
the name fits into a packet, the device does not refuse the OPEN, the source can be read and
encoded, and CLOSE is answered; it then reports what it read, sent and negotiated, and the device
has the payload behind what it had before, is closed and has left the binary mode. Encoded means
as it is, or by the encoder with the parameters that were negotiated, in its range. An upload that
fails does not take the device out of the binary mode.
-/
theorem upload_succeeds_iff (job : Job) (d : FakeDevice) (hd : d.Listens) (hb : d.Brief) :
    ∃ r w d', job.upload (some ⟨d, []⟩) = ((r, w), some ⟨d', []⟩)
      ∧ (∀ stats, r = .ok stats ↔ ∃ c bytes payload,
          Service.Uploadable d.printer job.crate job.options job.source c bytes payload
            ∧ stats = Service.stats d.printer job.options c bytes payload)
      ∧ (∀ c bytes payload,
          Service.Uploadable d.printer job.crate job.options job.source c bytes payload →
            d'.printer = Service.uploaded d.printer job.options c payload)
      ∧ ∀ e, r = .error e → d'.controlClosed = d.controlClosed := by
  obtain ⟨w, d', hupload, hd'⟩ := job.upload_eq hd hb
  refine ⟨_, w, d', hupload, ?_⟩
  have hp := hd'.printer
  by_cases h : ∃ c bytes payload,
      Service.Uploadable d.printer job.crate job.options job.source c bytes payload
  · obtain ⟨c, bytes, payload, h⟩ := h
    have hclient : job.client d.printer = _ := Service.upload_succeeds h
    rw [hclient] at hp ⊢
    refine ⟨fun stats => ⟨fun hok => ?_, ?_⟩, ?_, fun e he => nomatch he⟩
    · cases hok
      exact ⟨c, bytes, payload, h, rfl⟩
    · rintro ⟨c', bytes', payload', h', rfl⟩
      obtain ⟨rfl, rfl, rfl⟩ := h.unique h'
      rfl
    · intro c' bytes' payload' h'
      obtain ⟨rfl, rfl, rfl⟩ := h.unique h'
      exact hp
  · have haborts := Service.upload_aborts fun c bytes payload hu => h ⟨c, bytes, payload, hu⟩
    obtain ⟨e, sv', hexec, hr⟩ := haborts
    have hclient : job.client d.printer = (.error e, sv') := hexec
    rw [hclient] at hp ⊢
    refine ⟨fun stats => ⟨fun hok => (nomatch hok), ?_⟩, ?_, ?_⟩
    · rintro ⟨c, bytes, payload, hu, -⟩
      exact absurd ⟨c, bytes, payload, hu⟩ h
    · exact fun c bytes payload hu => absurd ⟨c, bytes, payload, hu⟩ h
    · intro e' _
      exact (congrArg Printer.released hp).trans hr

/-- An upload of five bytes in chunks of two. -/
def fiveBytes : Job := ⟨id, none, ⟨['a'], .auto, false, 2, true⟩, .ok [1, 2, 3, 4, 5]⟩

theorem upload_succeeds_iff_fiveBytes :
    ∃ r w d', fiveBytes.upload (some ⟨FakeDevice.new 512 ['1', '.', '0'] 7, []⟩)
        = ((r, w), some ⟨d', []⟩)
      ∧ r = .ok ⟨5, 5, 3, .none⟩ ∧ d'.writtenBytes = [1, 2, 3, 4, 5] ∧ d'.controlClosed = true := by
  have huploadable : Service.Uploadable (FakeDevice.new 512 ['1', '.', '0'] 7).printer
      fiveBytes.crate fiveBytes.options fiveBytes.source .none [1, 2, 3, 4, 5] [1, 2, 3, 4, 5] :=
    ⟨rfl, by decide, rfl, rfl, rfl, rfl, rfl⟩
  obtain ⟨r, w, d', hupload, hiff, hprinter, -⟩ := upload_succeeds_iff fiveBytes
    (FakeDevice.new 512 ['1', '.', '0'] 7) ⟨rfl, rfl, rfl, by decide, by decide⟩
    (by decide : (asBytes ['1', '.', '0']).length + 38 ≤ readBufLen)
  have hp := hprinter _ _ _ huploadable
  refine ⟨r, w, d', hupload, (hiff _).mpr ⟨_, _, _, huploadable, rfl⟩, ?_, ?_⟩
  · exact congrArg Printer.contents hp
  · exact congrArg Printer.released hp

end MarlinTransfer
