import MarlinTransfer.FileTransfer.Soundness
import MarlinTransfer.Link.Calm

/-!
# A transfer on a link

The composition of a transfer and the link its session is the host of, as a step relation and
as a function that runs scripts; and what the device
of `Profile.device` says of an operation: every line it says is a verdict in favour or none
at all, and the line that goes ahead of an `ok` is one.
-/

namespace MarlinTransfer

open Codec Text Runs Session

/-! ## The composition -/

/-- A transfer whose session is the host of a link. -/
structure Line where
  transfer : Transfer
  toDevice : List (Nat × Bytes)
  device : UInt8
  toHost : List Bytes
  arriving : Bytes

namespace Line

def link (l : Line) : Link UInt8 :=
  ⟨l.transfer.host, l.toDevice, l.device, l.toHost, l.arriving⟩

/-- The link moves on. -/
def withLink (l : Line) (k : Link UInt8) : Line :=
  ⟨{ l.transfer with host := k.host }, k.toDevice, k.device, k.toHost, k.arriving⟩

/-- A transfer just constructed on the host of a link. -/
def start (k : Link UInt8) : Line :=
  ⟨Transfer.start k.host, k.toDevice, k.device, k.toHost, k.arriving⟩

end Line

/-- The device supports the compression that is asked for. -/
def Profile.supports (profile : Profile) (requested : Compression) : Bool :=
  (chooseCompression requested (parseCompressionSpec profile.compression)).isOk

/-- A QUERY asks for nothing the device cannot do. -/
def Call.Suits (profile : Profile) : Call → Prop
  | .query compression _ => profile.supports compression = true
  | _ => True

instance (profile : Profile) (c : Call) : Decidable (c.Suits profile) := by
  cases c <;> unfold Call.Suits <;> infer_instance

/-- What the link does by itself while a transfer holds the session. -/
def Act.unattended : Act → Bool
  | .tick _ => true
  | .transmit => true
  | .hear => true
  | .arrive => true
  | .read _ => true
  | _ => false

inductive FileAct where
  | call (c : Call)
  | poll
  | link (act : Act)

/-- One step of the composition. -/
inductive FileStep (profile : Profile) : FileAct → Line → Line → Prop where
  | call {l : Line} (c : Call) (op : Operation) (hop : c.operation = some op)
      (hc : c.Suits profile) (t : Transfer) (h : l.transfer.step c = some t) :
      FileStep profile (.call c) l { l with transfer := t }
  | poll {l : Line} : FileStep profile .poll l { l with transfer := l.transfer.poll }
  | link {l : Line} (act : Act) (k : Link UInt8) (hact : act.unattended = true)
      (h : Step profile.device false act l.link k) :
      FileStep profile (.link act) l (l.withLink k)

/-- The runs of a transfer whose steps meet a condition. -/
def FileRun (profile : Profile) (ok : FileAct → Line → Line → Prop) (k : Link UInt8) (l : Line) :
    Prop :=
  Reach (Guarded (FileStep profile) ok) (Line.start k) l

/-- The calm runs of a transfer. -/
def CalmFileRun (profile : Profile) (k : Link UInt8) (l : Line) : Prop :=
  FileRun profile (fun _ l l' => Calm l.link.wire l'.link.wire) k l

/-! ## Running it -/

/-- A device that takes the sync number after that of every data packet. -/
def Profile.conduct (profile : Profile) : Link.Conduct UInt8 where
  hear d c := (match okFor c.2 with | some n => n + 1 | none => d, profile.answer d c.2)
  say _ := none

theorem Profile.conduct_fits (profile : Profile) : profile.conduct.Fits profile.device where
  hears := fun _ _ => rfl
  speaks := fun h => nomatch h

/-- One step. -/
def Line.exec (profile : Profile) (act : FileAct) (l : Line) : Option Line :=
  match act with
  | .call c =>
    if c.operation.isSome ∧ c.Suits profile then
      (l.transfer.step c).map fun transfer => { l with transfer }
    else none
  | .poll => some { l with transfer := l.transfer.poll }
  | .link act => if act.unattended then (l.link.exec profile.conduct act).map l.withLink else none

theorem exec_fileStep {profile : Profile} {act : FileAct} {l l' : Line}
    (h : l.exec profile act = some l') : FileStep profile act l l' := by
  cases act with
  | call c =>
    unfold Line.exec at h
    dsimp only at h
    split_ifs at h with hc
    obtain ⟨op, hop⟩ := Option.isSome_iff_exists.mp hc.1
    obtain ⟨t, ht, rfl⟩ := Option.map_eq_some_iff.mp h
    exact .call c op hop hc.2 t ht
  | poll => cases h; exact .poll
  | link act =>
    unfold Line.exec at h
    dsimp only at h
    split_ifs at h with hact
    obtain ⟨k, hk, rfl⟩ := Option.map_eq_some_iff.mp h
    exact .link act k hact (exec_step profile.conduct_fits hk)

/-! ## What the device says -/

/-- The ack settles the operation in success. -/
def Accepted (op : Operation) (heard : Option Verdict) : Prop :=
  (op.settle heard).answers = some op

/-- A verdict that accepts the operation. -/
def Verdict.Accepts (op : Operation) (v : Verdict) : Prop :=
  ∃ ev, v = .accept ev ∧ ev.answers = some op

theorem Verdict.Accepts.accepted {op : Operation} {v : Verdict} (h : v.Accepts op) :
    Accepted op (some v) := by
  obtain ⟨ev, rfl, hev⟩ := h
  exact hev

theorem splitOnce_versionText (profile : Profile) :
    splitOnce ':' (profile.version ++ ':' :: profile.compression)
      = some (profile.version, profile.compression) :=
  splitOnce_append profile.compression fun hm => (profile.version_plain _ hm).2 rfl

/-- The version line accepts a QUERY that asks for nothing the device cannot do. -/
theorem verdict_versionText {profile : Profile} {requested : Compression}
    (h : profile.supports requested = true) :
    ∃ v, verdict .query requested profile.versionText = some v ∧ v.Accepts .query := by
  unfold verdict Profile.versionText
  dsimp only
  rw [stripPrefix_append, Option.bind_some, splitOnce_versionText, Option.map_some]
  unfold Profile.supports at h
  cases hc : chooseCompression requested (parseCompressionSpec profile.compression) with
  | error err => rw [hc] at h; cases h
  | ok chosen => exact ⟨_, rfl, _, rfl, rfl⟩

/-- **Whatever the device says is a verdict in favour**, or none. -/
theorem verdict_said {profile : Profile} {line : Str} {op : Operation} {requested : Compression}
    {v : Verdict} (h : profile.Says line ∨ ∃ n, line = okText n)
    (hreq : op = .query → profile.supports requested = true)
    (hv : verdict op requested line = some v) : v.Accepts op := by
  -- only a version line speaks to a query, and only five fixed lines to anything else
  have hother : ∀ line : Str, line ≠ successText → line ≠ "PFT:busy".toList →
      line ≠ "PFT:fail".toList → line ≠ "PFT:ioerror".toList → line ≠ "PFT:invalid".toList →
      op ≠ .query → verdict op requested line = none := by
    intro line h1 h2 h3 h4 h5 hop
    have h1' : line ≠ "PFT:success".toList := h1
    cases op with
    | query => exact absurd rfl hop
    | «open» => unfold verdict; dsimp only; rw [if_neg h1', if_neg h2, if_neg h3]
    | write => rfl
    | close => unfold verdict; dsimp only; rw [if_neg h1', if_neg h4, if_neg h5]
    | abort => unfold verdict; dsimp only; rw [if_neg h1']
  -- the version line, then `PFT:success`, then an `ok`
  rcases h with (rfl | rfl) | ⟨n, rfl⟩
  · by_cases hop : op = .query
    · subst hop
      obtain ⟨v', hv', hacc⟩ := verdict_versionText (hreq rfl)
      rw [hv'] at hv
      rw [← Option.some.inj hv]
      exact hacc
    · have hpre : stripPrefix profile.versionText "PFT:version:".toList
          = some (profile.version ++ ':' :: profile.compression) := stripPrefix_append _ _
      obtain ⟨h1, h2, h3, h4, h5⟩ := stripPrefix_version hpre
      rw [hother _ h1 h2 h3 h4 h5 hop] at hv
      cases hv
  · cases op with
    | query =>
      have hnone : stripPrefix successText "PFT:version:".toList = none := by decide +kernel
      unfold verdict at hv
      dsimp only at hv
      rw [hnone] at hv
      cases hv
    | write => cases hv
    | «open» => exact ⟨_, (Option.some.inj hv).symm, rfl⟩
    | close => exact ⟨_, (Option.some.inj hv).symm, rfl⟩
    | abort => exact ⟨_, (Option.some.inj hv).symm, rfl⟩
  · have hne : ∀ (c : Char) (s : Str), c ≠ 'o' → okText n ≠ c :: s := by
      intro c s hc heq
      exact hc (List.cons.inj heq).1.symm
    by_cases hop : op = .query
    · subst hop
      cases hv
    · rw [hother _ (hne _ _ (by decide)) (hne _ _ (by decide)) (hne _ _ (by decide))
        (hne _ _ (by decide)) (hne _ _ (by decide)) hop] at hv
      cases hv

section Verdicts

variable {profile : Profile} {op : Operation} {requested : Compression} {es : List Event}

theorem accepts_of_verdictIn (hreq : op = .query → profile.supports requested = true)
    (hes : ∀ e ∈ es, profile.Told e) {v : Verdict} (hv : verdictIn op requested es = some v) :
    v.Accepts op := by
  obtain ⟨e, he, hev⟩ := List.mem_filterMap.mp (List.mem_of_getLast? hv)
  cases e with
  | asciiLine line => exact verdict_said (hes _ he) hreq hev
  | _ => cases hev

/-- What is accepted stays so, whatever else the device says. -/
theorem Accepted.or (hreq : op = .query → profile.supports requested = true)
    (hes : ∀ e ∈ es, profile.Told e) {heard : Option Verdict} (h : Accepted op heard) :
    Accepted op ((verdictIn op requested es).or heard) := by
  cases hv : verdictIn op requested es with
  | none => exact h
  | some v => exact (accepts_of_verdictIn hreq hes hv).accepted

/-- A verdict among the events accepts the operation. -/
theorem accepted_of_mem (hreq : op = .query → profile.supports requested = true)
    (hes : ∀ e ∈ es, profile.Told e) {heard : Option Verdict} {line : Str} {v : Verdict}
    (hm : .asciiLine line ∈ es) (hv : verdict op requested line = some v) :
    Accepted op ((verdictIn op requested es).or heard) := by
  cases hin : verdictIn op requested es with
  | some v' => exact (accepts_of_verdictIn hreq hes hin).accepted
  | none =>
    have hnil := List.getLast?_eq_none_iff.mp hin
    have hmem : v ∈ es.filterMap (Event.verdict op requested) :=
      List.mem_filterMap.mpr ⟨_, hm, hv⟩
    rw [hnil] at hmem
    cases hmem

end Verdicts

/-- Bytes of a packet of the operation. -/
def IsOp (op : Operation) (bytes : Bytes) : Prop :=
  ∃ p n, decode bytes = some (.ok (p, n)) ∧ p.protocol = protocolFileTransfer
    ∧ p.packetType = op.packetType

/-- The line ahead of the `ok` is a verdict on the operation. -/
theorem announced_verdict {profile : Profile} {op : Operation} {requested : Compression} {p : Packet}
    (hp : p.protocol = protocolFileTransfer) (ht : p.packetType = op.packetType)
    (hop : op ≠ .write) (hreq : op = .query → profile.supports requested = true) :
    ∃ line v, line ∈ profile.announced p ∧ verdict op requested line = some v := by
  unfold Profile.announced
  rw [if_pos hp, ht]
  cases op with
  | write => exact absurd rfl hop
  | query =>
    obtain ⟨v, hv, -⟩ := verdict_versionText (hreq rfl)
    exact ⟨_, v, List.mem_singleton.mpr rfl, hv⟩
  | «open» => exact ⟨successText, _, List.mem_singleton.mpr rfl, rfl⟩
  | close => exact ⟨successText, _, List.mem_singleton.mpr rfl, rfl⟩
  | abort => exact ⟨successText, _, List.mem_singleton.mpr rfl, rfl⟩

end MarlinTransfer
