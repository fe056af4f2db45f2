import MarlinTransfer.FileTransfer.Success
import MarlinTransfer.Session.Timing

/-!
# Resend requests

An `rs` line becomes an event, and no layer acts on that event: the session leaves it to
the caller, the transfer believes that the session re-sends on its own. So a packet goes out
once for its dispatch and once for every tick that finds it overdue, however often the
device asks for it. A transfer's run is a run of its session (`sessionRun`), which is why
one count serves both.
-/

namespace MarlinTransfer

open Codec Text Session

namespace Watched

theorem run_append {ops ops' : List Op} {w : Watched} :
    w.run (ops ++ ops') = (w.run ops).bind (run ops') := by
  induction ops generalizing w with
  | nil => rfl
  | cons op ops ih =>
    rw [List.cons_append, run, run]
    cases w.step op with
    | none => rfl
    | some w' => exact ih

end Watched

namespace Transfer

/-- The calls of its session that a call of a transfer makes. -/
def sessionOps (t : Transfer) : Call → List Op
  | .query _ now => [.send t.ft.protocolId ptQuery [] now]
  | .open name dummy now => [.send t.ft.protocolId ptOpen (t.ft.openPayload name dummy) now]
  | .write chunk now => [.send t.ft.protocolId ptWrite chunk now]
  | .close now => [.send t.ft.protocolId ptClose [] now]
  | .abort now => [.send t.ft.protocolId ptAbort [] now]
  | .feed bytes now => [.feed bytes now]
  | .tick now => [.tick now]
  | .pollOutbound => [.pollOutbound]
  | .poll => List.replicate t.pending.length .pollEvent

/-- The calls of its session that a run of a transfer makes. -/
def sessionRun : List Call → Transfer → List Op
  | [], _ => []
  | c :: cs, t => t.sessionOps c ++ match t.step c with
    | none => []
    | some t' => sessionRun cs t'

/-- Handling events takes them off the session one by one. -/
theorem host_foldl_observe (ps : List (Event × Option Nat)) (t : Transfer) :
    t.host.run (List.replicate ps.length .pollEvent) = some (ps.foldl observe t).host := by
  induction ps generalizing t with
  | nil => rfl
  | cons p ps ih => exact ih (t.observe p)

theorem run_send {w w' : Watched} {protocol packetType : UInt8} {payload : Bytes} {now : Instant}
    (h : w.send protocol packetType payload now = some w') :
    w.run [.send protocol packetType payload now] = some w' := by
  rw [Watched.run, Watched.step, h]
  rfl

theorem host_step {t t' : Transfer} {c : Call} (h : t.step c = some t') :
    t.host.run (t.sessionOps c) = some t'.host := by
  cases c with
  | query compression now =>
    obtain ⟨⟨ft', s'⟩, hr, rfl⟩ := Option.map_eq_some_iff.mp h
    obtain ⟨-, hs, -⟩ := FileTransfer.request_eq_some.mp hr
    refine run_send ?_
    unfold Watched.send
    rw [show t.host.session.send t.ft.protocolId ptQuery [] now = some s' from hs]
    rfl
  | «open» name dummy now => exact run_send (sent_of_request .open t.ft.requestedCompression h)
  | write chunk now => exact run_send (sent_of_request .write t.ft.requestedCompression h)
  | close now => exact run_send (sent_of_request .close t.ft.requestedCompression h)
  | abort now => exact run_send (sent_of_request .abort t.ft.requestedCompression h)
  | feed bytes now => cases h; rfl
  | tick now => cases h; rfl
  | pollOutbound => cases h; rfl
  | poll => cases h; exact host_foldl_observe t.pending t

/-- **A transfer's run is a run of its session.** -/
theorem host_run {cs : List Call} {t t' : Transfer} (h : t.run cs = some t') :
    t.host.run (sessionRun cs t) = some t'.host := by
  induction cs generalizing t with
  | nil => cases h; rfl
  | cons c cs ih =>
    obtain ⟨t1, h1, h2⟩ := Option.bind_eq_some_iff.mp h
    rw [sessionRun, h1, Watched.run_append, host_step h1]
    exact ih h2

/-- A transfer loses nothing of what its session conserves. -/
theorem conserved {s : Session} {ops : List Op} {w : Watched} {cs : List Call} {t : Transfer}
    (hw : (Watched.start s.reset).run ops = some w) (hr : (start w).run cs = some t) :
    ∃ ds, Conserved t.host ds := by
  obtain ⟨ds, hc⟩ := conserved_run (conserved_start s) hw
  exact conserved_run hc (host_run hr)

end Transfer

/-- The packets dispatched so far. -/
def Watched.dispatched (w : Watched) : Nat :=
  w.log.retired.length + w.session.inFlight.toList.length

/-- The copies of a packet placed on the outbound queue. -/
def Watched.copies (w : Watched) (packet : Nat) : Nat := (w.log.placed.map Prod.fst).count packet

/-- A copy for the dispatch of a packet, for every request for it, and for every tick that
found it overdue. -/
def Honoured (w : Watched) (h : List Mark) (packet : Nat) : Prop :=
  w.copies packet = 1 + (asks h).count packet + (overdues h).count packet

theorem length_sentAt (packet : Nat) (h : List Mark) :
    (sentAt packet h).length = ((placements h).map Prod.fst).count packet := by
  rw [sentAt, List.length_map, ← List.countP_eq_length_filter, List.count, List.countP_map]
  rfl

/-- **What a packet is sent for**: its dispatch, and ticks. -/
theorem copies_eq {response total : Duration} {w : Watched} {h : List Mark}
    (ht : Timed response total w h) {packet : Nat} (hp : packet < w.dispatched) :
    w.copies packet = 1 + (overdues h).count packet := by
  have hpaced : Paced response total packet h := by
    by_cases hpast : packet < w.log.retired.length
    · exact ht.past packet hpast
    · unfold Watched.dispatched at hp
      cases hf : w.session.inFlight with
      | none =>
        rw [hf] at hp
        exact absurd hp hpast
      | some f =>
        rw [hf, Option.toList_some, List.length_singleton] at hp
        obtain rfl : packet = w.log.retired.length := by omega
        exact (ht.flying f hf).1
  rw [Watched.copies, ← ht.placed, ← length_sentAt]
  exact hpaced.copies

theorem honoured_iff {response total : Duration} {w : Watched} {h : List Mark}
    (ht : Timed response total w h) {packet : Nat} (hp : packet < w.dispatched) :
    Honoured w h packet ↔ (asks h).count packet = 0 := by
  unfold Honoured
  rw [copies_eq ht hp]
  omega

/--
**Resend requests are honoured when there are none.** In every run of a session, and in
every run of a transfer on it, a packet that was dispatched has a copy for its dispatch, for
every `rs` line that named it in flight and for every tick that found it overdue, if and only
if no `rs` line named it in flight.
-/
theorem resends_honoured_iff_unasked (s : Session) (ops : List Op) (w : Watched)
    (hr : (Watched.start s.reset).run ops = some w) :
    (∀ packet, packet < w.dispatched →
      (Honoured w (Watched.journal ops (Watched.start s.reset)) packet
        ↔ (asks (Watched.journal ops (Watched.start s.reset))).count packet = 0))
      ∧ ∀ (calls : List Call) (t : Transfer), (Transfer.start w).run calls = some t →
          ∀ packet, packet < t.host.dispatched →
            (Honoured t.host (Watched.journal (ops ++ Transfer.sessionRun calls (Transfer.start w))
                (Watched.start s.reset)) packet
              ↔ (asks (Watched.journal (ops ++ Transfer.sessionRun calls (Transfer.start w))
                (Watched.start s.reset))).count packet = 0) := by
  refine ⟨fun packet hp => honoured_iff (Timed.run s hr) hp, fun calls t ht packet hp => ?_⟩
  have hr' : (Watched.start s.reset).run (ops ++ Transfer.sessionRun calls (Transfer.start w))
      = some t.host := by
    rw [Watched.run_append, hr]
    exact Transfer.host_run ht
  exact honoured_iff (Timed.run s hr') hp

/-- A handshake, a packet, and the device asking for that packet again. -/
def askingRun : List Op :=
  [.connect 0, .feed ("ss0,512,1.0\n".toUTF8.data.toList) 1, .send 1 0 [] 2,
    .feed ("rs0\n".toUTF8.data.toList) 3]

theorem askingRun_completes : ((Watched.start Session.new.reset).run askingRun).isSome := by
  decide +kernel

theorem resends_honoured_iff_unasked_asking :
    ∃ w, (Watched.start Session.new.reset).run askingRun = some w ∧ 0 < w.dispatched
      ∧ (Honoured w (Watched.journal askingRun (Watched.start Session.new.reset)) 0
        ↔ (asks (Watched.journal askingRun (Watched.start Session.new.reset))).count 0 = 0) := by
  obtain ⟨w, hw⟩ := Option.isSome_iff_exists.mp askingRun_completes
  have hd : ((Watched.start Session.new.reset).run askingRun).map Watched.dispatched = some 2 := by
    decide +kernel
  rw [hw] at hd
  have hpos : 0 < w.dispatched := by
    rw [Option.some.inj hd]
    decide
  exact ⟨w, hw, hpos, (resends_honoured_iff_unasked Session.new askingRun w hw).1 0 hpos⟩

/-- The packet was asked for while it was in flight, and went out once. -/
theorem request_not_honoured :
    ∃ w, (Watched.start Session.new.reset).run askingRun = some w
      ∧ w.session.inFlight.map (·.sync) = some 0 ∧ 1 < w.dispatched
      ∧ asks (Watched.journal askingRun (Watched.start Session.new.reset)) = [1]
      ∧ w.copies 1 = 1
      ∧ ¬ Honoured w (Watched.journal askingRun (Watched.start Session.new.reset)) 1 := by
  obtain ⟨w, hw⟩ := Option.isSome_iff_exists.mp askingRun_completes
  have hsync : ((Watched.start Session.new.reset).run askingRun).map
      (fun w => (w.session.inFlight.map (·.sync), w.dispatched, w.copies 1))
      = some (some 0, 2, 1) := by
    decide +kernel
  have hasks : asks (Watched.journal askingRun (Watched.start Session.new.reset)) = [1] := by
    decide +kernel
  have hover : overdues (Watched.journal askingRun (Watched.start Session.new.reset)) = [] := by
    decide +kernel
  rw [hw, Option.map_some] at hsync
  obtain ⟨h1, h2⟩ := Prod.mk.inj (Option.some.inj hsync)
  obtain ⟨h2, h3⟩ := Prod.mk.inj h2
  refine ⟨w, hw, h1, by rw [h2]; decide, hasks, h3, ?_⟩
  unfold Honoured
  rw [h3, hasks, hover]
  decide

end MarlinTransfer
