import MarlinTransfer.Adapters.Upload
import MarlinTransfer.Adapters.Keeping

/-!
# A port that is silent

What an upload does when nothing ever answers. A turn of a loop that reads nothing is a tick of the
session, so the clock decides: the handshake is sent once more whenever the response timeout has
passed, given up when the total timeout has, and the loop itself gives up after its last turn. The
tick of that turn comes too late to be noticed.
-/

namespace MarlinTransfer

open Codec Text Session Triple

/-- A read that brings nothing. -/
def ReadResult.Idle : ReadResult → Prop
  | .data bytes _ => bytes = []
  | .timedOut => True
  | .failed _ => False

/-- The other end neither answers nor fails. -/
structure Env.Silent (env : Env) : Prop where
  writes : ∀ k, env.writes k = none
  reads : ∀ k, (env.reads k).Idle

/-- What a loop turns on, and what it leaves behind. -/
structure World.Rests (s : Session) (nows : Nat) (out : List Bytes) (w : World) : Prop where
  session : w.session = s
  nows : w.nows = nows
  written : written w.log = out

/-! ## The packet nobody answers -/

/-- A packet that nothing has answered, sent once more `resends` times, each time a response
timeout `R` after the last and before its total timeout `T`. -/
structure Unanswered (R T : Duration) (f : InFlight) (resends : Nat) (s : Session) : Prop where
  timeouts : s.responseTimeout = R ∧ s.totalTimeout = T
  flight : ∃ last, s.inFlight = some { f with lastSent := last }
    ∧ f.firstSent + resends * R ≤ last ∧ last - f.firstSent < T
  queued : s.queued = []
  events : s.events = []

namespace Unanswered

variable {R T : Duration} {f : InFlight} {resends : Nat} {s : Session}

theorem resends_lt (h : Unanswered R T f resends s) : resends * R < T := by
  obtain ⟨last, -, hafter, hin⟩ := h.flight
  exact Nat.lt_of_le_of_lt (Nat.le_sub_of_add_le' hafter) hin

/-- The tick that gives it up. -/
theorem tick_late (h : Unanswered R T f resends s) {now : Instant}
    (ht : T ≤ now - f.firstSent) :
    (s.tick now).events = [.timeout f.sync] ∧ (s.tick now).outbound = s.outbound := by
  obtain ⟨last, hf, -, -⟩ := h.flight
  rw [tick_expired hf (by rw [h.timeouts.2]; exact ht)]
  rw [dispatchIfIdle_empty (s := s.giveUp f.sync) h.queued]
  refine ⟨?_, rfl⟩
  show s.events ++ [_] = _
  rw [h.events]
  rfl

/-- Any other: it is sent once more, or not yet. -/
theorem tick_early (h : Unanswered R T f resends s) (hR : 0 < R) {now : Instant}
    (ho : s.outbound = []) (ht : now - f.firstSent < T) :
    ∃ o, Unanswered R T f (resends + o) (s.tick now)
      ∧ (s.tick now).outbound = List.replicate o f.bytes := by
  obtain ⟨last, hf, hafter, hin⟩ := h.flight
  have hexpired : ¬ now - f.firstSent ≥ s.totalTimeout := by
    rw [h.timeouts.2]
    exact Nat.not_le.mpr ht
  by_cases hr : now - last ≥ s.responseTimeout
  · rw [Session.tick_late hf hexpired hr]
    refine ⟨1, ⟨h.timeouts, ⟨now, rfl, ?_, ht⟩, h.queued, h.events⟩, ?_⟩
    · rw [h.timeouts.1] at hr
      have hlast : last ≤ now := Nat.le_of_lt (Nat.lt_of_sub_pos (Nat.lt_of_lt_of_le hR hr))
      calc f.firstSent + (resends + 1) * R
          = f.firstSent + resends * R + R := by rw [Nat.succ_mul, Nat.add_assoc]
        _ ≤ last + R := Nat.add_le_add_right hafter R
        _ ≤ now := Nat.add_le_of_le_sub' hlast hr
    · show s.outbound ++ [f.bytes] = _
      rw [ho]
      rfl
  · rw [Session.tick_early hf hexpired hr]
    exact ⟨0, ⟨h.timeouts, ⟨last, hf, hafter, hin⟩, h.queued, h.events⟩, ho⟩

/-- What the transport takes makes no difference. -/
theorem taken (h : Unanswered R T f resends s) (bs : List Bytes) :
    Unanswered R T f resends { s with outbound := bs } :=
  ⟨h.timeouts, h.flight, h.queued, h.events⟩

end Unanswered

/-! ## A turn -/

namespace Blocking

variable {env : Env} {s : Session} {nows : Nat} {out : List Bytes} {w : World}

theorem exec_pollOutbound (h : w.Rests s nows out) :
    ∃ w', exec pollOutbound w = (.ok s.pollOutbound.1, w')
      ∧ w'.Rests s.pollOutbound.2 nows out := by
  refine ⟨w.withHost w.transfer.host.pollOutbound, ?_, ?_, h.nows, h.written⟩
  · rw [← h.session]
    rfl
  · rw [← h.session]
    exact Watched.pollOutbound_session _

/-- **Everything outbound is written.** -/
theorem exec_flush (henv : env.Silent) (h : w.Rests s nows out) :
    ∃ w', exec (flush env) w = (.ok ⟨⟩, w')
      ∧ w'.Rests { s with outbound := [] } nows (out ++ s.outbound) := by
  have hloop : ∀ (bs : List Bytes) {w : World} {out : List Bytes},
      w.Rests { s with outbound := bs } nows out →
      ∃ w', exec (whileSome (α := Unit) .stuck pollOutbound
          (fun out => do writeAll env out; pure none) (bs.length + 1)) w = (.ok none, w')
        ∧ w'.Rests { s with outbound := [] } nows (out ++ bs) := by
    intro bs
    induction bs with
    | nil =>
      intro w out h
      obtain ⟨w', hx, h'⟩ := exec_pollOutbound h
      exact ⟨w', exec_whileSome_done hx 0, by rw [List.append_nil]; exact h'⟩
    | cons b bs ih =>
      intro w out h
      obtain ⟨w₁, hx, h₁⟩ := exec_pollOutbound h
      have hwrite : exec (do writeAll env b; pure none : Upload (Option Unit)) w₁
          = (.ok none, { w₁ with writes := w₁.writes + 1, log := w₁.log ++ [.wrote b] }) := by
        rw [exec_bind, exec_writeAll env henv.writes]
        rfl
      obtain ⟨w', hx', h'⟩ := ih (w := { w₁ with writes := _, log := w₁.log ++ [.wrote b] })
        ⟨h₁.session, h₁.nows, (written_append _ _).trans (by rw [h₁.written])⟩
      refine ⟨w', (exec_whileSome_next hx hwrite _).trans hx', ?_⟩
      rw [List.append_assoc] at h'
      exact h'
  obtain ⟨w', hx, h'⟩ := hloop s.outbound h
  refine ⟨w', ?_, h'⟩
  unfold flush
  rw [exec_bind, exec_get]
  dsimp only
  rw [h.session, exec_bind, hx]
  rfl

theorem exec_read (henv : env.Silent) (h : w.Rests s nows out) :
    ∃ w', exec (read env) w = (.ok [], w') ∧ w'.Rests s nows out := by
  refine ⟨{ w with reads := w.reads + 1 }, ?_, h.session, h.nows, h.written⟩
  have hidle := henv.reads w.reads
  unfold read
  rw [exec_bind, exec_get]
  dsimp only
  rw [exec_bind, exec_modify]
  dsimp only
  cases hread : env.reads w.reads with
  | data bytes fits =>
    rw [hread] at hidle
    obtain rfl : bytes = [] := hidle
    rfl
  | timedOut => rfl
  | failed err =>
    rw [hread] at hidle
    exact hidle.elim

theorem exec_tick (env : Env) (h : w.Rests s nows out) :
    ∃ w', exec (tick env) w = (.ok ⟨⟩, w')
      ∧ w'.Rests (s.tick (env.clock nows)) (nows + 1) out := by
  refine ⟨_, rfl, ?_, ?_, ?_⟩
  · rw [← h.session, ← h.nows]
    rfl
  · rw [← h.nows]
    rfl
  · exact (written_append _ _).trans ((List.append_nil _).trans h.written)

theorem exec_pollEvent (h : w.Rests s nows out) :
    ∃ w', exec pollEvent w = (.ok s.pollEvent.1, w') ∧ w'.Rests s.pollEvent.2 nows out := by
  refine ⟨w.withHost w.transfer.host.pollEvent, ?_, ?_, h.nows, h.written⟩
  · rw [← h.session]
    rfl
  · rw [← h.session]
    exact Watched.pollEvent_session _

variable {α : Type} {answer : Event → Answer α}

/-- A turn that hears nothing and has nothing to answer is a tick. -/
theorem exec_turn_quiet (answer : Event → Answer α) (henv : env.Silent) (h : w.Rests s nows out)
    (he : s.events = []) :
    ∃ w', exec (turn env pollEvent answer) w = (.ok none, w')
      ∧ w'.Rests (({ s with outbound := [] } : Session).tick (env.clock nows)) (nows + 1)
        (out ++ s.outbound) := by
  obtain ⟨w₁, hx₁, h₁⟩ := exec_flush henv h
  obtain ⟨w₂, hx₂, h₂⟩ := exec_read henv h₁
  obtain ⟨w₃, hx₃, h₃⟩ := exec_pollEvent h₂
  have hnone : ({ s with outbound := [] } : Session).pollEvent
      = (none, { s with outbound := [] }) := by
    unfold Session.pollEvent
    dsimp only
    rw [he]
  rw [hnone] at hx₃ h₃
  obtain ⟨w₄, hx₄, h₄⟩ := exec_tick env h₃
  refine ⟨w₄, ?_, h₄⟩
  have hanswer : exec (answerAll pollEvent answer) w₂ = (.ok none, w₃) := by
    unfold answerAll
    rw [exec_bind, exec_get]
    exact exec_whileSome_done hx₃ _
  have hfeed : exec (feed env []) w₂ = (.ok ⟨⟩, w₂) := rfl
  unfold turn
  rw [exec_bind_ok hx₁, exec_bind_ok hx₂, exec_bind_ok hfeed, exec_bind_ok hanswer]
  exact exec_bind_ok hx₄

/-- One that finds an error stops with it. -/
theorem exec_turn_error (henv : env.Silent) (h : w.Rests s nows out) {e : Event} {es : List Event}
    (he : s.events = e :: es) {err : UploadError} (ha : answer e = some (.error err)) :
    ∃ w', exec (turn env pollEvent answer) w = (.error (.err err), w')
      ∧ written w'.log = out ++ s.outbound := by
  obtain ⟨w₁, hx₁, h₁⟩ := exec_flush henv h
  obtain ⟨w₂, hx₂, h₂⟩ := exec_read henv h₁
  obtain ⟨w₃, hx₃, h₃⟩ := exec_pollEvent h₂
  have hsome : ({ s with outbound := [] } : Session).pollEvent
      = (some e, { s with outbound := [], events := es }) := by
    unfold Session.pollEvent
    dsimp only
    rw [he]
  rw [hsome] at hx₃ h₃
  have hanswer : exec (answerAll pollEvent answer) w₂ = (.error (.err err), w₃) := by
    unfold answerAll
    rw [exec_bind, exec_get]
    refine exec_whileSome_throw hx₃ ?_ _
    rw [ha]
    rfl
  have hfeed : exec (feed env []) w₂ = (.ok ⟨⟩, w₂) := rfl
  refine ⟨w₃, ?_, h₃.written⟩
  unfold turn
  rw [exec_bind_ok hx₁, exec_bind_ok hx₂, exec_bind_ok hfeed, exec_bind_error hanswer]

/-- How a loop of `n` turns ends, the first of its ticks being reading `nows` of the clock: with
`err` if one of its ticks but the last gave up a packet sent at `start`, and with `giveUp` if
none did. -/
def Verdict (env : Env) (T : Duration) (start : Instant) (err giveUp : UploadError) (nows n : Nat)
    (e : UploadError) : Prop :=
  (∃ i, nows ≤ i ∧ i + 1 < nows + n ∧ T ≤ env.clock i - start) ∧ e = err
    ∨ (∀ i, nows ≤ i → i + 1 < nows + n → env.clock i - start < T) ∧ e = giveUp

/-- **A loop that hears nothing** writes copies of the packet, as many as there is time for, and
ends with an error that the clock decides. -/
theorem exec_silent (answer : Event → Answer α) (giveUp : UploadError) (henv : env.Silent)
    {R T : Duration} (hR : 0 < R) {f : InFlight} {err : UploadError}
    (ha : answer (.timeout f.sync) = some (.error err)) (n : Nat) :
    ∀ {w : World} {s : Session} {nows o resends : Nat} {out : List Bytes}, w.Rests s nows out →
      Unanswered R T f resends s → s.outbound = List.replicate o f.bytes →
      ∃ e w' c resends', exec (repeatUpTo (.err giveUp) (turn env pollEvent answer) n) w
          = (.error (.err e), w')
        ∧ written w'.log = out ++ List.replicate c f.bytes ∧ (0 < n → o ≤ c)
        ∧ c + resends ≤ o + resends' ∧ resends' * R < T
        ∧ Verdict env T f.firstSent err giveUp nows n e := by
  induction n with
  | zero =>
    intro w s nows o resends out h hun ho
    refine ⟨giveUp, w, 0, resends, rfl, ?_, fun hn => absurd hn (Nat.lt_irrefl 0), by omega,
      hun.resends_lt, .inr ⟨fun i _ _ => by omega, rfl⟩⟩
    rw [h.written]
    exact (List.append_nil _).symm
  | succ n ih =>
    intro w s nows o resends out h hun ho
    obtain ⟨w₁, hx₁, h₁⟩ := exec_turn_quiet answer henv h hun.events
    have hrest : exec (repeatUpTo (.err giveUp) (turn env pollEvent answer) (n + 1)) w
        = exec (repeatUpTo (.err giveUp) (turn env pollEvent answer) n) w₁ := exec_bind_ok hx₁
    rw [hrest]
    rw [ho] at h₁
    by_cases ht : T ≤ env.clock nows - f.firstSent
    · -- given up, which the next turn finds, if there is one
      obtain ⟨he, hout⟩ := (hun.taken []).tick_late ht
      cases n with
      | zero =>
        exact ⟨giveUp, w₁, o, resends, rfl, h₁.written, fun _ => Nat.le_refl _, by omega,
          hun.resends_lt, .inr ⟨fun i _ _ => by omega, rfl⟩⟩
      | succ n =>
        obtain ⟨w', hx', h'⟩ := exec_turn_error henv h₁ he ha
        refine ⟨err, w', o, resends, exec_bind_error hx', ?_, fun _ => Nat.le_refl _, by omega,
          hun.resends_lt, .inl ⟨⟨nows, Nat.le_refl _, by omega, ht⟩, rfl⟩⟩
        rw [h', hout]
        exact List.append_nil _
    · obtain ⟨o₁, hun₁, hout₁⟩ := (hun.taken []).tick_early hR rfl (Nat.not_le.mp ht)
      obtain ⟨e, w', c, resends', hx', hw', -, hle, hlt, hv⟩ := ih h₁ hun₁ hout₁
      refine ⟨e, w', o + c, resends', hx', ?_, fun _ => Nat.le_add_right _ _, by omega, hlt, ?_⟩
      · rw [hw', List.append_assoc, List.replicate_add]
      · rcases hv with ⟨⟨i, hi, hin, hlate⟩, rfl⟩ | ⟨hall, rfl⟩
        · exact .inl ⟨⟨i, by omega, by omega, hlate⟩, rfl⟩
        · refine .inr ⟨fun i hi hin => ?_, rfl⟩
          by_cases heq : i = nows
          · rw [heq]
            exact Nat.not_le.mp ht
          · exact hall i (by omega) (by omega)

/-- The packet the handshake starts with. -/
def hello (now : Instant) : InFlight := ⟨0, helloPacket.wire, now, now, true⟩

/-- **The handshake asked for**, with nothing before it. -/
theorem connect_new (now : Instant) :
    Session.new.connect now
      = { Session.new with outbound := [helloPacket.wire], inFlight := some (hello now) } :=
  dispatchIfIdle_cons (s := Session.new.queue syncPacket true) rfl rfl now

theorem unanswered_connect (now : Instant) :
    Unanswered defaultResponseTimeout defaultTotalTimeout (hello now) 0
      (Session.new.connect now) := by
  rw [connect_new]
  refine ⟨⟨rfl, rfl⟩, ⟨now, rfl, ?_, ?_⟩, rfl, rfl⟩
  · show now + 0 * _ ≤ now
    rw [Nat.zero_mul]
    exact Nat.le_refl _
  · show now - now < _
    rw [Nat.sub_self]
    decide

/--
**A silent port.** Where every write succeeds and no read brings anything, an upload writes the
binary trigger and then copies of the SYNC packet only, at least one and at most twenty. It fails
with `SessionTimeout` if one of the first 199 ticks comes the total timeout after `connect`, and
with `HandshakeFailed` if none does, also if the last one would.
-/
theorem silent_port (env : Env) (henv : env.Silent) (crate : Option HeatshrinkCrate)
    (options : UploadOptions) :
    ∃ e w c, exec (upload env crate options) World.start = (.error (.err e), w)
      ∧ written w.log = binaryTrigger :: List.replicate c helloPacket.wire ∧ 1 ≤ c ∧ c ≤ 20
      ∧ ((∃ i, 0 < i ∧ i < 200 ∧ defaultTotalTimeout ≤ env.clock i - env.clock 0)
          ∧ e = .transfer .sessionTimeout
        ∨ (∀ i, 0 < i → i < 200 → env.clock i - env.clock 0 < defaultTotalTimeout)
          ∧ e = .handshakeFailed) := by
  -- up to the loop that waits for the handshake
  let w₁ : World := { World.start with
    writes := 1
    log := [.wrote binaryTrigger]
    transfer := Transfer.start (Watched.start Session.new) }
  let w₂ : World := { w₁.withHost (w₁.transfer.host.connect (env.clock 0)) with nows := 1 }
  have hrests : w₂.Rests (Session.new.connect (env.clock 0)) 1 [binaryTrigger] := ⟨rfl, rfl, rfl⟩
  have hconnect : exec (connect env) w₁ = (.ok ⟨⟩, w₂) := rfl
  have hloop : ∃ e w' c resends', exec (driveSessionUntilSynced env) w₂ = (.error (.err e), w')
      ∧ written w'.log = [binaryTrigger] ++ List.replicate c helloPacket.wire ∧ (0 < 200 → 1 ≤ c)
      ∧ c + 0 ≤ 1 + resends' ∧ resends' * defaultResponseTimeout < defaultTotalTimeout
      ∧ Verdict env defaultTotalTimeout (env.clock 0) (.transfer .sessionTimeout) .handshakeFailed 1
        200 e :=
    exec_silent _ .handshakeFailed henv (by decide : 0 < defaultResponseTimeout) rfl 200 hrests
      (unanswered_connect (env.clock 0)) (by rw [connect_new]; rfl)
  obtain ⟨e, w, c, resends, hx, hw, hone, hle, hlt, hv⟩ := hloop
  have hwrite := exec_writeAll env henv.writes binaryTrigger World.start
  have hstart : exec (modify fun w => { w with
        transfer := Transfer.start (Watched.start Session.new) } : Upload Unit)
      { World.start with writes := 1, log := [.wrote binaryTrigger] } = (.ok ⟨⟩, w₁) := rfl
  have hresends : resends * 1000000000 < 20000000000 := hlt
  refine ⟨e, w, c, ?_, hw, hone (by decide), by omega, ?_⟩
  · exact (exec_bind_ok hwrite).trans ((exec_bind_ok hstart).trans
      ((exec_bind_ok hconnect).trans (exec_bind_error hx)))
  · rcases hv with ⟨⟨i, hi, hin, hlate⟩, he⟩ | ⟨hall, he⟩
    · exact .inl ⟨⟨i, hi, by omega, hlate⟩, he⟩
    · exact .inr ⟨fun i hi hin => hall i hi (by omega), he⟩

/-- Reads that time out after a tenth of a second each. -/
def quietEnv : Env := ⟨fun _ => .timedOut, fun _ => none, fun k => k * 100000000, .ok []⟩

theorem silent_port_quietEnv :
    ∃ w, exec (upload quietEnv none ⟨['A'], .none, false, 0, false⟩) World.start
      = (.error (.err .handshakeFailed), w) := by
  obtain ⟨e, w, c, hx, -, -, -, h⟩ :=
    silent_port quietEnv ⟨fun _ => rfl, fun _ => trivial⟩ none ⟨['A'], .none, false, 0, false⟩
  rcases h with ⟨⟨i, -, hi, hlate⟩, -⟩ | ⟨-, rfl⟩
  · have hclock : 20000000000 ≤ i * 100000000 - 0 * 100000000 := hlate
    omega
  · exact ⟨w, hx⟩

end Blocking

end MarlinTransfer
