import MarlinTransfer.Link.Refinement

/-!
# Running a link

The steps of a link as a function, so that a run can be computed: `runScript_reach` turns
a computed run into a run of the link. What the device does is decided by two functions,
one for what it hears and one for what it says unasked; nothing is lost in a script.
-/

namespace MarlinTransfer

open Codec Text Runs

variable {σ : Type}

namespace Link

/-- How a device behaves in a script. -/
structure Conduct (σ : Type) where
  hear : σ → Nat × Bytes → σ × List Bytes
  say : σ → Option (σ × List Bytes)

/-- The device may behave like that. -/
structure Conduct.Fits (c : Conduct σ) (dev : Device σ) : Prop where
  hears : ∀ d copy, dev.hears d copy (c.hear d copy).1 (c.hear d copy).2
  speaks : ∀ {d d' lines}, c.say d = some (d', lines) → dev.speaks d d' lines

/-- One step. -/
def exec (c : Conduct σ) (l : Link σ) : Act → Option (Link σ)
  | .connect now => some { l with host := l.host.connect now }
  | .send protocol packetType payload now =>
    (l.host.send protocol packetType payload now).map fun host => { l with host }
  | .tick now => some { l with host := l.host.tick now }
  | .pollEvent => some { l with host := l.host.pollEvent }
  | .transmit =>
    match l.host.session.pollOutbound.1, l.host.log.placed[l.host.log.taken]? with
    | some bytes, some (i, bytes') =>
      if bytes = bytes' then
        some { l with host := l.host.pollOutbound, toDevice := l.toDevice ++ [(i, bytes)] }
      else none
    | _, _ => none
  | .hear =>
    match l.toDevice with
    | [] => none
    | copy :: rest =>
      some { l with
        toDevice := rest
        device := (c.hear l.device copy).1
        toHost := l.toHost ++ (c.hear l.device copy).2 }
  | .speak =>
    match c.say l.device with
    | none => none
    | some (d, lines) => some { l with device := d, toHost := l.toHost ++ lines }
  | .arrive =>
    match l.toHost with
    | [] => none
    | line :: rest => some { l with toHost := rest, arriving := l.arriving ++ (line ++ [0x0A]) }
  | .read now =>
    match l.arriving with
    | [] => none
    | b :: rest => some { l with host := l.host.feed [b] now, arriving := rest }
  | .loseCopy => none
  | .loseLine => none

/-- The steps of a script, as long as they meet a condition. -/
def runScript (c : Conduct σ) (ok : Act → Link σ → Link σ → Prop)
    [∀ act l l', Decidable (ok act l l')] (acts : List Act) (l : Link σ) : Option (Link σ) :=
  script (fun act l => l.exec c act) ok acts l

end Link

variable {dev : Device σ} {lossy : Bool} {c : Link.Conduct σ}

theorem exec_step (hc : c.Fits dev) {l l' : Link σ} {act : Act} (h : l.exec c act = some l') :
    Step dev lossy act l l' := by
  cases act with
  | connect now => cases h; exact .connect now
  | send protocol packetType payload now =>
    obtain ⟨host, hs, rfl⟩ := Option.map_eq_some_iff.mp h
    exact .send protocol packetType payload now host hs
  | tick now => cases h; exact .tick now
  | pollEvent => cases h; exact .pollEvent
  | transmit =>
    unfold Link.exec at h
    dsimp only at h
    split at h
    · rename_i bytes i bytes' hb hi
      -- the copy taken is the one the ledger has next
      split_ifs at h with heq
      subst heq
      cases h
      exact .transmit i bytes hb hi
    · cases h
  | hear =>
    unfold Link.exec at h
    dsimp only at h
    split at h
    · cases h
    · rename_i copy rest hq
      cases h
      exact .hear copy rest _ _ hq (hc.hears l.device copy)
  | speak =>
    unfold Link.exec at h
    dsimp only at h
    split at h
    · cases h
    · rename_i d lines hs
      cases h
      exact .speak d lines (hc.speaks hs)
  | arrive =>
    unfold Link.exec at h
    dsimp only at h
    split at h
    · cases h
    · rename_i line rest hq
      cases h
      exact .arrive line rest hq
  | read now =>
    unfold Link.exec at h
    dsimp only at h
    split at h
    · cases h
    · rename_i b rest hq
      cases h
      exact .read b rest now hq
  -- a script loses nothing
  | loseCopy => cases h
  | loseLine => cases h

/-- A computed run is a run whose steps meet the condition. -/
theorem runScript_reach {ok : Act → Link σ → Link σ → Prop} [∀ act l l', Decidable (ok act l l')]
    (hc : c.Fits dev) {start : Link σ} {acts : List Act} {l l' : Link σ}
    (hr : Reach (Guarded (Step dev lossy) ok) start l) (h : l.runScript c ok acts = some l') :
    Reach (Guarded (Step dev lossy) ok) start l' := script_reach (exec_step hc) hr h

/-- A run without conditions. -/
theorem reach_of_guarded {ok : Act → Link σ → Link σ → Prop} {start l : Link σ}
    (h : Reach (Guarded (Step dev lossy) ok) start l) :
    Reach (Step dev lossy) start l := h.mono fun _ _ _ hs => hs.1

end MarlinTransfer
