import OneWire.Proofs.Ds2484.Chip
import OneWire.Proofs.Ds2484.Erasure
import OneWire.Proofs.Master.Keeps

/-!
# Reads and the read pointer

Each read of the bridge gets the register it means, whatever the chip answers and wherever an
operation breaks off: no read relies on where an earlier operation left the pointer.
-/

namespace OneWire.Ds2484

open OneWire.Action Bridge

variable {π : Type}

/-! ## Watches -/

/-- Each read so far found the pointer at the register it meant. -/
def Watch.Sound (watch : Watch) : Prop :=
  ∀ read ∈ watch.reads, read.2 = read.1.pointer

/-- And so would a read of `r` now. -/
structure Watch.At (r : Register) (watch : Watch) : Prop where
  sound : watch.Sound
  pointer : watch.pointer = r.pointer

theorem Watch.At.note {r : Register} {watch : Watch} (h : watch.At r) : (watch.note r).At r where
  sound := List.forall_mem_append.2 ⟨h.sound, by simpa using h.pointer⟩
  pointer := h.pointer

@[simp] theorem ensures_watching {α : Type} {after failing : Watch → Watch} {act : Action Unit π α}
    {p : π × Watch} {ok : α → π × Watch → Prop} {failed : Unit → π × Watch → Prop} :
    (watching after failing act).Ensures p ok failed ↔
      act.Ensures p.1 (fun a s => ok a (s, after p.2)) fun e s => failed e (s, failing p.2) := by
  unfold Ensures watching
  cases act p.1 <;> rfl

/-! ## Requests -/

section Requests

variable (w : Wiring π) (c : Config)

theorem request_points (r : Register) (bytes : List Byte) {p : π × Watch} (hp : p.2.Sound) :
    (request (w.watched r) c bytes).Ensures p
      (fun _ q => q.2.Sound ∧ q.2.pointer = pointed p.2.pointer bytes) fun _ q => q.2.Sound := by
  unfold request
  rw [ensures_failingAs]
  apply ensures_watching.2
  exact ensures_of_forall (fun _ _ => ⟨hp, rfl⟩) fun _ _ => hp

theorem readRegister_at {r : Register} {p : π × Watch} (hp : p.2.At r) :
    (readRegister (w.watched r) c).Ensures p (fun _ q => q.2.At r) fun _ q => q.2.At r := by
  unfold readRegister
  rw [ensures_failingAs]
  apply ensures_watching.2
  exact ensures_of_forall (fun _ _ => hp.note) fun _ _ => hp.note

theorem poll_at (n : Nat) {p : π × Watch} (hp : p.2.At .status) :
    (poll (w.watched .status) c n).Ensures p (fun _ q => q.2.At .status)
      fun _ q => q.2.At .status := by
  induction n generalizing p with
  | zero => exact hp
  | succ n ih =>
    unfold poll
    refine (readRegister_at w c hp).bind fun status q hq => ?_
    split
    · exact ih hq
    · exact hq

theorem complete_keeps {bytes : List Byte}
    (hbytes : ∀ pointer, pointed pointer bytes = statusPointer) :
    (complete (w.watched .status) c bytes).Keeps fun p => p.2.Sound := by
  intro p hp
  refine (request_points w c .status bytes hp).bind fun _ q ⟨hq, hpointer⟩ => ?_
  have hat : q.2.At .status := ⟨hq, hpointer.trans (hbytes _)⟩
  exact (poll_at w c c.pollLimit hat).mono (fun _ _ h => h.sound) fun _ _ h => h.sound

theorem setPin_keeps (r : Register) (high : Bool) :
    (setPin (w.watched r) high).Keeps fun p => p.2.Sound := by
  intro p hp
  unfold setPin Wiring.watched
  cases w.setPin with
  | none => exact hp
  | some set =>
    apply ensures_failingAs.2
    apply ensures_watching.2
    exact ensures_of_forall (fun _ _ => hp) fun _ _ => hp

theorem fetch_keeps (r : Register) (bytes : List Byte)
    (hbytes : ∀ pointer, pointed pointer bytes = r.pointer) :
    (do
      request (w.watched r) c bytes
      readRegister (w.watched r) c : Action Failure (π × Watch) Byte).Keeps
        fun p => p.2.Sound := by
  intro p hp
  refine (request_points w c r bytes hp).bind fun _ q ⟨hq, hpointer⟩ => ?_
  have hat : q.2.At r := ⟨hq, hpointer.trans (hbytes _)⟩
  exact (readRegister_at w c hat).mono (fun _ _ h => h.sound) fun _ _ h => h.sound

end Requests

/-! ## The bridge -/

section Bridge

variable (w : Wiring π) (c : Config)

theorem resetChip_keeps : (resetChip (w.watched .status) c).Keeps fun p => p.2.Sound := by
  unfold resetChip
  rw [← bind_assoc]
  intro p hp
  refine (fetch_keeps w c .status _ (fun _ => rfl) p hp).bind fun status q hq => ?_
  split <;> exact hq

theorem configure_keeps (configuration : Byte) :
    (configure (w.watched .configuration) c configuration).Keeps fun p => p.2.Sound := by
  unfold configure
  rw [← bind_assoc]
  intro p hp
  refine (fetch_keeps w c .configuration _ (fun _ => rfl) p hp).bind fun readback q hq => ?_
  split <;> exact hq

theorem readByte_keeps : (Ports.readByte w.watched c).Keeps fun p => p.2.Sound := fun p hp =>
  (complete_keeps w c (fun _ => rfl) p hp).bind fun _ q hq =>
    fetch_keeps w c .data _ (fun _ => rfl) q hq

variable {w c}

theorem onBoard_sound {α : Type} {act : Action Failure (π × Watch) α}
    (h : act.Keeps fun p => p.2.Sound) : (onBoard act).Keeps fun s => s.board.2.Sound := by
  intro s hs
  rw [ensures_onBoard]
  exact h s.board hs

variable (w c)

theorem start_keeps : (Ports.start w.watched c).Keeps fun s => s.board.2.Sound := by
  intro s hs
  unfold Ports.start
  refine (onBoard_sound (setPin_keeps w .status true) s hs).bind fun _ s₁ hs₁ => ?_
  rw [ensures_bind, ensures_modify]
  refine (onBoard_sound (resetChip_keeps w c) { s₁ with active := true } hs₁).bind ?_
  intro _ s₂ hs₂
  exact onBoard_sound (configure_keeps w c c.register) s₂ hs₂

theorem resume_keeps (r : Register) :
    (resume (w.watched r)).Keeps fun s => s.board.2.Sound := by
  intro s hs
  unfold resume
  rw [ensures_bind, ensures_get]
  split
  · exact hs
  · exact (onBoard_sound (setPin_keeps w r true) s hs).bind fun _ _ hs => hs

theorem suspend_keeps : (suspend (w.watched .status) c).Keeps fun s => s.board.2.Sound := by
  intro s hs
  have hsettle : (settle (w.watched .status) c).Keeps fun p => p.2.Sound := fun p hp =>
    (complete_keeps w c (fun _ => rfl) p hp).bind fun _ _ hq => hq
  unfold suspend
  rw [ensures_bind, ensures_get]
  split
  · exact (onBoard_sound hsettle s hs).bind fun _ _ hs =>
      (onBoard_sound (setPin_keeps w .status false) _ hs).bind fun _ _ hs => hs
  · exact hs

theorem master_keeps_sound : (Ports.master w.watched c).Keeps fun s => s.board.2.Sound := by
  have hcomplete {α : Type} {bytes : List Byte}
      (hbytes : ∀ pointer, pointed pointer bytes = statusPointer) (f : Byte → α) :
      (do pure (f (← complete (w.watched .status) c bytes)) :
        Action Failure (π × Watch) α).Keeps fun p => p.2.Sound := fun p hp =>
    (complete_keeps w c hbytes p hp).bind fun _ _ hq => hq
  have hslot (b : Bool) : (slot (w.watched .status) c b).Keeps fun p => p.2.Sound :=
    hcomplete (fun _ => rfl) sampled
  exact ByteMaster.Keeps.toMaster
    { reset := onBoard_sound (hcomplete (fun _ => rfl) hasPresence)
      readBit := onBoard_sound (hslot true)
      writeBit := fun b s hs => (onBoard_sound (hslot b) s hs).bind fun _ _ hs => hs
      lock := lock_keeps fun _ _ => id
      unlock := unlock_keeps fun _ _ => id
      resume := resume_keeps w .status
      suspend := suspend_keeps w c
      readByte := onBoard_sound (readByte_keeps w c)
      writeByte := fun b => onBoard_sound (hcomplete (fun _ => rfl) fun _ => ()) }

end Bridge

/--
A bridge that is watched starts, answers and fails as it does on the board itself, wherever its
chip has the pointer at first. Each of its reads, failed ones included, finds the pointer at the
register it means.
-/
theorem reads_on_register (w : Wiring π) (c : Config) (board : π) (pointer : Byte) :
    let started := (Ports.start w.watched c).attempt (.new (board, { pointer }))
    (Bridge.start w c).attempt (.new board) = (started.1, started.2.untraced) ∧
      (∀ read ∈ started.2.board.2.reads, read.2 = read.1.pointer) ∧
      ∀ (limit : Nat) (requests : List Master.Request),
        let s := (Ports.master w.watched c).performAll limit requests started.2
        (master w c).performAll limit requests started.2.untraced = s.untraced ∧
          (∀ request, ((master w c).perform limit request s.untraced).1 =
            ((Ports.master w.watched c).perform limit request s).1) ∧
          ∀ read ∈ s.board.2.reads, read.2 = read.1.pointer := by
  intro started
  have hmaster : (Ports.master w.watched c).Mirrors (master w c) (Alike fun p s => p.1 = s) := by
    rw [← Ports.master_same]
    exact Ports.master_mirrors w.watched_mirrors c
  have hstart :
      (Ports.start w.watched c).Mirrors (Alike fun p s => p.1 = s) (Bridge.start w c) := by
    rw [← Ports.start_same]
    exact Ports.start_mirrors w.watched_mirrors c
  have hsound : started.2.board.2.Sound :=
    (start_keeps w c).attempt (s := .new (board, { pointer })) (by simp [Watch.Sound, Bridge.new])
  obtain ⟨houtcome, hstate⟩ := hstart (.new (board, { pointer })) (.new board) ⟨rfl, rfl, rfl⟩
  refine ⟨Prod.ext houtcome.symm (alike_untraced.1 hstate).symm, hsound, ?_⟩
  intro limit requests s
  refine ⟨?_, fun request => ?_, (master_keeps_sound w c).performAll limit requests hsound⟩
  · exact (alike_untraced.1 (hmaster.performAll limit requests (alike_untraced.2 rfl))).symm
  · exact (hmaster.perform limit request (alike_untraced.2 rfl)).1.symm

end OneWire.Ds2484
