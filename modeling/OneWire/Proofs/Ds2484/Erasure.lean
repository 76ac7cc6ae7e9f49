import OneWire.Ds2484.ReadPointer
import OneWire.Ds2484.Trace
import OneWire.Proofs.Mirror.Master

/-!
# What a trace leaves alone

On boards that mirror each other the bridge does the same. So on a traced board, and on a watched
one, it starts, answers and fails as it does on the board itself.
-/

namespace OneWire.Ds2484

open OneWire.Action Bridge

variable {π ρ α : Type} {R : π → ρ → Prop}

/-! ## Requests -/

/-- The accesses to the two boards mirror each other, and SLPZ is wired on both or on neither. -/
structure Wiring.Mirrors (w : Wiring π) (w' : Wiring ρ) (R : π → ρ → Prop) : Prop where
  write (address : Byte) (bytes : List Byte) :
    (w.write address bytes).Mirrors R (w'.write address bytes)
  read (address : Byte) : (w.read address).Mirrors R (w'.read address)
  pin : Option.Rel (fun set set' => ∀ high, (set high).Mirrors R (set' high)) w.setPin w'.setPin

theorem failingAs_mirrors {act : Action Unit π α} {act' : Action Unit ρ α}
    (h : act.Mirrors R act') (f : Failure) : (failingAs f act).Mirrors R (failingAs f act') := by
  intro s t hR
  unfold attempt failingAs
  rcases h.cases hR with ⟨a, s', t', hs, ht, hR'⟩ | ⟨e, s', t', hs, ht, hR'⟩ <;>
    simp only [hs, ht, true_and] <;> exact hR'

namespace Wiring.Mirrors

variable {w : Wiring π} {w' : Wiring ρ} (h : w.Mirrors w' R) (c : Config)
include h

theorem request (bytes : List Byte) : (request w c bytes).Mirrors R (request w' c bytes) :=
  failingAs_mirrors (h.write c.address bytes) .i2c

theorem readRegister : (readRegister w c).Mirrors R (readRegister w' c) :=
  failingAs_mirrors (h.read c.address) .i2c

theorem poll (n : Nat) : (poll w c n).Mirrors R (poll w' c n) := by
  induction n with
  | zero => exact .throw
  | succ n ih =>
    unfold Ds2484.poll
    apply (h.readRegister c).bind
    intro status
    split
    · exact ih
    · exact .pure

theorem complete (bytes : List Byte) : (complete w c bytes).Mirrors R (complete w' c bytes) :=
  (h.request c bytes).bind fun _ => h.poll c c.pollLimit

theorem setPin (high : Bool) :
    (Ds2484.setPin w high).Mirrors R (Ds2484.setPin w' high) := by
  have hpin := h.pin
  unfold Ds2484.setPin
  generalize w.setPin = set, w'.setPin = set' at hpin ⊢
  cases hpin with
  | none => exact .pure
  | some hset => exact failingAs_mirrors (hset high) .gpio

theorem resetChip : (resetChip w c).Mirrors R (resetChip w' c) := by
  unfold Ds2484.resetChip
  apply (h.request c _).bind
  intro _
  apply (h.readRegister c).bind
  intro status
  split
  · exact .pure
  · exact .throw

theorem configure (configuration : Byte) :
    (configure w c configuration).Mirrors R (configure w' c configuration) := by
  unfold Ds2484.configure
  apply (h.request c _).bind
  intro _
  apply (h.readRegister c).bind
  intro readback
  split
  · exact .pure
  · exact .throw

end Wiring.Mirrors

/-! ## The bridge -/

/-- The boards are related, and the rest of the bridge is the same. -/
structure Bridge.Alike (R : π → ρ → Prop) (s : Bridge π) (t : Bridge ρ) : Prop where
  board : R s.board t.board
  depth : s.depth = t.depth
  active : s.active = t.active

theorem onBoard_mirrors {act : Action Failure π α} {act' : Action Failure ρ α}
    (h : act.Mirrors R act') : (onBoard act).Mirrors (Alike R) (onBoard act') := by
  intro s t hst
  unfold attempt onBoard
  rcases h.cases hst.board with ⟨a, p, q, hs, ht, hR⟩ | ⟨e, p, q, hs, ht, hR⟩ <;>
    simp only [hs, ht, true_and] <;> exact ⟨hR, hst.depth, hst.active⟩

theorem modify_active_mirrors (active : Bool) :
    (modify ({ · with active }) : Action Failure (Bridge π) PUnit).Mirrors (Alike R)
      (modify ({ · with active })) :=
  .modify fun _ _ hst => ⟨hst.board, hst.depth, rfl⟩

theorem lock_mirrors : lock.Mirrors (Alike R) lock := by
  rintro ⟨board, depth, active⟩ ⟨board', _, _⟩ ⟨hR, rfl, rfl⟩
  unfold attempt lock
  by_cases h : depth.val + 1 < 256
  · simp only [dif_pos h, true_and]
    exact ⟨hR, rfl, rfl⟩
  · simp only [dif_neg h, true_and]
    exact ⟨hR, rfl, rfl⟩

theorem unlock_mirrors : unlock.Mirrors (Alike R) unlock := by
  rintro ⟨board, depth, active⟩ ⟨board', _, _⟩ ⟨hR, rfl, rfl⟩
  unfold attempt unlock
  by_cases h : depth = 0
  · simp only [if_pos h, true_and]
    exact ⟨hR, rfl, rfl⟩
  · simp only [if_neg h, true_and]
    exact ⟨hR, rfl, rfl⟩

namespace Wiring.Mirrors

variable {w : Wiring π} {w' : Wiring ρ} (h : w.Mirrors w' R) (c : Config)
include h

theorem resume : (resume w).Mirrors (Alike R) (resume w') := by
  unfold Bridge.resume
  apply Action.Mirrors.get_bind
  intro s t hst
  rw [hst.active]
  split
  · exact .pure
  · exact (onBoard_mirrors (h.setPin true)).bind fun _ =>
      (modify_active_mirrors true).bind fun _ => .pure

theorem suspend : (suspend w c).Mirrors (Alike R) (suspend w' c) := by
  unfold Bridge.suspend
  apply Action.Mirrors.get_bind
  intro s t hst
  rw [hst.active]
  split
  · exact (onBoard_mirrors ((h.complete c _).bind fun _ => .pure)).bind fun _ =>
      (onBoard_mirrors (h.setPin false)).bind fun _ =>
        (modify_active_mirrors false).bind fun _ => .pure
  · exact .pure

end Wiring.Mirrors

namespace Ports

variable {w : Ports π} {w' : Ports ρ} (h : ∀ r, (w r).Mirrors (w' r) R) (c : Config)
include h

theorem start_mirrors : (w.start c).Mirrors (Alike R) (w'.start c) :=
  (onBoard_mirrors ((h .status).setPin true)).bind fun _ =>
    (modify_active_mirrors true).bind fun _ =>
      (onBoard_mirrors ((h .status).resetChip c)).bind fun _ =>
        onBoard_mirrors ((h .configuration).configure c _)

theorem readByte_mirrors : (w.readByte c).Mirrors R (w'.readByte c) :=
  ((h .status).complete c _).bind fun _ =>
    ((h .data).request c _).bind fun _ => (h .data).readRegister c

theorem master_mirrors : (w.master c).Mirrors (w'.master c) (Alike R) := by
  have hslot (b : Bool) : (slot (w .status) c b).Mirrors R (slot (w' .status) c b) :=
    ((h .status).complete c _).bind fun _ => .pure
  exact ByteMaster.Mirrors.toMaster
    { reset := onBoard_mirrors (((h .status).complete c _).bind fun _ => .pure)
      readBit := onBoard_mirrors (hslot true)
      writeBit := fun b => (onBoard_mirrors (hslot b)).bind fun _ => .pure
      lock := lock_mirrors
      unlock := unlock_mirrors
      resume := (h .status).resume
      suspend := (h .status).suspend c
      deviceCount := fun _ => rfl
      readByte := onBoard_mirrors (readByte_mirrors h c)
      writeByte := fun b => onBoard_mirrors (((h .status).complete c _).bind fun _ => .pure) }

end Ports

/-! ## Boards with a record beside them -/

section Records

variable {β : Type}

/-- The bridge on the board without the record. -/
def Bridge.untraced (s : Bridge (π × β)) : Bridge π :=
  { s with board := s.board.1 }

theorem alike_untraced {s : Bridge (π × β)} {t : Bridge π} :
    Alike (fun p s => p.1 = s) s t ↔ s.untraced = t := by
  obtain ⟨board, depth, active⟩ := t
  constructor
  · rintro ⟨rfl, rfl, rfl⟩
    rfl
  · rintro ⟨⟩
    exact ⟨rfl, rfl, rfl⟩

end Records

theorem noting_mirrors (entry : Except Unit α → BoardEntry) (act : Action Unit π α) :
    (noting entry act).Mirrors (fun p s => p.1 = s) act := by
  rintro ⟨s, log⟩ _ rfl
  unfold attempt noting
  cases act s <;> exact ⟨rfl, rfl⟩

theorem Wiring.traced_mirrors (w : Wiring π) : w.traced.Mirrors w fun p s => p.1 = s where
  write _ _ := noting_mirrors _ _
  read _ := noting_mirrors _ _
  pin := by
    unfold Wiring.traced
    cases w.setPin with
    | none => exact .none
    | some set => exact .some fun high => noting_mirrors _ _

theorem watching_mirrors (ok failed : Watch → Watch) (act : Action Unit π α) :
    (watching ok failed act).Mirrors (fun p s => p.1 = s) act := by
  rintro ⟨s, watch⟩ _ rfl
  unfold attempt watching
  cases act s <;> exact ⟨rfl, rfl⟩

theorem Wiring.watched_mirrors (w : Wiring π) (r : Register) :
    (w.watched r).Mirrors w fun p s => p.1 = s where
  write address bytes := watching_mirrors (.point bytes) id (w.write address bytes)
  read address := watching_mirrors (.note r) (.note r) (w.read address)
  pin := by
    unfold Wiring.watched
    cases w.setPin with
    | none => exact .none
    | some set => exact .some fun high => watching_mirrors _ _ _

/-- A bridge whose board lists the accesses does what the bridge does. -/
theorem perform_traced (w : Wiring π) (c : Config) (limit : Nat) (request : Master.Request)
    (s : Bridge (π × List BoardEntry)) :
    (master w c).perform limit request s.untraced =
      (((master w.traced c).perform limit request s).1,
        ((master w.traced c).perform limit request s).2.untraced) := by
  have hmaster : (master w.traced c).Mirrors (master w c) (Alike fun p s => p.1 = s) := by
    rw [← Ports.master_same, ← Ports.master_same]
    exact Ports.master_mirrors (fun _ => w.traced_mirrors) c
  obtain ⟨hanswer, hstate⟩ := hmaster.perform limit request (alike_untraced.2 rfl)
  rw [hanswer, alike_untraced.1 hstate]

end OneWire.Ds2484
