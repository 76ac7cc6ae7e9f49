import OneWire.Line.Wire
import OneWire.Master.Basic
import OneWire.Proofs.Action

/-!
# Masters and the line behind them

A master drives a line if each call that succeeds does to the line what it is for. A master that
makes its bytes from bits does if its slots do.
-/

namespace OneWire

variable {L σ ε α : Type}

theorem Wire.writeBits_append [Wire L] (bs bs' : List Bool) (line : L) :
    writeBits (bs ++ bs') line = writeBits bs' (writeBits bs line) := by
  induction bs generalizing line with
  | nil => rfl
  | cons b bs ih => exact ih (write b line)

theorem Wire.readBits_of_reads [Wire L] {bit : Nat → Bool} {At : Nat → L → Prop} {i n : Nat}
    (hread : ∀ j < i + n, ∀ l, At j l → (read l).1 = bit j ∧ At (j + 1) (read l).2)
    {line : L} (hline : At i line) :
    (readBits n line).1 = (List.range n).map (fun j => bit (i + j)) ∧
      At (i + n) (readBits n line).2 := by
  induction n generalizing line i with
  | zero => exact ⟨rfl, hline⟩
  | succ n ih =>
    obtain ⟨hbit, hnext⟩ := hread i (by omega) line hline
    obtain ⟨hbits, hlast⟩ := ih (fun j hj => hread j (by omega)) hnext
    unfold readBits
    simp only [hbit, hbits, List.range_succ_eq_map, List.map_cons, List.map_map,
      Function.comp_def, Nat.succ_eq_add_one, Nat.add_zero]
    refine ⟨?_, by rwa [Nat.add_right_comm, Nat.add_assoc] at hlast⟩
    simp only [Nat.add_assoc, Nat.add_comm 1]

/-- Where the action succeeds, it does `effect` to the line. -/
def Action.Drives (line : σ → L) (effect : L → α × L) (act : Action ε σ α) : Prop :=
  ∀ s, act.Ensures s (fun a s' => a = (effect (line s)).1 ∧ line s' = (effect (line s)).2)
    fun _ _ => True

namespace Action.Drives

variable {line : σ → L} {β : Type}

theorem pure {a : α} : (pure a : Action ε σ α).Drives line fun l => (a, l) :=
  fun _ => ⟨rfl, rfl⟩

theorem bind {act : Action ε σ α} {next : α → Action ε σ β} {effect : L → α × L}
    {effect' : α → L → β × L} (h : act.Drives line effect)
    (hnext : ∀ a, (next a).Drives line (effect' a)) :
    (act >>= next).Drives line fun l => effect' (effect l).1 (effect l).2 := by
  intro s
  refine (h s).bind ?_
  rintro _ s₁ ⟨rfl, h₁⟩
  simp only [← h₁]
  exact hnext _ s₁

end Action.Drives

structure Slots.Drives [Wire L] (bus : Slots σ ε) (line : σ → L) : Prop where
  reset : bus.reset.Drives line Wire.reset
  readBit : bus.readBit.Drives line Wire.read
  writeBit (b : Bool) : (bus.writeBit b).Drives line fun l => ((), Wire.write b l)
  lock : bus.lock.Drives line fun l => ((), l)
  unlock : bus.unlock.Drives line fun l => ((), l)

structure ByteMaster.Drives [Wire L] (bus : ByteMaster σ ε) (line : σ → L) : Prop
    extends bus.toSlots.Drives line where
  readByte : bus.readByte.Drives line Wire.readByte
  writeByte (b : Byte) : (bus.writeByte b).Drives line fun l => ((), Wire.writeByte b l)

/-! ## Bytes from bits -/

namespace Slots.Drives

variable [Wire L] {bus : Slots σ ε} {line : σ → L}

theorem readBits (h : bus.Drives line) (n : Nat) :
    (bus.readBits n).Drives line (Wire.readBits n) := by
  induction n with
  | zero => exact .pure
  | succ n ih =>
    unfold Slots.readBits
    exact h.readBit.bind fun _ => ih.bind fun _ => .pure

theorem writeBits (h : bus.Drives line) (bs : List Bool) :
    (bus.writeBits bs).Drives line fun l => ((), Wire.writeBits bs l) := by
  induction bs with
  | nil => exact .pure
  | cons b bs ih =>
    unfold Slots.writeBits
    exact (h.writeBit b).bind fun _ => ih

theorem toByteMaster (h : bus.Drives line) : bus.toByteMaster.Drives line where
  toDrives := h
  readByte := (h.readBits 8).bind fun _ => .pure
  writeByte b := h.writeBits b.bits

end Slots.Drives

/-! ## Blocks from bytes -/

theorem ByteMaster.Drives.writeBytes [Wire L] {bus : ByteMaster σ ε} {line : σ → L}
    (h : bus.Drives line) (data : List Byte) :
    (bus.writeBytes data).Drives line
      fun l => ((), Wire.writeBits (data.flatMap Byte.bits) l) := by
  induction data with
  | nil => exact .pure
  | cons b data ih =>
    unfold ByteMaster.writeBytes
    simp only [List.flatMap_cons, Wire.writeBits_append]
    exact (h.writeByte b).bind fun _ => ih

/-- Where each byte read is the next of some bytes, the places are filled with them in turn. -/
theorem ByteMaster.fill_ensures {bus : ByteMaster σ ε} {byteAt : Nat → Byte}
    {At : Nat → σ → Prop} {n : Nat}
    (hread : ∀ i < n, ∀ s, At i s →
      bus.readByte.Ensures s (fun b s' => b = byteAt i ∧ At (i + 1) s') fun _ _ => False)
    (places : List (Fin n)) {i : Nat} (hplaces : places.map (·.val) = List.range' i places.length)
    {p : σ × Vector Byte n} (hp : At i p.1)
    (hfilled : ∀ (j : Nat) (hj : j < n), j < i → p.2[j] = byteAt j) :
    (bus.fill places).Ensures p
      (fun _ q => At (i + places.length) q.1 ∧
        ∀ (j : Nat) (hj : j < n), j < i + places.length → q.2[j] = byteAt j)
      fun _ _ => False := by
  induction places generalizing i p with
  | nil => exact ⟨hp, hfilled⟩
  | cons place places ih =>
    rw [List.map_cons, List.length_cons, List.range'_succ, List.cons.injEq] at hplaces
    obtain ⟨rfl, hrest⟩ := hplaces
    rw [List.length_cons, Nat.add_comm places.length, ← Nat.add_assoc]
    unfold ByteMaster.fill
    rw [Action.ensures_bind, Action.ensures_beside]
    apply (hread place place.isLt p.1 hp).mono _ fun _ _ => id
    rintro b s₁ ⟨rfl, hs₁⟩
    rw [Action.ensures_bind, Action.ensures_modify]
    refine ih hrest hs₁ fun j hj hle => ?_
    -- The place just read joins those filled before it.
    rcases Nat.lt_succ_iff_lt_or_eq.1 hle with hlt | rfl
    · rw [Vector.getElem_set_ne place.isLt hj (Nat.ne_of_gt hlt), hfilled j hj hlt]
    · exact Vector.getElem_set_self hj

theorem ByteMaster.places_finRange (n : Nat) :
    (List.finRange n).map (·.val) = List.range' 0 (List.finRange n).length :=
  List.ext_getElem (by simp) fun i _ _ => by simp

theorem ByteMaster.readBlock_ensures (bus : ByteMaster σ ε) (byteAt : Nat → Byte)
    (At : Nat → σ → Prop) {n : Nat}
    (hread : ∀ i < n, ∀ s, At i s →
      bus.readByte.Ensures s (fun b s' => b = byteAt i ∧ At (i + 1) s') fun _ _ => False)
    {p : σ × Vector Byte n} (hp : At 0 p.1) :
    (bus.toMaster.readBlock n).Ensures p
      (fun _ q => At n q.1 ∧ q.2 = .ofFn fun i => byteAt i) fun _ _ => False := by
  have hfill := fill_ensures hread (List.finRange n) (places_finRange n) hp
    fun _ _ hj => absurd hj (by simp)
  rw [List.length_finRange, Nat.zero_add] at hfill
  refine hfill.mono ?_ fun _ _ => id
  rintro _ q ⟨hq, hbuffer⟩
  refine ⟨hq, Vector.ext fun j hj => ?_⟩
  rw [hbuffer j hj hj, Vector.getElem_ofFn]

/-! ## Masters that do not fail -/

/-- From the states with `sound` the action succeeds, and leaves the lock as it is. -/
def Action.Works (sound : σ → Prop) (depth : σ → Nat) (act : Action ε σ α) : Prop :=
  ∀ s, sound s → act.Ensures s (fun _ s' => sound s' ∧ depth s' = depth s) fun _ _ => False

namespace Action.Works

variable {sound : σ → Prop} {depth : σ → Nat} {β : Type}

theorem pure {a : α} : (pure a : Action ε σ α).Works sound depth :=
  fun _ hs => ⟨hs, rfl⟩

theorem bind {act : Action ε σ α} {next : α → Action ε σ β} (h : act.Works sound depth)
    (hnext : ∀ a, (next a).Works sound depth) : (act >>= next).Works sound depth := by
  intro s hs
  refine (h s hs).bind ?_
  rintro a s₁ ⟨hs₁, h₁⟩
  rw [← h₁]
  exact hnext a s₁ hs₁

theorem beside {act : Action ε σ α} (h : act.Works sound depth) :
    (act.beside : Action ε (σ × β) α).Works (fun p => sound p.1) fun p => depth p.1 := by
  intro p hp
  rw [ensures_beside]
  exact h p.1 hp

end Action.Works

theorem Slots.readBits_works {bus : Slots σ ε} {sound : σ → Prop} {depth : σ → Nat}
    (h : bus.readBit.Works sound depth) (n : Nat) : (bus.readBits n).Works sound depth := by
  induction n with
  | zero => exact .pure
  | succ n ih =>
    unfold Slots.readBits
    exact h.bind fun _ => ih.bind fun _ => .pure

theorem Slots.readByte_works {bus : Slots σ ε} {sound : σ → Prop} {depth : σ → Nat}
    (h : bus.readBit.Works sound depth) : bus.toByteMaster.readByte.Works sound depth :=
  (readBits_works h 8).bind fun _ => .pure

theorem Slots.writeBits_works {bus : Slots σ ε} {sound : σ → Prop} {depth : σ → Nat}
    (h : ∀ b, (bus.writeBit b).Works sound depth) (bs : List Bool) :
    (bus.writeBits bs).Works sound depth := by
  induction bs with
  | nil => exact .pure
  | cons b bs ih =>
    unfold Slots.writeBits
    exact (h b).bind fun _ => ih

theorem ByteMaster.writeBytes_works {bus : ByteMaster σ ε} {sound : σ → Prop} {depth : σ → Nat}
    (h : ∀ b, (bus.writeByte b).Works sound depth) (data : List Byte) :
    (bus.writeBytes data).Works sound depth := by
  induction data with
  | nil => exact .pure
  | cons b data ih =>
    unfold ByteMaster.writeBytes
    exact (h b).bind fun _ => ih

/-- From the states with `sound` no call that a search makes fails, and locks are counted. -/
structure Master.Faultless (bus : Master σ ε) (sound : σ → Prop) (depth : σ → Nat) : Prop where
  reset : bus.reset.Works sound depth
  readBit : bus.readBit.Works sound depth
  writeBit (b : Bool) : (bus.writeBit b).Works sound depth
  writeByte (b : Byte) : (bus.writeByte b).Works sound depth
  lock : ∀ s, sound s →
    bus.lock.Ensures s (fun _ s' => sound s' ∧ depth s' = depth s + 1) fun _ _ => False
  unlock : ∀ s, sound s → 0 < depth s →
    bus.unlock.Ensures s (fun _ s' => sound s' ∧ depth s' + 1 = depth s) fun _ _ => False

/-! ## Masters that do what they are for -/

/-- From the states with `sound` the action succeeds, and does `effect` to the line. -/
def Action.Performs (sound : σ → Prop) (line : σ → L) (effect : L → α × L) (act : Action ε σ α) :
    Prop :=
  ∀ s, sound s →
    act.Ensures s (fun a s' => sound s' ∧ (a, line s') = effect (line s)) fun _ _ => False

theorem Action.Performs.discard {sound : σ → Prop} {line : σ → L} {effect : L → α × L}
    {act : Action ε σ α} (h : act.Performs sound line effect) :
    Action.Performs sound line (fun l => ((), (effect l).2)) (do let _ ← act) := by
  intro s hs
  refine (h s hs).bind ?_
  rintro a s' ⟨hs', heffect⟩
  have hline : line s' = (effect (line s)).2 := congrArg Prod.snd heffect
  exact ⟨hs', Prod.ext rfl hline⟩

theorem Action.Performs.adaptExcept {ε' : Type} {sound : σ → Prop} {line : σ → L}
    {effect : L → α × L} {act : Action ε σ α} (h : act.Performs sound line effect) (f : ε → ε') :
    Action.Performs sound line effect (EStateM.adaptExcept f act) := by
  intro s hs
  rw [ensures_adaptExcept]
  exact h s hs

structure ByteMaster.Performs [Wire L] (bus : ByteMaster σ ε) (sound : σ → Prop) (line : σ → L) :
    Prop where
  reset : bus.reset.Performs sound line Wire.reset
  readBit : bus.readBit.Performs sound line Wire.read
  writeBit (b : Bool) : (bus.writeBit b).Performs sound line fun l => ((), Wire.write b l)
  readByte : bus.readByte.Performs sound line Wire.readByte
  writeByte (b : Byte) : (bus.writeByte b).Performs sound line fun l => ((), Wire.writeByte b l)

/-- The master with other names for its failures. -/
def ByteMaster.renaming {ε' : Type} (bus : ByteMaster σ ε) (name : ε → ε') : ByteMaster σ ε' where
  reset := bus.reset.adaptExcept name
  readBit := bus.readBit.adaptExcept name
  writeBit b := (bus.writeBit b).adaptExcept name
  lock := bus.lock.adaptExcept name
  unlock := bus.unlock.adaptExcept name
  resume := bus.resume.adaptExcept name
  suspend := bus.suspend.adaptExcept name
  deviceCount := bus.deviceCount
  readByte := bus.readByte.adaptExcept name
  writeByte b := (bus.writeByte b).adaptExcept name

theorem ByteMaster.Performs.renaming {ε' : Type} [Wire L] {bus : ByteMaster σ ε}
    {sound : σ → Prop} {line : σ → L} (h : bus.Performs sound line) (name : ε → ε') :
    (bus.renaming name).Performs sound line where
  reset := h.reset.adaptExcept name
  readBit := h.readBit.adaptExcept name
  writeBit b := (h.writeBit b).adaptExcept name
  readByte := h.readByte.adaptExcept name
  writeByte b := (h.writeByte b).adaptExcept name

end OneWire
