import OneWire.Ds2484.Bridge
import OneWire.Line.Wire
import OneWire.Proofs.Master.Drive

/-!
# A DS2484 on a line

What the host relies on. Each request does its work on the line. After it the status shows the chip
busy for a limited number of reads, and then how the request went.
-/

namespace OneWire.Ds2484

open OneWire.Action Bridge

variable {L π α : Type}

/-! ## The chip -/

/-- What the host can learn of the chip. -/
structure View (L : Type) where
  line : L
  pointer : Byte
  data : Byte
  /-- How many more reads of the status show the chip busy. -/
  busy : Nat
  /-- What the status can be once the chip is idle. -/
  status : Byte → Prop

/-- The requests that do something to the line. -/
inductive Primitive where
  | reset
  | slot (b : Bool)
  | writeByte (b : Byte)
  | readByte

namespace Primitive

def bytes : Primitive → List Byte
  | reset => [lineReset]
  | slot b => [singleBit, slotParameter b]
  | writeByte b => [lineWriteByte, b]
  | readByte => [lineReadByte]

variable [Wire L]

def run : Primitive → L → L
  | reset, line => (Wire.reset line).2
  | slot b, line => (Wire.slot b line).2
  | writeByte b, line => Wire.writeByte b line
  | readByte, line => (Wire.readByte line).2

/-- What the final status tells. Its other bits can be anything. -/
def Tells : Primitive → L → Byte → Prop
  | reset, line, status => hasPresence status = (Wire.reset line).1
  | slot b, line, status => sampled status = (Wire.slot b line).1
  | writeByte _, _, _ => True
  | readByte, _, _ => True

def data : Primitive → L → Byte → Byte
  | readByte, line, _ => (Wire.readByte line).1
  | _, _, data => data

end Primitive

/-- The chip takes a request, and will be done with it before `limit` reads of the status. -/
structure Takes [Wire L] (limit : Nat) (p : Primitive) (v v' : View L) : Prop where
  line : v'.line = p.run v.line
  pointer : v'.pointer = statusPointer
  data : v'.data = p.data v.line v.data
  busy : v'.busy < limit
  status (b : Byte) (h : v'.status b) : p.Tells v.line b

/-- What a read gives, and the chip after it. -/
inductive Gives (v : View L) : Byte → View L → Prop
  | busy {n : Nat} {status : Byte} (hpointer : v.pointer = statusPointer) (hbusy : v.busy = n + 1)
      (hstatus : isBusy status = true) : Gives v status { v with busy := n }
  | idle {status : Byte} (hpointer : v.pointer = statusPointer) (hbusy : v.busy = 0)
      (hidle : isBusy status = false) (hstatus : v.status status) : Gives v status v
  | data (hpointer : v.pointer = dataPointer) : Gives v v.data v
  | other {byte : Byte} (hstatus : v.pointer ≠ statusPointer) (hdata : v.pointer ≠ dataPointer) :
      Gives v byte v

/-- As long as the board is sound no access fails, and the chip on it does what it is for. -/
structure Serves [Wire L] (w : Wiring π) (c : Config) (delay : Nat → π → π) (view : π → View L)
    (sound : π → Prop) : Prop where
  request (p : Primitive) (s : π) (hs : sound s) :
    (w.write c.address p.bytes).Ensures s
      (fun _ s' => sound s' ∧ Takes c.pollLimit p (view s) (view s')) fun _ _ => False
  point (pointer : Byte) (s : π) (hs : sound s) :
    (w.write c.address [setReadPointer, pointer]).Ensures s
      (fun _ s' => sound s' ∧ view s' = { view s with pointer }) fun _ _ => False
  read (s : π) (hs : sound s) :
    (w.read c.address).Ensures s (fun byte s' => sound s' ∧ Gives (view s) byte (view s'))
      fun _ _ => False
  setPin {set : Bool → Action Unit π Unit} (hset : w.setPin = some set) (high : Bool) (s : π)
    (hs : sound s) :
    (set high).Ensures s (fun _ s' => sound s' ∧ view s' = view s) fun _ _ => False
  delay (ms : Nat) (s : π) (hs : sound s) : sound (delay ms s) ∧ view (delay ms s) = view s

/-! ## Actions on the board -/

@[simp] theorem ensures_failingAs {f : Failure} {act : Action Unit π α} {s : π}
    {ok : α → π → Prop} {failed : Failure → π → Prop} :
    (failingAs f act).Ensures s ok failed ↔ act.Ensures s ok fun _ s => failed f s := by
  unfold Ensures failingAs
  cases act s <;> rfl

@[simp] theorem ensures_onBoard {act : Action Failure π α} {s : Bridge π}
    {ok : α → Bridge π → Prop} {failed : Failure → Bridge π → Prop} :
    (onBoard act).Ensures s ok failed ↔
      act.Ensures s.board (fun a board => ok a { s with board }) fun e board =>
        failed e { s with board } := by
  unfold Ensures onBoard
  cases act s.board <;> rfl

theorem onBoard_keeps {I : Bridge π → Prop} (hI : ∀ s board, I s → I { s with board })
    {act : Action Failure π α} : (onBoard act).Keeps I := by
  intro s hs
  rw [ensures_onBoard]
  apply (ensures_true act s.board).mono
  · exact fun _ board _ => hI s board hs
  · exact fun _ board _ => hI s board hs

theorem onBoard_discard (act : Action Failure π α) :
    (do let _ ← onBoard act) = onBoard (do let _ ← act) := by
  funext s
  simp only [onBoard, bind, EStateM.bind]
  cases act s.board <;> rfl

/-! ## Locks of the bridge -/

theorem ensures_lock (s : Bridge π) :
    Bridge.lock.Ensures s
      (fun _ s' => ∃ depth, s' = { s with depth } ∧ depth.val = min (s.depth.val + 1) 255)
      fun _ _ => False := by
  unfold Ensures Bridge.lock
  by_cases h : s.depth.val + 1 < 256
  · rw [dif_pos h]
    exact ⟨_, rfl, by simp only; omega⟩
  · rw [dif_neg h]
    exact ⟨s.depth, rfl, by omega⟩

theorem ensures_unlock {s : Bridge π} (h : 0 < s.depth.val) :
    Bridge.unlock.Ensures s
      (fun _ s' => ∃ depth, s' = { s with depth } ∧ depth.val + 1 = s.depth.val)
      fun _ _ => False := by
  unfold Ensures Bridge.unlock
  rw [if_neg (by rintro h'; simp [h'] at h)]
  exact ⟨_, rfl, by simp only; omega⟩

theorem unlock_of_zero {s : Bridge π} (h : ¬0 < s.depth.val) : Bridge.unlock s = .error .unlock s := by
  have hzero : s.depth = 0 := Fin.ext (by simp only [Fin.val_zero]; omega)
  unfold Bridge.unlock
  rw [if_pos hzero]

theorem lock_keeps {I : Bridge π → Prop} (hI : ∀ s depth, I s → I { s with depth }) :
    Bridge.lock.Keeps I := by
  intro s hs
  apply (ensures_lock s).mono ?_ fun _ _ => False.elim
  rintro _ _ ⟨depth, rfl, -⟩
  exact hI s depth hs

theorem unlock_keeps {I : Bridge π → Prop} (hI : ∀ s depth, I s → I { s with depth }) :
    Bridge.unlock.Keeps I := by
  intro s hs
  by_cases h : 0 < s.depth.val
  · apply (ensures_unlock h).mono ?_ fun _ _ => False.elim
    rintro _ _ ⟨depth, rfl, -⟩
    exact hI s depth hs
  · unfold Ensures
    rw [unlock_of_zero h]
    exact hs

/-! ## Polling -/

section Serves

variable [Wire L] {w : Wiring π} {c : Config} {delay : Nat → π → π} {view : π → View L}
  {sound : π → Prop}

/-- The status is read until the chip is idle, if that takes fewer than `n` reads. -/
theorem poll_ensures (h : Serves w c delay view sound) {n : Nat} {s : π} (hs : sound s)
    (hpointer : (view s).pointer = statusPointer) (hbusy : (view s).busy < n) :
    (poll w c n).Ensures s
      (fun status s' => sound s' ∧ (view s).status status ∧ view s' = { view s with busy := 0 })
      fun _ _ => False := by
  induction n generalizing s with
  | zero => omega
  | succ n ih =>
    unfold poll readRegister
    rw [ensures_bind, ensures_failingAs]
    refine (h.read s hs).mono ?_ fun _ _ => id
    rintro status s₁ ⟨hs₁, hgives⟩
    generalize hv : view s₁ = v at hgives
    cases hgives with
    | @busy m _ _ hm hstatus =>
      rw [if_pos hstatus]
      refine (ih hs₁ (by rwa [hv]) (by rw [hv]; simp only; omega)).mono ?_ fun _ _ => id
      rw [hv]
      exact fun _ _ => id
    | idle _ hidle hstatus hshown =>
      rw [if_neg (by simp [hstatus])]
      exact ⟨hs₁, hshown, by rw [hv, ← hidle]⟩
    | data hdata =>
      rw [hpointer] at hdata
      contradiction
    | other hother => contradiction

/-- The chip will be idle before the host gives up. -/
def Ready (c : Config) (view : π → View L) (sound : π → Prop) (s : π) : Prop :=
  sound s ∧ (view s).busy < c.pollLimit

theorem complete_ensures (h : Serves w c delay view sound) (p : Primitive) {s : π} (hs : sound s) :
    (complete w c p.bytes).Ensures s
      (fun status s' => Ready c view sound s' ∧ p.Tells (view s).line status ∧
        (view s').line = p.run (view s).line ∧ (view s').data = p.data (view s).line (view s).data)
      fun _ _ => False := by
  unfold complete request
  rw [ensures_bind, ensures_failingAs]
  refine (h.request p s hs).mono ?_ fun _ _ => id
  rintro _ s₁ ⟨hs₁, htakes⟩
  refine (poll_ensures h hs₁ htakes.pointer htakes.busy).mono ?_ fun _ _ => id
  rintro status s₂ ⟨hs₂, hstatus, hview⟩
  have hpositive := Nat.zero_lt_of_lt htakes.busy
  rw [Ready, hview]
  exact ⟨⟨hs₂, hpositive⟩, htakes.status status hstatus, htakes.line, htakes.data⟩

/-! ## Calls -/

theorem performs_reset (h : Serves w c delay view sound) :
    (reset w c).Performs (Ready c view sound) (fun s => (view s).line) Wire.reset := by
  intro s hs
  unfold reset
  refine (complete_ensures h .reset hs.1).bind ?_
  rintro status s' ⟨hready, htells, hline, -⟩
  exact ⟨hready, Prod.ext htells hline⟩

theorem performs_slot (h : Serves w c delay view sound) (b : Bool) :
    (slot w c b).Performs (Ready c view sound) (fun s => (view s).line) (Wire.slot b) := by
  intro s hs
  unfold slot
  refine (complete_ensures h (.slot b) hs.1).bind ?_
  rintro status s' ⟨hready, htells, hline, -⟩
  exact ⟨hready, Prod.ext htells hline⟩

theorem performs_writeByte (h : Serves w c delay view sound) (b : Byte) :
    (writeByte w c b).Performs (Ready c view sound) (fun s => (view s).line)
      fun line => ((), Wire.writeByte b line) := by
  intro s hs
  unfold writeByte
  refine (complete_ensures h (.writeByte b) hs.1).bind ?_
  rintro status s' ⟨hready, -, hline, -⟩
  exact ⟨hready, Prod.ext rfl hline⟩

theorem performs_readByte (h : Serves w c delay view sound) :
    (readByte w c).Performs (Ready c view sound) (fun s => (view s).line) Wire.readByte := by
  intro s hs
  unfold readByte request readRegister
  refine (complete_ensures h .readByte hs.1).bind ?_
  rintro _ s₁ ⟨hready, -, hline, hdata⟩
  rw [ensures_bind, ensures_failingAs]
  refine (h.point dataPointer s₁ hready.1).mono ?_ fun _ _ => id
  rintro _ s₂ ⟨hs₂, hview⟩
  rw [ensures_failingAs]
  refine (h.read s₂ hs₂).mono ?_ fun _ _ => id
  rintro byte s₃ ⟨hs₃, hgives⟩
  -- The pointer has left the status, so that only the data can answer the read.
  rw [hview] at hgives
  generalize hv : view s₃ = v at hgives
  have hne : dataPointer ≠ statusPointer := by decide
  cases hgives with
  | busy hpointer => contradiction
  | idle hpointer => contradiction
  | data =>
    have hline' : (view s₃).line = (Wire.readByte (view s).line).2 := by rw [hv]; exact hline
    exact ⟨⟨hs₃, by rw [hv]; exact hready.2⟩, Prod.ext hdata hline'⟩
  | other _ hother => contradiction

theorem performs_settle (h : Serves w c delay view sound) :
    (settle w c).Performs (Ready c view sound) (fun s => (view s).line) fun line => ((), line) := by
  intro s hs
  unfold settle complete request
  rw [ensures_bind, ensures_bind, ensures_failingAs]
  refine (h.point statusPointer s hs.1).mono ?_ fun _ _ => id
  rintro _ s₁ ⟨hs₁, hview₁⟩
  refine (poll_ensures h hs₁ (by rw [hview₁]) (by rw [hview₁]; exact hs.2)).mono ?_ fun _ _ => id
  rintro _ s₂ ⟨hs₂, -, hview₂⟩
  rw [hview₁] at hview₂
  have hline : (view s₂).line = (view s).line := by rw [hview₂]
  refine ⟨⟨hs₂, ?_⟩, Prod.ext rfl hline⟩
  rw [hview₂]
  exact Nat.zero_lt_of_lt hs.2

theorem performs_setPin (h : Serves w c delay view sound) (high : Bool) :
    (setPin w high).Performs (Ready c view sound) (fun s => (view s).line)
      fun line => ((), line) := by
  intro s hs
  unfold setPin
  cases hset : w.setPin with
  | none => exact ⟨hs, rfl⟩
  | some set =>
    simp only
    rw [ensures_failingAs]
    refine (h.setPin hset high s hs.1).mono ?_ fun _ _ => id
    rintro _ s' ⟨hs', hview⟩
    exact ⟨⟨hs', by rw [hview]; exact hs.2⟩, by rw [hview]⟩

end Serves

end OneWire.Ds2484
