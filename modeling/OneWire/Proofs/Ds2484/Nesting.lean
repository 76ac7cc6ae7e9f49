import Mathlib.Logic.Function.Iterate
import OneWire.Proofs.Ds2484.Chip
import OneWire.Proofs.Master.Keeps

/-!
# Nested locks of the DS2484

The bridge counts its locks up to 255 and no further. As long as there is room for the locks that
are taken, as many unlocks undo them, and each transaction leaves the count as it was.
-/

namespace OneWire.Ds2484

open OneWire.Action Bridge

variable {π σ ε α β : Type}

/-! ## Scopes -/

/--
The action takes and gives back up to `k` locks at a time: what it leaves has room for them, and it
leaves the depth as it was if that had.
-/
def Locking (depth : σ → Nat) (k : Nat) (act : Action ε σ α) : Prop :=
  ∀ s, act.Ensures s (fun _ s' => depth s' = min (depth s) (255 - k))
    fun _ s' => depth s' = min (depth s) (255 - k)

/-- The locks of a bus that counts them up to 255. An unlock too many leaves the count at 0. -/
structure Saturating (depth : σ → Nat) (lock unlock : Action ε σ Unit) : Prop where
  le (s : σ) : depth s ≤ 255
  lock (s : σ) :
    lock.Ensures s (fun _ s' => depth s' = min (depth s + 1) 255) fun _ _ => False
  unlock (s : σ) :
    unlock.Ensures s (fun _ s' => depth s' = depth s - 1) fun _ s' => depth s' = depth s - 1

namespace Locking

variable {depth : σ → Nat} {k : Nat}

theorem attempt {act : Action ε σ α} (h : Locking depth k act) (s : σ) :
    depth (act.attempt s).2 = min (depth s) (255 - k) :=
  (h s).attempt (I := fun s' => depth s' = min (depth s) (255 - k))

theorem of_keeps {act : Action ε σ α} (hle : ∀ s, depth s ≤ 255)
    (h : ∀ n, act.Keeps (depth · = n)) : Locking depth 0 act := by
  intro s
  apply (h _ s rfl).mono <;> intro _ s' hs' <;> have := hle s <;> omega

theorem bind {act : Action ε σ α} {next : α → Action ε σ β} (h : Locking depth k act)
    (hnext : ∀ a, Locking depth 0 (next a)) : Locking depth k (act >>= next) := by
  intro s
  rw [ensures_bind]
  apply (h s).mono ?_ fun _ _ => id
  intro a s₁ h₁
  apply (hnext a s₁).mono <;> intro _ s₂ h₂ <;> omega

theorem onBus {act : Action ε σ α} (h : Locking depth k act) : Locking depth k act.onBus :=
  fun s => ensures_onBus.2 (h s)

theorem beside {act : Action ε σ α} (h : Locking depth k act) :
    Locking (fun p : σ × β => depth p.1) k act.beside :=
  fun p => ensures_beside.2 (h p.1)

/-- One scope more takes one lock more. -/
theorem between {lock unlock : Action ε σ Unit} (hlocks : Saturating depth lock unlock)
    {body : Action (Error ε) σ α} (h : Locking depth k body) :
    Locking depth (k + 1) (between lock unlock body) := by
  intro s
  rw [ensures_between]
  apply (hlocks.lock s).mono ?_ fun _ _ => False.elim
  intro _ s₁ h₁
  have hunlock (s₂ : σ) (h₂ : depth s₂ = min (depth s₁) (255 - k)) :
      unlock.Ensures s₂ (fun _ s₃ => depth s₃ = min (depth s) (255 - (k + 1)))
        fun _ s₃ => depth s₃ = min (depth s) (255 - (k + 1)) := by
    apply (hlocks.unlock s₂).mono <;> intro _ s₃ h₃ <;> omega
  apply (h s₁).mono
  · exact fun _ s₂ h₂ => hunlock s₂ h₂
  · exact fun _ s₂ h₂ => hunlock s₂ h₂

end Locking

theorem Saturating.beside {depth : σ → Nat} {lock unlock : Action ε σ Unit}
    (h : Saturating depth lock unlock) :
    Saturating (fun p : σ × β => depth p.1) lock.beside unlock.beside where
  le p := h.le p.1
  lock p := ensures_beside.2 (h.lock p.1)
  unlock p := ensures_beside.2 (h.unlock p.1)

/-! ## The bridge -/

section Bridge

def depthOf (s : Bridge π) : Nat :=
  s.depth.val

theorem depthOf_le (s : Bridge π) : depthOf s ≤ 255 := by
  unfold depthOf
  omega

theorem bridge_saturating : Saturating (depthOf (π := π)) lock unlock where
  le := depthOf_le
  lock s := by
    apply (ensures_lock s).mono ?_ fun _ _ => id
    rintro _ _ ⟨depth, rfl, hdepth⟩
    exact hdepth
  unlock s := by
    by_cases h : 0 < s.depth.val
    · apply (ensures_unlock h).mono ?_ fun _ _ => False.elim
      rintro _ _ ⟨depth, rfl, hdepth⟩
      simp only [depthOf]
      omega
    · unfold Ensures
      rw [unlock_of_zero h]
      simp only [depthOf]
      omega

theorem onBoard_depth (act : Action Failure π α) (n : Nat) :
    (onBoard act).Keeps fun s => depthOf s = n :=
  onBoard_keeps fun _ _ => id

variable (w : Wiring π) (c : Config)

theorem resume_depth (n : Nat) : (resume w).Keeps fun s => depthOf s = n := by
  intro s hs
  unfold resume
  rw [ensures_bind, ensures_get]
  split
  · exact hs
  · rw [ensures_bind]
    apply (onBoard_depth _ n s hs).mono ?_ fun _ _ => id
    exact fun _ _ hs' => hs'

theorem suspend_depth (n : Nat) : (suspend w c).Keeps fun s => depthOf s = n := by
  intro s hs
  unfold suspend
  rw [ensures_bind, ensures_get]
  split
  · rw [ensures_bind]
    apply (onBoard_depth _ n s hs).mono ?_ fun _ _ => id
    intro _ s₁ hs₁
    rw [ensures_bind]
    apply (onBoard_depth _ n s₁ hs₁).mono ?_ fun _ _ => id
    exact fun _ _ hs₂ => hs₂
  · exact hs

theorem lockless_depth (n : Nat) : (master w c).lockless.Keeps fun s => depthOf s = n := by
  have hbytes : ByteMaster.Keeps (master w c).lockless.toByteMaster fun s => depthOf s = n :=
    { reset := onBoard_depth _ n
      readBit := onBoard_depth _ n
      writeBit := fun b => by
        simp only [master, ByteMaster.toMaster, Master.lockless, onBoard_discard]
        exact onBoard_depth _ n
      lock := fun _ hs => hs
      unlock := fun _ hs => hs
      resume := resume_depth w n
      suspend := suspend_depth w c n
      readByte := onBoard_depth _ n
      writeByte := fun _ => onBoard_depth _ n }
  have hreadByte : (master w c).readByte.Keeps fun s => depthOf s = n := onBoard_depth _ n
  have hwriteByte (b : Byte) : ((master w c).writeByte b).Keeps fun s => depthOf s = n :=
    onBoard_depth _ n
  exact
    { hbytes with
      readBlock := ByteMaster.readBlock_keeps hreadByte
      writeBlock := ByteMaster.writeBlock_keeps hwriteByte }

/-! ## Transactions -/

theorem lockless_nests (n : Nat) :
    (master w c).lockless.Nests (master w c).lockless fun _ => Kept fun s => depthOf s = n :=
  (lockless_depth w c n).mirrors.nests

theorem locking_of_lockless {body : Action (Error Failure) (Bridge π) α}
    (h : ∀ n, (between (pure ()) (pure ()) body).Mirrors (Kept fun s => depthOf s = n)
      (between (pure ()) (pure ()) body)) :
    Locking depthOf 1 ((master w c).whileLocked body) := by
  simp only [between_pure, ← keeps_iff_mirrors] at h
  exact (Locking.of_keeps depthOf_le h).between bridge_saturating

theorem readRom_locking : Locking depthOf 1 (master w c).readRom :=
  locking_of_lockless w c fun n => (lockless_nests w c n).readRom (d := 0) (by omega)

theorem matchRom_locking (rom : Rom) : Locking depthOf 1 ((master w c).matchRom rom) :=
  locking_of_lockless w c fun n => (lockless_nests w c n).matchRom (d := 0) (by omega) rom

theorem skipRom_locking : Locking depthOf 1 (master w c).skipRom :=
  locking_of_lockless w c fun n => (lockless_nests w c n).skipRom (d := 0) (by omega)

theorem resumeRom_locking : Locking depthOf 1 (master w c).resumeRom :=
  locking_of_lockless w c fun n => (lockless_nests w c n).resumeRom (d := 0) (by omega)

theorem select_locking (rom : Rom) : Locking depthOf 1 ((master w c).select rom) :=
  locking_of_lockless w c fun n => (lockless_nests w c n).select (d := 0) (by omega) rom

theorem send_locking (rom : Rom) (data : List Byte) :
    Locking depthOf 2 ((master w c).send rom data) := by
  refine Locking.between bridge_saturating ((select_locking w c rom).bind fun _ => ?_)
  exact (Locking.of_keeps depthOf_le fun n => (lockless_depth w c n).writeBlock data).onBus

theorem exchange_locking (rom : Rom) (data : List Byte) (n : Nat) :
    Locking (fun p => depthOf p.1) 2 ((master w c).exchange rom data n) := by
  have hle (p : Bridge π × Vector Byte n) : depthOf p.1 ≤ 255 := depthOf_le p.1
  refine Locking.between bridge_saturating.beside ((select_locking w c rom).beside.bind fun _ => ?_)
  refine Locking.bind ?_ fun _ => ?_
  · exact (Locking.of_keeps depthOf_le fun n => (lockless_depth w c n).writeBlock data).onBus.beside
  · exact (Locking.of_keeps hle fun m => (lockless_depth w c m).readBlock n).onBus

theorem enumerate_locking (limit : Nat) (scope : Search.Scope) (family : Byte) :
    Locking (fun p => depthOf p.1) 1 (Search.enumerate (master w c) limit scope family) := by
  have hle (p : Bridge π × List Rom) : depthOf p.1 ≤ 255 := depthOf_le p.1
  refine Locking.between bridge_saturating.beside (Locking.onBus (.of_keeps hle fun n => ?_))
  rw [keeps_iff_mirrors, ← Search.passes_lockless, ← beside_kept fun s => depthOf s = n]
  exact Search.passes_mirrors ((lockless_nests w c n).pass 0 scope) limit 0 {}

/-- How many locks a transaction holds at once. -/
def nesting : Master.Request → Nat
  | .send _ _ | .exchange _ _ _ => 2
  | _ => 1

theorem perform_depth (limit : Nat) {request : Master.Request}
    (hrequest : request.isTransaction = true) (s : Bridge π) :
    depthOf ((master w c).perform limit request s).2 = min (depthOf s) (255 - nesting request) := by
  cases request with
  | readRom => exact (readRom_locking w c).attempt s
  | matchRom rom => exact (matchRom_locking w c rom).attempt s
  | skipRom => exact (skipRom_locking w c).attempt s
  | resume => exact (resumeRom_locking w c).attempt s
  | select rom => exact (select_locking w c rom).attempt s
  | send rom data => exact (send_locking w c rom data).attempt s
  | exchange rom data buffer => exact (exchange_locking w c rom data _).attempt (s, buffer)
  | enumerate scope family => exact (enumerate_locking w c limit scope family).attempt (s, [])
  | findAll => exact (enumerate_locking w c limit .all _).attempt (s, [])
  | findAlarmed => exact (enumerate_locking w c limit .alarmed _).attempt (s, [])
  | _ => contradiction

theorem whileLocked_iterate_locking {body : Action (Error Failure) (Bridge π) α}
    (hbody : Locking depthOf 0 body) (k : Nat) :
    Locking depthOf k ((master w c).whileLocked^[k] body) := by
  induction k with
  | zero => exact hbody
  | succ k ih =>
    rw [Function.iterate_succ_apply']
    exact ih.between bridge_saturating

/-! ## Locks in a row -/

theorem repeated_lock (n done : Nat) (s : Bridge π) :
    ∃ s', Master.repeated (master w c).lock n done s = (.ok (), done + n, s') ∧
      depthOf s' = min (depthOf s + n) 255 ∧ s'.board = s.board ∧ s'.active = s.active := by
  induction n generalizing done s with
  | zero => exact ⟨s, rfl, by have := depthOf_le s; omega, rfl, rfl⟩
  | succ n ih =>
    obtain ⟨_, s₁, hlock, depth, rfl, hdepth⟩ := (ensures_lock s).returns
    obtain ⟨s', hrest, hdepth', hboard, hactive⟩ := ih (done + 1) { s with depth }
    refine ⟨s', ?_, ?_, hboard, hactive⟩
    · have hcall : (master w c).lock s = .ok () { s with depth } := hlock
      rw [Nat.add_assoc, Nat.add_comm 1] at hrest
      rw [Master.repeated, hcall]
      exact hrest
    · rw [hdepth']
      simp only [depthOf] at hdepth ⊢
      omega

theorem repeated_unlock {n : Nat} (done : Nat) {s : Bridge π} (h : n ≤ depthOf s) :
    ∃ s', Master.repeated (master w c).unlock n done s = (.ok (), done + n, s') ∧
      depthOf s' + n = depthOf s ∧ s'.board = s.board ∧ s'.active = s.active := by
  induction n generalizing done s with
  | zero => exact ⟨s, rfl, rfl, rfl, rfl⟩
  | succ n ih =>
    have hpositive : 0 < s.depth.val := Nat.zero_lt_of_lt h
    obtain ⟨_, s₁, hunlock, depth, rfl, hdepth⟩ := (ensures_unlock hpositive).returns
    have hroom : n ≤ depthOf { s with depth } := by
      simp only [depthOf] at h ⊢
      omega
    obtain ⟨s', hrest, hdepth', hboard, hactive⟩ := ih (done + 1) hroom
    refine ⟨s', ?_, ?_, hboard, hactive⟩
    · have hcall : (master w c).unlock s = .ok () { s with depth } := hunlock
      rw [Nat.add_assoc, Nat.add_comm 1] at hrest
      rw [Master.repeated, hcall]
      exact hrest
    · simp only [depthOf] at hdepth' ⊢
      omega

theorem depth_of_repeated_unlock {n done m : Nat} {s s' : Bridge π}
    (h : Master.repeated (master w c).unlock n done s = (.ok (), m, s')) :
    depthOf s' + n = depthOf s := by
  induction n generalizing done s with
  | zero =>
    cases h
    rfl
  | succ n ih =>
    by_cases hpositive : 0 < s.depth.val
    · obtain ⟨_, s₁, hunlock, depth, rfl, hdepth⟩ := (ensures_unlock hpositive).returns
      have hcall : (master w c).unlock s = .ok () { s with depth } := hunlock
      rw [Master.repeated, hcall] at h
      have hrest := ih h
      simp only [depthOf] at hrest ⊢
      omega
    · have hcall : (master w c).unlock s = .error .unlock s := unlock_of_zero hpositive
      rw [Master.repeated, hcall] at h
      cases h

/--
Any number of locks can be taken, counted up to 255, and as many unlocks undo them exactly if the
count had room for them. Scopes within one another, and transactions, leave the bridge as deep as it
was if there was room for their locks, and else with just that room.
-/
theorem locks_undone_iff (limit : Nat) (s : Bridge π)
    (body : Action (Error Failure) (Bridge π) α)
    (hbody : ∀ n, body.Keeps fun s => s.depth.val = n) :
    (∀ n, ∃ s', Master.repeated (master w c).lock n 0 s = (.ok (), n, s') ∧
        s'.depth.val = min (s.depth.val + n) 255 ∧
        (Master.repeated (master w c).unlock n 0 s' = (.ok (), n, s) ↔ s.depth.val + n ≤ 255)) ∧
      (∀ k, (((master w c).whileLocked^[k] body).attempt s).2.depth.val =
        min s.depth.val (255 - k)) ∧
      ∀ request : Master.Request, request.isTransaction = true →
        ((master w c).perform limit request s).2.depth.val =
          min s.depth.val (255 - nesting request) := by
  refine ⟨fun n => ?_, fun k => ?_, fun request hrequest => perform_depth w c limit hrequest s⟩
  · obtain ⟨s', hlocks, hdepth, hboard, hactive⟩ := repeated_lock w c n 0 s
    rw [Nat.zero_add] at hlocks
    refine ⟨s', hlocks, hdepth, fun hunlocks => ?_, fun hroom => ?_⟩
    · have hdepth' := depth_of_repeated_unlock w c hunlocks
      simp only [depthOf] at hdepth hdepth'
      omega
    · have hle : n ≤ depthOf s' := by
        rw [hdepth]
        simp only [depthOf]
        omega
      obtain ⟨s'', hunlocks, hdepth', hboard', hactive'⟩ := repeated_unlock w c 0 hle
      have hsame : s'' = s := by
        have hval : s''.depth = s.depth := by
          apply Fin.ext
          simp only [depthOf] at hdepth hdepth'
          omega
        cases s
        cases s''
        simp_all
      rw [Nat.zero_add, hsame] at hunlocks
      exact hunlocks
  · exact (whileLocked_iterate_locking w c (.of_keeps depthOf_le hbody) k).attempt s

end Bridge

/-! ## At the greatest count -/

/-- A board where every access goes well and the chip is never busy. -/
def blankWiring : Wiring Unit where
  write _ _ := pure ()
  read _ := pure 0
  setPin := none

theorem locks_undone_iff_room :
    ∃ s s' : Bridge Unit, s.depth = 254 ∧
      Master.repeated (master blankWiring {}).lock 1 0 s = (.ok (), 1, s') ∧ s'.depth = 255 ∧
      Master.repeated (master blankWiring {}).unlock 1 0 s' = (.ok (), 1, s) ∧
      ((master blankWiring {}).perform 1 .skipRom s).2.depth = 254 ∧
      ((master blankWiring {}).perform 1 (.send default []) s).2.depth = 253 := by
  obtain ⟨hlocks, -, hrequests⟩ := locks_undone_iff blankWiring {} 1 { board := (), depth := 254 }
    (pure ()) fun _ _ hs => hs
  obtain ⟨s', hlock, hdepth, hunlock⟩ := hlocks 1
  refine ⟨_, s', rfl, hlock, Fin.ext hdepth, hunlock.2 (by decide), ?_, ?_⟩
  · exact Fin.ext (hrequests .skipRom rfl)
  · exact Fin.ext (hrequests (.send default []) rfl)

/-- At the greatest count a lock is not counted, and the unlock that should undo it is. -/
theorem lock_uncounted :
    ∃ s s' s'' : Bridge Unit,
      Master.repeated (master blankWiring {}).lock 1 0 s = (.ok (), 1, s') ∧
        Master.repeated (master blankWiring {}).unlock 1 0 s' = (.ok (), 1, s'') ∧
        s''.depth ≠ s.depth :=
  ⟨{ board := (), depth := 255 }, { board := (), depth := 255 }, { board := (), depth := 254 }, rfl,
    rfl, by decide⟩

end OneWire.Ds2484
