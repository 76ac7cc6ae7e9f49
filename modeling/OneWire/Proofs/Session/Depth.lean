import OneWire.Proofs.Master.Keeps
import OneWire.Proofs.Mirror.Session

/-!
# Buses that count their locks

The depth of a bus that counts is what the log of its calls accounts for.
-/

namespace OneWire

open OneWire.Action

variable {σ ε : Type}

/-! ## What hosts keep -/

structure Host.Keeps (host : Host σ ε) (I : σ → Prop) : Prop
    extends master : host.toMaster.Keeps I where
  delay (ms : Nat) (s : σ) (hs : I s) : I (host.delay ms s)

theorem Host.Keeps.mirrors {I : σ → Prop} {host : Host σ ε} (h : host.Keeps I) :
    host.Mirrors host (Kept I) where
  master := h.master.mirrors
  delay ms _ _ hst := ⟨h.delay ms _ hst.1, congrArg (host.delay ms) hst.2⟩

theorem Host.Keeps.run {I : σ → Prop} {host : Host σ ε} (h : host.Keeps I) (limit : Nat)
    (operations : List Operation) {s : Session σ} (hs : I s.bus) :
    I (Session.run host limit operations s).2.bus := by
  obtain ⟨-, bus, hbus, -⟩ := h.mirrors.run limit operations (s := s) ⟨s.bus, ⟨hs, rfl⟩, rfl⟩
  exact hbus.1

/-! ## Counting -/

/-- A bus counts the locks that it gave out and did not get back. -/
structure Host.Counts (host : Host σ ε) (depth : σ → Nat) : Prop where
  lock (s : σ) : host.lock.Ensures s (fun _ s' => depth s' = depth s + 1)
    fun _ s' => depth s' = depth s
  unlock (s : σ) : host.unlock.Ensures s (fun _ s' => depth s' + 1 = depth s)
    fun _ s' => depth s' = depth s
  reset (n : Nat) : host.reset.Keeps (depth · = n)
  readBit (n : Nat) : host.readBit.Keeps (depth · = n)
  writeBit (b : Bool) (n : Nat) : (host.writeBit b).Keeps (depth · = n)
  readByte (n : Nat) : host.readByte.Keeps (depth · = n)
  writeByte (b : Byte) (n : Nat) : (host.writeByte b).Keeps (depth · = n)
  readBlock (k n : Nat) : (host.readBlock k).Keeps fun p => depth p.1 = n
  writeBlock (data : List Byte) (n : Nat) : (host.writeBlock data).Keeps (depth · = n)
  resume (n : Nat) : host.resume.Keeps (depth · = n)
  suspend (n : Nat) : host.suspend.Keeps (depth · = n)
  delay (ms : Nat) (s : σ) : depth (host.delay ms s) = depth s

/-- What the entry adds to the depth of a bus that counts. -/
def Entry.depthChange (e : Entry ε) : Int :=
  e.lockChange + if e.isFailedUnlock then 1 else 0

/-- The depth that a log accounts for. -/
def Accounted (depth : σ → Nat) (start : Int) (p : σ × List (Entry ε)) : Prop :=
  (depth p.1 : Int) = start + outstanding p.2 + p.2.countP Entry.isFailedUnlock

theorem Accounted.concat {depth : σ → Nat} {start : Int} {p : σ × List (Entry ε)} {s : σ}
    {e : Entry ε} (h : Accounted depth start p) (hs : (depth s : Int) = depth p.1 + e.depthChange) :
    Accounted depth start (s, p.2 ++ [e]) := by
  unfold Accounted at h ⊢
  rw [hs, h, Entry.depthChange]
  cases he : e.isFailedUnlock <;> simp [he] <;> omega

namespace Host.Counts

variable {host : Host σ ε} {depth : σ → Nat}

theorem keeps_traced {α : Type} {start : Int} {entry : Except ε α → Entry ε} {act : Action ε σ α}
    (h : ∀ s, act.Ensures s (fun a s' => (depth s' : Int) = depth s + (entry (.ok a)).depthChange)
      fun e s' => (depth s' : Int) = depth s + (entry (.error e)).depthChange) :
    (act.traced entry).Keeps (Accounted depth start) := by
  intro p hp
  exact Action.ensures_traced.2
    ((h p.1).mono (fun _ _ hs => hp.concat hs) fun _ _ hs => hp.concat hs)

theorem keeps_traced_quiet {α : Type} {start : Int} {entry : Except ε α → Entry ε}
    {act : Action ε σ α} (hentry : ∀ o, (entry o).depthChange = 0)
    (h : ∀ n, act.Keeps (depth · = n)) : (act.traced entry).Keeps (Accounted depth start) := by
  refine keeps_traced fun s => (h (depth s) s rfl).mono (fun a s' hs' => ?_) fun e s' hs' => ?_
  · rw [hs', hentry, Int.add_zero]
  · rw [hs', hentry, Int.add_zero]

theorem keeps (h : host.Counts depth) (start : Int) :
    host.traced.Keeps (Accounted depth start) where
  reset := keeps_traced_quiet (fun _ => rfl) h.reset
  readBit := keeps_traced_quiet (fun _ => rfl) h.readBit
  writeBit b := keeps_traced_quiet (fun _ => rfl) (h.writeBit b)
  readByte := keeps_traced_quiet (fun _ => rfl) h.readByte
  writeByte b := keeps_traced_quiet (fun _ => rfl) (h.writeByte b)
  readBlock k := by
    intro p hp
    refine Action.ensures_tracedFill.2 ((h.readBlock k (depth p.1.1) (p.1.1, p.2) rfl).mono ?_ ?_)
    · exact fun _ q hq => hp.concat (by rw [hq]; rfl)
    · exact fun _ q hq => hp.concat (by rw [hq]; rfl)
  writeBlock data := keeps_traced_quiet (fun _ => rfl) (h.writeBlock data)
  lock := by
    refine keeps_traced fun s => (h.lock s).mono (fun _ s' hs' => ?_) fun _ s' hs' => ?_
    · rw [hs']
      rfl
    · rw [hs']
      rfl
  unlock := by
    refine keeps_traced fun s => (h.unlock s).mono (fun _ s' hs' => ?_) fun _ s' hs' => ?_
    · rw [← hs']
      simp [Entry.depthChange, Entry.lockChange, Entry.isFailedUnlock]
    · rw [hs']
      rfl
  resume := keeps_traced_quiet (fun _ => rfl) h.resume
  suspend := keeps_traced_quiet (fun _ => rfl) h.suspend
  delay ms p hp := hp.concat (by rw [h.delay]; rfl)

end Host.Counts

end OneWire
