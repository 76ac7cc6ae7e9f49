import OneWire.Proofs.Ds2484.Polling
import OneWire.Proofs.Master.Keeps

/-!
# The pin SLPZ

Its level is the last one that was set. No request touches it but those for power.
-/

namespace OneWire.Ds2484

open OneWire.Action Bridge

variable {π α β : Type}

/-! ## The level of SLPZ -/

def BoardEntry.isPin : BoardEntry → Bool
  | .pin _ _ => true
  | .write _ _ _ | .read _ _ => false

theorem pinLevel_append_of_pinless {log entries : List BoardEntry}
    (h : ∀ e ∈ entries, e.isPin = false) : pinLevel (log ++ entries) = pinLevel log := by
  induction entries using List.reverseRecOn with
  | nil => rw [List.append_nil]
  | append_singleton entries e ih =>
    have he : e.isPin = false := h e (by simp)
    rw [← ih fun e he => h e (by simp [he]), ← List.append_assoc]
    unfold pinLevel
    rw [List.foldl_append]
    cases e with
    | pin => contradiction
    | _ => rfl

theorem pinLevel_concat_ok (log : List BoardEntry) (high : Bool) :
    pinLevel (log ++ [.pin high (.ok ())]) = some high := by
  unfold pinLevel
  rw [List.foldl_append]
  rfl

theorem pinLevel_concat_error (log : List BoardEntry) (high : Bool) :
    pinLevel (log ++ [.pin high (.error ())]) = pinLevel log := by
  unfold pinLevel
  rw [List.foldl_append]
  rfl

/-! ## Requests that leave the pin alone -/

/-- Whatever becomes of it, the action does not touch the pin. -/
def Pinless (act : Action Failure (π × List BoardEntry) α) : Prop :=
  Appends act fun _ entries => ∀ e ∈ entries, e.isPin = false

theorem Polling.pinless {address : Byte} {n : Nat} {o : Except Failure Byte}
    {entries : List BoardEntry} (h : Polling address n o entries) :
    ∀ e ∈ entries, e.isPin = false := by
  induction h with
  | stuck => simp
  | failed => simp [BoardEntry.isPin]
  | idle => simp [BoardEntry.isPin]
  | busy _ _ ih => simpa [BoardEntry.isPin] using ih

theorem Completing.pinless {c : Config} {bytes : List Byte} {o : Except Failure Byte}
    {entries : List BoardEntry} (h : Completing c bytes o entries) :
    ∀ e ∈ entries, e.isPin = false := by
  cases h with
  | refused => simp [BoardEntry.isPin]
  | sent h => simpa [BoardEntry.isPin] using h.pinless

theorem Accessed.pinless {f : Failure} {entry : Except Unit α → BoardEntry}
    {o : Except Failure α} {entries : List BoardEntry} (h : Accessed f entry o entries)
    (hentry : ∀ o, (entry o).isPin = false) : ∀ e ∈ entries, e.isPin = false := by
  cases h <;> simpa using hentry _

namespace Pinless

theorem pure (a : α) : Pinless (π := π) (pure a) :=
  Appends.pure (by simp)

theorem throw (e : Failure) : Pinless (π := π) (α := α) (throw e) :=
  Appends.throw (by simp)

theorem bind {act : Action Failure (π × List BoardEntry) α}
    {next : α → Action Failure (π × List BoardEntry) β} (h : Pinless act)
    (hnext : ∀ a, Pinless (next a)) : Pinless (act >>= next) := by
  apply Appends.bind h
  · exact fun _ _ h => h
  · intro a entries hentries
    apply (hnext a).mono
    exact fun _ _ hrest => List.forall_mem_append.2 ⟨hentries, hrest⟩

variable (w : Wiring π) (c : Config)

theorem request (bytes : List Byte) : Pinless (request w.traced c bytes) :=
  (request_appends w c bytes).mono fun _ _ h => h.pinless fun _ => rfl

theorem readRegister : Pinless (readRegister w.traced c) :=
  (readRegister_appends w c).mono fun _ _ h => h.pinless fun _ => rfl

theorem complete (bytes : List Byte) : Pinless (complete w.traced c bytes) :=
  (complete_appends w c bytes).mono fun _ _ h => h.pinless

theorem resetChip : Pinless (resetChip w.traced c) := by
  unfold Ds2484.resetChip
  apply (request w c _).bind
  intro _
  apply (readRegister w c).bind
  intro status
  split
  · exact pure ()
  · exact throw _

theorem configure (configuration : Byte) : Pinless (configure w.traced c configuration) := by
  unfold Ds2484.configure
  apply (request w c _).bind
  intro _
  apply (readRegister w c).bind
  intro readback
  split
  · exact pure ()
  · exact throw _

end Pinless

/-- From `s` to `t` neither the flag nor the pin was touched. -/
def Untouched (s t : Bridge (π × List BoardEntry)) : Prop :=
  t.active = s.active ∧ ∃ entries, t.board.2 = s.board.2 ++ entries ∧ ∀ e ∈ entries, e.isPin = false

theorem Pinless.onBoard_keeps {act : Action Failure (π × List BoardEntry) α} (h : Pinless act)
    (s : Bridge (π × List BoardEntry)) : (onBoard act).Keeps (Untouched s) := by
  rintro t ⟨hactive, entries, hlog, hentries⟩
  have hstep (p : π × List BoardEntry)
      (hp : ∃ rest, p.2 = t.board.2 ++ rest ∧ ∀ e ∈ rest, e.isPin = false) :
      Untouched s { t with board := p } := by
    obtain ⟨rest, hp, hrest⟩ := hp
    refine ⟨hactive, entries ++ rest, ?_, List.forall_mem_append.2 ⟨hentries, hrest⟩⟩
    rw [hp, hlog, List.append_assoc]
  rw [ensures_onBoard]
  apply (h t.board).mono
  · exact fun _ p hp => hstep p hp
  · exact fun _ p hp => hstep p hp

theorem master_keeps (w : Wiring π) (c : Config) (s : Bridge (π × List BoardEntry)) :
    (master w.traced c).unpowered.Keeps (Untouched s) := by
  have hreset : Pinless (reset w.traced c) := (Pinless.complete w c _).bind fun _ => .pure _
  have hslot (b : Bool) : Pinless (slot w.traced c b) :=
    (Pinless.complete w c _).bind fun _ => .pure _
  have hwriteByte (b : Byte) : Pinless (writeByte w.traced c b) :=
    (Pinless.complete w c _).bind fun _ => .pure _
  have hreadByte : Pinless (readByte w.traced c) :=
    (Pinless.complete w c _).bind fun _ =>
      (Pinless.request w c _).bind fun _ => Pinless.readRegister w c
  have hbytes : ByteMaster.Keeps (master w.traced c).unpowered.toByteMaster (Untouched s) :=
    { reset := hreset.onBoard_keeps s
      readBit := (hslot true).onBoard_keeps s
      writeBit := fun b => by
        simp only [master, ByteMaster.toMaster, Master.unpowered, onBoard_discard]
        exact ((hslot b).bind fun _ => .pure _).onBoard_keeps s
      lock := lock_keeps fun _ _ => id
      unlock := unlock_keeps fun _ _ => id
      resume := fun t ht => ht
      suspend := fun t ht => ht
      readByte := hreadByte.onBoard_keeps s
      writeByte := fun b => (hwriteByte b).onBoard_keeps s }
  have hreadBlock : ∀ n, ((master w.traced c).readBlock n).Keeps fun p => Untouched s p.1 :=
    ByteMaster.readBlock_keeps hbytes.readByte
  have hwriteBlock : ∀ data, ((master w.traced c).writeBlock data).Keeps (Untouched s) :=
    ByteMaster.writeBlock_keeps hbytes.writeByte
  exact { hbytes with readBlock := hreadBlock, writeBlock := hwriteBlock }

end OneWire.Ds2484
