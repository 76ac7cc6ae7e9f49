import OneWire.Ds2484.Trace
import OneWire.Proofs.Ds2484.Chip

/-!
# What requests to the DS2484 access

Each request is one write and then reads of the status, up to the first that shows the chip idle,
the first that fails, or the limit. All that holds for any answers and any failures.
-/

namespace OneWire.Ds2484

open OneWire.Action

variable {π α β : Type}

/-! ## Accesses of an action -/

/-- Wherever it starts, the action makes accesses that have `P` with its outcome. -/
def Appends (act : Action Failure (π × List BoardEntry) α)
    (P : Except Failure α → List BoardEntry → Prop) : Prop :=
  ∀ p, act.Ensures p
    (fun a p' => ∃ entries, p'.2 = p.2 ++ entries ∧ P (.ok a) entries)
    fun e p' => ∃ entries, p'.2 = p.2 ++ entries ∧ P (.error e) entries

namespace Appends

variable {act : Action Failure (π × List BoardEntry) α}
  {P P' : Except Failure α → List BoardEntry → Prop}

theorem mono (h : Appends act P) (hP : ∀ o entries, P o entries → P' o entries) :
    Appends act P' := by
  intro p
  apply (h p).mono
  · exact fun a p' ⟨entries, hlog, h⟩ => ⟨entries, hlog, hP _ _ h⟩
  · exact fun e p' ⟨entries, hlog, h⟩ => ⟨entries, hlog, hP _ _ h⟩

theorem pure {a : α} (h : P (.ok a) []) :
    Appends (π := π) (pure a) P :=
  fun _ => ⟨[], (List.append_nil _).symm, h⟩

theorem throw {e : Failure} (h : P (.error e) []) :
    Appends (π := π) (throw e) P :=
  fun _ => ⟨[], (List.append_nil _).symm, h⟩

theorem bind {next : α → Action Failure (π × List BoardEntry) β}
    {Q : Except Failure β → List BoardEntry → Prop} (h : Appends act P)
    (herror : ∀ e entries, P (.error e) entries → Q (.error e) entries)
    (hnext : ∀ a entries, P (.ok a) entries →
      Appends (next a) fun o rest => Q o (entries ++ rest)) :
    Appends (act >>= next) Q := by
  intro p
  rw [ensures_bind]
  apply (h p).mono
  · rintro a p₁ ⟨entries, hlog, hP⟩
    apply (hnext a entries hP p₁).mono
    · rintro b p₂ ⟨rest, hlog', hQ⟩
      exact ⟨entries ++ rest, by rw [hlog', hlog, List.append_assoc], hQ⟩
    · rintro e p₂ ⟨rest, hlog', hQ⟩
      exact ⟨entries ++ rest, by rw [hlog', hlog, List.append_assoc], hQ⟩
  · rintro e p₁ ⟨entries, hlog, hP⟩
    exact ⟨entries, hlog, herror e entries hP⟩

end Appends

/-- One access, whose failure counts as `f`. -/
inductive Accessed (f : Failure) (entry : Except Unit α → BoardEntry) :
    Except Failure α → List BoardEntry → Prop
  | done (a : α) : Accessed f entry (.ok a) [entry (.ok a)]
  | failed : Accessed f entry (.error f) [entry (.error ())]

theorem noting_appends (f : Failure) (entry : Except Unit α → BoardEntry) (act : Action Unit π α) :
    Appends (failingAs f (noting entry act)) (Accessed f entry) := by
  intro p
  rw [ensures_failingAs]
  unfold Ensures noting
  cases act p.1 with
  | ok a s => exact ⟨_, rfl, .done a⟩
  | error e s => exact ⟨_, rfl, .failed⟩

/-! ## Requests -/

/-- Reads of the status with a limit on their number, and what they come to. -/
inductive Polling (address : Byte) : Nat → Except Failure Byte → List BoardEntry → Prop
  | stuck : Polling address 0 (.error .timeout) []
  | failed (n : Nat) :
      Polling address (n + 1) (.error .i2c) [.read address (.error ())]
  | idle (n : Nat) {status : Byte} (h : isBusy status = false) :
      Polling address (n + 1) (.ok status) [.read address (.ok status)]
  | busy {n : Nat} {status : Byte} {o : Except Failure Byte} {entries : List BoardEntry}
      (h : isBusy status = true) (rest : Polling address n o entries) :
      Polling address (n + 1) o (.read address (.ok status) :: entries)

/-- A request and the wait for its end. -/
inductive Completing (c : Config) (bytes : List Byte) :
    Except Failure Byte → List BoardEntry → Prop
  | refused : Completing c bytes (.error .i2c) [.write c.address bytes (.error ())]
  | sent {o : Except Failure Byte} {entries : List BoardEntry}
      (h : Polling c.address c.pollLimit o entries) :
      Completing c bytes o (.write c.address bytes (.ok ()) :: entries)

section Requests

variable (w : Wiring π) (c : Config)

theorem request_appends (bytes : List Byte) :
    Appends (request w.traced c bytes) (Accessed .i2c (.write c.address bytes)) :=
  noting_appends .i2c _ _

theorem readRegister_appends :
    Appends (readRegister w.traced c) (Accessed .i2c (.read c.address)) :=
  noting_appends .i2c _ _

theorem poll_appends (n : Nat) : Appends (poll w.traced c n) (Polling c.address n) := by
  induction n with
  | zero => exact .throw .stuck
  | succ n ih =>
    unfold poll
    apply (readRegister_appends w c).bind
    · rintro _ _ ⟨⟩
      exact .failed n
    · rintro status _ ⟨⟩
      cases hbusy : isBusy status with
      | true => exact ih.mono fun _ _ h => .busy hbusy h
      | false => exact .pure (.idle n hbusy)

theorem complete_appends (bytes : List Byte) :
    Appends (complete w.traced c bytes) (Completing c bytes) := by
  unfold complete
  apply (request_appends w c bytes).bind
  · rintro _ _ ⟨⟩
    exact .refused
  · rintro _ _ ⟨⟩
    exact (poll_appends w c c.pollLimit).mono fun _ _ h => .sent h

end Requests

theorem Polling.of_ok {address : Byte} {n : Nat} {status : Byte} {entries : List BoardEntry}
    (h : Polling address n (.ok status) entries) :
    isBusy status = false ∧ ∃ busy : List Byte, (∀ b ∈ busy, isBusy b = true) ∧
      entries = busy.map (fun b => .read address (.ok b)) ++ [.read address (.ok status)] := by
  generalize ho : Except.ok status = o at h
  induction h with
  | stuck => cases ho
  | failed => cases ho
  | idle n hidle =>
    cases ho
    exact ⟨hidle, [], by simp, rfl⟩
  | @busy n b o entries hbusy _ ih =>
    obtain ⟨hidle, busy, hall, rfl⟩ := ih ho
    exact ⟨hidle, b :: busy, List.forall_mem_cons.2 ⟨hbusy, hall⟩, rfl⟩

end OneWire.Ds2484
