import OneWire.Bench.Board
import OneWire.Line.Shared
import OneWire.Proofs.Ds2484.Pin

/-!
# The power of the DS2484

The flag of the bridge and the level of SLPZ agree after each operation, whatever the chip answers
and whatever fails. The chip is put to sleep only after it has shown itself idle.
-/

namespace OneWire.Ds2484

open OneWire.Action Bridge

variable {π α : Type}

/-! ## Requests for power -/

/-- What comes of waking a chip that sleeps. -/
inductive Waking : Except Failure PowerChange → List BoardEntry → Prop
  | failed : Waking (.error .gpio) [.pin true (.error ())]
  | awake : Waking (.ok .changed) [.pin true (.ok ())]

/-- What comes of putting a chip to sleep that is awake. -/
inductive Sleeping (c : Config) : Except Failure PowerChange → List BoardEntry → Prop
  | unsettled {e : Failure} {entries : List BoardEntry}
      (h : Completing c [setReadPointer, statusPointer] (.error e) entries) :
      Sleeping c (.error e) entries
  | failed {status : Byte} {entries : List BoardEntry}
      (h : Completing c [setReadPointer, statusPointer] (.ok status) entries) :
      Sleeping c (.error .gpio) (entries ++ [.pin false (.error ())])
  | asleep {status : Byte} {entries : List BoardEntry}
      (h : Completing c [setReadPointer, statusPointer] (.ok status) entries) :
      Sleeping c (.ok .changed) (entries ++ [.pin false (.ok ())])

/-- What a request does to the flag, and the accesses it makes. -/
inductive PowerStep (c : Config) :
    Bool → Master.Request → Master.Answer Failure → Bool → List BoardEntry → Prop
  | awake : PowerStep c true .powerUp (.power (.ok .already)) true []
  | wakes {o : Except Failure PowerChange} {entries : List BoardEntry} (h : Waking o entries) :
      PowerStep c false .powerUp (.power o) o.isOk entries
  | asleep : PowerStep c false .powerDown (.power (.ok .already)) false []
  | sleeps {o : Except Failure PowerChange} {entries : List BoardEntry} (h : Sleeping c o entries) :
      PowerStep c true .powerDown (.power o) (!o.isOk) entries
  | other {active : Bool} {request : Master.Request} {answer : Master.Answer Failure}
      {entries : List BoardEntry} (hup : request ≠ .powerUp) (hdown : request ≠ .powerDown)
      (hpinless : ∀ e ∈ entries, e.isPin = false) :
      PowerStep c active request answer active entries

/-- From `s` the action makes accesses that have `P` with its outcome and the flag it leaves. -/
def Switching (act : Action Failure (Bridge (π × List BoardEntry)) α)
    (s : Bridge (π × List BoardEntry)) (P : Except Failure α → Bool → List BoardEntry → Prop) :
    Prop :=
  act.Ensures s
    (fun a s' => ∃ entries, s'.board.2 = s.board.2 ++ entries ∧ P (.ok a) s'.active entries)
    fun e s' => ∃ entries, s'.board.2 = s.board.2 ++ entries ∧ P (.error e) s'.active entries

theorem Switching.outcome {act : Action Failure (Bridge (π × List BoardEntry)) α}
    {s : Bridge (π × List BoardEntry)} {P : Except Failure α → Bool → List BoardEntry → Prop}
    (h : Switching act s P) :
    ∃ entries, (act.attempt s).2.board.2 = s.board.2 ++ entries ∧
      P (act.attempt s).1 (act.attempt s).2.active entries :=
  Ensures.outcome (P := fun o (s' : Bridge (π × List BoardEntry)) =>
    ∃ entries, s'.board.2 = s.board.2 ++ entries ∧ P o s'.active entries) h

section Power

variable {w : Wiring π} {set : Bool → Action Unit π Unit} (hpin : w.setPin = some set) (c : Config)
  (s : Bridge (π × List BoardEntry))
include hpin

theorem setPin_appends (high : Bool) :
    Appends (setPin w.traced high) (Accessed .gpio (.pin high)) := by
  have hset : w.traced.setPin = some fun high => noting (.pin high) (set high) := by
    simp [Wiring.traced, hpin]
  unfold setPin
  rw [hset]
  exact noting_appends .gpio _ _

theorem resume_switching :
    Switching (resume w.traced) s fun o => PowerStep c s.active .powerUp (.power o) := by
  unfold Switching resume
  rw [ensures_bind, ensures_get]
  cases hs : s.active with
  | true => exact ⟨[], (List.append_nil _).symm, by rw [hs]; exact .awake⟩
  | false =>
    rw [if_neg (by simp), ensures_bind, ensures_onBoard]
    apply (setPin_appends hpin true s.board).mono
    · rintro _ p ⟨entries, hlog, ⟨⟩⟩
      exact ⟨_, hlog, .wakes .awake⟩
    · rintro e p ⟨entries, hlog, ⟨⟩⟩
      exact ⟨_, hlog, by rw [hs]; exact .wakes .failed⟩

theorem suspend_switching :
    Switching (suspend w.traced c) s fun o => PowerStep c s.active .powerDown (.power o) := by
  unfold Switching suspend settle
  rw [ensures_bind, ensures_get]
  cases hs : s.active with
  | true =>
    rw [if_pos rfl, ensures_bind, ensures_onBoard, ensures_bind]
    apply (complete_appends w c _ s.board).mono
    · rintro status p ⟨entries, hlog, hcompleting⟩
      rw [ensures_pure, ensures_bind, ensures_onBoard]
      apply (setPin_appends hpin false p).mono
      · rintro _ p' ⟨_, hlog', ⟨⟩⟩
        exact ⟨_, by rw [hlog', hlog, List.append_assoc], .sleeps (.asleep hcompleting)⟩
      · rintro e p' ⟨_, hlog', ⟨⟩⟩
        refine ⟨_, by rw [hlog', hlog, List.append_assoc], ?_⟩
        rw [hs]
        exact .sleeps (.failed hcompleting)
    · rintro e p ⟨entries, hlog, hcompleting⟩
      refine ⟨entries, hlog, ?_⟩
      rw [hs]
      exact .sleeps (.unsettled hcompleting)
  | false => exact ⟨[], (List.append_nil _).symm, by rw [hs]; exact .asleep⟩

/-- Everything that can be asked of the bridge is such a step. -/
theorem perform_powerStep (limit : Nat) (request : Master.Request) :
    ∃ entries, ((master w.traced c).perform limit request s).2.board.2 = s.board.2 ++ entries ∧
      PowerStep c s.active request ((master w.traced c).perform limit request s).1
        ((master w.traced c).perform limit request s).2.active entries := by
  by_cases hup : request = .powerUp
  · subst hup
    exact (resume_switching hpin c s).outcome
  by_cases hdown : request = .powerDown
  · subst hdown
    exact (suspend_switching hpin c s).outcome
  obtain ⟨hactive, entries, hlog, hpinless⟩ := (master_keeps w c s).perform_unpowered limit hup
    hdown ⟨rfl, [], (List.append_nil _).symm, by simp⟩
  refine ⟨entries, hlog, ?_⟩
  rw [hactive]
  exact .other hup hdown hpinless

end Power

namespace PowerStep

variable {c : Config} {active active' : Bool} {request : Master.Request}
  {answer : Master.Answer Failure} {entries : List BoardEntry}

theorem level (h : PowerStep c active request answer active' entries) {log : List BoardEntry}
    (hlog : pinLevel log = some active) : pinLevel (log ++ entries) = some active' := by
  cases h with
  | awake => rwa [List.append_nil]
  | wakes h =>
    cases h with
    | failed => rwa [pinLevel_concat_error]
    | awake => exact pinLevel_concat_ok log true
  | asleep => rwa [List.append_nil]
  | sleeps h =>
    cases h with
    | unsettled h => rwa [pinLevel_append_of_pinless h.pinless]
    | failed h =>
      rwa [← List.append_assoc, pinLevel_concat_error, pinLevel_append_of_pinless h.pinless]
    | asleep h =>
      rw [← List.append_assoc]
      exact pinLevel_concat_ok _ false
  | other _ _ hpinless => rwa [pinLevel_append_of_pinless hpinless]

theorem active_of_error (h : PowerStep c active request answer active' entries) {e : Failure}
    (herror : answer = .power (.error e)) : active' = active := by
  cases h with
  | awake => rfl
  | wakes =>
    cases herror
    rfl
  | asleep => rfl
  | sleeps =>
    cases herror
    rfl
  | other => rfl

theorem already_iff_awake (h : PowerStep c active .powerUp answer active' entries) :
    answer = .power (.ok .already) ↔ active = true := by
  cases h with
  | awake => simp
  | wakes h => cases h <;> simp
  | other hup => contradiction

theorem already_iff_asleep (h : PowerStep c active .powerDown answer active' entries) :
    answer = .power (.ok .already) ↔ active = false := by
  cases h with
  | asleep => simp
  | sleeps h => cases h <;> simp
  | other _ hdown => contradiction

theorem silent_of_up (h : PowerStep c active .powerUp answer active' entries)
    (halready : answer = .power (.ok .already)) : entries = [] := by
  cases h with
  | awake => rfl
  | wakes h => cases h <;> simp at halready
  | other hup => contradiction

theorem silent_of_down (h : PowerStep c active .powerDown answer active' entries)
    (halready : answer = .power (.ok .already)) : entries = [] := by
  cases h with
  | asleep => rfl
  | sleeps h => cases h <;> simp at halready
  | other _ hdown => contradiction

theorem pinless_of_other (h : PowerStep c active request answer active' entries)
    (hup : request ≠ .powerUp) (hdown : request ≠ .powerDown) :
    active' = active ∧ ∀ e ∈ entries, e.isPin = false := by
  cases h with
  | other _ _ hpinless => exact ⟨rfl, hpinless⟩
  | awake | wakes => exact absurd rfl hup
  | asleep | sleeps => exact absurd rfl hdown

end PowerStep

/-! ## Going to sleep -/

/-- The chip was asked for its status, and all it did since is to show itself idle at last. -/
def Settled (c : Config) (entries : List BoardEntry) : Prop :=
  ∃ (busy : List Byte) (idle : Byte), (∀ status ∈ busy, isBusy status = true) ∧
    isBusy idle = false ∧
    entries = .write c.address [setReadPointer, statusPointer] (.ok ()) ::
      (busy ++ [idle]).map fun status => .read c.address (.ok status)

theorem Completing.settled {c : Config} {status : Byte} {entries : List BoardEntry}
    (h : Completing c [setReadPointer, statusPointer] (.ok status) entries) :
    Settled c entries := by
  cases h with
  | sent h =>
    obtain ⟨hidle, busy, hbusy, rfl⟩ := h.of_ok
    exact ⟨busy, status, hbusy, hidle, by rw [List.map_append, List.map_singleton]⟩

theorem eq_of_pinless_concat {entries before after : List BoardEntry} {e e' : BoardEntry}
    (h : entries ++ [e] = before ++ e' :: after) (hpinless : ∀ e ∈ entries, e.isPin = false)
    (he' : e'.isPin = true) : before = entries ∧ after = [] := by
  induction after using List.reverseRecOn with
  | nil => exact ⟨(List.append_inj_left' h rfl).symm, rfl⟩
  | append_singleton after e'' =>
    rw [← List.cons_append, ← List.append_assoc] at h
    have hmem : e' ∈ entries := by simp [List.append_inj_left' h rfl]
    simp [hpinless e' hmem] at he'

theorem PowerStep.low {c : Config} {active active' : Bool} {request : Master.Request}
    {answer : Master.Answer Failure} {before after : List BoardEntry} {o : Except Unit Unit}
    (h : PowerStep c active request answer active' (before ++ .pin false o :: after)) :
    request = .powerDown ∧ Settled c before ∧ after = [] := by
  generalize hentries : before ++ .pin false o :: after = entries at h
  have hmem : .pin false o ∈ entries := by simp [← hentries]
  have hnot (hpinless : ∀ e ∈ entries, e.isPin = false) : False := by
    simpa [BoardEntry.isPin] using hpinless _ hmem
  cases h with
  | awake => simp at hmem
  | wakes h => cases h <;> simp at hmem
  | asleep => simp at hmem
  | sleeps h =>
    cases h with
    | unsettled h => exact (hnot h.pinless).elim
    | failed h | asleep h =>
      obtain ⟨rfl, rfl⟩ := eq_of_pinless_concat hentries.symm h.pinless rfl
      exact ⟨rfl, h.settled, rfl⟩
  | other _ _ hpinless => exact (hnot hpinless).elim

/-! ## Runs -/

/-- From `s` to `s'` a request was answered with these accesses, and the chip was awake exactly
while the bridge took it to be. -/
structure Guarded (c : Config) (s : Bridge (π × List BoardEntry)) (request : Master.Request)
    (answer : Master.Answer Failure) (s' : Bridge (π × List BoardEntry))
    (entries : List BoardEntry) : Prop where
  log : s'.board.2 = s.board.2 ++ entries
  level : pinLevel s'.board.2 = some s'.active
  /-- The level goes low, or is to go low, at the very end of a request to power down. -/
  low {before after : List BoardEntry} {o : Except Unit Unit}
    (h : entries = before ++ .pin false o :: after) :
    request = .powerDown ∧ Settled c before ∧ after = []
  failed {e : Failure} (h : answer = .power (.error e)) :
    s'.active = s.active ∧ pinLevel s'.board.2 = pinLevel s.board.2
  powerUp (h : request = .powerUp) :
    (answer = .power (.ok .already) ↔ pinLevel s.board.2 = some true) ∧
      (answer = .power (.ok .already) → entries = [])
  powerDown (h : request = .powerDown) :
    (answer = .power (.ok .already) ↔ pinLevel s.board.2 = some false) ∧
      (answer = .power (.ok .already) → entries = [])
  other (hup : request ≠ .powerUp) (hdown : request ≠ .powerDown) :
    s'.active = s.active ∧ ∀ e ∈ entries, e.isPin = false

theorem PowerStep.guarded {c : Config} {s s' : Bridge (π × List BoardEntry)}
    {request : Master.Request} {answer : Master.Answer Failure} {entries : List BoardEntry}
    (h : PowerStep c s.active request answer s'.active entries)
    (hlog : s'.board.2 = s.board.2 ++ entries) (hlevel : pinLevel s.board.2 = some s.active) :
    Guarded c s request answer s' entries := by
  have hlevel' : pinLevel s'.board.2 = some s'.active := by
    rw [hlog]
    exact h.level hlevel
  constructor
  case log => exact hlog
  case level => exact hlevel'
  case low =>
    rintro before after o rfl
    exact h.low
  case failed =>
    intro e herror
    have hactive := h.active_of_error herror
    exact ⟨hactive, by rw [hlevel', hlevel, hactive]⟩
  case powerUp =>
    rintro rfl
    rw [hlevel, Option.some_inj, ← h.already_iff_awake]
    exact ⟨Iff.rfl, h.silent_of_up⟩
  case powerDown =>
    rintro rfl
    rw [hlevel, Option.some_inj, ← h.already_iff_asleep]
    exact ⟨Iff.rfl, h.silent_of_down⟩
  case other => exact h.pinless_of_other

section Runs

variable {w : Wiring π} {set : Bool → Action Unit π Unit} (hpin : w.setPin = some set)
include hpin

theorem start_ensures (c : Config) {s : Bridge (π × List BoardEntry)} (hs : s.board.2 = []) :
    (start w.traced c).Ensures s
      (fun _ s' => s'.active = true ∧ ∃ entries, s'.board.2 = .pin true (.ok ()) :: entries ∧
        ∀ e ∈ entries, e.isPin = false)
      fun _ _ => True := by
  unfold start
  rw [ensures_bind, ensures_onBoard]
  apply (setPin_appends hpin true s.board).mono ?_ fun _ _ _ => trivial
  rintro _ p ⟨_, hlog, ⟨⟩⟩
  rw [hs, List.nil_append] at hlog
  rw [ensures_bind, ensures_modify, ensures_bind]
  let awake : Bridge (π × List BoardEntry) := { s with board := p, active := true }
  have hreset := (Pinless.resetChip w c).onBoard_keeps awake awake
    ⟨rfl, [], (List.append_nil _).symm, by simp⟩
  apply hreset.mono ?_ fun _ _ _ => trivial
  intro _ s₁ h₁
  apply ((Pinless.configure w c c.register).onBoard_keeps awake s₁ h₁).mono ?_ fun _ _ _ => trivial
  rintro _ s₂ ⟨hactive, entries, hlog', hpinless⟩
  exact ⟨hactive, entries, by rw [hlog', hlog]; rfl, hpinless⟩

theorem performAll_level (c : Config) (limit : Nat) (requests : List Master.Request)
    {s : Bridge (π × List BoardEntry)} (hs : pinLevel s.board.2 = some s.active) :
    pinLevel ((master w.traced c).performAll limit requests s).board.2 =
      some ((master w.traced c).performAll limit requests s).active := by
  induction requests generalizing s with
  | nil => exact hs
  | cons request requests ih =>
    obtain ⟨entries, hlog, hstep⟩ := perform_powerStep hpin c s limit request
    exact ih (hstep.guarded hlog hs).level

/-- After any requests the flag and the level agree, whatever the chip answered and whatever
failed, and the next request keeps it so. -/
theorem start_guarded (c : Config) (limit : Nat) {board : π} {s₀ : Bridge (π × List BoardEntry)}
    (hstart : start w.traced c (.new (board, [])) = .ok () s₀) :
    (pinLevel s₀.board.2 = some s₀.active ∧ ∀ o, .pin false o ∉ s₀.board.2) ∧
      ∀ (requests : List Master.Request) (request : Master.Request)
        (s s' : Bridge (π × List BoardEntry)) (answer : Master.Answer Failure),
        (master w.traced c).performAll limit requests s₀ = s →
        (master w.traced c).perform limit request s = (answer, s') →
        ∃ entries, Guarded c s request answer s' entries := by
  obtain ⟨hactive, entries, hlog, hpinless⟩ := (start_ensures hpin c rfl).of_ok hstart
  have hlevel : pinLevel s₀.board.2 = some s₀.active := by
    rw [hlog, hactive]
    change pinLevel ([.pin true (.ok ())] ++ entries) = some true
    rw [pinLevel_append_of_pinless hpinless]
    rfl
  refine ⟨⟨hlevel, ?_⟩, ?_⟩
  · intro o ho
    rw [hlog] at ho
    have hmem : .pin false o ∈ entries := by simpa using ho
    simpa [BoardEntry.isPin] using hpinless _ hmem
  · rintro requests request s s' answer rfl hperform
    obtain ⟨entries, hlog, hstep⟩ := perform_powerStep hpin c
      ((master w.traced c).performAll limit requests s₀) limit request
    rw [hperform] at hlog hstep
    exact ⟨entries, hstep.guarded hlog (performAll_level hpin c limit requests hlevel)⟩

end Runs

/-- The pin fails at the first attempt to put the chip to sleep. -/
def stubborn : Bench.Board Line where
  line := .ofDevices []
  peer := .chip {}
  meter := { plan := fun m n => m == .pinLow && n == 0 }
  pin := some false

/-- The chip stays awake after the failure, and sleeps after the next attempt. -/
theorem start_guarded_stubborn :
    ∃ s₀ s s', start (Bench.Board.wiring .driven).traced {} (.new (stubborn, [])) = .ok () s₀ ∧
      (master (Bench.Board.wiring .driven).traced {}).performAll 4 [.reset, .powerDown] s₀ = s ∧
      (master (Bench.Board.wiring .driven).traced {}).perform 4 .powerDown s =
        (.power (.ok .changed), s') ∧
      s.active = true ∧ s'.active = false ∧
      ∃ entries, Guarded {} s .powerDown (.power (.ok .changed)) s' entries := by
  have hstart : start (Bench.Board.wiring .driven).traced {} (.new (stubborn, [])) = .ok ()
      ((start (Bench.Board.wiring .driven).traced {}).attempt (.new (stubborn, []))).2 :=
    eq_ok_of_attempt (by decide +kernel)
  obtain ⟨s, hs⟩ : ∃ s, (master (Bench.Board.wiring .driven).traced {}).performAll 4
      [.reset, .powerDown] ((start (Bench.Board.wiring .driven).traced {}).attempt
        (.new (stubborn, []))).2 = s := ⟨_, rfl⟩
  have hactive : s.active = true := by
    rw [← hs]
    decide +kernel
  have hchanged : ((suspend (Bench.Board.wiring .driven).traced {}).attempt s).1 =
      .ok .changed := by
    rw [← hs]
    decide +kernel
  have hactive' : ((suspend (Bench.Board.wiring .driven).traced {}).attempt s).2.active =
      false := by
    rw [← hs]
    decide +kernel
  have hperform : (master (Bench.Board.wiring .driven).traced {}).perform 4 .powerDown s =
      (.power (.ok .changed), ((suspend (Bench.Board.wiring .driven).traced {}).attempt s).2) := by
    rw [← hchanged]
    rfl
  exact ⟨_, s, _, hstart, hs, hperform, hactive, hactive',
    (start_guarded rfl {} 4 hstart).2 [.reset, .powerDown] .powerDown s _ _ hs hperform⟩

end OneWire.Ds2484
