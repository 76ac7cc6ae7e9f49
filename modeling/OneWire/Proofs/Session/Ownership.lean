import OneWire.Proofs.Session.FirstError

/-!
# The bus is owned while it is used

Between the requests to a session the phase tells which locks are outstanding. The line is used only
while the bus is locked and the master powered, whatever fails.
-/

namespace OneWire

variable {ε : Type}

/-! ## What a call needs before it -/

/-- The master was powered up, and not powered down since. -/
def Powered (entries : List (Entry ε)) : Prop :=
  ∃ before change after, entries = before ++ .resume (.ok change) :: after ∧
    ∀ e ∈ after, e.isSuspended = false

theorem Powered.append {entries entries' : List (Entry ε)} (h : Powered entries)
    (h' : ∀ e ∈ entries', e.isSuspended = false) : Powered (entries ++ entries') := by
  obtain ⟨before, change, after, rfl, hafter⟩ := h
  exact ⟨before, change, after ++ entries', by simp, List.forall_mem_append.2 ⟨hafter, h'⟩⟩

/-- A call to unlock needs a lock, and a call to the line needs the power as well. -/
structure Permitted (before : List (Entry ε)) (e : Entry ε) : Prop where
  locked : e.isUnlock ∨ e.isAccess → 0 < outstanding before
  powered : e.isAccess → Powered before

theorem Permitted.other {before : List (Entry ε)} {e : Entry ε} (hunlock : e.isUnlock = false)
    (haccess : e.isAccess = false) : Permitted before e := by
  constructor <;> simp [hunlock, haccess]

theorem Balanced.permitted {log entries : List (Entry ε)} (h : Balanced entries)
    (hlog : Throughout Permitted log) (hlocked : 0 < outstanding log) (hpowered : Powered log) :
    Throughout Permitted (log ++ entries) := by
  refine (throughout_append _ _ _).2 ⟨hlog, ?_⟩
  rintro before e after rfl
  -- What comes before `e` gives back no more locks than it took.
  have hcovered := h.covered before.length
  rw [List.take_left] at hcovered
  refine ⟨fun _ => ?_, fun _ => ?_⟩
  · rw [outstanding_append]
    omega
  · exact hpowered.append (List.forall_mem_append.1 h.awake).1

namespace Session

variable {σ : Type} {log entries : List (Entry ε)} {settleMs : Nat}

theorem Waking.permitted {failure : Option ε} (h : Waking settleMs failure entries)
    (hlog : Throughout Permitted log) (hlocked : 0 < outstanding log) :
    Throughout Permitted (log ++ entries) := by
  have hresume (o : Except ε PowerChange) : Throughout Permitted (log ++ [.resume o]) :=
    hlog.concat (.other rfl rfl)
  have hreset (change : PowerChange) (o : Except ε Bool) :
      Throughout Permitted (log ++ [.resume (.ok change), .delay settleMs, .reset o]) := by
    rw [List.append_cons, List.append_cons]
    refine ((hresume _).concat (.other rfl rfl)).concat ⟨fun _ => ?_, fun _ => ?_⟩
    · simpa [Entry.lockChange] using hlocked
    · exact ⟨log, change, [.delay settleMs], by simp, by simp [Entry.isSuspended]⟩
  cases h with
  | notResumed failure => exact hresume _
  | notReset change failure => exact hreset change _
  | awake change present => exact hreset change _

theorem Waking.powered (h : Waking settleMs none entries) : Powered (log ++ entries) := by
  cases h with
  | awake change present =>
    exact ⟨log, change, [.delay settleMs, .reset (.ok present)], rfl, by simp [Entry.isSuspended]⟩

/-! ## The invariant -/

/-- What the log of a session shows in each phase. -/
structure Owned (phase : Phase) (log : List (Entry ε)) : Prop where
  locks : outstanding log = if phase = .acquired then 1 else 0
  powered : phase = .acquired → Powered log
  permitted : Throughout Permitted log

namespace Owned

theorem start : Owned .idle ([] : List (Entry ε)) where
  locks := rfl
  powered := nofun
  permitted := throughout_nil _

theorem locked (h : Owned .idle log) : outstanding (log ++ [.lock (.ok ())]) = 1 ∧
    Throughout Permitted (log ++ [.lock (.ok ())]) := by
  refine ⟨?_, h.permitted.concat (.other rfl rfl)⟩
  simp [h.locks, Entry.lockChange]

theorem acquired (h : Owned .idle log) (h' : Acquiring settleMs none entries) :
    Owned .acquired (log ++ entries) := by
  cases h' with
  | acquired hwaking =>
    obtain ⟨hone, hpermitted⟩ := h.locked
    obtain ⟨hsettled, -⟩ := hwaking.first
    rw [List.append_cons]
    refine ⟨?_, fun _ => hwaking.powered, hwaking.permitted hpermitted (by omega)⟩
    rw [outstanding_append, hone, hsettled]
    rfl

theorem notAcquired {err : Error ε} (h : Owned .idle log)
    (h' : Acquiring settleMs (some err) entries) : Owned .idle (log ++ entries) := by
  cases h' with
  | notLocked failure =>
    refine ⟨?_, (fun hphase => by cases hphase), h.permitted.concat (.other rfl rfl)⟩
    simp [h.locks, Entry.lockChange]
  | notAwake hwaking o =>
    obtain ⟨hone, hpermitted⟩ := h.locked
    obtain ⟨hsettled, -⟩ := hwaking.first
    have hawake := hwaking.permitted hpermitted (by omega)
    rw [List.append_cons, ← List.append_assoc]
    refine ⟨?_, (fun hphase => by cases hphase),
      hawake.concat ⟨fun _ => ?_, fun haccess => by cases haccess⟩⟩
    · rw [outstanding_append, outstanding_append, hone, hsettled]
      rfl
    · rw [outstanding_append, hone, hsettled]
      decide

theorem served (h : Owned .acquired log) (h' : Balanced entries) :
    Owned .acquired (log ++ entries) where
  locks := by rw [outstanding_append, h'.settled, h.locks, Int.add_zero]
  powered _ := (h.powered rfl).append h'.awake
  permitted := h'.permitted h.permitted (by simp [h.locks]) (h.powered rfl)

theorem released {asleep : List (Entry ε)} (h : Owned .acquired log) (h' : Balanced asleep)
    (o : Except ε PowerChange) (o' : Except ε Unit) :
    Owned .idle (log ++ (asleep ++ [.suspend o, .unlock o'])) := by
  have hasleep := h.served h'
  have hone : outstanding (log ++ asleep ++ [.suspend o]) = 1 := by
    rw [outstanding_append, hasleep.locks]
    rfl
  rw [← List.append_assoc, List.append_cons]
  refine ⟨?_, nofun, (hasleep.permitted.concat (.other rfl rfl)).concat ⟨fun _ => ?_, nofun⟩⟩
  · rw [outstanding_append, hone]
    rfl
  · rw [hone]
    decide

theorem step {phase phase' : Phase} {request : Request} {answer : Answer ε}
    (hstep : Step phase request answer entries phase') (h : Owned phase log) :
    Owned phase' (log ++ entries) := by
  cases hstep with
  | refused => exact (List.append_nil log).symm ▸ h
  | alreadyAcquired => exact (List.append_nil log).symm ▸ h
  | notAcquired h' => exact h.notAcquired h'
  | acquired h' => exact h.acquired h'
  | served _ _ h' => exact h.served h'
  | released h' o o' => exact h.released h' o o'

theorem run (host : Host σ ε) (limit : Nat) (requests : List Request)
    {s : Session (σ × List (Entry ε))} (h : Owned s.phase s.bus.2) :
    Owned (run host.traced limit (requests.map .session) s).2.phase
      (run host.traced limit (requests.map .session) s).2.bus.2 := by
  induction requests generalizing s with
  | nil => exact h
  | cons request rest ih =>
    -- One request is one step from phase to phase, and adds its calls to the log.
    obtain ⟨entries, hlog, hstep⟩ := perform_step host limit request s
    refine ih (s := (perform host.traced limit request s).2) ?_
    rw [hlog]
    exact h.step hstep

end Owned

/-! ## The whole session -/

theorem Acquiring.calls (h : Acquiring settleMs (none : Option (Error ε)) entries) :
    ∃ change present, entries = [.lock (.ok ()), .resume (.ok change), .delay settleMs,
      .reset (.ok present)] := by
  cases h with
  | acquired h =>
    cases h with
    | awake change present => exact ⟨change, present, rfl⟩

theorem Acquiring.settled {err : Option (Error ε)} (h : Acquiring settleMs err entries) :
    Throughout (fun before e => ∀ o, e = .reset o →
      ∃ change, before = [.lock (.ok ()), .resume (.ok change), .delay settleMs]) entries := by
  cases h with
  | notLocked failure => simp [throughout_cons, throughout_nil]
  | notAwake h o => cases h <;> simp [throughout_cons, throughout_nil]
  | acquired h =>
    cases h
    simp [throughout_cons, throughout_nil]

/--
Whatever is requested and whatever fails, the line is used only while the bus is locked and the
master powered. An acquisition resets it after it had time to settle, a search does not unlock the
bus on the way, and an idle session makes no call but to be acquired.
-/
theorem line_owned_and_powered (host : Host σ ε) (limit : Nat) :
    (∀ (config : Config) (capacity : Nat) (bus : σ) (requests : List Request),
      Throughout (fun before e => e.isAccess → 0 < outstanding before ∧ Powered before)
        (run host.traced limit (requests.map .session)
          { bus := (bus, []), config, capacity }).2.bus.2) ∧
      (∀ s : Session (σ × List (Entry ε)), ∃ entries,
        ((acquire host.traced).attempt s).2.bus.2 = s.bus.2 ++ entries ∧
          Throughout (fun before e => ∀ o, e = .reset o →
            ∃ change, before =
              [.lock (.ok ()), .resume (.ok change), .delay s.config.settleMs]) entries ∧
          (((acquire host.traced).attempt s).1 = .ok () → ∃ change present, entries =
            [.lock (.ok ()), .resume (.ok change), .delay s.config.settleMs,
              .reset (.ok present)])) ∧
      (∀ scope family p, ∃ entries,
        ((Search.enumerate host.traced.toMaster limit scope family).attempt p).2.1.2 =
            p.1.2 ++ entries ∧
          ∀ before first mid last after, entries = before ++ first :: mid ++ last :: after →
            ∀ e ∈ mid, e.isUnlock = false) ∧
      ∀ (s : Session (σ × List (Entry ε))) (request : Request), s.phase = .idle →
        request ≠ .acquire →
          (perform host.traced limit request s).2 = s ∧
            (perform host.traced limit request s).1.error? = some .notAcquired := by
  refine ⟨fun config capacity bus requests => ?_, fun s => ?_, fun scope family p => ?_, ?_⟩
  · have howned := Owned.run host limit requests
      (s := { bus := (bus, []), config, capacity }) .start
    intro before e after hlog haccess
    have hpermitted := howned.permitted before e after hlog
    exact ⟨hpermitted.locked (.inr haccess), hpermitted.powered haccess⟩
  · cases hs : s.phase with
    | idle =>
      obtain ⟨⟨entries, hlog, hacquiring⟩, -⟩ := acquire_idle host hs
      refine ⟨entries, hlog, hacquiring.settled, fun hok => ?_⟩
      rw [hok] at hacquiring
      exact hacquiring.calls
    | acquired =>
      have hattempt : (acquire host.traced).attempt s = (.error .alreadyAcquired, s) := by
        simp only [Action.attempt, acquire, hs]
      rw [hattempt]
      exact ⟨[], (List.append_nil _).symm, throughout_nil _, fun hok => by cases hok⟩
  · obtain ⟨entries, hlog, h⟩ := Search.logs_enumerate host.toMaster limit scope family p
    refine ⟨entries, hlog, ?_⟩
    rintro before first mid last after rfl
    exact h.held
  · exact fun s request hs hrequest => perform_idle host.traced limit hrequest hs

end Session

end OneWire
