import OneWire.Proofs.Bench.Depth
import OneWire.Proofs.Ds2484.Power
import OneWire.Proofs.Session.Ownership

/-!
# The power that an acquisition leaves

An acquisition powers the master up. If it fails after that, it gives back its lock but does not
power the master down, so that only a later release can.
-/

namespace OneWire

open OneWire.Action

variable {σ ε α : Type}

/-! ## Hosts that know their power -/

/-- Of the calls of an acquisition only the request for power changes the power. -/
structure Host.Powers (host : Host σ ε) (powered : σ → Bool) : Prop where
  lock (b : Bool) : host.lock.Keeps (powered · = b)
  unlock (b : Bool) : host.unlock.Keeps (powered · = b)
  reset (b : Bool) : host.reset.Keeps (powered · = b)
  delay (ms : Nat) (s : σ) : powered (host.delay ms s) = powered s
  resume (s : σ) :
    host.resume.Ensures s
      (fun change s' => powered s' = true ∧ (change = .changed ↔ powered s = false))
      fun _ s' => powered s' = powered s

namespace Session

theorem acquire_keeps (I : σ → Prop) {host : Host σ ε} (hlock : host.lock.Keeps I)
    (hunlock : host.unlock.Keeps I) (hresume : host.resume.Keeps I) (hreset : host.reset.Keeps I)
    (hdelay : ∀ ms s, I s → I (host.delay ms s)) : (acquire host).Keeps fun s => I s.bus := by
  intro s hs
  have hwake (s₁ : σ) (h₁ : I s₁) :
      (wake host s.config.settleMs).Ensures s₁ (fun _ => I) fun _ => I := by
    unfold wake
    rw [ensures_bind]
    apply (hresume s₁ h₁).mono ?_ fun _ _ => id
    intro _ s₂ h₂
    rw [ensures_bind, ensures_modify, ensures_bind]
    exact (hreset _ (hdelay _ s₂ h₂)).mono (fun _ _ => id) fun _ _ => id
  unfold Ensures acquire
  cases s.phase with
  | acquired => exact hs
  | idle =>
    simp only
    cases h₁ : host.lock s.bus with
    | error e bus => exact (hlock s.bus hs).of_error h₁
    | ok _ bus =>
      have hbus := (hlock s.bus hs).of_ok h₁
      simp only
      cases h₂ : wake host s.config.settleMs bus with
      | error e bus' => exact hunlock.attempt ((hwake bus hbus).of_error h₂)
      | ok _ bus' => exact (hwake bus hbus).of_ok h₂

/-! ## Power and the trace -/

/-- From `p₀` to `p` the master was powered up, as the trace shows, or its power is as it was. -/
def Shows (powered : σ → Bool) (p₀ p : σ × List (Entry ε)) : Prop :=
  ∃ entries, p.2 = p₀.2 ++ entries ∧
    (.resume (.ok .changed) ∈ entries ∧ powered p₀.1 = false ∧ powered p.1 = true ∨
      .resume (.ok .changed) ∉ entries ∧ powered p.1 = powered p₀.1)

section Shows

variable {host : Host σ ε} {powered : σ → Bool} {p₀ p : σ × List (Entry ε)}

theorem Shows.quiet {s : σ} {e : Entry ε} (h : Shows powered p₀ p)
    (he : e ≠ .resume (.ok .changed)) (hs : powered s = powered p.1) :
    Shows powered p₀ (s, p.2 ++ [e]) := by
  obtain ⟨entries, hlog, h⟩ := h
  refine ⟨entries ++ [e], by rw [hlog, List.append_assoc], ?_⟩
  rw [hs]
  simpa [he.symm] using h

theorem shows_traced {entry : Except ε α → Entry ε} {act : Action ε σ α}
    (hentry : ∀ o, entry o ≠ .resume (.ok .changed)) (h : ∀ b, act.Keeps (powered · = b)) :
    (act.traced entry).Keeps (Shows powered p₀) := by
  intro p hp
  rw [ensures_traced]
  apply (h _ p.1 rfl).mono
  · exact fun a s hs => hp.quiet (hentry (.ok a)) hs
  · exact fun e s hs => hp.quiet (hentry (.error e)) hs

theorem shows_resume (h : host.Powers powered) :
    host.traced.resume.Keeps (Shows powered p₀) := by
  intro p hp
  refine ensures_traced.2 ((h.resume p.1).mono ?_ fun e s hs => hp.quiet (by simp) hs)
  rintro change s ⟨hs, hchange⟩
  cases change with
  | already =>
    have hbefore : powered p.1 = true := by simpa using hchange
    exact hp.quiet (by simp) (hs.trans hbefore.symm)
  | changed =>
    -- It was off until now, so that no entry before shows it powered up.
    have hbefore : powered p.1 = false := hchange.1 rfl
    obtain ⟨entries, hlog, ⟨-, -, hon⟩ | ⟨-, hsame⟩⟩ := hp
    · rw [hbefore] at hon
      contradiction
    · refine ⟨entries ++ [.resume (.ok .changed)], by rw [hlog, List.append_assoc], .inl ?_⟩
      exact ⟨by simp, hsame.symm.trans hbefore, hs⟩

theorem Shows.acquire (h : host.Powers powered) (s : Session (σ × List (Entry ε))) :
    Shows powered s.bus ((Session.acquire host.traced).attempt s).2.bus := by
  have hkeeps : (Session.acquire host.traced).Keeps fun s' => Shows powered s.bus s'.bus :=
    acquire_keeps (Shows powered s.bus) (shows_traced (by simp) h.lock)
      (shows_traced (by simp) h.unlock) (shows_resume h) (shows_traced (by simp) h.reset)
      fun ms p hp => hp.quiet (by simp) (h.delay ms p.1)
  exact hkeeps.attempt ⟨[], by simp, .inr (by simp)⟩

theorem Shows.level_iff (h : Shows powered p₀ p) :
    ∃ entries, p.2 = p₀.2 ++ entries ∧
      (powered p.1 = powered p₀.1 ↔ .resume (.ok .changed) ∉ entries) := by
  obtain ⟨entries, hlog, ⟨hup, hoff, hon⟩ | ⟨hnot, hsame⟩⟩ := h
  · exact ⟨entries, hlog, by simp [hup, hoff, hon]⟩
  · exact ⟨entries, hlog, fun _ => hnot, fun _ => hsame⟩

end Shows

theorem Acquiring.unlocked {settleMs : Nat} {err : Error ε} {entries : List (Entry ε)}
    (h : Acquiring settleMs (some err) entries) : outstanding entries = 0 := by
  cases h with
  | notLocked => rfl
  | notAwake h => cases h <;> rfl

/--
From `s` an acquisition gave up in `s'`. It took no lock that it did not give back, and what tells
the power is as it was unless the trace shows the master powered up on the way.
-/
structure GivesUp {β : Type} (level : σ → β) (s s' : Session (σ × List (Entry ε))) : Prop where
  idle : s'.phase = .idle
  trace : ∃ entries, s'.bus.2 = s.bus.2 ++ entries ∧ outstanding entries = 0 ∧
    (level s'.bus.1 = level s.bus.1 ↔ .resume (.ok .changed) ∉ entries)

theorem GivesUp.of_failed {β : Type} {level : σ → β} {host : Host σ ε}
    {s s' : Session (σ × List (Entry ε))} {err : Error ε} (hs : s.phase = .idle)
    (hfailed : acquire host.traced s = .error err s')
    (h : ∃ entries, s'.bus.2 = s.bus.2 ++ entries ∧
      (level s'.bus.1 = level s.bus.1 ↔ .resume (.ok .changed) ∉ entries)) :
    GivesUp level s s' := by
  obtain ⟨⟨entries, hlog, hacquiring⟩, hphase⟩ := acquire_idle host hs
  obtain ⟨entries', hlog', hlevel⟩ := h
  rw [attempt_of_error hfailed] at hlog hacquiring hphase
  obtain rfl : entries = entries' := List.append_cancel_left (hlog.symm.trans hlog')
  exact ⟨hphase, entries, hlog, hacquiring.unlocked, hlevel⟩

end Session

/-! ## The masters -/

section Masters

open Bench

theorem Bench.bitHost_powers {L : Type} [Wire L] :
    (bitHost : Host (Bench L) Call).Powers Bench.powered where
  lock := by
    simp only [bitHost, Slots.toMaster, Slots.toByteMaster, ByteMaster.toMaster, slots]
    exact keeps_powered (by rintro _ _ _ _ ⟨⟩; rfl)
  unlock := by
    simp only [bitHost, Slots.toMaster, Slots.toByteMaster, ByteMaster.toMaster, slots]
    apply keeps_powered
    intro b a e b' hact
    split at hact
    · contradiction
    · cases hact
      rfl
  reset := by
    simp only [bitHost, Slots.toMaster, Slots.toByteMaster, ByteMaster.toMaster, slots]
    exact keeps_powered (by rintro _ _ _ _ ⟨⟩; rfl)
  delay _ _ := rfl
  resume b := by
    simp only [bitHost, Slots.toMaster, Slots.toByteMaster, ByteMaster.toMaster, slots]
    refine ensures_call ?_ fun _ => rfl
    rintro _ _ _ ⟨⟩
    unfold setPower
    cases b.powered <;> exact ⟨rfl, by simp⟩

theorem Bench.byteHost_powers {L : Type} [Wire L] :
    (byteHost : Host (Bench L) Call).Powers Bench.powered :=
  { bitHost_powers with }

end Masters

namespace Ds2484

open Bridge

variable {π : Type}

theorem host_powers (w : Wiring π) (c : Config) (delay : Nat → π → π) :
    (host w c delay).Powers Bridge.active where
  lock _ := lock_keeps fun _ _ => id
  unlock _ := unlock_keeps fun _ _ => id
  reset _ := onBoard_keeps fun _ _ => id
  delay _ _ := rfl
  resume s := by
    have hresume : (resume w).Ensures s
        (fun change s' => s'.active = true ∧ (change = .changed ↔ s.active = false))
        fun _ s' => s'.active = s.active := by
      unfold resume
      rw [ensures_bind, ensures_get]
      cases hs : s.active with
      | true => exact ⟨hs, by simp⟩
      | false =>
        rw [if_neg (by simp), ensures_bind, ensures_onBoard]
        apply (ensures_true _ s.board).mono
        · exact fun _ _ _ => ⟨rfl, by simp⟩
        · exact fun _ _ _ => hs
    exact hresume

/-- The bridge takes the chip to be awake exactly while SLPZ is high. -/
def Aware (s : Bridge (π × List BoardEntry)) : Prop :=
  pinLevel s.board.2 = some s.active

theorem Untouched.aware {s t : Bridge (π × List BoardEntry)} (h : Untouched s t) (hs : Aware s) :
    Aware t := by
  obtain ⟨hactive, entries, hlog, hentries⟩ := h
  rw [Aware, hactive, hlog, pinLevel_append_of_pinless hentries]
  exact hs

theorem Untouched.refl (s : Bridge (π × List BoardEntry)) : Untouched s s :=
  ⟨rfl, [], (List.append_nil _).symm, by simp⟩

section Pin

variable {w : Wiring π} {set : Bool → Action Unit π Unit} (hpin : w.setPin = some set)
  (c : Config) {delay : Nat → π × List BoardEntry → π × List BoardEntry}
  (hdelay : ∀ ms p, (delay ms p).2 = p.2)
include hpin hdelay

theorem acquire_aware :
    (Session.acquire (host w.traced c delay).traced).Keeps fun s => Aware s.bus.1 := by
  have hresume : (resume w.traced).Keeps Aware := by
    intro s hs
    have hlevel (s' : Bridge (π × List BoardEntry)) (answer : Master.Answer Failure)
        (h : ∃ entries, s'.board.2 = s.board.2 ++ entries ∧
          PowerStep c s.active .powerUp answer s'.active entries) : Aware s' := by
      obtain ⟨entries, hlog, hstep⟩ := h
      rw [Aware, hlog]
      exact hstep.level hs
    exact (resume_switching hpin c s).mono (fun _ s' => hlevel s' _) fun _ s' => hlevel s' _
  have hreset : (master w.traced c).reset.Keeps Aware := fun s hs =>
    ((master_keeps w c s).reset s (.refl s)).mono (fun _ _ h => h.aware hs) fun _ _ h => h.aware hs
  apply Session.acquire_keeps fun p : Bridge (π × List BoardEntry) × List (Entry Failure) =>
    Aware p.1
  · exact fun p hp => ensures_traced.2 (lock_keeps (fun _ _ => id) p.1 hp)
  · exact fun p hp => ensures_traced.2 (unlock_keeps (fun _ _ => id) p.1 hp)
  · exact fun p hp => ensures_traced.2 (hresume p.1 hp)
  · exact fun p hp => ensures_traced.2 (hreset p.1 hp)
  · intro ms p hp
    have hlog : (delay ms p.1.board).2 = p.1.board.2 := hdelay ms p.1.board
    exact (congrArg pinLevel hlog).trans hp

theorem acquire_level (s : Session (Bridge (π × List BoardEntry) × List (Entry Failure)))
    (haware : Aware s.bus.1) :
    ∃ entries,
      ((Session.acquire (host w.traced c delay).traced).attempt s).2.bus.2 = s.bus.2 ++ entries ∧
      (pinLevel ((Session.acquire (host w.traced c delay).traced).attempt s).2.bus.1.board.2 =
          pinLevel s.bus.1.board.2 ↔ .resume (.ok .changed) ∉ entries) := by
  have haware' := (acquire_aware hpin c hdelay).attempt haware
  rw [haware', haware, Option.some_inj]
  exact (Session.Shows.acquire (host_powers w.traced c delay) s).level_iff

end Pin

end Ds2484

/-! ## Acquisitions that fail -/

namespace Session

open Bench
open Ds2484 (Wiring Bridge BoardEntry Failure Aware pinLevel)

/--
A reading `level` of the power of a master, and the states in which it is right: the power as a host
knows it, or the level of SLPZ on a DS2484 that is aware of it.
-/
inductive Reads : {σ ε β : Type} → Host σ ε → (σ → β) → (σ → Prop) → Prop where
  | power {σ ε : Type} {host : Host σ ε} {powered : σ → Bool} (h : host.Powers powered) :
      Reads host powered fun _ => True
  | pin {π : Type} {w : Wiring π} {set : Bool → Action Unit π Unit} (hpin : w.setPin = some set)
      (c : Ds2484.Config) {delay : Nat → π × List BoardEntry → π × List BoardEntry}
      (hdelay : ∀ ms p, (delay ms p).2 = p.2) :
      Reads (Ds2484.host w.traced c delay) (fun bridge => pinLevel bridge.board.2) Aware

/--
An acquisition that fails leaves the session idle and gives back the lock that it took. The power
is as it was unless the master was powered up on the way, which then lasts. So is the level of SLPZ,
where a DS2484 has that pin.
-/
theorem failed_acquire_power {β : Type} {host : Host σ ε} {level : σ → β} {right : σ → Prop}
    (h : Reads host level right) {s s' : Session (σ × List (Entry ε))} {err : Error ε}
    (hright : right s.bus.1) (hs : s.phase = .idle)
    (hfailed : acquire host.traced s = .error err s') : GivesUp level s s' := by
  cases h with
  | power h =>
    have hpower := (Shows.acquire h s).level_iff
    rw [attempt_of_error hfailed] at hpower
    exact .of_failed hs hfailed hpower
  | pin hpin c hdelay =>
    have hlevel := Ds2484.acquire_level hpin c hdelay s hright
    rw [attempt_of_error hfailed] at hlevel
    exact .of_failed hs hfailed hlevel

/-- A master that is off, and whose first call of the given kind fails. -/
def failingOnce (c : Call) : Bench Line where
  line := .ofDevices []
  meter := { plan := fun c' n => c' == c && n == 0 }
  declared := 0

/-- A board whose pin works, while no request reaches the chip. -/
def unreachable : Wiring Unit where
  write _ _ := throw ()
  read _ := throw ()
  setPin := some fun _ => pure ()

/-- A bridge with SLPZ low. -/
def sleeping : Bridge (Unit × List BoardEntry) :=
  .new ((), [.pin false (.ok ())])

/-- A master that cannot be powered up stays off, but an unreachable chip keeps SLPZ high. -/
theorem failed_acquire_power_off :
    (∃ s', acquire bitHost.traced { bus := (failingOnce .resume, []) } =
        .error (.bus .resume) s' ∧ s'.phase = .idle ∧ s'.bus.1.powered = false) ∧
      ∃ s', acquire (Ds2484.host unreachable.traced {} fun _ p => p).traced
          { bus := (sleeping, []) } = .error (.bus .i2c) s' ∧ s'.phase = .idle ∧
        pinLevel s'.bus.1.board.2 ≠ pinLevel sleeping.board.2 := by
  constructor
  · have hfailed : acquire bitHost.traced { bus := (failingOnce .resume, []) } =
        .error (.bus .resume)
          ((acquire bitHost.traced).attempt { bus := (failingOnce .resume, []) }).2 :=
      eq_error_of_attempt (by rfl)
    obtain ⟨hphase, entries, hlog, -, hpower⟩ :=
      failed_acquire_power (.power bitHost_powers) trivial rfl hfailed
    have hentries : entries = [.lock (.ok ()), .resume (.error .resume), .unlock (.ok ())] :=
      hlog.symm
    refine ⟨_, hfailed, hphase, hpower.2 ?_⟩
    simp [hentries]
  · have hfailed : acquire (Ds2484.host unreachable.traced {} fun _ p => p).traced
        { bus := (sleeping, []) } = .error (.bus .i2c)
          ((acquire (Ds2484.host unreachable.traced {} fun _ p => p).traced).attempt
            { bus := (sleeping, []) }).2 :=
      eq_error_of_attempt (by rfl)
    have haware : Aware sleeping := rfl
    obtain ⟨hphase, entries, hlog, -, hlevel⟩ :=
      failed_acquire_power (.pin rfl {} fun _ _ => rfl) haware rfl hfailed
    have hentries : entries = [.lock (.ok ()), .resume (.ok .changed), .delay 3,
        .reset (.error .i2c), .unlock (.ok ())] :=
      hlog.symm
    refine ⟨_, hfailed, hphase, fun hsame => hlevel.1 hsame ?_⟩
    simp [hentries]

/-- The reset fails, and the master stays powered up where nothing can power it down. -/
theorem failed_acquire_stays_powered :
    ∃ s', acquire bitHost { bus := failingOnce .reset } = .error (.bus .reset) s' ∧
      s'.phase = .idle ∧ s'.bus.depth = 0 ∧ s'.bus.powered = true ∧
      (release bitHost s').1.error = some .notAcquired ∧ (release bitHost s').2.bus.powered = true :=
  ⟨_, rfl, rfl, rfl, rfl, rfl, rfl⟩

end Session

end OneWire
