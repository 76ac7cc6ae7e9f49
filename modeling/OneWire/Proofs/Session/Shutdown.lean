import Mathlib.Data.List.Basic
import Mathlib.Data.List.Induction
import OneWire.Bench.Master
import OneWire.Line.Shared
import OneWire.Proofs.Session.Trace

/-!
# How a session shuts down

A release sends devices to sleep if the last scan came upon some, and then gives the bus back
whatever failed.
-/

namespace OneWire

/-- The operation settles whether a release will send devices to sleep. -/
def Operation.settlesSleep : Operation → Bool
  | .session (.scan _) | .session .release => true
  | _ => false

namespace Session

open OneWire.Action

variable {σ ε α β : Type}

/-! ## What the last scan found -/

/-- What a scan finds from here, also what has no room and what was found before a failure. -/
def discovered (host : Host σ ε) (limit : Nat) (s : Session σ) : List Rom :=
  ((Search.enumerate host.toMaster limit s.config.scope Search.anyFamily).attempt (s.bus, [])).2.2

/-- The last scan of the acquired session found a device that must be told to sleep. -/
def FoundSleeper (host : Host σ ε) (limit : Nat) (operations : List Operation)
    (start : Session σ) : Prop :=
  ∃ before accept after, operations = before ++ .session (.scan accept) :: after ∧
    (∀ operation ∈ after, operation.settlesSleep = false) ∧
    (run host limit before start).2.phase = .acquired ∧
    ∃ rom ∈ discovered host limit (run host limit before start).2,
      rom.family = start.config.sleeperFamily

variable (host : Host σ ε) (limit : Nat)

theorem foundSleeper_concat (operations : List Operation) (operation : Operation)
    (start : Session σ) :
    FoundSleeper host limit (operations ++ [operation]) start ↔
      (operation.settlesSleep = false ∧ FoundSleeper host limit operations start) ∨
        ((∃ accept, operation = .session (.scan accept)) ∧
          (run host limit operations start).2.phase = .acquired ∧
          ∃ rom ∈ discovered host limit (run host limit operations start).2,
            rom.family = start.config.sleeperFamily) := by
  constructor
  · rintro ⟨before, accept, after, hsplit, hafter, hfound⟩
    rcases List.eq_nil_or_concat' after with rfl | ⟨after, last, rfl⟩
    · obtain ⟨rfl, hlast⟩ := List.append_inj' hsplit rfl
      exact .inr ⟨⟨accept, (List.cons.inj hlast).1⟩, hfound⟩
    · rw [← List.cons_append, ← List.append_assoc] at hsplit
      obtain ⟨rfl, hlast⟩ := List.append_inj' hsplit rfl
      obtain rfl := (List.cons.inj hlast).1
      rw [List.forall_mem_append] at hafter
      exact .inl ⟨by simpa using hafter.2, before, accept, after, rfl, hafter.1, hfound⟩
  · rintro (⟨hkeeps, before, accept, after, rfl, hafter, hfound⟩ | ⟨⟨accept, rfl⟩, hfound⟩)
    · refine ⟨before, accept, after ++ [operation], by simp, ?_, hfound⟩
      rw [List.forall_mem_append]
      exact ⟨hafter, by simpa using hkeeps⟩
    · exact ⟨operations, accept, [], rfl, by simp, hfound⟩

/-! ## One operation -/

/-- From `s` to `s'` only the bus was used, or taken by an idle session. -/
structure Continues (s s' : Session σ) : Prop where
  config : s'.config = s.config
  sleeper : s'.sleeper = s.sleeper
  acquired : s.phase = .acquired → s'.phase = .acquired

theorem continues_gated (act : Action (Error ε) σ α) (s : Session σ) :
    Continues s ((gated act).attempt s).2 := by
  cases hs : s.phase with
  | idle =>
    rw [attempt_of_error (gated_idle act hs)]
    exact ⟨rfl, rfl, id⟩
  | acquired =>
    rw [attempt_gated act hs]
    exact ⟨rfl, rfl, id⟩

theorem continues_gatedBeside (act : Action (Error ε) (σ × β) α) (s : Session σ) (b : β) :
    Continues s ((gatedBeside act).attempt (s, b)).2.1 := by
  cases hs : s.phase with
  | idle =>
    have hrefused : gatedBeside act (s, b) = .error .notAcquired (s, b) := by
      simp only [gatedBeside, hs]
    rw [attempt_of_error hrefused]
    exact ⟨rfl, rfl, id⟩
  | acquired =>
    rw [attempt_gatedBeside act b hs]
    exact ⟨rfl, rfl, id⟩

theorem continues_acquire (host : Host σ ε) (s : Session σ) :
    Continues s ((acquire host).attempt s).2 := by
  unfold attempt acquire
  cases hs : s.phase with
  | acquired => exact ⟨rfl, rfl, id⟩
  | idle =>
    simp only
    cases host.lock s.bus with
    | error e bus => exact ⟨rfl, rfl, fun h => absurd h (by simp [hs])⟩
    | ok _ bus =>
      simp only
      cases wake host s.config.settleMs bus <;>
        exact ⟨rfl, rfl, fun h => absurd h (by simp [hs])⟩

theorem continues_operate {operation : Operation} (h : operation.settlesSleep = false)
    (s : Session σ) : Continues s (operate host limit operation s).2 := by
  cases operation with
  | bus request => exact ⟨rfl, rfl, id⟩
  | session request =>
    cases request with
    | acquire => exact continues_acquire host s
    | release => contradiction
    | scan accept => contradiction
    | readRom => exact continues_gated host.readRom s
    | matchRom rom => exact continues_gated (host.matchRom rom) s
    | skipRom => exact continues_gated host.skipRom s
    | resume => exact continues_gated host.resumeRom s
    | select rom => exact continues_gated (host.select rom) s
    | send rom data => exact continues_gated (host.send rom data) s
    | exchange rom data buffer => exact continues_gatedBeside (host.exchange rom data _) s buffer

theorem operate_scan (accept : List Rom → Rom → Bool) {s : Session σ} (hs : s.phase = .acquired) :
    (operate host limit (.session (.scan accept)) s).2.config = s.config ∧
      (operate host limit (.session (.scan accept)) s).2.phase = .acquired ∧
      (operate host limit (.session (.scan accept)) s).2.sleeper =
        (discovered host limit s).any (·.family == s.config.sleeperFamily) := by
  obtain ⟨hstate, -⟩ := scan_acquired limit
    (fun rom offered => (accept offered rom, offered ++ [rom])) [] host hs rfl
  have hscan : (operate host limit (.session (.scan accept)) s).2 = _ := hstate
  rw [hscan]
  exact ⟨rfl, hs, rfl⟩

theorem operate_release {s : Session σ} (hs : s.phase = .acquired) :
    (operate host limit (.session .release) s).2.config = s.config ∧
      (operate host limit (.session .release) s).2.phase = .idle ∧
      (operate host limit (.session .release) s).2.sleeper = false := by
  simp only [operate, perform, release, hs, and_self]

theorem settled_cases {operation : Operation} (h : operation.settlesSleep = true) :
    operation = .session .release ∨ ∃ accept, operation = .session (.scan accept) := by
  unfold Operation.settlesSleep at h
  split at h <;> simp_all

theorem operate_idle {operation : Operation} (h : operation.settlesSleep = true) {s : Session σ}
    (hs : s.phase = .idle) : (operate host limit operation s).2 = s := by
  rcases settled_cases h with rfl | ⟨accept, rfl⟩
  · have hrequest : Request.release ≠ .acquire := nofun
    exact (perform_idle host limit hrequest hs).1
  · have hrequest : Request.scan accept ≠ .acquire := nofun
    exact (perform_idle host limit hrequest hs).1

/-! ## A run of operations -/

/-- The session remembers whether its last scan found a device that must be told to sleep. -/
structure Remembers (host : Host σ ε) (limit : Nat) (operations : List Operation)
    (start s : Session σ) : Prop where
  config : s.config = start.config
  sleeper : s.sleeper = true ↔ FoundSleeper host limit operations start
  idle : s.phase = .idle → s.sleeper = false

theorem run_concat (operations : List Operation) (operation : Operation) (s : Session σ) :
    (run host limit (operations ++ [operation]) s).2 =
      (operate host limit operation (run host limit operations s).2).2 := by
  induction operations generalizing s with
  | nil => rfl
  | cons first rest ih => exact ih (operate host limit first s).2

theorem remembers_run (operations : List Operation) {start : Session σ}
    (hstart : start.sleeper = false) :
    Remembers host limit operations start (run host limit operations start).2 := by
  -- From the back, since only what came after the last scan counts.
  induction operations using List.reverseRecOn with
  | nil =>
    have hnone : ¬FoundSleeper host limit [] start := by
      rintro ⟨before, accept, after, hsplit, -⟩
      simp at hsplit
    exact ⟨rfl, by simp [run, hstart, hnone], fun _ => hstart⟩
  | append_singleton operations operation ih =>
    obtain ⟨hconfig, hfound, hidle⟩ := ih
    have hconcat := foundSleeper_concat host limit operations operation start
    rw [run_concat]
    generalize (run host limit operations start).2 = s at hconfig hfound hidle hconcat
    cases hsettles : operation.settlesSleep with
    | false =>
      have hscan : ¬∃ accept, operation = .session (.scan accept) := by
        rintro ⟨accept, rfl⟩
        contradiction
      have hcontinues := continues_operate host limit hsettles s
      refine ⟨hcontinues.config.trans hconfig, ?_, fun hafter => ?_⟩
      · simp [hcontinues.sleeper, hfound, hconcat, hsettles, hscan]
      · rw [hcontinues.sleeper]
        cases hs : s.phase with
        | idle => exact hidle hs
        | acquired => simp [hcontinues.acquired hs] at hafter
    | true =>
      cases hs : s.phase with
      | idle =>
        rw [operate_idle host limit hsettles hs]
        exact ⟨hconfig, by simp [hidle hs, hconcat, hsettles, hs], hidle⟩
      | acquired =>
        rcases settled_cases hsettles with rfl | ⟨accept, rfl⟩
        · obtain ⟨hconfig', -, hsleeper⟩ := operate_release host limit hs
          exact ⟨hconfig'.trans hconfig, by simp [hsleeper, hconcat, hsettles], fun _ => hsleeper⟩
        · obtain ⟨hconfig', hphase, hsleeper⟩ := operate_scan host limit accept hs
          refine ⟨hconfig'.trans hconfig, ?_, fun hafter => ?_⟩
          · simp [hsleeper, hconcat, hsettles, hs, hconfig]
          · simp [hphase] at hafter

/-! ## The release -/

/--
A release sends devices to sleep if and only if the last scan found some. Whatever fails, it then
powers the master down and unlocks the bus, and the session is idle. The first error of the sleep
sequence is the only warning, and the error is that of the power-down or else of the unlock.
-/
theorem release_shuts_down (host : Host σ ε) (limit : Nat) {config : Config} {capacity : Nat}
    {bus : σ} {operations : List Operation} {outcomes : List (Outcome ε)}
    {s : Session (σ × List (Entry ε))}
    (hrun : run host.traced limit operations { bus := (bus, []), config, capacity } =
      (outcomes, s)) (hs : s.phase = .acquired) :
    ∃ (asleep : List (Entry ε)) (err : Option (Error ε)) (o : Except ε PowerChange)
      (o' : Except ε Unit) (report : Report Unit ε) (s' : Session (σ × List (Entry ε))),
      perform host.traced limit .release s = (.released report, s') ∧
      s'.bus.2 = s.bus.2 ++ (asleep ++ [.suspend o, .unlock o']) ∧
      (FoundSleeper host.traced limit operations { bus := (bus, []), config, capacity } →
        Sleeping config.sleepCommand err asleep ∧
          (asleep = [.reset (.ok false)] ∧ err = none ∨ FirstError .presence err asleep)) ∧
      (¬FoundSleeper host.traced limit operations { bus := (bus, []), config, capacity } →
        asleep = [] ∧ err = none) ∧
      s'.phase = .idle ∧ s'.sleeper = false ∧
      report.warnings.items = err.toList.map .stillAwake ∧ report.dropped = 0 ∧
      report.error = ((failure? o).or (failure? o')).map .bus := by
  let start : Session (σ × List (Entry ε)) := { bus := (bus, []), config, capacity }
  have hstart : start.sleeper = false := rfl
  have hremembers := remembers_run host.traced limit operations hstart
  rw [hrun] at hremembers
  obtain ⟨hconfig, hfound, -⟩ := hremembers
  obtain ⟨asleep, err, o, o', hasleep, hreport, hlog, hphase, hsleeper⟩ :=
    release_acquired host hs
  rw [hconfig] at hasleep
  refine ⟨asleep, err, o, o', (release host.traced s).1, (release host.traced s).2, rfl, hlog,
    fun h => ?_, fun h => ?_, hphase, hsleeper, ?_⟩
  · rw [if_pos (hfound.2 h)] at hasleep
    exact ⟨hasleep, hasleep.transcript.imp_right Transcript.first⟩
  · rwa [if_neg (mt hfound.1 h)] at hasleep
  · rw [hreport]
    cases err <;> exact ⟨rfl, rfl, rfl⟩

/-- One device that must be told to sleep. The reset before it is told and the power-down fail. -/
def restless : Bench Line where
  line := .ofDevices [{ rom := .ofWireBits 0x19 }]
  meter := { plan := fun c n => c == .reset && n == 3 || c == .suspend }
  declared := 1

/-- The scan has no room for the device, and finds it. -/
theorem release_shuts_down_restless :
    ∃ (s : Session (Bench Line × List (Entry Bench.Call))) (asleep : List (Entry Bench.Call))
      (err : Option (Error Bench.Call)) (report : Report Unit Bench.Call)
      (s' : Session (Bench Line × List (Entry Bench.Call))),
      (run Bench.bitHost.traced 2 [.session .acquire, .session (.scan fun _ _ => true)]
        { bus := (restless, []), capacity := 0 }).2 = s ∧ s.phase = .acquired ∧
      perform Bench.bitHost.traced 2 .release s = (.released report, s') ∧ s'.phase = .idle ∧
      Sleeping ds28e17Sleep err asleep ∧
      report.warnings.items = err.toList.map .stillAwake := by
  have hphase : (run Bench.bitHost.traced 2 [.session .acquire, .session (.scan fun _ _ => true)]
      { bus := (restless, []), capacity := 0 }).2.phase = .acquired := by decide +kernel
  have hfound : FoundSleeper Bench.bitHost.traced 2
      [.session .acquire, .session (.scan fun _ _ => true)]
      { bus := (restless, []), capacity := 0 } := by
    refine ⟨[.session .acquire], fun _ _ => true, [], rfl, by simp, by decide +kernel, ?_⟩
    have hrom : .ofWireBits 0x19 ∈ discovered Bench.bitHost.traced 2
        (run Bench.bitHost.traced 2 [.session .acquire]
          { bus := (restless, []), capacity := 0 }).2 := by decide +kernel
    exact ⟨_, hrom, rfl⟩
  obtain ⟨asleep, err, _, _, report, s', hrelease, -, hasleep, -, hidle, -, hwarnings, -⟩ :=
    release_shuts_down Bench.bitHost 2 (Prod.eta _).symm hphase
  exact ⟨_, asleep, err, report, s', rfl, hphase, hrelease, hidle, (hasleep hfound).1, hwarnings⟩

end Session

end OneWire
