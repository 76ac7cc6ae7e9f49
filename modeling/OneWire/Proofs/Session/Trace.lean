import OneWire.Operation
import OneWire.Proofs.Session.Scan
import OneWire.Proofs.Trace.Transactions

/-!
# What a session logs

Each request to a session makes one of a few steps: between the phases of the session, with a list
of calls to the bus.
-/

namespace OneWire.Session

open OneWire.Action

variable {σ ε α β κ : Type}

/-! ## Acquire -/

/-- The calls of a wake-up, and its failure. -/
inductive Waking (settleMs : Nat) : Option ε → List (Entry ε) → Prop
  | notResumed (failure : ε) : Waking settleMs (some failure) [.resume (.error failure)]
  | notReset (change : PowerChange) (failure : ε) :
      Waking settleMs (some failure)
        [.resume (.ok change), .delay settleMs, .reset (.error failure)]
  | awake (change : PowerChange) (present : Bool) :
      Waking settleMs none [.resume (.ok change), .delay settleMs, .reset (.ok present)]

theorem wake_logs (host : Host σ ε) (settleMs : Nat) (p : σ × List (Entry ε)) :
    (wake host.traced settleMs).Logs Prod.snd (Waking settleMs) p := by
  unfold wake
  refine logs_iff_ensures.2 (ensures_bind.2 ?_)
  refine .traced (fun change s => ?_) fun failure s => ?_
  · refine ensures_bind.2 (ensures_modify.2 (ensures_bind.2 ?_))
    refine .traced (fun present s' => ?_) fun failure s' => ?_
    · exact ⟨_, by simp [Host.traced], .awake change present⟩
    · exact ⟨_, by simp [Host.traced], .notReset change failure⟩
  · exact ⟨_, rfl, .notResumed failure⟩

/-- The calls of an acquisition by an idle session, and its error. -/
inductive Acquiring (settleMs : Nat) : Option (Error ε) → List (Entry ε) → Prop
  | notLocked (failure : ε) :
      Acquiring settleMs (some (.bus failure)) [.lock (.error failure)]
  | notAwake {failure : ε} {entries : List (Entry ε)} (h : Waking settleMs (some failure) entries)
      (o : Except ε Unit) :
      Acquiring settleMs (some (.bus failure)) (.lock (.ok ()) :: (entries ++ [.unlock o]))
  | acquired {entries : List (Entry ε)} (h : Waking settleMs none entries) :
      Acquiring settleMs none (.lock (.ok ()) :: entries)

theorem acquire_idle (host : Host σ ε) {s : Session (σ × List (Entry ε))} (hs : s.phase = .idle) :
    (acquire host.traced).Logs (·.bus.2) (Acquiring s.config.settleMs) s ∧
      ((acquire host.traced).attempt s).2.phase =
        match ((acquire host.traced).attempt s).1 with
        | .ok _ => .acquired
        | .error _ => .idle := by
  have hnotes : host.traced.lock.Notes Prod.snd .lock := notes_traced _ _
  have hlock := hnotes s.bus
  cases h : host.traced.lock s.bus with
  | error failure p₁ =>
    rw [attempt_of_error h] at hlock
    have hacquire : acquire host.traced s = .error (.bus failure) { s with bus := p₁ } := by
      simp only [acquire, hs, h]
    refine ⟨.of_error hacquire hlock (.notLocked failure), ?_⟩
    simp only [attempt_of_error hacquire, hs]
  | ok _ p₁ =>
    rw [attempt_of_ok h] at hlock
    simp only at hlock
    obtain ⟨entries, hlog, hwaking⟩ := wake_logs host s.config.settleMs p₁
    cases hw : wake host.traced s.config.settleMs p₁ with
    | error failure p₂ =>
      rw [attempt_of_error hw] at hlog hwaking
      simp only at hlog
      have hunlock : host.traced.unlock.Notes Prod.snd .unlock := notes_traced _ _
      have hacquire : acquire host.traced s =
          .error (.bus failure) { s with bus := (host.traced.unlock.attempt p₂).2 } := by
        simp only [acquire, hs, h, hw]
      refine ⟨.of_error hacquire ?_ (.notAwake hwaking (host.traced.unlock.attempt p₂).1), ?_⟩
      · refine (hunlock p₂).trans ?_
        simp [hlog, hlock]
      · simp only [attempt_of_error hacquire, hs]
    | ok _ p₂ =>
      rw [attempt_of_ok hw] at hlog hwaking
      simp only at hlog
      have hacquire : acquire host.traced s = .ok () { s with bus := p₂, phase := .acquired } := by
        simp only [acquire, hs, h, hw]
      refine ⟨.of_ok hacquire ?_ (.acquired hwaking), ?_⟩
      · simp [hlog, hlock]
      · simp only [attempt_of_ok hacquire]

/-! ## Release -/

/-- The calls that send devices to sleep, and the error. -/
inductive Sleeping (sleepCommand : Byte) : Option (Error ε) → List (Entry ε) → Prop
  | notReset (failure : ε) :
      Sleeping sleepCommand (some (.bus failure)) [.reset (.error failure)]
  | empty : Sleeping sleepCommand none [.reset (.ok false)]
  | notSkipped {err : Error ε} {entries : List (Entry ε)}
      (h : Bracketed (Master.Commanding .skipRom) (some err) entries) :
      Sleeping sleepCommand (some err) (.reset (.ok true) :: entries)
  | told {entries : List (Entry ε)} (h : Bracketed (Master.Commanding .skipRom) none entries)
      (o : Except ε Unit) :
      Sleeping sleepCommand ((failure? o).map .bus)
        (.reset (.ok true) :: (entries ++ [.writeBlock [sleepCommand] o]))

theorem Sleeping.transcript {sleepCommand : Byte} {err : Option (Error ε)}
    {entries : List (Entry ε)} (h : Sleeping sleepCommand err entries) :
    entries = [.reset (.ok false)] ∧ err = none ∨ Transcript .presence err entries := by
  have hcomposes := composes_transcript (ε := ε) .presence
  have hreset : Transcript .presence (none : Option (Error ε)) [.reset (.ok true)] :=
    .single rfl rfl
  cases h with
  | notReset failure => exact .inr (.single rfl rfl)
  | empty => exact .inl ⟨rfl, rfl⟩
  | notSkipped h => exact .inr (hcomposes.append hreset (Master.transcript_of_commanding h))
  | told h o =>
    have hwrite : Transcript .presence ((failure? o).map .bus) [.writeBlock [sleepCommand] o] :=
      .single rfl (by cases o <;> rfl)
    have hskip := Master.transcript_of_commanding h
    exact .inr (hcomposes.append hreset (hcomposes.append hskip hwrite))

theorem Sleeping.balanced {sleepCommand : Byte} {err : Option (Error ε)}
    {entries : List (Entry ε)} (h : Sleeping sleepCommand err entries) : Balanced entries := by
  rcases h.transcript with ⟨rfl, -⟩ | h
  · exact .access rfl
  · exact h.balanced

theorem sendToSleep_logs (host : Host σ ε) (sleepCommand : Byte) (p : σ × List (Entry ε)) :
    (sendToSleep host.traced sleepCommand).Logs Prod.snd (Sleeping sleepCommand) p := by
  unfold sendToSleep
  refine logs_iff_ensures.2 (ensures_bind.2 (ensures_onBus.2 ?_))
  refine .traced (fun present s => ?_) fun failure s => ?_
  · cases present with
    | false => exact ⟨_, rfl, .empty⟩
    | true =>
      refine ensures_bind.2 ((logs_iff_ensures.1 (host.logs_commanded .skipRom _)).mono ?_ ?_)
      · rintro _ p₁ ⟨entries, hlog, h⟩
        refine ensures_onBus.2 (.traced (fun _ s' => ?_) fun failure s' => ?_)
        · exact ⟨_, by simp [hlog], .told h (.ok ())⟩
        · exact ⟨_, by simp [hlog], .told h (.error failure)⟩
      · rintro err p₁ ⟨entries, hlog, h⟩
        exact ⟨_, by simp [hlog], .notSkipped h⟩
  · exact ⟨_, rfl, .notReset failure⟩

theorem entering_eq {ρ ε' τ : Type} (enter : ρ → ε' → ρ) (act : Action ε' τ α) (p : ρ × τ) :
    entering enter act p =
      ((failure? (act.attempt p.2).1).elim p.1 (enter p.1), (act.attempt p.2).2) := by
  unfold entering attempt
  cases act p.2 <;> rfl

theorem entering_fail {τ : Type} (act : Action ε τ α) (err : Option ε) (ws : List (Warning ε))
    (t : τ) :
    entering (fun r e => r.fail (.bus e)) act (Report.ofWarnings () (err.map .bus) ws, t) =
      (.ofWarnings () ((err.or (failure? (act.attempt t).1)).map .bus) ws, (act.attempt t).2) := by
  rw [entering_eq]
  cases err <;> cases (act.attempt t).1 <;> rfl

/-- The calls of a release and its report. The last two are made whatever came of the others. -/
theorem release_acquired (host : Host σ ε) {s : Session (σ × List (Entry ε))}
    (hs : s.phase = .acquired) :
    ∃ asleep err o o',
      (if s.sleeper = true then Sleeping s.config.sleepCommand err asleep
        else asleep = [] ∧ err = none) ∧
      (release host.traced s).1 = .ofWarnings () (((failure? o).or (failure? o')).map .bus)
        (err.toList.map .stillAwake) ∧
      (release host.traced s).2.bus.2 = s.bus.2 ++ (asleep ++ [.suspend o, .unlock o']) ∧
      (release host.traced s).2.phase = .idle ∧ (release host.traced s).2.sleeper = false := by
  have hsuspend : host.traced.suspend.Notes Prod.snd .suspend := notes_traced _ _
  have hunlock : host.traced.unlock.Notes Prod.snd .unlock := notes_traced _ _
  obtain ⟨asleep, err, p, hcalls, hstart, hlog⟩ : ∃ asleep err p,
      (if s.sleeper = true then Sleeping s.config.sleepCommand err asleep
        else asleep = [] ∧ err = none) ∧
      (if s.sleeper = true then
        entering (fun r e => r.warn (.stillAwake e))
          (sendToSleep host.traced s.config.sleepCommand) (({ value := () } : Report Unit ε), s.bus)
      else (({ value := () } : Report Unit ε), s.bus)) =
        (.ofWarnings () none (err.toList.map .stillAwake), p) ∧
      p.2 = s.bus.2 ++ asleep := by
    cases s.sleeper with
    | false => exact ⟨[], none, s.bus, ⟨rfl, rfl⟩, rfl, (List.append_nil _).symm⟩
    | true =>
      obtain ⟨asleep, hlog, h⟩ := sendToSleep_logs host s.config.sleepCommand s.bus
      refine ⟨asleep, _, _, h, ?_, hlog⟩
      rw [if_pos rfl, entering_eq]
      cases ((sendToSleep host.traced s.config.sleepCommand).attempt s.bus).1 <;> rfl
  have hrelease : release host.traced s =
      (.ofWarnings () (((failure? (host.traced.suspend.attempt p).1).or
          (failure? (host.traced.unlock.attempt (host.traced.suspend.attempt p).2).1)).map .bus)
          (err.toList.map .stillAwake),
        { s with
          bus := (host.traced.unlock.attempt (host.traced.suspend.attempt p).2).2
          phase := .idle
          sleeper := false }) := by
    have hsuspended := entering_fail host.traced.suspend none (err.toList.map .stillAwake) p
    rw [Option.map_none, Option.none_or] at hsuspended
    unfold release
    simp only [hs, hstart, hsuspended]
    rw [entering_fail host.traced.unlock]
  rw [hrelease]
  refine ⟨asleep, err, _, _, hcalls, rfl, ?_, rfl, rfl⟩
  simp only
  rw [hunlock, hsuspend, hlog, List.append_assoc, List.append_assoc]
  rfl

/-! ## Scans -/

section Scan

variable (limit : Nat) (accept : Rom → κ → Bool × κ) (k : κ)

theorem scan_acquired (host : Host σ ε) {s : Session σ} (hs : s.phase = .acquired)
    {outcome : Except (Error ε) (Option Nat)} {bus : σ} {found : List Rom}
    (hsearch : (Search.enumerate host.toMaster limit s.config.scope Search.anyFamily).attempt
      (s.bus, []) = (outcome, bus, found)) :
    (scan host limit accept s k).2.1 =
        { s with bus, sleeper := found.any (·.family == s.config.sleeperFamily) } ∧
      (scan host limit accept s k).1.bind (·.error) = failure? outcome := by
  by_cases hend : outcome = .ok none
  · subst hend
    unfold scan
    simp only [hs, hsearch, foldl_add]
    exact ⟨rfl, rfl⟩
  · obtain ⟨calls, k', -, -, hscan⟩ := scan_of_found accept k hs hsearch hend
    rw [hscan]
    exact ⟨rfl, rfl⟩

theorem scan_logs (host : Host σ ε) {s : Session (σ × List (Entry ε))}
    (hs : s.phase = .acquired) :
    (scan host.traced limit accept s k).2.1.phase = .acquired ∧
      ∃ entries, (scan host.traced limit accept s k).2.1.bus.2 = s.bus.2 ++ entries ∧
        Bracketed (Accesses .nothing)
          ((scan host.traced limit accept s k).1.bind (·.error)) entries := by
  obtain ⟨hstate, herr⟩ := scan_acquired limit accept k host.traced hs rfl
  rw [hstate, herr]
  exact ⟨hs, Search.logs_enumerate host.toMaster limit s.config.scope Search.anyFamily (s.bus, [])⟩

end Scan

/-! ## Steps -/

/-- The error in an answer; in a report it is the first that was kept. -/
def Answer.error? : Answer ε → Option (Error ε)
  | done o => failure? o
  | released report => report.error
  | scanned report _ => report.bind (·.error)
  | identified o => failure? o
  | exchanged o _ => failure? o

theorem perform_idle (host : Host σ ε) (limit : Nat) {request : Request}
    (hrequest : request ≠ .acquire) {s : Session σ} (hs : s.phase = .idle) :
    (perform host limit request s).2 = s ∧
      (perform host limit request s).1.error? = some .notAcquired := by
  cases request with
  | acquire => exact absurd rfl hrequest
  | release => simp [perform, release, hs, Answer.error?, Report.fail]
  | scan accept => simp [perform, scanListing, scan, hs, Answer.error?, Report.fail]
  | exchange rom data buffer =>
    simp [perform, gatedBeside, attempt, hs, Answer.error?, failure?]
  | _ => simp [perform, perform.answer, attempt, gated_idle _ hs, Answer.error?, failure?]

theorem attempt_gated (act : Action (Error ε) σ α) {s : Session σ} (hs : s.phase = .acquired) :
    (gated act).attempt s = ((act.attempt s.bus).1, { s with bus := (act.attempt s.bus).2 }) := by
  unfold attempt
  rw [gated_acquired act hs, onBus]
  cases act s.bus <;> rfl

theorem attempt_gatedBeside (act : Action (Error ε) (σ × β) α) {s : Session σ} (b : β)
    (hs : s.phase = .acquired) :
    (gatedBeside act).attempt (s, b) =
      ((act.attempt (s.bus, b)).1, { s with bus := (act.attempt (s.bus, b)).2.1 },
        (act.attempt (s.bus, b)).2.2) := by
  unfold attempt gatedBeside
  simp only [hs]
  cases act (s.bus, b) <;> rfl

/--
The steps of a session: the phase before, what was asked and answered, the calls that were made,
and the phase after.
-/
inductive Step : Phase → Request → Answer ε → List (Entry ε) → Phase → Prop
  | refused {request : Request} {answer : Answer ε} (hrequest : request ≠ .acquire) :
      Step .idle request answer [] .idle
  | notAcquired {ms : Nat} {err : Error ε} {entries : List (Entry ε)}
      (h : Acquiring ms (some err) entries) :
      Step .idle .acquire (.done (.error err)) entries .idle
  | acquired {ms : Nat} {entries : List (Entry ε)} (h : Acquiring ms none entries) :
      Step .idle .acquire (.done (.ok ())) entries .acquired
  | alreadyAcquired : Step .acquired .acquire (.done (.error .alreadyAcquired)) [] .acquired
  | served {request : Request} {answer : Answer ε} {entries : List (Entry ε)}
      (hacquire : request ≠ .acquire) (hrelease : request ≠ .release) (h : Balanced entries) :
      Step .acquired request answer entries .acquired
  | released {answer : Answer ε} {asleep : List (Entry ε)} (h : Balanced asleep)
      (o : Except ε PowerChange) (o' : Except ε Unit) :
      Step .acquired .release answer (asleep ++ [.suspend o, .unlock o']) .idle

/-- The session still owns the bus, and has only made calls that leave it so. -/
def Served (s s' : Session (σ × List (Entry ε))) : Prop :=
  s'.phase = .acquired ∧ ∃ entries, s'.bus.2 = s.bus.2 ++ entries ∧ Balanced entries

section Served

variable {s : Session (σ × List (Entry ε))} {d : Demand}

theorem served_gated (hs : s.phase = .acquired)
    {act : Action (Error ε) (σ × List (Entry ε)) α} (h : act.Logs Prod.snd (Transcript d) s.bus) :
    Served s ((gated act).attempt s).2 := by
  obtain ⟨entries, hlog, htranscript⟩ := h
  rw [attempt_gated act hs]
  exact ⟨hs, entries, hlog, htranscript.balanced⟩

theorem served_perform (host : Host σ ε) (limit : Nat) {request : Request}
    (hacquire : request ≠ .acquire) (hrelease : request ≠ .release) (hs : s.phase = .acquired) :
    Served s (perform host.traced limit request s).2 := by
  cases request with
  | acquire => exact absurd rfl hacquire
  | release => exact absurd rfl hrelease
  | scan accept =>
    obtain ⟨hphase, entries, hlog, h⟩ := scan_logs limit
      (fun rom offered => (accept offered rom, offered ++ [rom])) [] host hs
    exact ⟨hphase, entries, hlog, h.balanced fun _ _ h => h.transcript.balanced⟩
  | readRom => exact served_gated hs (host.logs_readRom s.bus)
  | matchRom rom => exact served_gated hs (host.logs_matchRom rom s.bus)
  | skipRom => exact served_gated hs (host.logs_skipRom s.bus)
  | resume => exact served_gated hs (host.logs_resumeRom s.bus)
  | select rom => exact served_gated hs (host.logs_select rom s.bus)
  | send rom data => exact served_gated hs (host.logs_send rom data s.bus)
  | @exchange rom data n buffer =>
    obtain ⟨entries, hlog, h⟩ := host.logs_exchange rom data n (s.bus, buffer)
    simp only [perform, attempt_gatedBeside _ buffer hs]
    exact ⟨hs, entries, hlog, h.balanced⟩

end Served

theorem perform_acquire (host : Host σ ε) (limit : Nat) (s : Session σ) :
    perform host limit .acquire s =
      (.done ((acquire host).attempt s).1, ((acquire host).attempt s).2) := rfl

theorem perform_step (host : Host σ ε) (limit : Nat) (request : Request)
    (s : Session (σ × List (Entry ε))) :
    ∃ entries, (perform host.traced limit request s).2.bus.2 = s.bus.2 ++ entries ∧
      Step s.phase request (perform host.traced limit request s).1 entries
        (perform host.traced limit request s).2.phase := by
  cases hs : s.phase with
  | idle =>
    by_cases hrequest : request = .acquire
    · subst hrequest
      obtain ⟨⟨entries, hlog, h⟩, hphase⟩ := acquire_idle host hs
      refine ⟨entries, hlog, ?_⟩
      rw [perform_acquire]
      simp only [hphase]
      cases hresult : ((acquire host.traced).attempt s).1 with
      | error err => exact .notAcquired (hresult ▸ h)
      | ok _ => exact .acquired (hresult ▸ h)
    · obtain ⟨hstate, -⟩ := perform_idle host.traced limit hrequest hs
      rw [hstate, hs]
      exact ⟨[], (List.append_nil _).symm, .refused hrequest⟩
  | acquired =>
    by_cases hacquire : request = .acquire
    · subst hacquire
      have hattempt : (acquire host.traced).attempt s = (.error .alreadyAcquired, s) := by
        simp only [attempt, acquire, hs]
      simp only [perform_acquire, hattempt, hs]
      exact ⟨[], (List.append_nil _).symm, .alreadyAcquired⟩
    by_cases hrelease : request = .release
    · subst hrelease
      obtain ⟨asleep, err, o, o', hcalls, -, hlog, hphase, -⟩ := release_acquired host hs
      have hasleep : Balanced asleep := by
        split at hcalls
        · exact hcalls.balanced
        · exact hcalls.1 ▸ .nil
      unfold perform
      rw [hphase]
      exact ⟨_, hlog, .released hasleep o o'⟩
    · obtain ⟨hphase, entries, hlog, h⟩ := served_perform host limit hacquire hrelease hs
      rw [hphase]
      exact ⟨entries, hlog, .served hacquire hrelease h⟩

end OneWire.Session
