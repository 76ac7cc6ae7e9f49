import Mathlib.Data.List.Iterate
import OneWire.Proofs.Master.Keeps
import OneWire.Proofs.Search.Shared

/-!
# Searches side by side

Several searches take turns with each other and with anything else that is asked of the master, and
calls fail. What a pass finds depends on its cursor and the devices alone, so each search goes on as
if it had the bus to itself.
-/

namespace OneWire.Search

variable {σ ε ι : Type}

/-! ## Schedules -/

/-- What is done on the bus next. -/
inductive Task (ι : Type) where
  | pass (j : ι)
  | other (limit : Nat) (request : Master.Request)

structure Searches (ι σ : Type) where
  bus : σ
  /-- The cursors that the passes of each search returned, oldest first. -/
  history : ι → List Cursor := fun _ => []

/-- The cursor of the next pass. -/
def current (history : List Cursor) : Cursor :=
  history.getLast?.getD {}

namespace Searches

variable [DecidableEq ι]

/-- Does a task. A pass that fails leaves the cursor as it is. -/
def step (bus : Master σ ε) (scope : ι → Scope) (x : Searches ι σ) : Task ι → Searches ι σ
  | .pass j =>
    match (Search.pass bus.toByteMaster (scope j) (current (x.history j))).attempt x.bus with
    | (.ok c, s) => { bus := s, history := Function.update x.history j (x.history j ++ [c]) }
    | (.error _, s) => { x with bus := s }
  | .other limit request => { x with bus := (bus.perform limit request x.bus).2 }

/-- Does the tasks in turn, from new cursors. -/
def run (bus : Master σ ε) (scope : ι → Scope) (s : σ) (schedule : List (Task ι)) :
    Searches ι σ :=
  schedule.foldl (step bus scope) { bus := s }

end Searches

/-! ## Passes on their own -/

namespace Answers

variable {a : Answers} {c : Cursor}

/-- The cursors of the first `n` passes. -/
def firstPasses (a : Answers) (n : Nat) : List Cursor :=
  List.iterate a.pass (a.pass {}) n

theorem current_firstPasses (a : Answers) (n : Nat) :
    current (a.firstPasses n) = a.pass^[n] {} := by
  cases n with
  | zero => rfl
  | succ n =>
    rw [firstPasses, List.iterate_add]
    simp [current, List.iterate]

theorem firstPasses_succ (a : Answers) (n : Nat) :
    a.firstPasses (n + 1) = a.firstPasses n ++ [a.pass (current (a.firstPasses n))] := by
  rw [current_firstPasses, ← Function.iterate_succ_apply' a.pass, Function.iterate_succ_apply]
  exact List.iterate_add _ _ _ _

theorem firstPasses_mono (a : Answers) {m n : Nat} (h : m ≤ n) :
    a.firstPasses m <+: a.firstPasses n := by
  obtain ⟨k, rfl⟩ := Nat.exists_eq_add_of_le h
  exact ⟨_, (List.iterate_add _ _ _ _).symm⟩

theorem Trail.eq_iterate {cursors : List Cursor} (h : a.Trail c cursors) :
    cursors = List.iterate a.pass (a.pass c) cursors.length := by
  induction h with
  | last => rfl
  | more _ _ ih =>
    rw [List.length_cons, List.iterate]
    exact congrArg _ ih

end Answers

/-! ## The history of each search -/

namespace Searches

variable [DecidableEq ι] {bus : Master σ ε} {line : σ → Line} {scope : ι → Scope}
  {devices : List Device} {x : Searches ι σ}

/-- The devices are the same, and the passes of each search were those it makes on its own. -/
structure Fits (line : σ → Line) (scope : ι → Scope) (devices : List Device)
    (x : Searches ι σ) : Prop where
  line : (line x.bus).devices = devices ∧ (line x.bus).resetsLeft = none
  history (j : ι) :
    x.history j = (Line.answers devices (scope j)).firstPasses (x.history j).length

theorem step_of_ok {j : ι} {c : Cursor} {s : σ}
    (h : Search.pass bus.toByteMaster (scope j) (current (x.history j)) x.bus = .ok c s) :
    x.step bus scope (.pass j) =
      { bus := s, history := Function.update x.history j (x.history j ++ [c]) } := by
  simp only [step, Action.attempt, h]

theorem step_of_error {j : ι} {e : ε} {s : σ}
    (h : Search.pass bus.toByteMaster (scope j) (current (x.history j)) x.bus = .error e s) :
    x.step bus scope (.pass j) = { x with bus := s } := by
  simp only [step, Action.attempt, h]

theorem step_fits (hd : bus.toByteMaster.Drives line) (hconf : bus.Confined line)
    (hx : x.Fits line scope devices) (task : Task ι) :
    (x.step bus scope task).Fits line scope devices := by
  have hkeeps := hconf _ (Line.closed_devices devices)
  cases task with
  | other limit request => exact ⟨hkeeps.perform limit request hx.line, hx.history⟩
  | pass j =>
    have hline := hkeeps.pass (scope j) (current (x.history j)) x.bus hx.line
    have hpass := pass_ensures_shared hd (scope j) (current (x.history j)) x.bus
      (by simp [hx.line.2])
    rw [hx.line.1] at hpass
    cases hresult : Search.pass bus.toByteMaster (scope j) (current (x.history j)) x.bus with
    | error e s =>
      rw [step_of_error hresult]
      exact ⟨hline.of_error hresult, hx.history⟩
    | ok c s =>
      obtain ⟨rfl, -⟩ := hpass.of_ok hresult
      rw [step_of_ok hresult]
      refine ⟨hline.of_ok hresult, fun i => ?_⟩
      by_cases hij : i = j
      · subst hij
        simp only [Function.update_self, List.length_append, List.length_singleton]
        rw [Answers.firstPasses_succ, ← hx.history i]
      · simp only [Function.update_of_ne hij]
        exact hx.history i

theorem run_fits (hd : bus.toByteMaster.Drives line) (hconf : bus.Confined line)
    (scope : ι → Scope) {s : σ} (hleft : (line s).resetsLeft = none)
    (schedule : List (Task ι)) :
    (run bus scope s schedule).Fits line scope (line s).devices := by
  unfold run
  have hstart : Fits line scope (line s).devices { bus := s } := ⟨⟨rfl, hleft⟩, fun _ => rfl⟩
  generalize ({ bus := s } : Searches ι σ) = x at hstart ⊢
  induction schedule generalizing x with
  | nil => exact hstart
  | cons task schedule ih => exact ih _ (step_fits hd hconf hstart task)

theorem length_history_alone {sound : σ → Prop} {depth : σ → Nat}
    (hf : bus.Faultless sound depth) (scope : ι → Scope) {s : σ} (hs : sound s) (j : ι)
    (n : Nat) : ((run bus scope s (List.replicate n (.pass j))).history j).length = n := by
  suffices ∀ x : Searches ι σ, sound x.bus →
      (((List.replicate n (.pass j)).foldl (step bus scope) x).history j).length =
        (x.history j).length + n by
    simpa [run] using this { bus := s } hs
  induction n with
  | zero => exact fun _ _ => rfl
  | succ n ih =>
    intro x hx
    obtain ⟨c, s', hok, hs', -⟩ := (pass_works hf (scope j) (current (x.history j)) _ hx).returns
    rw [List.replicate_succ, List.foldl_cons, step_of_ok hok, ih _ hs']
    simp
    omega

end Searches

/--
Each search gets the cursors that it gets on its own without failures. So where no device drops
out, it finds each device once, and has found all of them when it reports the last one.
-/
theorem history_independent [DecidableEq ι] {bus : Master σ ε} {line : σ → Line}
    {sound : σ → Prop} {depth : σ → Nat} (hd : bus.toByteMaster.Drives line)
    (hconf : bus.Confined line) (hf : bus.Faultless sound depth) (scope : ι → Scope) {s s₀ : σ}
    (hleft : (line s).resetsLeft = none) (hs₀ : sound s₀)
    (hleft₀ : (line s₀).resetsLeft = none) (hsame : (line s₀).devices = (line s).devices)
    (schedule : List (Task ι)) (j : ι) :
    (Searches.run bus scope s schedule).history j =
        (Searches.run bus scope s₀ (List.replicate
          ((Searches.run bus scope s schedule).history j).length (.pass j))).history j ∧
      ((∀ d ∈ (line s).devices, d.dropAt = none) →
        ∃ cursors, Exhausts (Line.asked (line s).devices (scope j)) cursors ∧
          ((Searches.run bus scope s schedule).history j <+: cursors ∨
            cursors <+: (Searches.run bus scope s schedule).history j)) := by
  have hrun := (Searches.run_fits hd hconf scope hleft schedule).history j
  have halone := (Searches.run_fits hd hconf scope hleft₀ (List.replicate
    ((Searches.run bus scope s schedule).history j).length (.pass j))).history j
  rw [Searches.length_history_alone hf scope hs₀, hsame, ← hrun] at halone
  refine ⟨halone.symm, fun hstay => ?_⟩
  obtain ⟨cursors, htrail, hsweeps⟩ := (Line.answers (line s).devices (scope j)).exists_trail
  refine ⟨cursors, exhausts_of_sweeps (Line.answered_of_stay hstay) hsweeps, ?_⟩
  have hcursors : cursors =
      (Line.answers (line s).devices (scope j)).firstPasses cursors.length := htrail.eq_iterate
  rw [hrun, hcursors]
  rcases Nat.le_total ((Searches.run bus scope s schedule).history j).length cursors.length with
    h | h
  · exact .inl (Answers.firstPasses_mono _ h)
  · exact .inr (Answers.firstPasses_mono _ h)

/-- The seventieth bit that is written is lost. -/
def faulty : Bench Line :=
  { threeDevices none with meter := { plan := fun c n => c == .writeBit && n == 69 } }

def scopes (alarmed : Bool) : Scope :=
  if alarmed then .alarmed else .all

/-- The second search fails in its first pass, and the master selects all devices in between. -/
def turns : List (Task Bool) :=
  [.pass false, .pass true, .other 5 .skipRom, .pass true, .pass false, .pass true]

theorem history_independent_faulty :
    (Searches.run Bench.bitHost.toMaster scopes faulty turns).history true =
        (Searches.run Bench.bitHost.toMaster scopes (threeDevices none) (List.replicate
          ((Searches.run Bench.bitHost.toMaster scopes faulty turns).history true).length
          (.pass true))).history true ∧
      ((∀ d ∈ faulty.line.devices, d.dropAt = none) →
        ∃ cursors, Exhausts (Line.asked faulty.line.devices (scopes true)) cursors ∧
          ((Searches.run Bench.bitHost.toMaster scopes faulty turns).history true <+: cursors ∨
            cursors <+: (Searches.run Bench.bitHost.toMaster scopes faulty turns).history true)) :=
  history_independent Bench.bitHost_drives Bench.bitHost_confined Bench.bitHost_faultless scopes
    (s := faulty) rfl (quiet_threeDevices none) rfl rfl turns true

end OneWire.Search
