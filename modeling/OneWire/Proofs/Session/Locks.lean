import OneWire.Proofs.Bench.Depth
import OneWire.Proofs.Session.Ownership

/-!
# A session balances its locks

An acquired session has one lock outstanding and an idle one none, whatever was requested and
whatever failed.
-/

namespace OneWire.Session

variable {σ ε : Type}

/-! ## Phases -/

/-- Some acquisition went well, and no release was requested since. -/
def Holds (requests : List Request) (outcomes : List (Outcome ε)) : Prop :=
  ∃ before after, requests = before ++ .acquire :: after ∧
    outcomes[before.length]? = some (.session (.done (.ok ()))) ∧ .release ∉ after

theorem holds_nil {outcomes : List (Outcome ε)} : ¬Holds [] outcomes := by
  rintro ⟨before, after, hrequests, -⟩
  simp at hrequests

theorem holds_cons {request : Request} {rest : List Request} {answer : Answer ε}
    {outcomes : List (Outcome ε)} :
    Holds (request :: rest) (.session answer :: outcomes) ↔
      (request = .acquire ∧ answer = .done (.ok ())) ∧ .release ∉ rest ∨ Holds rest outcomes := by
  constructor
  · rintro ⟨before, after, hrequests, houtcome, hafter⟩
    cases before with
    | nil =>
      obtain ⟨rfl, rfl⟩ := List.cons.inj hrequests
      simp at houtcome
      exact .inl ⟨⟨rfl, houtcome⟩, hafter⟩
    | cons first before =>
      obtain ⟨rfl, rfl⟩ := List.cons.inj hrequests
      exact .inr ⟨before, after, rfl, by simpa using houtcome, hafter⟩
  · rintro (⟨⟨rfl, rfl⟩, hrest⟩ | ⟨before, after, rfl, houtcome, hafter⟩)
    · exact ⟨[], rest, rfl, rfl, hrest⟩
    · exact ⟨request :: before, after, rfl, by simpa using houtcome, hafter⟩

theorem Step.acquired_iff {phase phase' : Phase} {request : Request} {answer : Answer ε}
    {entries : List (Entry ε)} (h : Step phase request answer entries phase') :
    phase' = .acquired ↔ request = .acquire ∧ answer = .done (.ok ()) ∨
      phase = .acquired ∧ request ≠ .release := by
  cases h <;> simp_all

theorem run_session (host : Host σ ε) (limit : Nat) (request : Request) (rest : List Operation)
    (s : Session σ) :
    run host limit (.session request :: rest) s =
      (.session (perform host limit request s).1 ::
        (run host limit rest (perform host limit request s).2).1,
        (run host limit rest (perform host limit request s).2).2) := rfl

theorem run_acquired_iff (host : Host σ ε) (limit : Nat) (requests : List Request)
    (s : Session (σ × List (Entry ε))) :
    (run host.traced limit (requests.map .session) s).2.phase = .acquired ↔
      Holds requests (run host.traced limit (requests.map .session) s).1 ∨
        s.phase = .acquired ∧ .release ∉ requests := by
  induction requests generalizing s with
  | nil => simp [run, holds_nil]
  | cons request rest ih =>
    obtain ⟨entries, -, hstep⟩ := perform_step host limit request s
    have hne : request ≠ .release ↔ ¬.release = request := ne_comm
    rw [List.map_cons, run_session, ih, hstep.acquired_iff, holds_cons, List.mem_cons, not_or,
      or_and_right, and_assoc, and_assoc, hne, or_left_comm, or_assoc]

/-! ## The balance -/

/--
A new session takes and gives back locks so that one is outstanding while it is acquired and none
while it is idle. It never unlocks a bus that it has not locked. A bus that counts its locks is left
as deep as it was, but for the lock of an acquired session and the unlocks that failed.
-/
theorem locks_balanced (host : Host σ ε) (limit : Nat) {config : Config} {capacity : Nat} {bus : σ}
    {requests : List Request} {outcomes : List (Outcome ε)} {s : Session (σ × List (Entry ε))}
    (hrun : run host.traced limit (requests.map .session) { bus := (bus, []), config, capacity } =
      (outcomes, s)) :
    s.bus.2.countP Entry.isLocked =
        s.bus.2.countP Entry.isUnlock + (if s.phase = .acquired then 1 else 0) ∧
      Throughout (fun before e => e.isUnlock →
        before.countP Entry.isUnlock < before.countP Entry.isLocked) s.bus.2 ∧
      (s.phase = .acquired ↔ Holds requests outcomes) ∧
      ∀ depth, host.Counts depth →
        depth s.bus.1 = depth bus + (if s.phase = .acquired then 1 else 0) +
          s.bus.2.countP Entry.isFailedUnlock := by
  have howned := Owned.run host limit requests (s := { bus := (bus, []), config, capacity }) .start
  have hphase := run_acquired_iff host limit requests { bus := (bus, []), config, capacity }
  rw [hrun] at howned hphase
  have hlocks : outstanding s.bus.2 = ((if s.phase = .acquired then 1 else 0 : Nat) : Int) := by
    rw [howned.locks]
    split <;> rfl
  refine ⟨?_, fun before e after hlog hunlock => ?_, ?_, fun depth hcounts => ?_⟩
  · unfold outstanding at hlocks
    omega
  · have hlocked := (howned.permitted before e after hlog).locked (.inl hunlock)
    unfold outstanding at hlocked
    omega
  · simpa using hphase
  · have hstart : Accounted depth (depth bus) ((bus, []) : σ × List (Entry ε)) := by
      simp [Accounted]
    have hdepth := (hcounts.keeps (depth bus)).run limit (requests.map .session)
      (s := { bus := (bus, []), config, capacity }) hstart
    rw [hrun] at hdepth
    simp only [Accounted, hlocks] at hdepth
    omega

/-- The first unlock fails, which leaves the bus locked once too often. -/
def stuck : Bench Line where
  line := .ofDevices [{ rom := .ofWireBits 1 }]
  meter := { plan := fun c n => c == .unlock && n == 0 }
  declared := 1

theorem locks_balanced_stuck :
    ∃ outcomes s, run Bench.bitHost.traced 1 ([.acquire, .skipRom, .release].map .session)
        { bus := (stuck, []) } = (outcomes, s) ∧
      s.phase = .idle ∧ s.bus.2.countP Entry.isFailedUnlock = 1 ∧ s.bus.1.depth = 1 := by
  have hphase : (run Bench.bitHost.traced 1 ([.acquire, .skipRom, .release].map .session)
      { bus := (stuck, []) }).2.phase = .idle := by decide +kernel
  have hfailed : (run Bench.bitHost.traced 1 ([.acquire, .skipRom, .release].map .session)
      { bus := (stuck, []) }).2.bus.2.countP Entry.isFailedUnlock = 1 := by decide +kernel
  generalize hrun : run Bench.bitHost.traced 1 ([.acquire, .skipRom, .release].map .session)
    { bus := (stuck, []) } = result at hphase hfailed
  obtain ⟨outcomes, s⟩ := result
  obtain ⟨-, -, -, hdepth⟩ := locks_balanced Bench.bitHost 1 hrun
  refine ⟨outcomes, s, rfl, hphase, hfailed, ?_⟩
  rw [hdepth Bench.depth Bench.bitHost_counts, hphase, hfailed]
  rfl

end OneWire.Session
