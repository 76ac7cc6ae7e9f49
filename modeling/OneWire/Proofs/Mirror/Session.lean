import OneWire.Proofs.Mirror.Master
import OneWire.Proofs.Session.Trace

/-!
# Sessions on hosts that mirror each other

Whatever is done with two sessions on such hosts is answered alike. A host that lists its calls
mirrors the host itself, so what its log shows are the calls of every session.
-/

namespace OneWire

open OneWire.Action

variable {σ τ ε α β : Type} {R : σ → τ → Prop}

structure Host.Mirrors (host : Host σ ε) (host' : Host τ ε) (R : σ → τ → Prop) : Prop
    extends master : host.toMaster.Mirrors host'.toMaster R where
  delay (ms : Nat) {s : σ} {t : τ} (hR : R s t) : R (host.delay ms s) (host'.delay ms t)

namespace Session

/-- The same session on another bus. -/
def on (s : Session σ) (bus : τ) : Session τ where
  bus := bus
  config := s.config
  capacity := s.capacity
  phase := s.phase
  sleeper := s.sleeper

@[simp] theorem on_bus (s : Session σ) (bus : τ) : (s.on bus).bus = bus := rfl

@[simp] theorem on_phase (s : Session σ) (bus : τ) : (s.on bus).phase = s.phase := rfl

@[simp] theorem on_config (s : Session σ) (bus : τ) : (s.on bus).config = s.config := rfl

@[simp] theorem on_sleeper (s : Session σ) (bus : τ) : (s.on bus).sleeper = s.sleeper := rfl

/-- The buses of the sessions are related, and nothing else differs. -/
def Alike (R : σ → τ → Prop) (s : Session σ) (t : Session τ) : Prop :=
  ∃ bus, R s.bus bus ∧ t = s.on bus

/-- How often a session locks its bus. -/
def Phase.locks : Phase → Nat
  | .idle => 0
  | .acquired => 1

/-- The buses are related as the locks of the sessions want it, and nothing else differs. -/
def Nested (R : Nat → σ → τ → Prop) (s : Session σ) (t : Session τ) : Prop :=
  ∃ bus, R s.phase.locks s.bus bus ∧ t = s.on bus

section Nested

variable {R : Nat → σ → τ → Prop}

theorem gated_mirrors {act : Action (Error ε) σ α} {act' : Action (Error ε) τ α}
    (h : act.Mirrors (R 1) act') : (gated act).Mirrors (Nested R) (gated act') := by
  rintro s t ⟨bus, hR, rfl⟩
  cases hs : s.phase with
  | idle =>
    rw [attempt_of_error (gated_idle act hs), attempt_of_error (gated_idle act' (s := s.on bus) hs)]
    exact ⟨rfl, bus, hR, rfl⟩
  | acquired =>
    rw [attempt_gated act hs, attempt_gated act' (s := s.on bus) hs]
    rw [hs] at hR
    obtain ⟨houtcome, hR'⟩ := h s.bus bus hR
    exact ⟨houtcome, _, by rwa [hs], rfl⟩

theorem gatedBeside_mirrors {act : Action (Error ε) (σ × β) α} {act' : Action (Error ε) (τ × β) α}
    (h : act.Mirrors (Beside (R 1)) act') :
    (gatedBeside act).Mirrors (Beside (Nested R)) (gatedBeside act') := by
  rintro ⟨s, b⟩ ⟨t, b'⟩ ⟨⟨bus, hR, rfl⟩, rfl⟩
  cases hs : s.phase with
  | idle =>
    have hidle : (s.on bus).phase = .idle := hs
    simp only [attempt, gatedBeside, hs, hidle, true_and]
    exact ⟨⟨bus, hR, rfl⟩, rfl⟩
  | acquired =>
    rw [attempt_gatedBeside act b hs, attempt_gatedBeside act' (s := s.on bus) b hs]
    rw [hs] at hR
    obtain ⟨houtcome, hR', hbeside⟩ := h (s.bus, b) (bus, b) ⟨hR, rfl⟩
    exact ⟨houtcome, ⟨_, by rwa [hs], rfl⟩, hbeside⟩

end Nested

/-- The states are related, and so far the reports are the same. -/
def Reported {ρ : Type} (R : σ → τ → Prop) (p : ρ × σ) (q : ρ × τ) : Prop :=
  p.1 = q.1 ∧ R p.2 q.2

theorem entering_mirrors {ρ ε' : Type} {Q : σ → τ → Prop} {act : Action ε' σ α}
    {act' : Action ε' τ α} (h : Shifts R (fun _ => Q) Q act act') (enter : ρ → ε' → ρ) {p : ρ × σ}
    {q : ρ × τ} (hpq : Reported R p q) :
    Reported Q (entering enter act p) (entering enter act' q) := by
  obtain ⟨hreport, hR⟩ := hpq
  unfold entering
  rcases h p.2 q.2 hR with ⟨a, s', t', hs, ht, hR'⟩ | ⟨e, s', t', hs, ht, hR'⟩
  · simp only [hs, ht]
    exact ⟨hreport, hR'⟩
  · simp only [hs, ht, hreport]
    exact ⟨rfl, hR'⟩

theorem run_of_operate {host : Host σ ε} {host' : Host τ ε} {limit : Nat}
    {S : Session σ → Session τ → Prop} {operations : List Operation}
    (h : ∀ operation ∈ operations, ∀ s t, S s t →
      (operate host limit operation s).1 = (operate host' limit operation t).1 ∧
        S (operate host limit operation s).2 (operate host' limit operation t).2)
    {s : Session σ} {t : Session τ} (hst : S s t) :
    (run host limit operations s).1 = (run host' limit operations t).1 ∧
      S (run host limit operations s).2 (run host' limit operations t).2 := by
  induction operations generalizing s t with
  | nil => exact ⟨rfl, hst⟩
  | cons operation rest ih =>
    rw [List.forall_mem_cons] at h
    obtain ⟨houtcome, hst'⟩ := h.1 s t hst
    obtain ⟨houtcomes, hfinal⟩ := ih h.2 hst'
    exact ⟨congr (congrArg List.cons houtcome) houtcomes, hfinal⟩

end Session

structure Host.Nests (host : Host σ ε) (host' : Host τ ε) (R : Nat → σ → τ → Prop) : Prop
    extends master : host.toMaster.Nests host'.toMaster R where
  delay (d ms : Nat) {s : σ} {t : τ} (hR : R d s t) : R d (host.delay ms s) (host'.delay ms t)

theorem Host.Mirrors.nests {host : Host σ ε} {host' : Host τ ε} (h : host.Mirrors host' R) :
    host.Nests host' fun _ => R where
  master := h.master.nests
  delay _ ms _ _ hR := h.delay ms hR

/-- The operation is no single call to the bus behind the session. -/
def Operation.isTransaction : Operation → Bool
  | .session _ => true
  | .bus request => request.isTransaction

namespace Host.Nests

open Session

variable {host : Host σ ε} {host' : Host τ ε} {R : Nat → σ → τ → Prop} {d : Nat}

theorem wake (h : host.Nests host' R) (d settleMs : Nat) :
    (wake host settleMs).Mirrors (R d) (wake host' settleMs) := by
  unfold Session.wake
  refine (h.resume d).bind fun _ => ?_
  refine (Mirrors.modify fun s t hR => h.delay d settleMs hR).bind fun _ => ?_
  exact (h.reset d).bind fun _ => .pure

theorem acquire (h : host.Nests host' R) :
    (acquire host).Mirrors (Nested R) (acquire host') := by
  rintro s t ⟨bus, hR, rfl⟩
  unfold attempt Session.acquire
  simp only [on_phase, on_bus, on_config]
  cases hphase : s.phase with
  | acquired => exact ⟨rfl, bus, hR, rfl⟩
  | idle =>
    rw [hphase] at hR
    rcases h.lock (d := 0) (by omega) s.bus bus hR with
      ⟨_, b₁, b₁', hs, ht, hR₁⟩ | ⟨e, b₁, b₁', hs, ht, hR₁⟩
    · simp only [hs, ht]
      rcases (h.wake 1 s.config.settleMs).cases hR₁ with
        ⟨_, b₂, b₂', hs, ht, hR₂⟩ | ⟨e, b₂, b₂', hs, ht, hR₂⟩
      · simp only [hs, ht, true_and]
        exact ⟨b₂', hR₂, rfl⟩
      · obtain ⟨-, hR₃⟩ := Shifts.outcome (h.unlock (d := 0) (by omega)) hR₂
        simp only [hs, ht, true_and]
        exact ⟨_, hR₃, rfl⟩
    · simp only [hs, ht, true_and]
      exact ⟨b₁', hR₁, rfl⟩

theorem sendToSleep (h : host.Nests host' R) (hd : d < 3) (sleepCommand : Byte) :
    (sendToSleep host sleepCommand).Mirrors (R d) (sendToSleep host' sleepCommand) := by
  unfold Session.sendToSleep
  refine (h.reset d).onBus.bind fun present => ?_
  split
  · exact (h.skipRom hd).bind fun _ => (h.writeBlock d _).onBus
  · exact .pure

theorem release (h : host.Nests host' R) {s : Session σ} {t : Session τ} (hst : Nested R s t) :
    (release host s).1 = (release host' t).1 ∧ Nested R (release host s).2 (release host' t).2 := by
  obtain ⟨bus, hR, rfl⟩ := hst
  unfold Session.release
  simp only [on_phase, on_bus, on_config, on_sleeper]
  cases hphase : s.phase with
  | idle => exact ⟨rfl, bus, hR, rfl⟩
  | acquired =>
    rw [hphase] at hR
    have hasleep : Reported (R 1)
        (if s.sleeper then
          entering (fun r e => r.warn (.stillAwake e))
            (Session.sendToSleep host s.config.sleepCommand)
            (({ value := () } : Report Unit ε), s.bus)
        else (({ value := () } : Report Unit ε), s.bus))
        (if s.sleeper then
          entering (fun r e => r.warn (.stillAwake e))
            (Session.sendToSleep host' s.config.sleepCommand)
            (({ value := () } : Report Unit ε), bus)
        else (({ value := () } : Report Unit ε), bus)) := by
      split
      · exact entering_mirrors (h.sendToSleep (by omega) _).shifts _ ⟨rfl, hR⟩
      · exact ⟨rfl, hR⟩
    obtain ⟨hreport, hR'⟩ := entering_mirrors (h.unlock (d := 0) (by omega))
      (fun r e => r.fail (.bus e))
      (entering_mirrors (h.suspend 1).shifts (fun r e => r.fail (.bus e)) hasleep)
    exact ⟨hreport, _, hR', rfl⟩

theorem scan {κ : Type} (h : host.Nests host' R) (limit : Nat) (accept : Rom → κ → Bool × κ)
    {s : Session σ} {t : Session τ} (hst : Nested R s t) (k : κ) :
    (scan host limit accept s k).1 = (scan host' limit accept t k).1 ∧
      Nested R (scan host limit accept s k).2.1 (scan host' limit accept t k).2.1 ∧
      (scan host limit accept s k).2.2 = (scan host' limit accept t k).2.2 := by
  obtain ⟨bus, hR, rfl⟩ := hst
  unfold Session.scan
  simp only [on_phase, on_bus, on_config]
  cases hphase : s.phase with
  | idle => exact ⟨rfl, ⟨bus, hR, rfl⟩, rfl⟩
  | acquired =>
    rw [hphase] at hR
    have hsearch := h.enumerate (d := 1) (by omega) limit s.config.scope Search.anyFamily
      (s.bus, []) (bus, []) ⟨hR, rfl⟩
    revert hsearch
    rcases (Search.enumerate host.toMaster limit s.config.scope Search.anyFamily).attempt
      (s.bus, []) with ⟨outcome, b, found⟩
    rcases (Search.enumerate host'.toMaster limit s.config.scope Search.anyFamily).attempt
      (bus, []) with ⟨outcome', b', found'⟩
    rintro ⟨rfl, hR', rfl⟩
    rcases outcome with e | _ | count <;> exact ⟨rfl, ⟨b', hR', rfl⟩, rfl⟩

theorem perform (h : host.Nests host' R) (limit : Nat) (request : Request) {s : Session σ}
    {t : Session τ} (hst : Nested R s t) :
    (perform host limit request s).1 = (perform host' limit request t).1 ∧
      Nested R (perform host limit request s).2 (perform host' limit request t).2 := by
  have hanswer {α : Type} {act : Action (Error ε) (Session σ) α}
      {act' : Action (Error ε) (Session τ) α} (hact : act.Mirrors (Nested R) act')
      (wrap : Except (Error ε) α → Answer ε) :
      wrap (act.attempt s).1 = wrap (act'.attempt t).1 ∧
        Nested R (act.attempt s).2 (act'.attempt t).2 := by
    obtain ⟨houtcome, hst'⟩ := hact s t hst
    exact ⟨congrArg wrap houtcome, hst'⟩
  cases request with
  | acquire => exact hanswer h.acquire .done
  | release =>
    obtain ⟨hreport, hst'⟩ := h.release hst
    exact ⟨congrArg Answer.released hreport, hst'⟩
  | scan accept =>
    obtain ⟨hreport, hst', hoffered⟩ := h.scan limit
      (fun rom offered => (accept offered rom, offered ++ [rom])) hst []
    exact ⟨congr (congrArg Answer.scanned hreport) hoffered, hst'⟩
  | readRom => exact hanswer (gated_mirrors (h.readRom (by omega))) .identified
  | matchRom rom => exact hanswer (gated_mirrors (h.matchRom (by omega) rom)) .done
  | skipRom => exact hanswer (gated_mirrors (h.skipRom (by omega))) .done
  | resume => exact hanswer (gated_mirrors (h.resumeRom (by omega))) .done
  | select rom => exact hanswer (gated_mirrors (h.select (by omega) rom)) .done
  | send rom data => exact hanswer (gated_mirrors (h.send (by omega) rom data)) .done
  | @exchange rom data n buffer =>
    obtain ⟨houtcome, hst', hbuffer⟩ := gatedBeside_mirrors (h.exchange (by omega) rom data n)
      (s, buffer) (t, buffer) ⟨hst, rfl⟩
    exact ⟨congr (congrArg Answer.exchanged houtcome) (congrArg Vector.toList hbuffer), hst'⟩

theorem operate (h : host.Nests host' R) (limit : Nat) {operation : Operation}
    (hoperation : operation.isTransaction = true) {s : Session σ} {t : Session τ}
    (hst : Nested R s t) :
    (operate host limit operation s).1 = (operate host' limit operation t).1 ∧
      Nested R (operate host limit operation s).2 (operate host' limit operation t).2 := by
  cases operation with
  | session request =>
    obtain ⟨hanswer, hst'⟩ := h.perform limit request hst
    exact ⟨congrArg Outcome.session hanswer, hst'⟩
  | bus request =>
    obtain ⟨bus, hR, rfl⟩ := hst
    have hlocks : s.phase.locks < 2 := by cases s.phase <;> decide
    obtain ⟨hanswer, hR'⟩ := h.master.perform hlocks limit hoperation hR
    exact ⟨congrArg Outcome.bus hanswer, _, hR', rfl⟩

theorem run (h : host.Nests host' R) (limit : Nat) {operations : List Operation}
    (hoperations : ∀ operation ∈ operations, operation.isTransaction = true) {s : Session σ}
    {t : Session τ} (hst : Nested R s t) :
    (run host limit operations s).1 = (run host' limit operations t).1 ∧
      Nested R (run host limit operations s).2 (run host' limit operations t).2 :=
  run_of_operate (fun operation hmem _ _ => h.operate limit (hoperations operation hmem)) hst

end Host.Nests

theorem Host.Mirrors.run {host : Host σ ε} {host' : Host τ ε} (h : host.Mirrors host' R)
    (limit : Nat) (operations : List Operation) {s : Session σ} {t : Session τ}
    (hst : Session.Alike R s t) :
    (Session.run host limit operations s).1 = (Session.run host' limit operations t).1 ∧
      Session.Alike R (Session.run host limit operations s).2
        (Session.run host' limit operations t).2 := by
  refine Session.run_of_operate (fun operation _ s t hst => ?_) hst
  cases operation with
  | session request =>
    obtain ⟨hanswer, hst'⟩ := h.nests.perform limit request hst
    exact ⟨congrArg Outcome.session hanswer, hst'⟩
  | bus request =>
    obtain ⟨bus, hR, rfl⟩ := hst
    obtain ⟨hanswer, hR'⟩ := h.master.perform limit request hR
    exact ⟨congrArg Outcome.bus hanswer, _, hR', rfl⟩

/-! ## Traced hosts -/

theorem Host.traced_mirrors (host : Host σ ε) : host.traced.Mirrors host fun p s => p.1 = s where
  bits := host.toSlots.traced_mirrors
  readByte := mirrors_traced _ _
  writeByte _ := mirrors_traced _ _
  readBlock _ := mirrors_tracedFill _
  writeBlock _ := mirrors_traced _ _
  delay ms _ _ hR := congrArg (host.delay ms) hR

/-- A host that lists its calls does what the host does. -/
theorem Session.run_traced (host : Host σ ε) (limit : Nat) (operations : List Operation)
    (s : Session (σ × List (Entry ε))) :
    run host limit operations (s.on s.bus.1) =
      ((run host.traced limit operations s).1,
        (run host.traced limit operations s).2.on
          (run host.traced limit operations s).2.bus.1) := by
  obtain ⟨houtcomes, bus, hbus, hsession⟩ :=
    host.traced_mirrors.run limit operations (s := s) ⟨s.bus.1, rfl, rfl⟩
  rw [houtcomes, hbus, ← hsession]

end OneWire
