import OneWire.Bench.Master
import OneWire.Line.Shared
import OneWire.Proofs.Trace.Locks
import OneWire.Session.Scan

/-!
# What a scan reports

The identifiers found go through containers of limited room: the record, and the warnings kept. The
report accounts for all of them.
-/

namespace OneWire

variable {σ ε κ : Type}

/-! ## Lists with a capacity, by what was pushed -/

namespace Bounded

variable {α : Type} {capacity : Nat}

theorem ofList_concat_of_le {l : List α} (h : capacity ≤ l.length) (a : α) :
    (ofList (l ++ [a]) : Bounded α capacity) = ofList l := by
  unfold ofList
  simp only [List.take_append_of_le_length h]

theorem push?_ofList (l : List α) (a : α) :
    (ofList l : Bounded α capacity).push? a =
      if l.length < capacity then some (ofList (l ++ [a])) else none := by
  by_cases h : l.length < capacity
  · have hroom : (ofList l : Bounded α capacity).items.length < capacity := by
      simp only [ofList, List.length_take]
      omega
    have hall : l.take capacity = l := List.take_of_length_le (by omega)
    have hall' : (l ++ [a]).take capacity = l ++ [a] := List.take_of_length_le (by simp; omega)
    rw [push?, dif_pos hroom, if_pos h]
    simp only [ofList, hall, hall']
  · rw [if_neg h, push?_eq_none_iff]
    simp only [ofList, List.length_take]
    omega

end Bounded

/-! ## Reports by their warnings -/

namespace Report

/-- The report after the given warnings, oldest first. -/
def ofWarnings {α : Type} (value : α) (error : Option (Error ε)) (warnings : List (Warning ε)) :
    Report α ε where
  value
  warnings := .ofList warnings
  dropped := warnings.length - maxWarnings
  error

variable {α : Type} {value : α} {error : Option (Error ε)}

theorem warn_ofWarnings (ws : List (Warning ε)) (w : Warning ε) :
    (ofWarnings value error ws).warn w = ofWarnings value error (ws ++ [w]) := by
  unfold warn ofWarnings
  rw [Bounded.push?_ofList, List.length_append, List.length_singleton]
  by_cases h : ws.length < maxWarnings
  · rw [if_pos h]
    have hdropped : ws.length - maxWarnings = ws.length + 1 - maxWarnings := by omega
    simp only [hdropped]
  · rw [if_neg h, Bounded.ofList_concat_of_le (by omega)]
    have hdropped : ws.length - maxWarnings + 1 = ws.length + 1 - maxWarnings := by omega
    simp only [hdropped]

theorem warningTotal_ofWarnings (ws : List (Warning ε)) :
    (ofWarnings value error ws).warningTotal = ws.length := by
  simp only [warningTotal, ofWarnings, Bounded.ofList, List.length_take]
  omega

end Report

namespace Session

/-! ## Discovery -/

/-- What a scan knows once it has found the given identifiers. -/
def Intake.ofFound (capacity : Nat) (family : Byte) (found : List Rom) : Intake ε capacity where
  record := .ofList found
  sleeper := found.any (·.family == family)
  report := .ofWarnings found.length none ((found.drop capacity).map .recordFull)

theorem Intake.add_ofFound (capacity : Nat) (family : Byte) (found : List Rom) (rom : Rom) :
    (ofFound capacity family found : Intake ε capacity).add family rom =
      ofFound capacity family (found ++ [rom]) := by
  have hvalue (ws : List (Warning ε)) :
      { Report.ofWarnings found.length none ws with value := found.length + 1 } =
        Report.ofWarnings (found ++ [rom]).length none ws := by
    simp only [Report.ofWarnings, List.length_append, List.length_singleton]
  have hsleeper : (found ++ [rom]).any (·.family == family) =
      (found.any (·.family == family) || rom.family == family) := by
    simp
  unfold add ofFound
  simp only [Bounded.push?_ofList, hsleeper]
  by_cases h : found.length < capacity
  · have hnone : found.drop capacity = [] := List.drop_eq_nil_of_le (by omega)
    have hnone' : (found ++ [rom]).drop capacity = [] := List.drop_eq_nil_of_le (by simp; omega)
    simp only [if_pos h, hnone, hnone']
    exact congrArg _ (hvalue _)
  · have hover : (found ++ [rom]).drop capacity = found.drop capacity ++ [rom] :=
      List.drop_append_of_le_length (by omega)
    rw [Bounded.ofList_concat_of_le (by omega), hover, List.map_append, List.map_singleton,
      ← Report.warn_ofWarnings, ← hvalue]
    simp only [if_neg h]
    rfl

theorem foldl_add (capacity : Nat) (family : Byte) (found : List Rom) :
    found.foldl (Intake.add family) ({} : Intake ε capacity) =
      .ofFound capacity family found := by
  have hstart : ({} : Intake ε capacity) = .ofFound capacity family [] := by
    simp [Intake.ofFound, Report.ofWarnings, Bounded.ofList, Bounded.empty]
  suffices ∀ before, found.foldl (Intake.add family) (.ofFound capacity family before) =
      (.ofFound capacity family (before ++ found) : Intake ε capacity) by
    rw [hstart, this, List.nil_append]
  induction found with
  | nil => simp
  | cons rom found ih =>
    intro before
    rw [List.foldl_cons, Intake.add_ofFound, ih, List.append_assoc, List.singleton_append]

/-! ## Offers -/

/-- The calls to the caller with their answers, and how they change the caller's state. -/
inductive Offers (accept : Rom → κ → Bool × κ) : κ → List (Rom × Bool) → κ → Prop
  | done (k : κ) : Offers accept k [] k
  | next {rom : Rom} {k k' : κ} {calls : List (Rom × Bool)}
      (rest : Offers accept (accept rom k).2 calls k') :
      Offers accept k ((rom, (accept rom k).1) :: calls) k'

def rejections (calls : List (Rom × Bool)) : List (Warning ε) :=
  (calls.filter (!·.2)).map (.rejected ·.1)

theorem offer_ofWarnings (accept : Rom → κ → Bool × κ) (roms : List Rom) (value : Nat)
    (error : Option (Error ε)) (ws : List (Warning ε)) (k : κ) :
    ∃ calls k', Offers accept k calls k' ∧ calls.map Prod.fst = roms ∧
      offer accept roms (.ofWarnings value error ws, k) =
        (.ofWarnings value error (ws ++ rejections calls), k') := by
  induction roms generalizing ws k with
  | nil => exact ⟨[], k, .done k, rfl, by simp [offer, rejections]⟩
  | cons rom roms ih =>
    unfold offer
    cases haccepted : (accept rom k).1 with
    | true =>
      obtain ⟨calls, k', hcalls, hroms, hoffer⟩ := ih ws (accept rom k).2
      refine ⟨_, k', .next hcalls, by simp [hroms], ?_⟩
      simp [haccepted, hoffer, rejections]
    | false =>
      obtain ⟨calls, k', hcalls, hroms, hoffer⟩ := ih (ws ++ [.rejected rom]) (accept rom k).2
      refine ⟨_, k', .next hcalls, by simp [hroms], ?_⟩
      simp [haccepted, Report.warn_ofWarnings, hoffer, rejections]

/-! ## Scans -/

section Scan

variable {host : Host σ ε} {limit : Nat} {s : Session σ}
  {outcome : Except (Error ε) (Option Nat)} {bus : σ} {found : List Rom}

theorem scan_of_found (accept : Rom → κ → Bool × κ) (k : κ) (hs : s.phase = .acquired)
    (hsearch : (Search.enumerate host.toMaster limit s.config.scope Search.anyFamily).attempt
      (s.bus, []) = (outcome, bus, found)) (hend : outcome ≠ .ok none) :
    ∃ calls k', Offers accept k calls k' ∧ calls.map Prod.fst = found.take s.capacity ∧
      scan host limit accept s k =
        (some (.ofWarnings found.length (failure? outcome)
          ((found.drop s.capacity).map .recordFull ++ rejections calls)),
          { s with bus, sleeper := found.any (·.family == s.config.sleeperFamily) }, k') := by
  obtain ⟨calls, k', hcalls, hroms, hoffer⟩ :=
    offer_ofWarnings accept (found.take s.capacity) found.length (failure? outcome)
      ((found.drop s.capacity).map .recordFull) k
  refine ⟨calls, k', hcalls, hroms, ?_⟩
  unfold scan
  simp only [hs, hsearch, foldl_add]
  rcases outcome with e | _ | n
  · have hfail :
        (Intake.ofFound s.capacity s.config.sleeperFamily found : Intake ε _).report.fail e =
          .ofWarnings found.length (some e) ((found.drop s.capacity).map .recordFull) := rfl
    simp only [hfail]
    exact hoffer ▸ rfl
  · exact absurd rfl hend
  · exact hoffer ▸ rfl

/--
The report counts what was found, and each identifier that found no room or was rejected is a
warning that is kept or counted. The caller is asked about the identifiers in the record, once each
and in order.
-/
theorem scan_accounts (host : Host σ ε) (limit : Nat) (accept : Rom → κ → Bool × κ) (k : κ)
    (hs : s.phase = .acquired)
    (hsearch : (Search.enumerate host.toMaster limit s.config.scope Search.anyFamily).attempt
      (s.bus, []) = (outcome, bus, found)) (hend : outcome ≠ .ok none) :
    ∃ (report : Report Nat ε) (s' : Session σ) (k' : κ) (calls : List (Rom × Bool))
      (warnings : List (Warning ε)),
      scan host limit accept s k = (some report, s', k') ∧
      report.value = found.length ∧
      Offers accept k calls k' ∧ calls.map Prod.fst = found.take s.capacity ∧
      warnings = (found.drop s.capacity).map .recordFull ++
        (calls.filter (!·.2)).map (.rejected ·.1) ∧
      report.warnings.items = warnings.take maxWarnings ∧
      report.dropped = warnings.length - min warnings.length maxWarnings ∧
      report.warningTotal = warnings.length ∧
      report.error = failure? outcome ∧
      s' = { s with bus, sleeper := s'.sleeper } ∧
      (s'.sleeper = true ↔ ∃ rom ∈ found, rom.family = s.config.sleeperFamily) := by
  obtain ⟨calls, k', hcalls, hroms, hscan⟩ :=
    scan_of_found accept k hs hsearch hend
  refine ⟨_, _, k', calls, _, hscan, rfl, hcalls, hroms, rfl, rfl, ?_, ?_, rfl, rfl, ?_⟩
  · simp only [Report.ofWarnings, rejections]
    omega
  · exact Report.warningTotal_ofWarnings _
  · simp

end Scan

/-- Three devices, room for one in the record, and an unlock that fails. -/
def crowded : Session (Bench Line) where
  bus :=
    { line := .ofDevices [{ rom := .ofWireBits 1 }, { rom := .ofWireBits 3 },
        { rom := .ofWireBits 0x19 }]
      meter := { plan := fun c n => c == .unlock && n == 0 }
      declared := 3 }
  capacity := 1
  phase := .acquired

/-- The caller rejects what it is offered. -/
theorem scan_accounts_crowded :
    ∃ (report : Report Nat Bench.Call) (s' : Session (Bench Line)),
      scan Bench.bitHost 3 (fun _ _ => (false, ())) crowded () = (some report, s', ()) ∧
      report.value = 3 ∧
      report.warnings.items = [.recordFull (.ofWireBits 0x19), .recordFull (.ofWireBits 1),
        .rejected (.ofWireBits 3)] ∧
      report.error = some (.bus .unlock) ∧ s'.sleeper = true := by
  have hfound : ((Search.enumerate Bench.bitHost.toMaster 3 .all Search.anyFamily).attempt
      (crowded.bus, [])).2.2 = [.ofWireBits 3, .ofWireBits 0x19, .ofWireBits 1] := by
    decide +kernel
  have herror : failure? ((Search.enumerate Bench.bitHost.toMaster 3 .all
      Search.anyFamily).attempt (crowded.bus, [])).1 = some (.bus .unlock) := by
    decide +kernel
  generalize hsearch : (Search.enumerate Bench.bitHost.toMaster 3 .all
    Search.anyFamily).attempt (crowded.bus, []) = result at hfound herror
  obtain ⟨outcome, bus, found⟩ := result
  obtain rfl : found = _ := hfound
  have hend : outcome ≠ .ok none := by
    rintro rfl
    simp [failure?] at herror
  obtain ⟨report, s', _, calls, warnings, hscan, hvalue, hcalls, hroms, hwarnings, hitems, -, -,
    herr, -, hsleeper⟩ :=
    scan_accounts (s := crowded) Bench.bitHost 3 (fun _ _ => (false, ())) () rfl hsearch hend
  refine ⟨report, s', hscan, hvalue, ?_, herr.trans herror, hsleeper.2 ?_⟩
  · cases hcalls with
    | done => simp [crowded] at hroms
    | @next rom _ _ calls rest =>
      obtain ⟨rfl, rfl⟩ : rom = .ofWireBits 3 ∧ calls = [] := by simpa [crowded] using hroms
      rw [hitems, hwarnings]
      rfl
  · exact ⟨.ofWireBits 0x19, by simp, rfl⟩

end Session

end OneWire
