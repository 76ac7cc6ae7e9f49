import OneWire.Proofs.Session.Trace

/-!
# The first error wins

Every operation on the bus reports the first error that its calls show, and after that error does
nothing but give back its locks.
-/

namespace OneWire.Session

open OneWire.Action

variable {σ ε : Type}

/-! ## Acquire -/

theorem Waking.first {settleMs : Nat} {failure : Option ε} {entries : List (Entry ε)}
    (h : Waking settleMs failure entries) :
    outstanding entries = 0 ∧ FirstError .nothing (failure.map .bus) entries := by
  cases h with
  | notResumed failure =>
    exact ⟨rfl, .single (d := .nothing) (e := .resume (.error failure)) rfl⟩
  | notReset change failure =>
    refine ⟨rfl, .stopped [.resume (.ok change), .delay settleMs] [] ?_ ?_ ?_ ?_⟩
    · simp [Demand.error?_nothing, Entry.failure, failure?]
    · rfl
    · simp
    · rfl
  | awake change present =>
    exact ⟨rfl, .completed (by simp [Demand.error?_nothing, Entry.failure, failure?])⟩

theorem Acquiring.first {settleMs : Nat} {err : Option (Error ε)} {entries : List (Entry ε)}
    (h : Acquiring settleMs err entries) : FirstError .nothing err entries := by
  cases h with
  | notLocked failure => exact .single (d := .nothing) (e := .lock (.error failure)) rfl
  | notAwake h o =>
    obtain ⟨hsettled, hfirst⟩ := h.first
    exact hfirst.bracket hsettled o
  | acquired h =>
    obtain ⟨-, hfirst⟩ := h.first
    cases hfirst with
    | completed h => exact .completed (List.forall_mem_cons.2 ⟨Demand.error?_lock _ _, h⟩)

/-! ## Every operation -/

/-- The error is the first in the trace. If no call failed, it is a demand that was not met. -/
structure Reports (d : Demand) (err : Option (Error ε)) (entries : List (Entry ε)) : Prop where
  first : FirstError d err entries
  unmet : (∀ e ∈ entries, e.failure = none) → ∀ e, err = some e →
    e = .noPresence ∧ .reset (.ok false) ∈ entries ∧ d ≠ .nothing ∨
      e = .checksumMismatch ∧ d = .checksum ∧
        ∃ bytes, .readBlock bytes (.ok ()) ∈ entries ∧ Crc8.checksum bytes ≠ 0

theorem FirstError.reports {d : Demand} {err : Option (Error ε)} {entries : List (Entry ε)}
    (h : FirstError d err entries) : Reports d err entries :=
  ⟨h, fun hfailure _ he => (he ▸ h).eq_of_forall hfailure⟩

/--
Whatever fails, each operation reports the first error among its calls and then only unlocks what it
had locked. Where nothing fails, an error is a reset that nobody answered or a checksum.
-/
theorem first_error_wins (host : Host σ ε) (limit : Nat) :
    (∀ p, host.traced.readRom.Logs Prod.snd (Reports .checksum) p) ∧
      (∀ rom p, (host.traced.matchRom rom).Logs Prod.snd (Reports .presence) p) ∧
      (∀ p, host.traced.skipRom.Logs Prod.snd (Reports .presence) p) ∧
      (∀ p, host.traced.resumeRom.Logs Prod.snd (Reports .presence) p) ∧
      (∀ rom p, (host.traced.select rom).Logs Prod.snd (Reports .presence) p) ∧
      (∀ rom data p, (host.traced.send rom data).Logs Prod.snd (Reports .presence) p) ∧
      (∀ rom data n p, (host.traced.exchange rom data n).Logs (·.1.2) (Reports .presence) p) ∧
      (∀ scope family p, (Search.enumerate host.traced.toMaster limit scope family).Logs (·.1.2)
        (Reports .nothing) p) ∧
      (∀ s : Session (σ × List (Entry ε)), s.phase = .idle →
        (acquire host.traced).Logs (·.bus.2) (Reports .nothing) s) ∧
      ∀ (κ : Type) (accept : Rom → κ → Bool × κ) (k : κ) (s : Session (σ × List (Entry ε))),
        s.phase = .acquired →
          ∃ entries, (scan host.traced limit accept s k).2.1.bus.2 = s.bus.2 ++ entries ∧
            Reports .nothing ((scan host.traced limit accept s k).1.bind (·.error)) entries := by
  have htranscript {d : Demand} (err : Option (Error ε)) (entries : List (Entry ε))
      (h : Transcript d err entries) : Reports d err entries := FirstError.reports h.first
  have hsearch (err : Option (Error ε)) (entries : List (Entry ε))
      (h : Bracketed (Accesses .nothing) err entries) : Reports .nothing err entries :=
    htranscript err entries (h.mono fun _ _ h => h.transcript).transcript
  refine ⟨?_, ?_, ?_, ?_, ?_, ?_, ?_, ?_, ?_, ?_⟩
  · exact fun p => (host.logs_readRom p).mono htranscript
  · exact fun rom p => (host.logs_matchRom rom p).mono htranscript
  · exact fun p => (host.logs_skipRom p).mono htranscript
  · exact fun p => (host.logs_resumeRom p).mono htranscript
  · exact fun rom p => (host.logs_select rom p).mono htranscript
  · exact fun rom data p => (host.logs_send rom data p).mono htranscript
  · exact fun rom data n p => (host.logs_exchange rom data n p).mono htranscript
  · exact fun scope family p =>
      (Search.logs_enumerate host.toMaster limit scope family p).mono hsearch
  · intro s hs
    obtain ⟨hlogs, -⟩ := acquire_idle host hs
    exact hlogs.mono fun _ _ h => FirstError.reports h.first
  · intro κ accept k s hs
    obtain ⟨-, entries, hlog, h⟩ := scan_logs limit accept k host hs
    exact ⟨entries, hlog, hsearch _ _ h⟩

end OneWire.Session
