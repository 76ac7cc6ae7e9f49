import OneWire.Crc8
import OneWire.Proofs.Trace.Locks

/-!
# The first error in a trace

An operation stops at the first call that fails or gives an answer it cannot accept. After that it
gives back the locks it holds, whatever comes of that, and reports the error it stopped at.
-/

namespace OneWire

variable {ε : Type}

/-! ## What an operation can accept -/

/-- What an operation asks of the answers it gets. -/
inductive Demand where
  | nothing
  /-- Each reset is answered. -/
  | presence
  /-- Each reset is answered, and the bytes that arrive have a checksum of zero. -/
  | checksum
deriving DecidableEq

namespace Demand

/-- The error in a call that did not fail. -/
def objection : Demand → Entry ε → Option (Error ε)
  | presence, .reset (.ok false) => some .noPresence
  | checksum, .reset (.ok false) => some .noPresence
  | checksum, .readBlock bytes (.ok _) =>
    if Crc8.checksum bytes = 0 then none else some .checksumMismatch
  | _, _ => none

def error? (d : Demand) (e : Entry ε) : Option (Error ε) :=
  match e.failure with
  | some failure => some (.bus failure)
  | none => d.objection e

@[simp] theorem error?_lock (d : Demand) (o : Except ε Unit) :
    d.error? (.lock o) = (failure? o).map .bus := by
  cases o <;> cases d <;> rfl

@[simp] theorem error?_unlock (d : Demand) (o : Except ε Unit) :
    d.error? (.unlock o) = (failure? o).map .bus := by
  cases o <;> cases d <;> rfl

theorem error?_nothing (e : Entry ε) : nothing.error? e = e.failure.map .bus := by
  unfold error?
  cases e.failure with
  | some => rfl
  | none => cases e <;> rfl

theorem eq_of_error? {d : Demand} {e : Entry ε} {err : Error ε} (h : d.error? e = some err)
    (hfailure : e.failure = none) :
    err = .noPresence ∧ e = .reset (.ok false) ∧ d ≠ nothing ∨
      err = .checksumMismatch ∧ d = checksum ∧
        ∃ bytes, e = .readBlock bytes (.ok ()) ∧ Crc8.checksum bytes ≠ 0 := by
  rw [error?, hfailure] at h
  simp only at h
  unfold objection at h
  split at h <;> simp_all

end Demand

/-! ## Stopping at the first error -/

/-- What an operation reports, and the trace of its calls. -/
inductive FirstError (d : Demand) : Option (Error ε) → List (Entry ε) → Prop
  | completed {entries : List (Entry ε)} (h : ∀ e ∈ entries, d.error? e = none) :
      FirstError d none entries
  /-- After the first error there is one unlock for each lock outstanding, and nothing else. -/
  | stopped (good : List (Entry ε)) {e : Entry ε} (rest : List (Entry ε)) {err : Error ε}
      (hgood : ∀ e ∈ good, d.error? e = none) (he : d.error? e = some err)
      (hrest : ∀ e ∈ rest, e.isUnlock)
      (hlength : (rest.length : Int) = outstanding (good ++ [e])) :
      FirstError d (some err) (good ++ e :: rest)

theorem FirstError.single {d : Demand} {e : Entry ε} (h : e.lockChange = 0) :
    FirstError d (d.error? e) [e] := by
  cases he : d.error? e with
  | none => exact .completed (by simpa using he)
  | some err => exact .stopped [] [] (by simp) he (by simp) (by simp [h])

theorem FirstError.eq_of_forall {d : Demand} {err : Error ε} {entries : List (Entry ε)}
    (h : FirstError d (some err) entries) (hfailure : ∀ e ∈ entries, e.failure = none) :
    err = .noPresence ∧ .reset (.ok false) ∈ entries ∧ d ≠ .nothing ∨
      err = .checksumMismatch ∧ d = .checksum ∧
        ∃ bytes, .readBlock bytes (.ok ()) ∈ entries ∧ Crc8.checksum bytes ≠ 0 := by
  cases h with
  | @stopped good e rest _ _ he =>
    have hmem : e ∈ good ++ e :: rest := by simp
    rcases Demand.eq_of_error? he (hfailure e hmem) with
      ⟨rfl, rfl, hd⟩ | ⟨rfl, rfl, bytes, rfl, hbytes⟩
    · exact .inl ⟨rfl, hmem, hd⟩
    · exact .inr ⟨rfl, rfl, bytes, hmem, hbytes⟩

theorem FirstError.failed {failure : ε} {entries : List (Entry ε)}
    (h : FirstError .nothing (some (.bus failure)) entries) :
    ∃ e ∈ entries, e.failure = some failure := by
  cases h with
  | @stopped good e rest _ _ he =>
    rw [Demand.error?_nothing, Option.map_eq_some_iff] at he
    obtain ⟨_, hfailure, ⟨⟩⟩ := he
    exact ⟨e, by simp, hfailure⟩

/-! ## Transcripts -/

/-- A balanced trace up to the first error. -/
structure Transcript (d : Demand) (err : Option (Error ε)) (entries : List (Entry ε)) : Prop where
  balanced : Balanced entries
  first : FirstError d err entries

/-- A trace of accesses alone. -/
structure Accesses (d : Demand) (err : Option (Error ε)) (entries : List (Entry ε)) : Prop where
  access : ∀ e ∈ entries, e.isAccess
  transcript : Transcript d err entries

/-- What holds of the traces of two actions that succeed holds of one after the other. -/
structure Composes {ε' : Type} (P : Option ε' → List (Entry ε) → Prop) : Prop where
  nil : P none []
  append {err : Option ε'} {entries entries' : List (Entry ε)} (h : P none entries)
    (h' : P err entries') : P err (entries ++ entries')

theorem Composes.map {ε₁ ε₂ : Type} {P : Option ε₂ → List (Entry ε) → Prop} (hP : Composes P)
    (f : ε₁ → ε₂) : Composes fun err entries => P (err.map f) entries :=
  ⟨hP.nil, hP.append⟩

theorem FirstError.append {d : Demand} {err : Option (Error ε)} {entries entries' : List (Entry ε)}
    (hsettled : outstanding entries = 0) (h : FirstError d none entries)
    (h' : FirstError d err entries') : FirstError d err (entries ++ entries') := by
  cases h with
  | completed h =>
    cases h' with
    -- Nothing is outstanding in between, so the cleanup is that of the second part.
    | completed h' => exact .completed (List.forall_mem_append.2 ⟨h, h'⟩)
    | @stopped good e rest err hgood he hrest hlength =>
      rw [← List.append_assoc]
      refine .stopped _ _ (List.forall_mem_append.2 ⟨h, hgood⟩) he hrest ?_
      rw [hlength, List.append_assoc, outstanding_append entries, hsettled, Int.zero_add]

theorem composes_transcript (d : Demand) : Composes (@Transcript ε d) where
  nil := ⟨.nil, .completed (by simp)⟩
  append h h' :=
    ⟨h.balanced.append h'.balanced, h.first.append h.balanced.settled h'.first⟩

theorem composes_accesses (d : Demand) : Composes (@Accesses ε d) where
  nil := ⟨by simp, (composes_transcript d).nil⟩
  append h h' :=
    ⟨List.forall_mem_append.2 ⟨h.access, h'.access⟩,
      (composes_transcript d).append h.transcript h'.transcript⟩

theorem Transcript.single {d : Demand} {err : Option (Error ε)} {e : Entry ε} (h : e.isAccess)
    (herr : d.error? e = err) : Transcript d err [e] := by
  subst herr
  exact ⟨.access h, .single (Entry.lockChange_of_isAccess h)⟩

theorem Accesses.single {d : Demand} {err : Option (Error ε)} {e : Entry ε} (h : e.isAccess)
    (herr : d.error? e = err) : Accesses d err [e] :=
  ⟨by simpa using h, .single h herr⟩

/-! ## Locks around a trace -/

/-- The trace of what happens between lock and unlock, with both. -/
inductive Bracketed (P : Option (Error ε) → List (Entry ε) → Prop) :
    Option (Error ε) → List (Entry ε) → Prop
  | notLocked (failure : ε) : Bracketed P (some (.bus failure)) [.lock (.error failure)]
  | locked {err : Option (Error ε)} {entries : List (Entry ε)} (h : P err entries)
      (o : Except ε Unit) :
      Bracketed P (err.or ((failure? o).map .bus)) (.lock (.ok ()) :: (entries ++ [.unlock o]))

theorem Bracketed.balanced {P : Option (Error ε) → List (Entry ε) → Prop}
    (hP : ∀ err entries, P err entries → Balanced entries) {err : Option (Error ε)}
    {entries : List (Entry ε)} (h : Bracketed P err entries) : Balanced entries := by
  cases h with
  | notLocked failure => exact .single rfl rfl
  | locked h o => exact (hP _ _ h).bracket o

theorem FirstError.bracket {d : Demand} {err : Option (Error ε)} {entries : List (Entry ε)}
    (hsettled : outstanding entries = 0) (h : FirstError d err entries) (o : Except ε Unit) :
    FirstError d (err.or ((failure? o).map .bus)) (.lock (.ok ()) :: (entries ++ [.unlock o])) := by
  have hlock : d.error? (.lock (.ok ()) : Entry ε) = none := Demand.error?_lock d _
  cases h with
  | completed h =>
    have hgood : ∀ e ∈ .lock (.ok ()) :: entries, d.error? e = none :=
      List.forall_mem_cons.2 ⟨hlock, h⟩
    cases o with
    | ok _ =>
      refine .completed ?_
      rw [← List.cons_append, List.forall_mem_append]
      exact ⟨hgood, by simp [failure?]⟩
    | error failure =>
      rw [← List.cons_append]
      exact .stopped _ _ hgood (Demand.error?_unlock d _) (by simp)
        (by simp [hsettled, Entry.lockChange])
  | @stopped good e rest err hgood he hrest hlength =>
    -- The error of the body stands, and its cleanup is one unlock longer.
    rw [List.append_assoc, ← List.cons_append]
    refine .stopped _ _ (List.forall_mem_cons.2 ⟨hlock, hgood⟩) he ?_ ?_
    · exact List.forall_mem_append.2 ⟨hrest, by simp [Entry.isUnlock]⟩
    · simp [hlength, Entry.lockChange, Int.add_comm]

theorem Bracketed.transcript {d : Demand} {err : Option (Error ε)} {entries : List (Entry ε)}
    (h : Bracketed (Transcript d) err entries) : Transcript d err entries := by
  refine ⟨h.balanced fun _ _ h => h.balanced, ?_⟩
  cases h with
  | notLocked failure =>
    have herr : d.error? (.lock (.error failure)) = some (.bus failure) := Demand.error?_lock d _
    exact herr ▸ .single rfl
  | locked h o => exact h.first.bracket h.balanced.settled o

theorem Bracketed.mono {P Q : Option (Error ε) → List (Entry ε) → Prop}
    (hPQ : ∀ err entries, P err entries → Q err entries) {err : Option (Error ε)}
    {entries : List (Entry ε)} (h : Bracketed P err entries) : Bracketed Q err entries := by
  cases h with
  | notLocked failure => exact .notLocked failure
  | locked h o => exact .locked (hPQ _ _ h) o

theorem Bracketed.held {d : Demand} {err : Option (Error ε)}
    {before mid after : List (Entry ε)} {x y : Entry ε}
    (h : Bracketed (Accesses d) err (before ++ x :: mid ++ y :: after)) :
    ∀ e ∈ mid, e.isUnlock = false := by
  generalize hentries : before ++ x :: mid ++ y :: after = entries at h
  intro e he
  cases h with
  | notLocked failure =>
    have := congrArg List.length hentries
    simp at this
    omega
  | @locked _ body h o =>
    -- `y` comes after `e`, so `e` is not the last entry.
    have hmem : e ∈ (.lock (.ok ()) :: (body ++ [.unlock o]) : List (Entry ε)).dropLast := by
      rw [← hentries, List.dropLast_append_of_ne_nil (by simp)]
      simp [he]
    rw [← List.cons_append, List.dropLast_concat, List.mem_cons] at hmem
    rcases hmem with rfl | hbody
    · rfl
    · exact Entry.not_isUnlock_of_isAccess (h.access e hbody)

end OneWire
