import OneWire.Proofs.Action
import OneWire.Proofs.Trace.FirstError

/-!
# What actions log

An action on a traced bus appends to its log. What it appends follows from what its parts append,
as long as the traces of two parts compose.
-/

namespace OneWire.Action

variable {ε ε' σ τ α β : Type}

/-- From `s` the action appends to the log a list that has `P` with the error of the action. -/
def Logs (log : τ → List (Entry ε)) (P : Option ε' → List (Entry ε) → Prop)
    (act : Action ε' τ α) (s : τ) : Prop :=
  ∃ entries, log (act.attempt s).2 = log s ++ entries ∧ P (failure? (act.attempt s).1) entries

theorem logs_iff_ensures {log : τ → List (Entry ε)} {P : Option ε' → List (Entry ε) → Prop}
    {act : Action ε' τ α} {s : τ} :
    act.Logs log P s ↔
      act.Ensures s (fun _ s' => ∃ entries, log s' = log s ++ entries ∧ P none entries)
        fun e s' => ∃ entries, log s' = log s ++ entries ∧ P (some e) entries := by
  unfold Logs attempt Ensures
  cases act s <;> rfl

/-- Each time the action is carried out it logs one entry, with its outcome. -/
def Notes (log : τ → List (Entry ε)) (entry : Except ε' α → Entry ε)
    (act : Action ε' τ α) : Prop :=
  ∀ s, log (act.attempt s).2 = log s ++ [entry (act.attempt s).1]

section Rules

variable {log : τ → List (Entry ε)} {P Q : Option ε' → List (Entry ε) → Prop} {s : τ}

theorem Logs.mono {act : Action ε' τ α} (h : act.Logs log P s)
    (hPQ : ∀ err entries, P err entries → Q err entries) : act.Logs log Q s := by
  obtain ⟨entries, hlog, hP⟩ := h
  exact ⟨entries, hlog, hPQ _ _ hP⟩

theorem Logs.of_ok {act : Action ε' τ α} {s' : τ} {a : α} (h : act s = .ok a s')
    {entries : List (Entry ε)} (hlog : log s' = log s ++ entries) (hP : P none entries) :
    act.Logs log P s := by
  unfold Logs
  rw [attempt_of_ok h]
  exact ⟨entries, hlog, hP⟩

theorem Logs.of_error {act : Action ε' τ α} {s' : τ} {e : ε'} (h : act s = .error e s')
    {entries : List (Entry ε)} (hlog : log s' = log s ++ entries) (hP : P (some e) entries) :
    act.Logs log P s := by
  unfold Logs
  rw [attempt_of_error h]
  exact ⟨entries, hlog, hP⟩

theorem Logs.pure (hP : Composes P) (a : α) : (pure a : Action ε' τ α).Logs log P s :=
  .of_ok rfl (List.append_nil _).symm hP.nil

theorem Logs.get (hP : Composes P) : (get : Action ε' τ τ).Logs log P s :=
  .of_ok rfl (List.append_nil _).symm hP.nil

theorem Logs.modify (hP : Composes P) {f : τ → τ} (h : log (f s) = log s) :
    (modify f : Action ε' τ PUnit).Logs log P s :=
  .of_ok rfl (h.trans (List.append_nil _).symm) hP.nil

theorem Logs.bind (hP : Composes P) {act : Action ε' τ α} {next : α → Action ε' τ β}
    (h : act.Logs log P s) (hnext : ∀ a s', (next a).Logs log P s') :
    (act >>= next).Logs log P s := by
  obtain ⟨entries, hlog, h⟩ := h
  cases hact : act s with
  | error e s' =>
    rw [attempt_of_error hact] at hlog h
    refine .of_error ?_ hlog h
    simp only [Bind.bind, EStateM.bind, hact]
  | ok a s' =>
    rw [attempt_of_ok hact] at hlog h
    obtain ⟨entries', hlog', h'⟩ := hnext a s'
    have hbind : (act >>= next) s = next a s' := by simp only [Bind.bind, EStateM.bind, hact]
    refine ⟨entries ++ entries', ?_, ?_⟩
    · rw [attempt, hbind, ← attempt, hlog', hlog, List.append_assoc]
    · rw [attempt, hbind, ← attempt]
      exact hP.append h h'

theorem Notes.logs {entry : Except ε' α → Entry ε} {act : Action ε' τ α} (h : act.Notes log entry)
    (hentry : ∀ o, P (failure? o) [entry o]) (s : τ) : act.Logs log P s :=
  ⟨_, h s, hentry _⟩

end Rules

/-! ## Other states and errors -/

section Wrapped

variable {log : τ → List (Entry ε)}

theorem logs_onBus {P : Option (Error ε') → List (Entry ε) → Prop} {act : Action ε' τ α} {s : τ} :
    act.onBus.Logs log P s ↔ act.Logs log (fun err => P (err.map .bus)) s := by
  unfold Logs attempt onBus
  cases act s <;> rfl

theorem logs_beside {P : Option ε' → List (Entry ε) → Prop} {act : Action ε' τ α} {p : τ × β} :
    act.beside.Logs (fun p => log p.1) P p ↔ act.Logs log P p.1 := by
  unfold Logs
  rw [attempt_beside]

theorem Notes.beside {entry : Except ε' α → Entry ε} {act : Action ε' τ α}
    (h : act.Notes log entry) :
    (act.beside : Action ε' (τ × β) α).Notes (fun p => log p.1) entry := by
  intro p
  rw [attempt_beside]
  exact h p.1

theorem notes_traced (entry : Except ε α → Entry ε) (act : Action ε σ α) :
    (act.traced entry).Notes Prod.snd entry := by
  intro p
  rw [attempt_traced]

@[simp] theorem ensures_traced {entry : Except ε α → Entry ε} {act : Action ε σ α}
    {p : σ × List (Entry ε)} {ok : α → σ × List (Entry ε) → Prop}
    {failed : ε → σ × List (Entry ε) → Prop} :
    (act.traced entry).Ensures p ok failed ↔
      act.Ensures p.1 (fun a s => ok a (s, p.2 ++ [entry (.ok a)]))
        fun e s => failed e (s, p.2 ++ [entry (.error e)]) := by
  unfold Ensures traced
  cases act p.1 <;> rfl

theorem Ensures.traced {entry : Except ε α → Entry ε} {act : Action ε σ α}
    {p : σ × List (Entry ε)} {ok : α → σ × List (Entry ε) → Prop}
    {failed : ε → σ × List (Entry ε) → Prop} (hok : ∀ a s, ok a (s, p.2 ++ [entry (.ok a)]))
    (hfailed : ∀ e s, failed e (s, p.2 ++ [entry (.error e)])) :
    (act.traced entry).Ensures p ok failed :=
  ensures_traced.2 (ensures_of_forall hok hfailed)

@[simp] theorem ensures_tracedFill {n : Nat} {act : Action ε (σ × Vector Byte n) Unit}
    {p : (σ × List (Entry ε)) × Vector Byte n}
    {ok : Unit → (σ × List (Entry ε)) × Vector Byte n → Prop}
    {failed : ε → (σ × List (Entry ε)) × Vector Byte n → Prop} :
    act.tracedFill.Ensures p ok failed ↔
      act.Ensures (p.1.1, p.2)
        (fun _ q => ok () ((q.1, p.1.2 ++ [.readBlock q.2.toList (.ok ())]), q.2))
        fun e q => failed e ((q.1, p.1.2 ++ [.readBlock q.2.toList (.error e)]), q.2) := by
  unfold Ensures tracedFill
  cases act (p.1.1, p.2) <;> rfl

theorem logs_tracedFill {P : Option ε → List (Entry ε) → Prop}
    (hP : ∀ bytes o, P (failure? o) [.readBlock bytes o]) {n : Nat}
    (act : Action ε (σ × Vector Byte n) Unit) (p : (σ × List (Entry ε)) × Vector Byte n) :
    act.tracedFill.Logs (fun p => p.1.2) P p := by
  unfold Logs attempt tracedFill
  cases act (p.1.1, p.2) with
  | ok _ q => exact ⟨_, rfl, hP q.2.toList (.ok ())⟩
  | error e q => exact ⟨_, rfl, hP q.2.toList (.error e)⟩

end Wrapped

theorem logs_checked {log : τ → List (Entry ε)} {d : Demand} {act : Action ε τ α}
    {next : α → Action (Error ε) τ β} {s : τ} (verdict : α → Option (Error ε))
    (hact : act.Ensures s
      (fun a s' => ∃ e, log s' = log s ++ [e] ∧ e.isAccess ∧ d.error? e = verdict a)
      fun failure s' => ∃ e, log s' = log s ++ [e] ∧ e.isAccess ∧ d.error? e = some (.bus failure))
    (hnext : ∀ a s', log ((next a).attempt s').2 = log s' ∧
      failure? ((next a).attempt s').1 = verdict a) :
    (act.onBus >>= next).Logs log (Transcript d) s := by
  cases h : act s with
  | error failure s₁ =>
    obtain ⟨e, hlog, haccess, herr⟩ := hact.of_error h
    refine .of_error ?_ hlog (.single haccess herr)
    simp only [Bind.bind, EStateM.bind, onBus, h]
  | ok a s₁ =>
    obtain ⟨e, hlog, haccess, herr⟩ := hact.of_ok h
    obtain ⟨hlog₁, herr₁⟩ := hnext a s₁
    have hbind : (act.onBus >>= next).attempt s = (next a).attempt s₁ := by
      unfold attempt
      simp only [Bind.bind, EStateM.bind, onBus, h]
    refine ⟨[e], ?_, .single haccess ?_⟩
    · rw [hbind, hlog₁, hlog]
    · rw [hbind, herr₁, herr]

/-! ## Locks -/

section Between

variable {lock unlock : Action ε τ Unit} {body : Action (Error ε) τ α} {s s₁ : τ}

theorem attempt_between_of_ok (unlock : Action ε τ Unit) (body : Action (Error ε) τ α)
    (h : lock s = .ok () s₁) :
    ((between lock unlock body).attempt s).2 = (unlock.attempt (body.attempt s₁).2).2 ∧
      failure? ((between lock unlock body).attempt s).1 =
        (failure? (body.attempt s₁).1).or
          ((failure? (unlock.attempt (body.attempt s₁).2).1).map .bus) := by
  unfold attempt between
  simp only [h]
  cases body s₁ with
  | ok a s₂ => cases hu : unlock s₂ <;> simp [hu, failure?]
  | error e s₂ => cases hu : unlock s₂ <;> simp [hu, failure?]

theorem logs_between {log : τ → List (Entry ε)} (hlock : lock.Notes log .lock)
    (hunlock : unlock.Notes log .unlock) {P : Option (Error ε) → List (Entry ε) → Prop}
    (hbody : ∀ s, body.Logs log P s) (s : τ) :
    (between lock unlock body).Logs log (Bracketed P) s := by
  have hlog := hlock s
  cases h : lock s with
  | error e s₁ =>
    rw [attempt_of_error h] at hlog
    refine .of_error ?_ hlog (.notLocked e)
    simp only [between, h]
  | ok _ s₁ =>
    rw [attempt_of_ok h] at hlog
    obtain ⟨entries, hlog₁, hP⟩ := hbody s₁
    obtain ⟨hstate, herr⟩ := attempt_between_of_ok unlock body h
    unfold Logs
    rw [hstate, herr, hunlock, hlog₁, hlog]
    exact ⟨_, by simp, .locked hP _⟩

end Between

end OneWire.Action
