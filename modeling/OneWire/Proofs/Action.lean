import OneWire.Action

/-!
# What actions ensure

An action ensures something of the state it leaves, one thing when it returns a value and another
when it fails. Each way to build an action has a rule that tells what to ask of its parts.
-/

namespace OneWire.Action

variable {ε ε' σ α β : Type}

/-- From `s` the action returns a value and a state with `ok`, or fails with `failed`. -/
def Ensures (act : Action ε σ α) (s : σ) (ok : α → σ → Prop) (failed : ε → σ → Prop) : Prop :=
  match act s with
  | .ok a s => ok a s
  | .error e s => failed e s

theorem Ensures.mono {act : Action ε σ α} {s : σ} {ok ok' : α → σ → Prop}
    {failed failed' : ε → σ → Prop} (h : act.Ensures s ok failed)
    (hok : ∀ a s, ok a s → ok' a s) (hfailed : ∀ e s, failed e s → failed' e s) :
    act.Ensures s ok' failed' := by
  unfold Ensures at h ⊢
  split at h
  · exact hok _ _ h
  · exact hfailed _ _ h

theorem Ensures.and {act : Action ε σ α} {s : σ} {ok ok' : α → σ → Prop}
    {failed failed' : ε → σ → Prop} (h : act.Ensures s ok failed) (h' : act.Ensures s ok' failed') :
    act.Ensures s (fun a s => ok a s ∧ ok' a s) fun e s => failed e s ∧ failed' e s := by
  unfold Ensures at h h' ⊢
  cases hact : act s <;> simp only [hact] at h h' ⊢ <;> exact ⟨h, h'⟩

theorem ensures_true (act : Action ε σ α) (s : σ) :
    act.Ensures s (fun _ _ => True) fun _ _ => True := by
  unfold Ensures
  split <;> trivial

theorem ensures_of_forall {act : Action ε σ α} {s : σ} {ok : α → σ → Prop}
    {failed : ε → σ → Prop} (hok : ∀ a s, ok a s) (hfailed : ∀ e s, failed e s) :
    act.Ensures s ok failed :=
  (ensures_true act s).mono (fun a s _ => hok a s) fun e s _ => hfailed e s

theorem Ensures.returns {act : Action ε σ α} {s : σ} {ok : α → σ → Prop}
    (h : act.Ensures s ok fun _ _ => False) : ∃ a s', act s = .ok a s' ∧ ok a s' := by
  unfold Ensures at h
  split at h
  · exact ⟨_, _, ‹_›, h⟩
  · exact h.elim

theorem Ensures.fails {act : Action ε σ α} {s : σ} {failed : ε → σ → Prop}
    (h : act.Ensures s (fun _ _ => False) failed) : ∃ e s', act s = .error e s' ∧ failed e s' := by
  unfold Ensures at h
  split at h
  · exact h.elim
  · exact ⟨_, _, ‹_›, h⟩

theorem Ensures.of_ok {act : Action ε σ α} {s s' : σ} {a : α} {ok : α → σ → Prop}
    {failed : ε → σ → Prop} (h : act.Ensures s ok failed) (hok : act s = .ok a s') : ok a s' := by
  simpa only [Ensures, hok] using h

theorem Ensures.of_error {act : Action ε σ α} {s s' : σ} {e : ε} {ok : α → σ → Prop}
    {failed : ε → σ → Prop} (h : act.Ensures s ok failed) (herror : act s = .error e s') :
    failed e s' := by
  simpa only [Ensures, herror] using h

/-! ## Outcomes -/

theorem attempt_of_ok {act : Action ε σ α} {s s' : σ} {a : α} (h : act s = .ok a s') :
    act.attempt s = (.ok a, s') := by
  simp only [attempt, h]

theorem attempt_of_error {act : Action ε σ α} {s s' : σ} {e : ε} (h : act s = .error e s') :
    act.attempt s = (.error e, s') := by
  simp only [attempt, h]

theorem eq_ok_of_attempt {act : Action ε σ α} {s : σ} {a : α} (h : (act.attempt s).1 = .ok a) :
    act s = .ok a (act.attempt s).2 := by
  unfold attempt at h ⊢
  cases hact : act s <;> simp_all

theorem eq_error_of_attempt {act : Action ε σ α} {s : σ} {e : ε}
    (h : (act.attempt s).1 = .error e) : act s = .error e (act.attempt s).2 := by
  unfold attempt at h ⊢
  cases hact : act s <;> simp_all

theorem eq_ok_of_attempt_beside (act : Action ε (σ × β) α) {p : σ × β} {a : α} {b : β}
    (h : (act.attempt p).1 = .ok a) (hb : (act.attempt p).2.2 = b) :
    act p = .ok a ((act.attempt p).2.1, b) := by
  rw [← hb]
  exact eq_ok_of_attempt h

theorem Ensures.outcome {act : Action ε σ α} {s : σ} {P : Except ε α → σ → Prop}
    (h : act.Ensures s (fun a => P (.ok a)) fun e => P (.error e)) :
    P (act.attempt s).1 (act.attempt s).2 := by
  unfold Ensures at h
  unfold attempt
  cases hact : act s <;> simpa only [hact] using h

theorem attempt_beside (act : Action ε σ α) (p : σ × β) :
    act.beside.attempt p = ((act.attempt p.1).1, (act.attempt p.1).2, p.2) := by
  unfold attempt beside
  cases act p.1 <;> rfl

/-! ## Rules -/

section Rules

variable {s : σ} {failed : ε → σ → Prop}

@[simp] theorem ensures_pure {ok : α → σ → Prop} {a : α} :
    Ensures (pure a) s ok failed ↔ ok a s := Iff.rfl

@[simp] theorem ensures_get {ok : σ → σ → Prop} : Ensures get s ok failed ↔ ok s s := Iff.rfl

@[simp] theorem ensures_modify {ok : PUnit → σ → Prop} {f : σ → σ} :
    Ensures (modify f) s ok failed ↔ ok ⟨⟩ (f s) := Iff.rfl

@[simp] theorem ensures_bind {ok : β → σ → Prop} {act : Action ε σ α} {next : α → Action ε σ β} :
    Ensures (act >>= next) s ok failed ↔
      act.Ensures s (fun a s => (next a).Ensures s ok failed) failed := by
  unfold Ensures
  simp only [bind, EStateM.bind]
  cases act s <;> rfl

theorem Ensures.bind {act : Action ε σ α} {next : α → Action ε σ β} {mid : α → σ → Prop}
    {ok : β → σ → Prop} (h : act.Ensures s mid failed)
    (hnext : ∀ a s', mid a s' → (next a).Ensures s' ok failed) :
    (act >>= next).Ensures s ok failed :=
  ensures_bind.2 (h.mono hnext fun _ _ h => h)

end Rules

@[simp] theorem ensures_onBus {act : Action ε σ α} {s : σ} {ok : α → σ → Prop}
    {failed : Error ε → σ → Prop} :
    act.onBus.Ensures s ok failed ↔ act.Ensures s ok fun e s => failed (.bus e) s := by
  unfold Ensures onBus
  cases act s <;> rfl

@[simp] theorem ensures_adaptExcept {f : ε → ε'} {act : Action ε σ α} {s : σ} {ok : α → σ → Prop}
    {failed : ε' → σ → Prop} :
    Ensures (EStateM.adaptExcept f act) s ok failed ↔
      act.Ensures s ok fun e s => failed (f e) s := by
  unfold Ensures EStateM.adaptExcept
  cases act s <;> rfl

@[simp] theorem ensures_beside {act : Action ε σ α} {p : σ × β} {ok : α → σ × β → Prop}
    {failed : ε → σ × β → Prop} :
    act.beside.Ensures p ok failed ↔
      act.Ensures p.1 (fun a s => ok a (s, p.2)) fun e s => failed e (s, p.2) := by
  unfold Ensures beside
  cases act p.1 <;> rfl

@[simp] theorem ensures_filling {b : β} {act : Action ε (σ × β) Unit} {s : σ} {ok : β → σ → Prop}
    {failed : ε → σ → Prop} :
    (filling b act).Ensures s ok failed ↔
      act.Ensures (s, b) (fun _ p => ok p.2 p.1) fun e p => failed e p.1 := by
  unfold Ensures filling
  cases act (s, b) <;> rfl

/-- Once locked the bus is unlocked, whatever became of the body. -/
@[simp] theorem ensures_between {lock unlock : Action ε σ Unit} {body : Action (Error ε) σ α}
    {s : σ} {ok : α → σ → Prop} {failed : Error ε → σ → Prop} :
    (between lock unlock body).Ensures s ok failed ↔
      lock.Ensures s
        (fun _ s => body.Ensures s
          (fun a s => unlock.Ensures s (fun _ s => ok a s) fun e s => failed (.bus e) s)
          (fun e s => unlock.Ensures s (fun _ s => failed e s) fun _ s => failed e s))
        (fun e s => failed (.bus e) s) := by
  unfold Ensures between
  cases lock s with
  | error e s => rfl
  | ok _ s =>
    simp only
    cases body s with
    | ok a s => cases h : unlock s <;> simp only [h]
    | error e s => cases h : unlock s <;> simp only [h]

/-! ## Invariants -/

/-- Whatever becomes of the action, it keeps `I`. -/
def Keeps (I : σ → Prop) (act : Action ε σ α) : Prop :=
  ∀ s, I s → act.Ensures s (fun _ => I) fun _ => I

theorem Ensures.attempt {I : σ → Prop} {act : Action ε σ α} {s : σ}
    (h : act.Ensures s (fun _ => I) fun _ => I) : I (act.attempt s).2 :=
  h.outcome (P := fun _ => I)

theorem Keeps.attempt {I : σ → Prop} {act : Action ε σ α} (h : Keeps I act) {s : σ} (hs : I s) :
    I (act.attempt s).2 :=
  (h s hs).attempt

end OneWire.Action
