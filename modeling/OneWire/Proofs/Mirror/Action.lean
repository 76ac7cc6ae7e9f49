import OneWire.Proofs.Action

/-!
# Actions that mirror each other

Two actions on different states mirror each other if from related states they come to the same
outcome and leave related states. An action that keeps an invariant is one that mirrors itself where
the invariant holds.
-/

namespace OneWire.Action

variable {ε ε' σ τ α β : Type}

def Mirrors (R : σ → τ → Prop) (act : Action ε σ α) (act' : Action ε τ α) : Prop :=
  ∀ s t, R s t →
    (act.attempt s).1 = (act'.attempt t).1 ∧ R (act.attempt s).2 (act'.attempt t).2

/-- The states are related, and what stands beside them is the same. -/
def Beside (R : σ → τ → Prop) (p : σ × β) (q : τ × β) : Prop :=
  R p.1 q.1 ∧ p.2 = q.2

namespace Mirrors

variable {R : σ → τ → Prop}

theorem cases {act : Action ε σ α} {act' : Action ε τ α} (h : Mirrors R act act') {s : σ} {t : τ}
    (hR : R s t) :
    (∃ a s' t', act s = .ok a s' ∧ act' t = .ok a t' ∧ R s' t') ∨
      ∃ e s' t', act s = .error e s' ∧ act' t = .error e t' ∧ R s' t' := by
  have hboth := h s t hR
  unfold attempt at hboth
  cases hs : act s with
  | ok a s' =>
    cases ht : act' t with
    | ok a' t' =>
      simp only [hs, ht, Except.ok.injEq] at hboth
      exact .inl ⟨a, s', t', rfl, hboth.1 ▸ rfl, hboth.2⟩
    | error e' t' => simp [hs, ht] at hboth
  | error e s' =>
    cases ht : act' t with
    | ok a' t' => simp [hs, ht] at hboth
    | error e' t' =>
      simp only [hs, ht, Except.error.injEq] at hboth
      exact .inr ⟨e, s', t', rfl, hboth.1 ▸ rfl, hboth.2⟩

theorem pure {a : α} : Mirrors R (pure a : Action ε σ α) (pure a : Action ε τ α) :=
  fun _ _ hR => ⟨rfl, hR⟩

theorem throw {e : ε} : Mirrors R (throw e : Action ε σ α) (throw e : Action ε τ α) :=
  fun _ _ hR => ⟨rfl, hR⟩

theorem modify {f : σ → σ} {g : τ → τ} (h : ∀ s t, R s t → R (f s) (g t)) :
    Mirrors R (modify f : Action ε σ PUnit) (modify g) :=
  fun s t hR => ⟨rfl, h s t hR⟩

theorem get_bind {next : σ → Action ε σ β} {next' : τ → Action ε τ β}
    (h : ∀ s t, R s t → Mirrors R (next s) (next' t)) :
    Mirrors R (get >>= next) (get >>= next') :=
  fun s t hR => h s t hR s t hR

theorem bind {act : Action ε σ α} {act' : Action ε τ α} {next : α → Action ε σ β}
    {next' : α → Action ε τ β} (h : Mirrors R act act')
    (hnext : ∀ a, Mirrors R (next a) (next' a)) : Mirrors R (act >>= next) (act' >>= next') := by
  intro s t hR
  unfold attempt
  simp only [Bind.bind, EStateM.bind]
  rcases h.cases hR with ⟨a, s', t', hs, ht, hR'⟩ | ⟨e, s', t', hs, ht, hR'⟩
  · simp only [hs, ht]
    exact hnext a s' t' hR'
  · simp only [hs, ht, true_and]
    exact hR'

theorem onBus {act : Action ε σ α} {act' : Action ε τ α} (h : Mirrors R act act') :
    Mirrors R act.onBus act'.onBus := by
  intro s t hR
  unfold attempt Action.onBus
  rcases h.cases hR with ⟨a, s', t', hs, ht, hR'⟩ | ⟨e, s', t', hs, ht, hR'⟩ <;>
    simp only [hs, ht, true_and] <;> exact hR'

theorem beside {act : Action ε σ α} {act' : Action ε τ α} (h : Mirrors R act act') :
    Mirrors (Beside (β := β) R) act.beside act'.beside := by
  rintro p q ⟨hR, hbeside⟩
  rw [attempt_beside, attempt_beside]
  obtain ⟨houtcome, hR'⟩ := h p.1 q.1 hR
  exact ⟨houtcome, hR', hbeside⟩

theorem filling {b : β} {act : Action ε (σ × β) Unit} {act' : Action ε (τ × β) Unit}
    (h : Mirrors (Beside R) act act') : Mirrors R (filling b act) (filling b act') := by
  intro s t hR
  have hstart : Beside R (s, b) (t, b) := ⟨hR, rfl⟩
  unfold attempt Action.filling
  rcases h.cases hstart with ⟨_, p, q, hs, ht, hR', hb⟩ | ⟨e, p, q, hs, ht, hR', hb⟩
  · simp only [hs, ht, hb, true_and]
    exact hR'
  · simp only [hs, ht, true_and]
    exact hR'

end Mirrors

/-! ## Actions that move from one relation to another -/

/--
From states related by `R` the outcome is the same. Success leads to `Q`, which may depend on the
value, and failure to `E`.
-/
def Shifts (R : σ → τ → Prop) (Q : α → σ → τ → Prop) (E : σ → τ → Prop) (act : Action ε σ α)
    (act' : Action ε τ α) : Prop :=
  ∀ s t, R s t →
    (∃ a s' t', act s = .ok a s' ∧ act' t = .ok a t' ∧ Q a s' t') ∨
      ∃ e s' t', act s = .error e s' ∧ act' t = .error e t' ∧ E s' t'

section Shifts

variable {R P E : σ → τ → Prop} {Q : α → σ → τ → Prop}

theorem Mirrors.shifts {act : Action ε σ α} {act' : Action ε τ α} (h : Mirrors R act act') :
    Shifts R (fun _ => R) R act act' :=
  fun _ _ hR => h.cases hR

namespace Shifts

theorem outcome {act : Action ε σ α} {act' : Action ε τ α} (h : Shifts R (fun _ => P) P act act')
    {s : σ} {t : τ} (hR : R s t) :
    (act.attempt s).1 = (act'.attempt t).1 ∧ P (act.attempt s).2 (act'.attempt t).2 := by
  rcases h s t hR with ⟨a, s', t', hs, ht, hP⟩ | ⟨e, s', t', hs, ht, hP⟩
  · rw [attempt_of_ok hs, attempt_of_ok ht]
    exact ⟨rfl, hP⟩
  · rw [attempt_of_error hs, attempt_of_error ht]
    exact ⟨rfl, hP⟩

theorem mirrors {act : Action ε σ α} {act' : Action ε τ α} (h : Shifts R (fun _ => R) R act act') :
    Mirrors R act act' :=
  fun _ _ hR => h.outcome hR

theorem of_ensures {act : Action ε σ α} {act' : Action ε τ α}
    (h : ∀ s t, R s t → act.Ensures s
      (fun a s' => act'.Ensures t (fun a' t' => a = a' ∧ Q a s' t') fun _ _ => False)
      fun _ _ => False) :
    Shifts R Q E act act' := by
  intro s t hR
  obtain ⟨a, s', hs, hact'⟩ := (h s t hR).returns
  obtain ⟨_, t', ht, rfl, hQ⟩ := hact'.returns
  exact .inl ⟨a, s', t', hs, ht, hQ⟩

theorem mono {act : Action ε σ α} {act' : Action ε τ α} {Q' : α → σ → τ → Prop}
    (h : Shifts R Q E act act') (hP : ∀ s t, P s t → R s t) (hQ : ∀ a s t, Q a s t → Q' a s t) :
    Shifts P Q' E act act' := by
  intro s t hs
  rcases h s t (hP s t hs) with ⟨a, s', t', hs, ht, h'⟩ | hfails
  · exact .inl ⟨a, s', t', hs, ht, hQ a s' t' h'⟩
  · exact .inr hfails

theorem pure {a : α} (h : ∀ s t, R s t → Q a s t) :
    Shifts R Q E (pure a : Action ε σ α) (pure a : Action ε τ α) :=
  fun s t hR => .inl ⟨a, s, t, rfl, rfl, h s t hR⟩

theorem bind {act : Action ε σ α} {act' : Action ε τ α} {next : α → Action ε σ β}
    {next' : α → Action ε τ β} {Q' : β → σ → τ → Prop} (h : Shifts R Q E act act')
    (hnext : ∀ a, Shifts (Q a) Q' E (next a) (next' a)) :
    Shifts R Q' E (act >>= next) (act' >>= next') := by
  intro s t hR
  simp only [Bind.bind, EStateM.bind]
  rcases h s t hR with ⟨a, s', t', hs, ht, hQ⟩ | ⟨e, s', t', hs, ht, hE⟩
  · simp only [hs, ht]
    exact hnext a s' t' hQ
  · simp only [hs, ht]
    exact .inr ⟨e, s', t', rfl, rfl, hE⟩

theorem beside {act : Action ε σ α} {act' : Action ε τ α} (h : Shifts R Q E act act') :
    Shifts (Beside (β := β) R) (fun a => Beside (Q a)) (Beside E) act.beside act'.beside := by
  rintro ⟨s, b⟩ ⟨t, _⟩ ⟨hR, rfl⟩
  unfold Action.beside
  rcases h s t hR with ⟨a, s', t', hs, ht, hQ⟩ | ⟨e, s', t', hs, ht, hE⟩
  · simp only [hs, ht]
    exact .inl ⟨a, (s', b), (t', b), rfl, rfl, hQ, rfl⟩
  · simp only [hs, ht]
    exact .inr ⟨e, (s', b), (t', b), rfl, rfl, hE, rfl⟩

theorem between {lock unlock : Action ε σ Unit} {lock' unlock' : Action ε τ Unit}
    {body : Action (Error ε) σ α} {body' : Action (Error ε) τ α}
    (hlock : Shifts R (fun _ => P) R lock lock') (hunlock : Shifts P (fun _ => R) R unlock unlock')
    (hbody : Mirrors P body body') :
    Mirrors R (between lock unlock body) (between lock' unlock' body') := by
  intro s t hR
  unfold attempt Action.between
  rcases hlock s t hR with ⟨_, s₁, t₁, hs, ht, hP₁⟩ | ⟨e, s₁, t₁, hs, ht, hR₁⟩
  · -- Whatever becomes of the body, the unlock leads back to `R`.
    simp only [hs, ht]
    rcases hbody.cases hP₁ with ⟨a, s₂, t₂, hs₁, ht₁, hP₂⟩ | ⟨e, s₂, t₂, hs₁, ht₁, hP₂⟩ <;>
      simp only [hs₁, ht₁] <;>
      rcases hunlock s₂ t₂ hP₂ with ⟨_, s₃, t₃, hs₂, ht₂, hR₃⟩ | ⟨e', s₃, t₃, hs₂, ht₂, hR₃⟩ <;>
      simp only [hs₂, ht₂, true_and] <;> exact hR₃
  · simp only [hs, ht, true_and]
    exact hR₁

end Shifts

end Shifts

/-! ## Invariants -/

/-- The two states are one, and it has `I`. -/
def Kept (I : σ → Prop) (s t : σ) : Prop :=
  I s ∧ s = t

theorem beside_kept (I : σ → Prop) :
    Beside (β := β) (Kept I) = Kept fun p : σ × β => I p.1 := by
  funext p q
  simp only [Beside, Kept, Prod.ext_iff, and_assoc]

theorem keeps_iff_mirrors {I : σ → Prop} {act : Action ε σ α} :
    act.Keeps I ↔ act.Mirrors (Kept I) act := by
  constructor
  · rintro h s _ ⟨hs, rfl⟩
    exact ⟨rfl, h.attempt hs, rfl⟩
  · intro h s hs
    obtain ⟨-, hs', -⟩ := h s s ⟨hs, rfl⟩
    unfold attempt at hs'
    unfold Ensures
    cases hresult : act s <;> simpa only [hresult] using hs'

end OneWire.Action
