import OneWire.Master.Trace

/-!
# Locks in a trace

A trace shows at each of its entries which locks are outstanding. A balanced trace gives back what
it takes and nothing else, so it can run inside a lock and in a row with others.
-/

namespace OneWire

variable {ε α : Type}

/-! ## Entries -/

def failure? : Except ε α → Option ε
  | .ok _ => none
  | .error e => some e

namespace Entry

/-- The call was for the line: a reset, or a transfer of bits, bytes or a block. -/
def isAccess : Entry ε → Bool
  | reset _ | readBit _ | writeBit _ _ | readByte _ | writeByte _ _ | readBlock _ _
  | writeBlock _ _ => true
  | lock _ | unlock _ | resume _ | suspend _ | delay _ => false

def isLocked : Entry ε → Bool
  | lock (.ok _) => true
  | _ => false

/-- The bus was to be unlocked, with success or not. -/
def isUnlock : Entry ε → Bool
  | unlock _ => true
  | _ => false

def isFailedUnlock : Entry ε → Bool
  | unlock (.error _) => true
  | _ => false

def isSuspended : Entry ε → Bool
  | suspend (.ok _) => true
  | _ => false

def failure : Entry ε → Option ε
  | reset o | readBit o => failure? o
  | readByte o => failure? o
  | writeBit _ o | writeByte _ o | readBlock _ o | writeBlock _ o | lock o | unlock o => failure? o
  | resume o | suspend o => failure? o
  | delay _ => none

/-- What the entry adds to the locks outstanding. -/
def lockChange : Entry ε → Int
  | lock (.ok _) => 1
  | unlock _ => -1
  | _ => 0

theorem lockChange_of_isAccess {e : Entry ε} (h : e.isAccess) : e.lockChange = 0 := by
  cases e <;> first | rfl | contradiction

theorem not_isUnlock_of_isAccess {e : Entry ε} (h : e.isAccess) : e.isUnlock = false := by
  cases e <;> first | rfl | contradiction

theorem not_isSuspended_of_isAccess {e : Entry ε} (h : e.isAccess) : e.isSuspended = false := by
  cases e <;> first | rfl | contradiction

end Entry

/-! ## Outstanding locks -/

/-- The locks taken less those given back. An unlock gives back, even if it fails. -/
def outstanding (entries : List (Entry ε)) : Int :=
  (entries.countP Entry.isLocked : Int) - entries.countP Entry.isUnlock

@[simp] theorem outstanding_nil : outstanding ([] : List (Entry ε)) = 0 := rfl

@[simp] theorem outstanding_cons (e : Entry ε) (entries : List (Entry ε)) :
    outstanding (e :: entries) = e.lockChange + outstanding entries := by
  unfold outstanding
  rw [List.countP_cons, List.countP_cons]
  cases e with
  | lock o =>
    cases o with
    | error => simp [Entry.isLocked, Entry.isUnlock, Entry.lockChange]
    | ok =>
      simp [Entry.isLocked, Entry.isUnlock, Entry.lockChange]
      omega
  | unlock o => simp [Entry.isLocked, Entry.isUnlock, Entry.lockChange]; omega
  | _ => simp [Entry.isLocked, Entry.isUnlock, Entry.lockChange]

@[simp] theorem outstanding_append (entries entries' : List (Entry ε)) :
    outstanding (entries ++ entries') = outstanding entries + outstanding entries' := by
  unfold outstanding
  rw [List.countP_append, List.countP_append]
  omega

/-! ## Each entry after those before it -/

/-- Each item has `P` after the items before it. -/
def Throughout (P : List α → α → Prop) (l : List α) : Prop :=
  ∀ before a after, l = before ++ a :: after → P before a

theorem throughout_nil (P : List α → α → Prop) : Throughout P [] := by
  intro before a after h
  simp at h

theorem throughout_append (P : List α → α → Prop) (l m : List α) :
    Throughout P (l ++ m) ↔
      Throughout P l ∧ Throughout (fun before => P (l ++ before)) m := by
  constructor
  · intro h
    refine ⟨fun before a after hl => h before a (after ++ m) ?_,
      fun before a after hm => h (l ++ before) a after ?_⟩
    · simp [hl]
    · simp [hm]
  · rintro ⟨hl, hm⟩ before a after h
    rcases List.append_eq_append_iff.1 h with ⟨t, rfl, ht⟩ | ⟨t, rfl, ht⟩
    · exact hm t a after ht
    · cases t with
      | nil => simpa using hm [] a after ht.symm
      | cons x t =>
        obtain ⟨rfl, -⟩ := List.cons.inj ht
        exact hl before a t rfl

theorem throughout_cons (P : List α → α → Prop) (a : α) (l : List α) :
    Throughout P (a :: l) ↔ P [] a ∧ Throughout (fun before => P (a :: before)) l := by
  rw [← List.singleton_append, throughout_append]
  refine and_congr_left fun _ => ⟨fun h => h [] a [] rfl, fun h before b after hb => ?_⟩
  cases before with
  | nil => exact (List.cons.inj hb).1 ▸ h
  | cons => simp at hb

theorem Throughout.concat {P : List α → α → Prop} {l : List α} {a : α} (h : Throughout P l)
    (ha : P l a) : Throughout P (l ++ [a]) := by
  rw [throughout_append, throughout_cons]
  exact ⟨h, (List.append_nil l).symm ▸ ha, throughout_nil _⟩

/-! ## Balanced traces -/

structure Balanced (entries : List (Entry ε)) : Prop where
  awake : ∀ e ∈ entries, e.isSuspended = false
  covered : ∀ n, 0 ≤ outstanding (entries.take n)
  settled : outstanding entries = 0

namespace Balanced

variable {entries entries' : List (Entry ε)}

theorem nil : Balanced ([] : List (Entry ε)) where
  awake := by simp
  covered := by simp
  settled := rfl

theorem append (h : Balanced entries) (h' : Balanced entries') :
    Balanced (entries ++ entries') where
  awake := List.forall_mem_append.2 ⟨h.awake, h'.awake⟩
  covered := by
    intro n
    rw [List.take_append, outstanding_append]
    by_cases hn : n ≤ entries.length
    · rw [Nat.sub_eq_zero_of_le hn]
      simpa using h.covered n
    · rw [List.take_of_length_le (by omega), h.settled, Int.zero_add]
      exact h'.covered _
  settled := by rw [outstanding_append, h.settled, h'.settled, Int.zero_add]

theorem single {e : Entry ε} (hawake : e.isSuspended = false) (h : e.lockChange = 0) :
    Balanced [e] where
  awake := by simpa using hawake
  covered := by
    intro n
    cases n <;> simp [h]
  settled := by simp [h]

theorem access {e : Entry ε} (h : e.isAccess) : Balanced [e] :=
  single (Entry.not_isSuspended_of_isAccess h) (Entry.lockChange_of_isAccess h)

theorem bracket (h : Balanced entries) (o : Except ε Unit) :
    Balanced (.lock (.ok ()) :: (entries ++ [.unlock o])) where
  awake := by
    intro e he
    rw [List.mem_cons, List.mem_append, List.mem_singleton] at he
    rcases he with rfl | he | rfl
    · rfl
    · exact h.awake e he
    · rfl
  covered := by
    intro n
    cases n with
    | zero => simp
    | succ n =>
      have hbody := h.covered n
      rw [List.take_succ_cons, List.take_append, outstanding_cons, outstanding_append]
      cases n - entries.length <;> simp [Entry.lockChange] <;> omega
  settled := by simp [h.settled, Entry.lockChange]

end Balanced

end OneWire
