import Mathlib.Order.Bounds.Basic
import OneWire.Proofs.Search.Answers
import OneWire.Proofs.Trace.Transactions

/-!
# One pass on any line

What a pass comes to, told from the answers it got and the bits it wrote, whether or not there are
devices that would answer so.
-/

namespace OneWire.Search

open OneWire.Action

variable {σ ε : Type}

/-! ## Rounds -/

/-- The two answers at a position, one of them 0, and the bit that was written on them. -/
structure Round where
  value : Bool
  complement : Bool
  written : Bool
  answered : ¬ (value = true ∧ complement = true)
  agreed : value ≠ complement → written = value

namespace Round

def entries (r : Round) : List (Entry ε) :=
  [.readBit (.ok r.value), .readBit (.ok r.complement), .writeBit r.written (.ok ())]

/-- Both answers were 0, and 1 was written. -/
def LeavesFork (r : Round) : Prop :=
  r.value = false ∧ r.complement = false ∧ r.written = true

def ofChoice {c : Cursor} {i : Nat} {value complement written : Bool}
    (h : c.choose i value complement = some written) : Round where
  value := value
  complement := complement
  written := written
  answered := by
    rintro ⟨rfl, rfl⟩
    cases h
  agreed := by
    unfold Cursor.choose at h
    cases value <;> cases complement <;> simp_all

end Round

/-- The positions, counted from 1, at which both answers were 0 and 1 was written. -/
def forksLeft (rounds : List Round) : Set Nat :=
  {p | ∃ i r, p = i + 1 ∧ rounds[i]? = some r ∧ r.LeavesFork}

theorem le_length_of_mem_forksLeft {rounds : List Round} {p : Nat} (h : p ∈ forksLeft rounds) :
    p ≤ rounds.length := by
  obtain ⟨i, r, rfl, hr, -⟩ := h
  exact (List.getElem?_eq_some_iff.1 hr).1

theorem mem_forksLeft_concat {rounds : List Round} {r : Round} {p : Nat} :
    p ∈ forksLeft (rounds ++ [r]) ↔ p ∈ forksLeft rounds ∨ p = rounds.length + 1 ∧ r.LeavesFork := by
  constructor
  · rintro ⟨i, r', rfl, hr', hfork⟩
    rw [List.getElem?_append] at hr'
    split at hr'
    · exact .inl ⟨i, r', rfl, hr', hfork⟩
    · rename_i hi
      obtain ⟨hlast, rfl⟩ : i - rounds.length = 0 ∧ r = r' := by
        simpa [List.getElem?_singleton] using hr'
      exact .inr ⟨by omega, hfork⟩
  · rintro (⟨i, r', rfl, hr', hfork⟩ | ⟨rfl, hfork⟩)
    · exact ⟨i, r', rfl, by rw [List.getElem?_append_left (List.getElem?_eq_some_iff.1 hr').1, hr'],
        hfork⟩
    · exact ⟨rounds.length, r, rfl, List.getElem?_concat_length, hfork⟩

/-- What the rounds leave to be done. -/
def Pending (rounds : List Round) : Discrepancy → Prop
  | .fork p => IsGreatest (forksLeft rounds) p
  | .lastDevice => forksLeft rounds = ∅
  | .start | .noDevice => False

theorem pending_nil : Pending [] .lastDevice := by
  apply Set.eq_empty_of_forall_notMem
  rintro p ⟨i, r, -, hr, -⟩
  simp at hr

theorem Pending.concat {rounds : List Round} {d : Discrepancy} (h : Pending rounds d) (r : Round) :
    Pending (rounds ++ [r]) (deepen d rounds.length r.value r.complement r.written) := by
  unfold deepen
  split_ifs with hfork
  · have hr : r.LeavesFork := by
      have := r.answered
      cases hv : r.value <;> cases hk : r.complement <;> simp_all [Round.LeavesFork]
    refine ⟨mem_forksLeft_concat.2 (.inr ⟨rfl, hr⟩), fun p hp => ?_⟩
    rcases mem_forksLeft_concat.1 hp with hp | ⟨rfl, -⟩
    · exact Nat.le_succ_of_le (le_length_of_mem_forksLeft hp)
    · exact Nat.le_refl _
  · have hr : ¬ r.LeavesFork := by
      rintro ⟨hv, hk, hw⟩
      simp [hv, hk, hw] at hfork
    have hsame : forksLeft (rounds ++ [r]) = forksLeft rounds := by
      ext p
      simp [mem_forksLeft_concat, hr]
    cases d with
    | start => exact h
    | noDevice => exact h
    | lastDevice => exact hsame.trans h
    | fork p =>
      unfold Pending
      rw [hsame]
      exact h

/-! ## Calls of a pass -/

/-- What comes of the positions of a pass from `c`, and the calls made there. -/
inductive Walked (c : Cursor) : Cursor → List (Entry ε) → Prop
  /-- After some rounds nobody answers any more. The rest of the path stays as it was. -/
  | aborted {rounds : List Round} {path : BitVec 64} (hrounds : rounds.length < Rom.width)
      (hpath : wireBits path =
        rounds.map Round.written ++ (wireBits c.path).drop rounds.length) :
      Walked c ⟨.noDevice, path⟩
        (rounds.flatMap Round.entries ++ [.readBit (.ok true), .readBit (.ok true)])
  | completed {rounds : List Round} {path : BitVec 64} {last : Discrepancy}
      (hrounds : rounds.length = Rom.width) (hpath : wireBits path = rounds.map Round.written)
      (hlast : Pending rounds last) :
      Walked c ⟨last, path⟩ (rounds.flatMap Round.entries)

/-- What comes of a pass from `c`, and the calls that it makes. -/
inductive Transcribed (scope : Scope) (c : Cursor) : Cursor → List (Entry ε) → Prop
  | absent : Transcribed scope c { c with last := .noDevice } [.reset (.ok false)]
  | present {c' : Cursor} {entries : List (Entry ε)} (h : Walked c c' entries) :
      Transcribed scope c c'
        (.reset (.ok true) :: .writeByte scope.command.code (.ok ()) :: entries)

theorem wireBits_written (path : BitVec 64) {rounds : List Round}
    (h : rounds.length ≤ Rom.width) :
    wireBits (overwrite path (rounds.map Round.written)) =
      rounds.map Round.written ++ (wireBits path).drop rounds.length := by
  rw [wireBits_overwrite_of_le path (by rwa [List.length_map]), List.length_map]

/-- A walk that has the bits written in `rounds` in front of the rest of the old path. -/
theorem walk_walked (bus : Slots σ ε) (c : Cursor) (log : List (Entry ε)) {n : Nat}
    {d : Discrepancy} (rounds : List Round) {q : σ × List (Entry ε)}
    (hn : rounds.length + n = Rom.width) (hd : Pending rounds d)
    (hq : q.2 = log ++ rounds.flatMap Round.entries) :
    (walk bus.traced c n d (overwrite c.path (rounds.map Round.written))).Ensures q
      (fun c' q' => ∃ entries, q'.2 = log ++ entries ∧ Walked c c' entries) fun _ _ => True := by
  induction n generalizing d rounds q with
  | zero =>
    have hlength : rounds.length = Rom.width := hn
    exact ⟨_, hq, .completed hlength (wireBits_overwrite c.path (by simpa using hlength)) hd⟩
  | succ n ih =>
    have hi : Rom.width - (n + 1) = rounds.length := by omega
    unfold walk
    rw [hi, ensures_bind]
    refine .traced (fun value s₁ => ?_) fun _ _ => trivial
    rw [ensures_bind]
    refine .traced (fun complement s₂ => ?_) fun _ _ => trivial
    cases hchoose : c.choose rounds.length value complement with
    | none =>
      -- Nobody answered, so nothing is written here and the old path stays from here on.
      have hdead : value = true ∧ complement = true := by
        unfold Cursor.choose at hchoose
        cases value <;> cases complement <;> simp_all
      refine ⟨_, ?_, .aborted (by omega) (wireBits_written c.path (by omega))⟩
      rw [hdead.1, hdead.2, hq]
      simp
    | some b =>
      rw [ensures_bind]
      refine .traced (fun _ s₃ => ?_) fun _ _ => trivial
      let r : Round := .ofChoice hchoose
      have hnext : withBit (overwrite c.path (rounds.map Round.written)) rounds.length b =
          overwrite c.path ((rounds ++ [r]).map Round.written) := by
        rw [List.map_append, List.map_singleton, overwrite_concat, List.length_map]
        rfl
      rw [hnext]
      refine ih _ (by simp; omega) (hd.concat r) ?_
      simp [hq, Round.entries, r, Round.ofChoice]

/-! ## The pass -/

theorem pass_ensures_transcribed (bus : ByteMaster σ ε) (scope : Scope) (c : Cursor) (s : σ)
    (log : List (Entry ε)) :
    (pass bus.traced scope c).Ensures (s, log)
      (fun c' p => ∃ entries, p.2 = log ++ entries ∧ Transcribed scope c c' entries)
      fun _ _ => True := by
  unfold pass
  rw [ensures_bind]
  refine .traced (fun present s₁ => ?_) fun _ _ => trivial
  cases present with
  | false => exact ⟨_, rfl, .absent⟩
  | true =>
    rw [if_pos rfl, ensures_bind]
    refine .traced (fun _ s₂ => ?_) fun _ _ => trivial
    have hwalk := walk_walked bus.toSlots c
      (log ++ [.reset (.ok true), .writeByte scope.command.code (.ok ())]) []
      (q := (s₂, log ++ [.reset (.ok true)] ++ [.writeByte scope.command.code (.ok ())]))
      (Nat.zero_add _) pending_nil (by simp)
    apply hwalk.mono _ fun _ _ => id
    rintro c' q ⟨entries, hlog, h⟩
    exact ⟨_, by simpa using hlog, .present h⟩

namespace Transcribed

variable {scope : Scope} {c c' : Cursor} {entries : List (Entry ε)}

theorem last_ne_start (h : Transcribed scope c c' entries) : c'.last ≠ .start := by
  cases h with
  | absent => nofun
  | present h =>
    cases h with
    | aborted => nofun
    | completed _ _ hlast =>
      rintro rfl
      exact hlast

theorem getLsbD_of_fork (h : Transcribed scope c c' entries) {p : Nat} (hp : c'.last = .fork p) :
    1 ≤ p ∧ p ≤ Rom.width ∧ c'.path.getLsbD (p - 1) = true := by
  cases h with
  | absent => cases hp
  | present h =>
    cases h with
    | aborted => cases hp
    | @completed rounds path last hrounds hpath hlast =>
      obtain rfl : last = .fork p := hp
      obtain ⟨i, r, rfl, hr, hfork⟩ := hlast.1
      have hi : i < Rom.width := hrounds ▸ (List.getElem?_eq_some_iff.1 hr).1
      refine ⟨Nat.succ_pos i, hi, Option.some.inj ?_⟩
      rw [Nat.add_sub_cancel, ← getElem?_wireBits path hi, hpath, List.getElem?_map, hr,
        Option.map_some, hfork.2.2]

end Transcribed

/--
On any line, from any cursor: unless a call fails, a pass comes to what its calls show. The start
never comes back, and a fork that does is taken by the path that comes back with it.
-/
theorem pass_transcribed (bus : ByteMaster σ ε) (scope : Scope) (c : Cursor) (s : σ)
    (log : List (Entry ε)) :
    (pass bus.traced scope c).Ensures (s, log)
      (fun c' p => ∃ entries, p.2 = log ++ entries ∧ Transcribed scope c c' entries ∧
        c'.last ≠ .start ∧
        ∀ n, c'.last = .fork n → 1 ≤ n ∧ n ≤ 64 ∧ c'.path.getLsbD (n - 1) = true)
      fun e p => ∃ entries, p.2 = log ++ entries ∧ ∃ entry ∈ entries, entry.failure = some e := by
  have hlogs := logs_iff_ensures.1 (logs_pass bus scope c (s, log))
  apply ((pass_ensures_transcribed bus scope c s log).and hlogs).mono
  · rintro c' p ⟨⟨entries, hlog, h⟩, -⟩
    exact ⟨entries, hlog, h, h.last_ne_start, fun n => h.getLsbD_of_fork⟩
  · rintro e p ⟨-, entries, hlog, h⟩
    exact ⟨entries, hlog, h.transcript.first.failed⟩

end OneWire.Search
