import OneWire.Proofs.Bench.Drive
import OneWire.Proofs.Line.Shared
import OneWire.Proofs.Search.Pass
import OneWire.Proofs.Search.Traversal
import OneWire.Search.Enumerate

/-!
# A search finds what its passes find

Passes made one after another leave a trail of cursors. A search makes as many passes as the trail
has cursors, and on a consistent line they sweep the tree.
-/

namespace OneWire.Search

variable {σ ε : Type}

/-! ## Trails -/

section Trail

variable {bus : ByteMaster σ ε} {scope : Scope} {c c' : Cursor} {s s₁ s' : σ}
  {cursors : List Cursor}

/-- Passes from `c`, up to one after which nothing is left to be done. -/
inductive Trail (bus : ByteMaster σ ε) (scope : Scope) : Cursor → σ → List Cursor → σ → Prop
  | last {c c' : Cursor} {s s' : σ} (h : pass bus scope c s = .ok c' s')
      (hfinished : c'.isFinished = true) : Trail bus scope c s [c'] s'
  | more {c c' : Cursor} {s s₁ s' : σ} {cursors : List Cursor}
      (h : pass bus scope c s = .ok c' s₁) (hfinished : c'.isFinished = false)
      (rest : Trail bus scope c' s₁ cursors s') : Trail bus scope c s (c' :: cursors) s'

theorem walk_last_ne_start (bus : Slots σ ε) (c : Cursor) (n : Nat) {d : Discrepancy}
    (hd : d ≠ .start) (path : BitVec 64) (s : σ) :
    (walk bus c n d path).Ensures s (fun c' _ => c'.last ≠ .start) fun _ _ => True := by
  induction n generalizing d path s with
  | zero => exact hd
  | succ n ih =>
    unfold walk
    refine (Action.ensures_true _ s).bind fun v s₁ _ => ?_
    refine (Action.ensures_true _ s₁).bind fun w s₂ _ => ?_
    split
    · simp
    · refine (Action.ensures_true _ s₂).bind fun _ s₃ _ => ih ?_ _ s₃
      unfold deepen
      split
      · simp
      · exact hd

theorem pass_last_ne_start (h : pass bus scope c s = .ok c' s') : c'.last ≠ .start := by
  suffices (pass bus scope c).Ensures s (fun c' _ => c'.last ≠ .start) fun _ _ => True from
    this.of_ok h
  unfold pass
  refine (Action.ensures_true _ s).bind fun present s₁ _ => ?_
  split
  · refine (Action.ensures_true _ s₁).bind fun _ s₂ _ => ?_
    exact walk_last_ne_start _ _ _ (by simp) _ s₂
  · simp

theorem found_of_unfinished (h : pass bus scope c s = .ok c' s')
    (hfinished : c'.isFinished = false) : ∃ rom, c'.found = some rom := by
  have hstart := pass_last_ne_start h
  unfold Cursor.isFinished at hfinished
  unfold Cursor.found
  split at hfinished <;> simp_all

theorem passes_of_pass {limit count : Nat} {found : List Rom}
    (h : pass bus scope c s = .ok c' s₁) :
    passes bus scope (limit + 1) count c (s, found) =
      match c'.found with
      | none => .ok (some count) (s₁, found)
      | some rom =>
        if c'.isFinished then .ok (some (count + 1)) (s₁, found ++ [rom])
        else passes bus scope limit (count + 1) c' (s₁, found ++ [rom]) := by
  have hbeside : (pass bus scope c).beside (s, found) = .ok c' (s₁, found) := by
    simp [Action.beside, h]
  rw [passes]
  simp only [bind, EStateM.bind, hbeside]
  cases c'.found with
  | none => rfl
  | some rom =>
    cases c'.isFinished
    · rfl
    · rfl

theorem Trail.passes_eq (h : Trail bus scope c s cursors s') (count : Nat) (found : List Rom)
    {limit : Nat} (hlimit : cursors.length ≤ limit) :
    passes bus scope limit count c (s, found) =
      .ok (some (count + (cursors.filterMap Cursor.found).length))
        (s', found ++ cursors.filterMap Cursor.found) := by
  induction h generalizing count found limit with
  | @last c c' s s' h hfinished =>
    obtain ⟨n, rfl⟩ := Nat.exists_eq_add_one.2 (Nat.lt_of_lt_of_le (by simp) hlimit)
    rw [passes_of_pass h]
    cases hfound : c'.found <;> simp [hfound, hfinished]
  | @more c c' s s₁ s' cursors h hfinished rest ih =>
    obtain ⟨n, rfl⟩ := Nat.exists_eq_add_one.2 (Nat.lt_of_lt_of_le (by simp) hlimit)
    obtain ⟨rom, hfound⟩ := found_of_unfinished h hfinished
    rw [passes_of_pass h]
    simp only [hfound, hfinished, List.filterMap_cons]
    rw [if_neg (by simp), ih (count + 1) (found ++ [rom]) (by simpa using hlimit)]
    simp [Nat.add_assoc, Nat.add_comm 1]

theorem Trail.passes_of_lt (h : Trail bus scope c s cursors s') (count : Nat) (found : List Rom)
    {limit : Nat} (hlimit : limit < cursors.length) :
    ∃ p, passes bus scope limit count c (s, found) = .ok none p := by
  induction h generalizing count found limit with
  | last h hfinished =>
    obtain rfl : limit = 0 := by simpa using hlimit
    exact ⟨_, rfl⟩
  | more h hfinished rest ih =>
    cases limit with
    | zero => exact ⟨_, rfl⟩
    | succ n =>
      obtain ⟨rom, hfound⟩ := found_of_unfinished h hfinished
      obtain ⟨p, hp⟩ := ih (count + 1) (found ++ [rom]) (by simpa using hlimit)
      refine ⟨p, ?_⟩
      rw [passes_of_pass h]
      simpa only [hfound, hfinished, Bool.false_eq_true, if_false] using hp

/-- A trail in the tree is one on the bus, as long as the state is ready for as many passes. -/
theorem trail_of_answers {a : Answers} (Ready : Nat → σ → Prop)
    (hpass : ∀ k c s, Ready (k + 1) s →
      ∃ s', pass bus scope c s = .ok (a.pass c) s' ∧ Ready k s')
    (h : a.Trail c cursors) (hs : Ready cursors.length s) :
    ∃ s', Trail bus scope c s cursors s' ∧ Ready 0 s' := by
  induction h generalizing s with
  | last hfinished =>
    obtain ⟨s', hok, hs'⟩ := hpass 0 _ s hs
    exact ⟨s', .last hok hfinished, hs'⟩
  | more hfinished _ ih =>
    obtain ⟨s₁, hok, hs₁⟩ := hpass _ _ s hs
    obtain ⟨s', htrail, hs'⟩ := ih hs₁
    exact ⟨s', .more hok hfinished htrail, hs'⟩

end Trail

/-! ## Searches -/

section Enumerate

variable {bus : Master σ ε} {sound : σ → Prop} {depth : σ → Nat} {scope : Scope}

theorem passes_works (hf : bus.Faultless sound depth) (scope : Scope) (limit count : Nat)
    (c : Cursor) :
    (passes bus.toByteMaster scope limit count c).Works (fun p => sound p.1)
      fun p => depth p.1 := by
  induction limit generalizing count c with
  | zero => exact .pure
  | succ limit ih =>
    unfold passes
    refine (pass_works hf scope c).beside.bind fun c' => ?_
    split
    · exact .pure
    · refine Action.Works.bind (fun p hp => ⟨hp, rfl⟩) fun _ => ?_
      split
      · exact .pure
      · exact ih _ _

theorem enumerate_eq {limit : Nat} {s s₁ s₂ s' : σ} {found found' : List Rom}
    {n : Option Nat} (hlock : bus.lock s = .ok () s₁)
    (hpasses : passes bus.toByteMaster scope limit 0 {} (s₁, found) = .ok n (s₂, found'))
    (hunlock : bus.unlock s₂ = .ok () s') (family : Byte) :
    enumerate bus limit scope family (s, found) = .ok n (s', found') := by
  simp only [enumerate, Master.whileLockedBeside, Action.between, Action.beside, Action.onBus,
    hlock, hpasses, hunlock]

theorem Trail.enumerate_eq {s s₁ s₂ s' : σ} {cursors : List Cursor}
    (h : Trail bus.toByteMaster scope {} s₁ cursors s₂) (hlock : bus.lock s = .ok () s₁)
    (hunlock : bus.unlock s₂ = .ok () s') (family : Byte) {limit : Nat}
    (hlimit : cursors.length ≤ limit) :
    enumerate bus limit scope family (s, []) =
      .ok (some (cursors.filterMap Cursor.found).length)
        (s', cursors.filterMap Cursor.found) := by
  have hpasses := h.passes_eq 0 [] hlimit
  rw [Nat.zero_add, List.nil_append] at hpasses
  exact Search.enumerate_eq hlock hpasses hunlock family

theorem Trail.enumerate_of_lt (hf : bus.Faultless sound depth) {s s₁ s₂ : σ}
    {cursors : List Cursor} (hlock : bus.lock s = .ok () s₁) (hs₁ : sound s₁)
    (hdepth : 0 < depth s₁) (h : Trail bus.toByteMaster scope {} s₁ cursors s₂) (family : Byte)
    {limit : Nat} (hlimit : limit < cursors.length) :
    ∃ p, enumerate bus limit scope family (s, []) = .ok none p := by
  obtain ⟨⟨s₃, found⟩, hpasses⟩ := h.passes_of_lt 0 [] hlimit
  obtain ⟨hs₃, hdepth₃⟩ := (passes_works hf scope limit 0 {} (s₁, []) hs₁).of_ok hpasses
  simp only at hs₃ hdepth₃
  obtain ⟨_, s', hunlock, -⟩ := (hf.unlock s₃ hs₃ (by rwa [hdepth₃])).returns
  exact ⟨_, Search.enumerate_eq hlock hpasses hunlock family⟩

end Enumerate

/-! ## Consistent lines -/

section Consistent

variable {L : Type} [Wire L] {bus : Master σ ε} {line : σ → L} {sound : σ → Prop}
  {depth : σ → Nat} {scope : Scope} {a : Answers}

theorem pass_consistent (hd : bus.toByteMaster.Drives line) (hf : bus.Faultless sound depth)
    {l : L} (hc : Wire.Consistent scope.command a l) (c : Cursor) {s : σ} (hs : sound s)
    (hl : Wire.Between scope.command l (line s)) :
    ∃ s', pass bus.toByteMaster scope c s = .ok (a.pass c) s' ∧ sound s' ∧ depth s' = depth s ∧
      Wire.Between scope.command l (line s') := by
  have hpresence := hc.presence _ hl
  have hpass := pass_ensures hd scope c s (fun p hp => hc.answers _ p hl hp) (by simp [hpresence])
  obtain ⟨c', s', hok, hs', hdepth⟩ := (pass_works hf scope c s hs).returns
  obtain ⟨rfl, hline⟩ := hpass.of_ok hok
  refine ⟨s', hok, hs', hdepth, ?_⟩
  rw [hline, if_pos hpresence]
  exact hl.pass _ (a.length_route_le c)

theorem length_found_of_forks {cursors : List Cursor}
    (h : ∀ c ∈ cursors, ∃ n, c.last = .fork n) :
    (cursors.filterMap Cursor.found).length = cursors.length := by
  rw [List.filterMap_length_eq_length]
  intro c hc
  obtain ⟨n, hn⟩ := h c hc
  simp [Cursor.found, hn]

theorem Answers.Sweeps.length_le {P : List Bool → Prop} {cursors : List Cursor}
    (h : a.Sweeps P cursors) : cursors.length ≤ (cursors.filterMap Cursor.found).length + 1 := by
  have hsub := ((List.dropLast_sublist cursors).filterMap Cursor.found).length_le
  rw [length_found_of_forks h.forks, List.length_dropLast] at hsub
  omega

/--
On a consistent line a search comes to an end, and finds the complete paths before the first dead
end, in order.
-/
theorem enumerate_consistent (hd : bus.toByteMaster.Drives line) (hf : bus.Faultless sound depth)
    (scope : Scope) (family : Byte) {s : σ} (hs : sound s)
    (hc : Wire.Consistent scope.command a (line s)) :
    ∃ (found : List Rom) (s' : σ),
      (∀ limit, found.length < limit →
        enumerate bus limit scope family (s, []) = .ok (some found.length) (s', found)) ∧
      depth s' = depth s ∧ found.Pairwise Rom.Before ∧
      ∀ r, r ∈ found ↔ a.Complete r.wireBits ∧ ∀ p, a.DeadEnd p → Precedes r.wireBits p := by
  obtain ⟨_, s₁, hlock, hs₁, hdepth₁⟩ := (hf.lock s hs).returns
  obtain ⟨-, hline₁⟩ := (hd.lock s).of_ok hlock
  obtain ⟨cursors, htrail, hsweeps⟩ := a.exists_trail
  have hstart : Wire.Between scope.command (line s) (line s₁) := by
    rw [hline₁]
    exact .start
  obtain ⟨s₂, htrail₂, hs₂, hdepth₂, -⟩ := trail_of_answers
    (fun _ t => sound t ∧ depth t = depth s₁ ∧ Wire.Between scope.command (line s) (line t))
    (fun _ c t ⟨ht, hdepth, hl⟩ => by
      obtain ⟨t', hok, ht', hdepth', hl'⟩ := pass_consistent hd hf hc c ht hl
      exact ⟨t', hok, ht', hdepth'.trans hdepth, hl'⟩)
    htrail ⟨hs₁, rfl, hstart⟩
  obtain ⟨_, s', hunlock, hs', hdepth'⟩ := (hf.unlock s₂ hs₂ (by omega)).returns
  refine ⟨cursors.filterMap Cursor.found, s', fun limit hlimit => ?_, by omega, hsweeps.sorted, ?_⟩
  · exact htrail₂.enumerate_eq hlock hunlock family (hsweeps.length_le.trans hlimit)
  · intro r
    simp [hsweeps.mem_iff]

/-- Two devices, one of which drops out. -/
def dropout : Bench Line :=
  .idle (.ofDevices [{ rom := .ofWireBits 1 }, { rom := .ofWireBits 2, dropAt := some 1 }])

theorem enumerate_consistent_dropout :
    ∃ (found : List Rom) (b' : Bench Line),
      (∀ limit, found.length < limit →
        enumerate Bench.bitHost.toMaster limit .all 0 (dropout, []) =
          .ok (some found.length) (b', found)) ∧
      b'.depth = dropout.depth ∧ found.Pairwise Rom.Before ∧
      ∀ r, r ∈ found ↔ (Line.answers dropout.line.devices .all).Complete r.wireBits ∧
        ∀ p, (Line.answers dropout.line.devices .all).DeadEnd p → Precedes r.wireBits p :=
  enumerate_consistent Bench.bitHost_drives Bench.bitHost_faultless .all 0 (Bench.quiet_idle _)
    (Line.consistent rfl (by decide) .all)

end Consistent

end OneWire.Search
