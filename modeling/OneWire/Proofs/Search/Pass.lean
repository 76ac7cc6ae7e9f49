import OneWire.Proofs.Line.Search
import OneWire.Proofs.Master.Drive

/-!
# Passes on a line

A pass of a master that drives a line is a pass down the tree of the answers that the line gives.
-/

namespace OneWire.Search

variable {L σ ε : Type}

/-! ## What a pass finds -/

section Drives

variable [Wire L] {bus : ByteMaster σ ε} {line : σ → L} {a : Answers} {k : Command} {l : L}

theorem walk_ensures (hd : bus.Drives line) (c : Cursor)
    (ha : ∀ p, p.length < Rom.width → (Wire.answer (Wire.searched k p l)).1 = a p) {n : Nat}
    {d : Discrepancy} {p : List Bool} {s : σ} (hn : p.length + n = Rom.width)
    (hs : line s = Wire.searched k p l) :
    (walk bus.toSlots c n d (overwrite c.path p)).Ensures s
      (fun c' s' => c' = ⟨(a.walk c n d p).1, overwrite c.path (a.walk c n d p).2⟩ ∧
        line s' = Wire.passed k (a.walk c n d p).2 l)
      fun _ _ => True := by
  induction n generalizing d p s with
  | zero => exact ⟨rfl, hs.trans (if_pos hn).symm⟩
  | succ n ih =>
    have hlt : p.length < Rom.width := by omega
    unfold walk
    refine (hd.readBit s).bind ?_
    rintro v s₁ ⟨hv, h₁⟩
    refine (hd.readBit s₁).bind ?_
    rintro w s₂ ⟨hw, h₂⟩
    have hanswer : Wire.answer (Wire.searched k p l) = ((v, w), line s₂) := by
      simp only [Wire.answer, ← hs, hv, hw, h₁, h₂]
    have hi : Rom.width - (n + 1) = p.length := by omega
    have hap : a p = (v, w) := by rw [← ha p hlt, hanswer]
    simp only [hi, Answers.walk, hap]
    cases hchoose : c.choose p.length v w with
    | none => exact ⟨rfl, by rw [Wire.passed, if_neg hlt.ne, hanswer]⟩
    | some b =>
      refine (hd.writeBit b s₂).bind ?_
      rintro _ s₃ ⟨-, h₃⟩
      rw [← overwrite_concat]
      exact ih (by simp; omega) (by rw [h₃, Wire.searched_concat, hanswer])

/-- A pass on a line that answers as `a` does. Where nobody is present, `a` has nothing either. -/
theorem pass_ensures (hd : bus.Drives line) (scope : Scope) (c : Cursor) (s : σ)
    (ha : ∀ p, p.length < Rom.width →
      (Wire.answer (Wire.searched scope.command p (line s))).1 = a p)
    (habsent : (Wire.reset (line s)).1 = false → a [] = (true, true)) :
    (pass bus scope c).Ensures s
      (fun c' s' => c' = a.pass c ∧
        line s' = if (Wire.reset (line s)).1 then
          Wire.passed scope.command (a.route c) (line s)
        else (Wire.reset (line s)).2)
      fun _ _ => True := by
  unfold pass
  refine (hd.reset s).bind ?_
  rintro present s₁ ⟨rfl, h₁⟩
  cases hpresent : (Wire.reset (line s)).1 with
  | false =>
    have hroot := habsent hpresent
    simp only [Bool.false_eq_true, if_false, Action.ensures_pure, h₁, and_true]
    exact (Answers.pass_of_dead hroot c).symm
  | true =>
    simp only [if_true]
    refine (hd.writeByte _ s₁).bind ?_
    rintro _ s₂ ⟨-, h₂⟩
    rw [h₁] at h₂
    exact walk_ensures hd c ha (p := []) rfl h₂

end Drives

/-! ## A pass succeeds -/

section Faultless

variable {bus : Master σ ε} {sound : σ → Prop} {depth : σ → Nat}

theorem walk_works (hf : bus.Faultless sound depth) (c : Cursor) (n : Nat) (d : Discrepancy)
    (path : BitVec 64) : (walk bus.toSlots c n d path).Works sound depth := by
  induction n generalizing d path with
  | zero => exact .pure
  | succ n ih =>
    unfold walk
    refine hf.readBit.bind fun v => hf.readBit.bind fun w => ?_
    split
    · exact .pure
    · exact (hf.writeBit _).bind fun _ => ih _ _

theorem pass_works (hf : bus.Faultless sound depth) (scope : Scope) (c : Cursor) :
    (pass bus.toByteMaster scope c).Works sound depth := by
  unfold pass
  refine hf.reset.bind fun present => ?_
  split
  · exact (hf.writeByte _).bind fun _ => walk_works hf c _ _ _
  · exact .pure

end Faultless

end OneWire.Search
