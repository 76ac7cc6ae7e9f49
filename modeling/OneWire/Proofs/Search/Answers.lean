import OneWire.Proofs.Search.Order
import OneWire.Search.Pass

/-!
# What a line answers in a search

Where the two answers at each search position depend only on the bits written so far, they make a
binary tree. A pass walks down one path of it.
-/

namespace OneWire.Search

/-- The answers at each position, the bit and its complement, by the bits written so far. -/
abbrev Answers := List Bool → Bool × Bool

/-- Writes a path over the first bits of a number. -/
def overwrite (n : BitVec 64) (p : List Bool) : BitVec 64 :=
  p.zipIdx.foldl (fun n (b, i) => withBit n i b) n

theorem overwrite_nil (n : BitVec 64) : overwrite n [] = n := rfl

theorem overwrite_concat (n : BitVec 64) (p : List Bool) (b : Bool) :
    overwrite n (p ++ [b]) = withBit (overwrite n p) p.length b := by
  simp [overwrite, List.zipIdx_append]

theorem getLsbD_overwrite (n : BitVec 64) (p : List Bool) {i : Nat} (hi : i < 64) :
    (overwrite n p).getLsbD i = p[i]?.getD (n.getLsbD i) := by
  induction p using List.reverseRecOn with
  | nil => simp [overwrite_nil]
  | append_singleton p b ih =>
    rw [overwrite_concat, getLsbD_withBit _ _ hi, ih, List.getElem?_append]
    split_ifs with h hlt
    · omega
    · simp [h]
    · rfl
    · rw [List.getElem?_eq_none (by omega), List.getElem?_eq_none (by simp; omega)]

theorem wireBits_overwrite_of_le (n : BitVec 64) {p : List Bool} (h : p.length ≤ Rom.width) :
    wireBits (overwrite n p) = p ++ (wireBits n).drop p.length := by
  apply List.ext_getElem?
  intro i
  rw [List.getElem?_append, List.getElem?_drop]
  by_cases hi : i < Rom.width
  · rw [getElem?_wireBits _ hi, getLsbD_overwrite _ _ hi]
    split_ifs with hlt
    · rw [List.getElem?_eq_getElem hlt, Option.getD_some]
    · rw [List.getElem?_eq_none (by omega), Option.getD_none, Nat.add_sub_cancel' (by omega),
        getElem?_wireBits _ hi]
  · rw [if_neg (by omega), List.getElem?_eq_none (by simp; omega),
      List.getElem?_eq_none (by simp; omega)]

theorem wireBits_overwrite (n : BitVec 64) {p : List Bool} (h : p.length = Rom.width) :
    wireBits (overwrite n p) = p := by
  rw [wireBits_overwrite_of_le n h.le, List.drop_eq_nil_of_le (by simp [h]), List.append_nil]

namespace Answers

/-! ## The tree -/

/-- Branch `b` is open: a 1-branch where the complement is 0, a 0-branch where the bit is. -/
def Open (a : Answers) (p : List Bool) (b : Bool) : Prop :=
  (if b then (a p).2 else (a p).1) = false

/-- Each branch on the path is open. -/
def Path (a : Answers) (p : List Bool) : Prop :=
  ∀ q b, q ++ [b] <+: p → a.Open q b

def Complete (a : Answers) (p : List Bool) : Prop :=
  a.Path p ∧ p.length = Rom.width

/-- Nobody answers any more. -/
def DeadEnd (a : Answers) (p : List Bool) : Prop :=
  a.Path p ∧ p.length < Rom.width ∧ a p = (true, true)

/-- The path cannot go on. -/
def End (a : Answers) (p : List Bool) : Prop :=
  a.Complete p ∨ a.DeadEnd p

variable {a : Answers}

theorem path_nil : a.Path [] := by
  simp [Path]

theorem Path.concat {p : List Bool} {b : Bool} (h : a.Path p) (hb : a.Open p b) :
    a.Path (p ++ [b]) := by
  intro q c hq
  rcases List.prefix_concat_iff.1 hq with hq | hq
  · obtain ⟨rfl, rfl⟩ : q = p ∧ c = b := by simpa using hq
    exact hb
  · exact h q c hq

theorem End.path {p : List Bool} (h : a.End p) : a.Path p := by
  rcases h with h | h
  · exact h.1
  · exact h.1

theorem End.length_le {p : List Bool} (h : a.End p) : p.length ≤ Rom.width := by
  rcases h with h | h
  · exact h.2.le
  · exact h.2.1.le

theorem not_open_of_dead {p : List Bool} (h : a p = (true, true)) (b : Bool) : ¬ a.Open p b := by
  cases b <;> simp [Open, h]

theorem End.eq_of_prefix {x y : List Bool} (hx : a.End x) (hy : a.End y) (h : x <+: y) :
    x = y := by
  by_contra hne
  obtain ⟨t, rfl⟩ := h
  cases t with
  | nil => simp at hne
  | cons b t =>
    have hopen : a.Open x b := hy.path x b ⟨t, by simp⟩
    rcases hx with hx | hx
    · have hlen := hy.length_le
      simp [hx.2] at hlen
    · exact not_open_of_dead hx.2.2 b hopen

theorem End.part {x y : List Bool} (hx : a.End x) (hy : a.End y) (hne : x ≠ y) :
    ∃ p b, p ++ [b] <+: x ∧ p ++ [!b] <+: y := by
  rcases prefix_or_part x y with h | h | h
  · exact absurd (hx.eq_of_prefix hy h) hne
  · exact absurd (hy.eq_of_prefix hx h).symm hne
  · exact h

/-! ## A pass -/

/-- Walks the last `n` positions from cursor `c`, with what the path so far leaves to be done. -/
def walk (a : Answers) (c : Cursor) : Nat → Discrepancy → List Bool → Discrepancy × List Bool
  | 0, deepest, p => (deepest, p)
  | n + 1, deepest, p =>
    match c.choose p.length (a p).1 (a p).2 with
    | none => (.noDevice, p)
    | some b => walk a c n (deepen deepest p.length (a p).1 (a p).2 b) (p ++ [b])

/-- The path of a pass from `c`. -/
def route (a : Answers) (c : Cursor) : List Bool :=
  (a.walk c Rom.width .lastDevice []).2

/-- The cursor that a pass from `c` ends in. -/
def pass (a : Answers) (c : Cursor) : Cursor :=
  ⟨(a.walk c Rom.width .lastDevice []).1, overwrite c.path (a.route c)⟩

/-- What the path leaves to be done: the deepest fork at which it takes the 1-branch. -/
def Deepest (a : Answers) (p : List Bool) : Discrepancy → Prop
  | .fork n => ∃ q, q.length + 1 = n ∧ a.Open q false ∧ q ++ [true] <+: p ∧
      ∀ q', a.Open q' false → q' ++ [true] <+: p → q'.length ≤ q.length
  | .lastDevice => ∀ q, a.Open q false → ¬ q ++ [true] <+: p
  | .start | .noDevice => False

/-- At each fork the path takes the branch of the cursor. -/
def Follows (a : Answers) (c : Cursor) (p : List Bool) : Prop :=
  ∀ q b, q ++ [b] <+: p → a.Open q (!b) → b = c.branch q.length

/-- A pass from `c` walks down `p` and leaves `last` to be done. -/
structure Leads (a : Answers) (c : Cursor) (p : List Bool) (last : Discrepancy) : Prop where
  path : a.Path p
  follows : a.Follows c p
  ending : last = .noDevice ∧ a.DeadEnd p ∨ a.Complete p ∧ a.Deepest p last

theorem Leads.isEnd {c : Cursor} {p : List Bool} {last : Discrepancy} (h : a.Leads c p last) :
    a.End p := by
  rcases h.ending with ⟨-, h⟩ | ⟨h, -⟩
  · exact .inr h
  · exact .inl h

theorem deepest_nil : a.Deepest [] .lastDevice := by
  simp [Deepest]

theorem open_of_choose {c : Cursor} {p : List Bool} {i : Nat} {b : Bool}
    (h : c.choose i (a p).1 (a p).2 = some b) : a.Open p b := by
  unfold Open
  cases hv : (a p).1 <;> cases hk : (a p).2 <;> cases b <;> simp_all [Cursor.choose]

theorem choose_eq_branch {c : Cursor} {p : List Bool} {i : Nat} {b : Bool}
    (h : c.choose i (a p).1 (a p).2 = some b) (ho : a.Open p (!b)) : b = c.branch i := by
  unfold Open at ho
  cases hv : (a p).1 <;> cases hk : (a p).2 <;> cases b <;> simp_all [Cursor.choose]

theorem dead_of_choose {c : Cursor} {p : List Bool} {i : Nat}
    (h : c.choose i (a p).1 (a p).2 = none) : a p = (true, true) := by
  apply Prod.ext <;> cases hv : (a p).1 <;> cases hk : (a p).2 <;> simp_all [Cursor.choose]

theorem Follows.concat {c : Cursor} {p : List Bool} {b : Bool} (h : a.Follows c p)
    (hb : a.Open p (!b) → b = c.branch p.length) : a.Follows c (p ++ [b]) := by
  intro q d hq
  rcases List.prefix_concat_iff.1 hq with hq | hq
  · obtain ⟨rfl, rfl⟩ : q = p ∧ d = b := by simpa using hq
    exact hb
  · exact h q d hq

theorem Deepest.concat {c : Cursor} {p : List Bool} {b : Bool} {d : Discrepancy}
    (h : a.Deepest p d) (hb : c.choose p.length (a p).1 (a p).2 = some b) :
    a.Deepest (p ++ [b]) (deepen d p.length (a p).1 (a p).2 b) := by
  have hstep : ∀ q, q ++ [true] <+: p ++ [b] ↔ q = p ∧ b = true ∨ q ++ [true] <+: p := by
    intro q
    rw [List.prefix_concat_iff]
    simp [eq_comm]
  unfold deepen
  split_ifs with hfork
  · -- A 1 taken at a fork is now the deepest.
    obtain ⟨rfl, hvk⟩ : b = true ∧ (a p).1 = (a p).2 := by simpa using hfork
    have hopen : a.Open p false := by
      have := open_of_choose hb
      simp_all [Open]
    refine ⟨p, rfl, hopen, by simp, fun q' _ hq' => ?_⟩
    have := hq'.length_le
    simpa using this
  · -- The 1 was no fork's, so the forks stay the same.
    have hno : ∀ q, a.Open q false → q ++ [true] <+: p ++ [b] → q ++ [true] <+: p := by
      intro q hq hp
      rcases (hstep q).1 hp with ⟨rfl, rfl⟩ | hp
      · have := open_of_choose hb
        simp_all [Open]
      · exact hp
    cases d with
    | start => exact h
    | noDevice => exact h
    | lastDevice => exact fun q hq hp => h q hq (hno q hq hp)
    | fork n =>
      obtain ⟨q, hn, hq, hp, hmax⟩ := h
      exact ⟨q, hn, hq, (hstep q).2 (.inr hp), fun q' hq' hp' => hmax q' hq' (hno q' hq' hp')⟩

theorem walk_leads {c : Cursor} {n : Nat} {d : Discrepancy} {p : List Bool}
    (hn : p.length + n = Rom.width) (hp : a.Path p) (hf : a.Follows c p) (hd : a.Deepest p d) :
    a.Leads c (a.walk c n d p).2 (a.walk c n d p).1 := by
  induction n generalizing d p with
  | zero => exact ⟨hp, hf, .inr ⟨⟨hp, hn⟩, hd⟩⟩
  | succ n ih =>
    have hlt : p.length < Rom.width := by omega
    rw [walk]
    split
    · rename_i h
      exact ⟨hp, hf, .inl ⟨rfl, hp, hlt, dead_of_choose h⟩⟩
    · rename_i b h
      exact ih (by simp; omega) (hp.concat (open_of_choose h)) (hf.concat (choose_eq_branch h))
        (hd.concat h)

theorem pass_leads (a : Answers) (c : Cursor) : a.Leads c (a.route c) (a.pass c).last :=
  walk_leads rfl path_nil (by simp [Follows]) deepest_nil

theorem pass_of_dead (h : a [] = (true, true)) (c : Cursor) :
    a.pass c = { c with last := .noDevice } := by
  simp [pass, route, Answers.walk, h, Cursor.choose, overwrite_nil]

theorem length_route_le (a : Answers) (c : Cursor) : (a.route c).length ≤ Rom.width :=
  (pass_leads a c).isEnd.length_le

end Answers

end OneWire.Search
