import Mathlib.Data.Fintype.Card
import OneWire.Proofs.Rom.WireBits

/-!
# The order of a search

A search takes the 1-branch first. So of two identifiers it finds first the one that has a 1 at the
first wire bit where they differ.
-/

namespace OneWire

/-! ## Paths -/

namespace Search

theorem concat_prefix_inj {p x : List Bool} {b c : Bool} (hb : p ++ [b] <+: x)
    (hc : p ++ [c] <+: x) : b = c := by
  have h := (List.prefix_of_prefix_length_le hb hc (by simp)).eq_of_length (by simp)
  simpa using h

theorem concat_prefix_of_lt {p q x : List Bool} {b : Bool} (hp : p ++ [b] <+: x) (hq : q <+: x)
    (h : p.length < q.length) : p ++ [b] <+: q :=
  List.prefix_of_prefix_length_le hp hq (by simp; omega)

theorem prefix_or_part (x y : List Bool) :
    x <+: y ∨ y <+: x ∨ ∃ p b, p ++ [b] <+: x ∧ p ++ [!b] <+: y := by
  induction x generalizing y with
  | nil => simp
  | cons b x ih =>
    cases y with
    | nil => simp
    | cons c y =>
      by_cases h : b = c
      · subst h
        rcases ih y with h | h | ⟨p, d, hx, hy⟩
        · exact .inl (by simpa using h)
        · exact .inr (.inl (by simpa using h))
        · exact .inr (.inr ⟨b :: p, d, by simpa using hx, by simpa using hy⟩)
      · refine .inr (.inr ⟨[], b, by simp, ?_⟩)
        cases b <;> cases c <;> simp_all

/-- The path takes the branches that `f` says. -/
def Along (f : Nat → Bool) (p : List Bool) : Prop :=
  ∀ i < p.length, p[i]? = some (f i)

theorem along_nil (f : Nat → Bool) : Along f [] := by
  simp [Along]

theorem along_concat {f : Nat → Bool} {p : List Bool} {b : Bool} :
    Along f (p ++ [b]) ↔ Along f p ∧ f p.length = b := by
  simp only [Along, List.length_append, List.length_singleton, Nat.forall_lt_succ_right]
  refine and_congr (forall₂_congr fun i hi => ?_) (by simp [eq_comm])
  rw [List.getElem?_append_left hi]

/-- Where the paths part, `x` takes the 1-branch and `y` the 0-branch. -/
def Precedes (x y : List Bool) : Prop :=
  ∃ p, p ++ [true] <+: x ∧ p ++ [false] <+: y

namespace Precedes

variable {x y z : List Bool}

theorem asymm (h : Precedes x y) : ¬ Precedes y x := by
  obtain ⟨p, hpx, hpy⟩ := h
  rintro ⟨q, hqy, hqx⟩
  rcases Nat.lt_trichotomy p.length q.length with h | h | h
  · have hq := concat_prefix_of_lt hpx ((List.prefix_append q _).trans hqx) h
    have := concat_prefix_inj (hq.trans ((List.prefix_append q _).trans hqy)) hpy
    contradiction
  · have hpq := (List.prefix_of_prefix_length_le hpx hqx (by simp [h])).eq_of_length (by simp [h])
    simp at hpq
  · have hp := concat_prefix_of_lt hqx ((List.prefix_append p _).trans hpx) h
    have := concat_prefix_inj (hp.trans ((List.prefix_append p _).trans hpy)) hqy
    contradiction

theorem trans (hxy : Precedes x y) (hyz : Precedes y z) : Precedes x z := by
  obtain ⟨p, hpx, hpy⟩ := hxy
  obtain ⟨q, hqy, hqz⟩ := hyz
  rcases Nat.lt_trichotomy p.length q.length with h | h | h
  · have hq := concat_prefix_of_lt hpy ((List.prefix_append q _).trans hqy) h
    exact ⟨p, hpx, hq.trans ((List.prefix_append q _).trans hqz)⟩
  · have hpq := (List.prefix_of_prefix_length_le hpy hqy (by simp [h])).eq_of_length (by simp [h])
    simp at hpq
  · have hp := concat_prefix_of_lt hqy ((List.prefix_append p _).trans hpy) h
    exact ⟨q, hp.trans ((List.prefix_append p _).trans hpx), hqz⟩

end Precedes

end Search

/-! ## Identifiers -/

namespace Rom

/-- Wire bit `i` is the first at which the identifiers differ. -/
def PartsAt (a b : Rom) (i : Nat) : Prop :=
  (∀ j < i, a.toWireBits.getLsbD j = b.toWireBits.getLsbD j) ∧
    a.toWireBits.getLsbD i ≠ b.toWireBits.getLsbD i

/-- At the first wire bit at which the identifiers differ, `a` has a 1. -/
def Before (a b : Rom) : Prop :=
  ∃ i, a.PartsAt b i ∧ a.toWireBits.getLsbD i = true

theorem prefix_wireBits_iff {p : List Bool} {r : Rom} :
    p <+: r.wireBits ↔ p.length ≤ width ∧ Search.Along r.toWireBits.getLsbD p := by
  rw [List.prefix_iff_getElem?]
  constructor
  · intro h
    have hlen : p.length ≤ width := by
      by_contra hlt
      have := h width (by omega)
      simp [wireBits, OneWire.wireBits] at this
    refine ⟨hlen, fun i hi => ?_⟩
    rw [← getElem?_wireBits _ (Nat.lt_of_lt_of_le hi hlen), List.getElem?_eq_getElem hi]
    exact (h i hi).symm
  · rintro ⟨hlen, h⟩ i hi
    rw [wireBits, getElem?_wireBits _ (Nat.lt_of_lt_of_le hi hlen), ← h i hi,
      List.getElem?_eq_getElem hi]

theorem concat_prefix_wireBits_iff {p : List Bool} {b : Bool} {r : Rom} :
    p ++ [b] <+: r.wireBits ↔
      p.length < width ∧ Search.Along r.toWireBits.getLsbD p ∧
        r.toWireBits.getLsbD p.length = b := by
  rw [prefix_wireBits_iff, Search.along_concat, List.length_append, List.length_singleton,
    Nat.succ_le_iff]

theorem partsAt_iff {a b : Rom} {i : Nat} :
    a.PartsAt b i ↔ ∃ p, p.length = i ∧ p ++ [a.toWireBits.getLsbD i] <+: a.wireBits ∧
      p ++ [!a.toWireBits.getLsbD i] <+: b.wireBits := by
  simp only [concat_prefix_wireBits_iff]
  constructor
  · rintro ⟨heq, hne⟩
    have hi : i < width := by
      by_contra h
      simp [BitVec.getLsbD_of_ge, Nat.not_lt.1 h] at hne
    have hb : b.toWireBits.getLsbD i = !a.toWireBits.getLsbD i := by
      simpa using Bool.eq_not.2 (Ne.symm hne)
    refine ⟨(List.range i).map a.toWireBits.getLsbD, by simp, ?_, ?_⟩
    · exact ⟨by simpa, fun j hj => by simp_all, by simp⟩
    · exact ⟨by simpa, fun j hj => by simp_all, by simpa⟩
  · rintro ⟨p, rfl, ⟨-, ha, -⟩, -, hb, hbit⟩
    refine ⟨fun j hj => ?_, by simp [hbit]⟩
    have := (ha j hj).symm.trans (hb j hj)
    simpa using this

theorem PartsAt.symm {a b : Rom} {i : Nat} (h : a.PartsAt b i) : b.PartsAt a i :=
  ⟨fun j hj => (h.1 j hj).symm, Ne.symm h.2⟩

theorem partsAt_one_iff {a b : Rom} {i : Nat} :
    a.PartsAt b i ∧ a.toWireBits.getLsbD i = true ↔
      ∃ p, p.length = i ∧ p ++ [true] <+: a.wireBits ∧ p ++ [false] <+: b.wireBits := by
  rw [partsAt_iff]
  constructor
  · rintro ⟨⟨p, rfl, ha, hb⟩, hi⟩
    rw [hi] at ha hb
    exact ⟨p, rfl, ha, hb⟩
  · rintro ⟨p, rfl, ha, hb⟩
    have hi := (concat_prefix_wireBits_iff.1 ha).2.2
    exact ⟨⟨p, rfl, by rwa [hi], by rwa [hi]⟩, hi⟩

theorem before_iff {a b : Rom} : a.Before b ↔ Search.Precedes a.wireBits b.wireBits := by
  simp only [Before, partsAt_one_iff, Search.Precedes]
  constructor
  · rintro ⟨_, p, -, h⟩
    exact ⟨p, h⟩
  · rintro ⟨p, h⟩
    exact ⟨p.length, p, rfl, h⟩

theorem exists_partsAt {a b : Rom} (h : a ≠ b) : ∃ i, a.PartsAt b i := by
  rcases Search.prefix_or_part a.wireBits b.wireBits with hp | hp | ⟨p, c, ha, hb⟩
  · exact absurd (wireBits_injective (hp.eq_of_length (by simp))) h
  · exact absurd (wireBits_injective (hp.eq_of_length (by simp))).symm h
  · have hc := (concat_prefix_wireBits_iff.1 ha).2.2
    exact ⟨p.length, partsAt_iff.2 ⟨p, rfl, by rwa [hc], by rwa [hc]⟩⟩

instance : IsTrans Rom Before where
  trans _ _ _ hab hbc := before_iff.2 ((before_iff.1 hab).trans (before_iff.1 hbc))

instance : Std.Irrefl Before where
  irrefl _ h := (before_iff.1 h).asymm (before_iff.1 h)

theorem nodup_of_pairwise_before {roms : List Rom} (h : roms.Pairwise Before) : roms.Nodup := by
  refine h.imp ?_
  rintro a _ hbefore rfl
  exact Std.Irrefl.irrefl a hbefore

theorem wellFounded_after : WellFounded fun a b : Rom => b.Before a :=
  have : IsTrans Rom fun a b => b.Before a := ⟨fun _ _ _ hab hbc => IsTrans.trans _ _ _ hbc hab⟩
  have : Std.Irrefl fun a b : Rom => b.Before a := ⟨fun a => Std.Irrefl.irrefl a⟩
  Finite.wellFounded_of_trans_of_irrefl _

end Rom

end OneWire
