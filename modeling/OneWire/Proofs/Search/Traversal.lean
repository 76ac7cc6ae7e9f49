import OneWire.Proofs.Search.Answers

/-!
# Passes sweep the tree

Passes made one after another reach the ends of the tree in order, the 1-branch first, until one
leaves nothing to be done or reaches a dead end.
-/

namespace OneWire.Search

namespace Answers

variable {a : Answers} {c : Cursor} {p r : List Bool} {last : Discrepancy} {P : List Bool → Prop}

/-! ## Where a pass leads -/

/-- Of the ends of the tree, `P` holds of `p` and of those after it. -/
def Heads (a : Answers) (p : List Bool) (P : List Bool → Prop) : Prop :=
  ∀ x, a.End x → (P x ↔ x = p ∨ Precedes p x)

theorem Leads.first (h : a.Leads {} p last) : a.Heads p fun _ => True := by
  intro x hx
  simp only [true_iff]
  by_contra! hno
  obtain ⟨q, b, hqp, hqx⟩ := h.isEnd.part hx (Ne.symm hno.1)
  have hopen := hx.path q _ hqx
  have hb : b = true := by
    simpa [Cursor.branch, Discrepancy.position] using h.follows q b hqp hopen
  subst hb
  exact hno.2 ⟨q, hqp, hqx⟩

theorem getLsbD_of_concat_prefix {n : BitVec 64} {b : Bool} (h : p ++ [b] <+: wireBits n) :
    n.getLsbD p.length = b := by
  have hlen := h.length_le
  simp only [List.length_append, List.length_singleton, length_wireBits] at hlen
  have hget := (List.prefix_iff_getElem?.1 h) p.length (by simp)
  rw [getElem?_wireBits n hlen] at hget
  simpa using hget

/--
The pass after one that reached `r` takes the 0-branch at the deepest fork where `r` took the
1-branch.
-/
theorem Leads.turn {n : Nat} (h : a.Leads c p last) (hc : c.last = .fork n)
    (hr : wireBits c.path = r) (hcomplete : a.Complete r) (hd : a.Deepest r (.fork n)) :
    ∃ q, q.length + 1 = n ∧ q ++ [true] <+: r ∧ q ++ [false] <+: p := by
  obtain ⟨q, hn, hopen, hqr, -⟩ := hd
  -- The paths differ, since `p` could not take the 1-branch at `q`.
  have hturn : ¬ q ++ [true] <+: p := by
    intro hqp
    have := h.follows q true hqp hopen
    simp [Cursor.branch, Discrepancy.position, hc, ← hn] at this
  have hne : r ≠ p := fun hrp => hturn (hrp ▸ hqr)
  obtain ⟨u, b, hur, hup⟩ := (show a.End r from .inl hcomplete).part h.isEnd hne
  have hb := h.follows u (!b) hup (by simpa using hcomplete.1 u b hur)
  simp only [Cursor.branch, Discrepancy.position, hc] at hb
  rcases Nat.lt_trichotomy (u.length + 1) n with hlt | heq | hgt
  · -- Above the turn `p` takes the branches of `r`.
    have hbit : c.path.getLsbD u.length = b := getLsbD_of_concat_prefix (hr ▸ hur)
    simp [hlt, Nat.not_lt.2 hlt.le, hbit] at hb
  · obtain rfl : b = true := by simpa [heq] using hb
    exact ⟨u, heq, hur, hup⟩
  · -- Below it `p` would have come through the 1-branch.
    have hq := concat_prefix_of_lt hqr ((List.prefix_append u _).trans hur) (by omega)
    exact absurd (hq.trans ((List.prefix_append u _).trans hup)) hturn

/-- The pass after one that reached `r` leads to the next end. -/
theorem Leads.next {n : Nat} (h : a.Leads c p last) (hc : c.last = .fork n)
    (hr : wireBits c.path = r) (hcomplete : a.Complete r) (hd : a.Deepest r (.fork n)) :
    a.Heads p (Precedes r) := by
  obtain ⟨q, hn, hqr, hqp⟩ := h.turn hc hr hcomplete hd
  have hrp : Precedes r p := ⟨q, hqr, hqp⟩
  intro x hx
  constructor
  · intro hrx
    by_contra! hno
    obtain ⟨u, b, hup, hux⟩ := h.isEnd.part hx (Ne.symm hno.1)
    have hb := h.follows u b hup (hx.path u _ hux)
    simp only [Cursor.branch, Discrepancy.position, hc] at hb
    -- `x` is before `p`, so they part no deeper than the turn.
    obtain rfl : b = false := by
      cases b
      · rfl
      · exact absurd ⟨u, hup, hux⟩ hno.2
    rcases Nat.lt_trichotomy (u.length + 1) n with hlt | heq | hgt
    · -- Above the turn `x` is before `r` too.
      have hu := concat_prefix_of_lt hup ((List.prefix_append q _).trans hqp) (by omega)
      have hur := hu.trans ((List.prefix_append q _).trans hqr)
      exact hrx.asymm ⟨u, hux, hur⟩
    · -- At the turn `x` parts from `r` deeper, where no fork is left.
      have hqu := (List.prefix_of_prefix_length_le hqp hup (by simp; omega)).eq_of_length
        (by simp; omega)
      obtain rfl : q = u := by simpa using hqu
      obtain ⟨v, hvr, hvx⟩ := hrx
      obtain ⟨q', hn', -, -, hmax⟩ := hd
      have hv := hmax v (hx.path v _ hvx) hvr
      rcases Nat.lt_or_ge v.length q.length with hlt | hge
      · have hvq := concat_prefix_of_lt hvx ((List.prefix_append q _).trans hux) hlt
        have := concat_prefix_inj (hvq.trans ((List.prefix_append q _).trans hqr)) hvr
        contradiction
      · have hvq := (List.prefix_of_prefix_length_le hvx hux (by simp; omega)).eq_of_length
          (by simp; omega)
        simp at hvq
    · simp [hgt] at hb
  · rintro (rfl | hpx)
    · exact hrp
    · exact hrp.trans hpx

/-! ## Passes one after another -/

/-- The cursors that passes from `c` end in, up to one that leaves nothing to be done. -/
inductive Trail (a : Answers) : Cursor → List Cursor → Prop
  | last {c : Cursor} (h : (a.pass c).isFinished = true) : Trail a c [a.pass c]
  | more {c : Cursor} {cursors : List Cursor} (h : (a.pass c).isFinished = false)
      (rest : Trail a (a.pass c) cursors) : Trail a c (a.pass c :: cursors)

/-- Passes reach the ends in `P` in order, up to a dead end. -/
structure Sweeps (a : Answers) (P : List Bool → Prop) (cursors : List Cursor) : Prop where
  sorted : (cursors.filterMap Cursor.found).Pairwise Rom.Before
  mem_iff : ∀ rom, rom ∈ cursors.filterMap Cursor.found ↔ a.Complete rom.wireBits ∧
    P rom.wireBits ∧ ∀ d, a.DeadEnd d → P d → Precedes rom.wireBits d
  forks : ∀ c ∈ cursors.dropLast, ∃ n, c.last = .fork n
  ending : ∃ c, cursors.getLast? = some c ∧
    (c.last = .lastDevice ∧ (∀ d, a.DeadEnd d → ¬ P d) ∨
      c.last = .noDevice ∧ ∃ d, a.DeadEnd d ∧ P d)

theorem Heads.self (hh : a.Heads p P) (hp : a.End p) : P p :=
  (hh p hp).2 (.inl rfl)

theorem Heads.dead_iff (hh : a.Heads p P) (hp : a.Complete p) {d : List Bool} (hd : a.DeadEnd d) :
    P d ↔ Precedes p d := by
  rw [hh d (.inr hd), or_iff_right]
  rintro rfl
  exact hd.2.1.ne hp.2

theorem found_of_complete (hpath : (a.pass c).path = overwrite c.path p)
    (hd : a.Deepest p (a.pass c).last) :
    (a.pass c).found = some (.ofWireBits (overwrite c.path p)) := by
  rw [← hpath]
  unfold Cursor.found
  cases h : (a.pass c).last <;> simp_all [Deepest]

theorem sweeps_dead (hlast : (a.pass c).last = .noDevice) (hp : a.DeadEnd p)
    (hh : a.Heads p P) : a.Sweeps P [a.pass c] := by
  have hfound : [a.pass c].filterMap Cursor.found = [] := by
    simp [Cursor.found, hlast]
  refine ⟨by simp [hfound], fun rom => ?_, by simp, a.pass c, rfl,
    .inr ⟨hlast, p, hp, hh.self (.inr hp)⟩⟩
  simp only [hfound, List.not_mem_nil, false_iff]
  rintro ⟨hrom, hP, hdead⟩
  have hbefore := hdead p hp (hh.self (.inr hp))
  rcases (hh _ (.inl hrom)).1 hP with h | h
  · exact hp.2.1.ne (h ▸ hrom.2)
  · exact h.asymm hbefore

theorem sweeps_last {rom : Rom} (hlast : (a.pass c).last = .lastDevice)
    (hrom : rom.wireBits = p) (hfound : (a.pass c).found = some rom) (hp : a.Complete p)
    (hd : a.Deepest p .lastDevice) (hh : a.Heads p P) : a.Sweeps P [a.pass c] := by
  have hlast' : ∀ x, a.End x → ¬ Precedes p x := by
    rintro x hx ⟨q, hqp, hqx⟩
    exact hd q (hx.path q _ hqx) hqp
  have hdead : ∀ d, a.DeadEnd d → ¬ P d := fun d hd hP =>
    hlast' d (.inr hd) ((hh.dead_iff hp hd).1 hP)
  refine ⟨by simp [hfound], fun r => ?_, by simp, a.pass c, rfl, .inl ⟨hlast, hdead⟩⟩
  simp only [List.filterMap_cons, hfound, List.filterMap_nil, List.mem_singleton]
  constructor
  · rintro rfl
    exact ⟨hrom ▸ hp, hrom ▸ hh.self (.inl hp), fun d hd hP => absurd hP (hdead d hd)⟩
  · rintro ⟨hr, hP, -⟩
    rcases (hh _ (.inl hr)).1 hP with h | h
    · exact Rom.wireBits_injective (h.trans hrom.symm)
    · exact absurd h (hlast' _ (.inl hr))

theorem sweeps_more {rom : Rom} {cursors : List Cursor} {n : Nat}
    (hlast : (a.pass c).last = .fork n) (hrom : rom.wireBits = p)
    (hfound : (a.pass c).found = some rom) (hp : a.Complete p) (hh : a.Heads p P)
    (hrest : a.Sweeps (Precedes p) cursors) : a.Sweeps P (a.pass c :: cursors) := by
  have hne : cursors ≠ [] := by
    rintro rfl
    obtain ⟨c', h, -⟩ := hrest.ending
    simp at h
  refine ⟨?_, fun r => ?_, ?_, ?_⟩
  · simp only [List.filterMap_cons, hfound, List.pairwise_cons]
    refine ⟨fun r hr => ?_, hrest.sorted⟩
    rw [Rom.before_iff, hrom]
    exact ((hrest.mem_iff r).1 hr).2.1
  · simp only [List.filterMap_cons, hfound, List.mem_cons, hrest.mem_iff]
    constructor
    · rintro (rfl | ⟨hr, hpr, hdead⟩)
      · refine ⟨hrom ▸ hp, hrom ▸ hh.self (.inl hp), fun d hd hP => ?_⟩
        exact hrom ▸ (hh.dead_iff hp hd).1 hP
      · exact ⟨hr, (hh _ (.inl hr)).2 (.inr hpr), fun d hd hP =>
          hdead d hd ((hh.dead_iff hp hd).1 hP)⟩
    · rintro ⟨hr, hP, hdead⟩
      rcases (hh _ (.inl hr)).1 hP with h | h
      · exact .inl (Rom.wireBits_injective (h.trans hrom.symm))
      · exact .inr ⟨hr, h, fun d hd hpd => hdead d hd ((hh.dead_iff hp hd).2 hpd)⟩
  · rw [List.dropLast_cons_of_ne_nil hne]
    intro c' hc'
    rcases List.mem_cons.1 hc' with rfl | hc'
    · exact ⟨n, hlast⟩
    · exact hrest.forks c' hc'
  · obtain ⟨c', hget, hend⟩ := hrest.ending
    refine ⟨c', by rw [List.getLast?_cons, hget]; rfl, ?_⟩
    rcases hend with ⟨h, hdead⟩ | ⟨h, d, hd, hpd⟩
    · exact .inl ⟨h, fun d hd hP => hdead d hd ((hh.dead_iff hp hd).1 hP)⟩
    · exact .inr ⟨h, d, hd, (hh.dead_iff hp hd).2 hpd⟩

theorem exists_sweep (hpath : (a.pass c).path = overwrite c.path p)
    (hl : a.Leads c p (a.pass c).last) (hh : a.Heads p P)
    (hrest : ∀ (rom : Rom) (n : Nat), rom.wireBits = p → (a.pass c).path = rom.toWireBits →
      (a.pass c).last = .fork n → a.Complete p → a.Deepest p (.fork n) →
      ∃ cursors, a.Trail (a.pass c) cursors ∧ a.Sweeps (Precedes p) cursors) :
    ∃ cursors, a.Trail c cursors ∧ a.Sweeps P cursors := by
  rcases hl.ending with ⟨hlast, hdead⟩ | ⟨hp, hd⟩
  · exact ⟨_, .last (by simp [Cursor.isFinished, hlast]), sweeps_dead hlast hdead hh⟩
  have hfound := found_of_complete hpath hd
  have hbits : (Rom.ofWireBits (overwrite c.path p)).wireBits = p := by
    rw [Rom.wireBits_ofWireBits, wireBits_overwrite _ hp.2]
  cases hlast : (a.pass c).last with
  | start => simp [hlast, Deepest] at hd
  | noDevice => simp [hlast, Deepest] at hd
  | lastDevice =>
    rw [hlast] at hd
    exact ⟨_, .last (by simp [Cursor.isFinished, hlast]),
      sweeps_last hlast hbits hfound hp hd hh⟩
  | fork n =>
    rw [hlast] at hd
    obtain ⟨cursors, htrail, hsweeps⟩ :=
      hrest _ n hbits (by rw [hpath, Rom.toWireBits_ofWireBits]) hlast hp hd
    exact ⟨_, .more (by simp [Cursor.isFinished, hlast]) htrail,
      sweeps_more hlast hbits hfound hp hh hsweeps⟩

theorem exists_sweep_after {rom : Rom} {n : Nat} (hpath : c.path = rom.toWireBits)
    (hc : c.last = .fork n) (hcomplete : a.Complete rom.wireBits)
    (hd : a.Deepest rom.wireBits (.fork n)) :
    ∃ cursors, a.Trail c cursors ∧ a.Sweeps (Precedes rom.wireBits) cursors := by
  -- Each identifier comes after the one before, which cannot go on for ever.
  induction rom using Rom.wellFounded_after.induction generalizing c n with
  | _ rom ih =>
    have hl := pass_leads a c
    have hh := hl.next hc (by rw [hpath]; rfl) hcomplete hd
    refine exists_sweep rfl hl hh fun rom' n' hbits hrom' hlast hp hd' => ?_
    rw [← hbits] at hh hp hd' ⊢
    exact ih rom' (Rom.before_iff.2 (hh.self (.inl hp))) hrom' hlast hp hd'

/-- Passes from the start sweep the whole tree. -/
theorem exists_trail (a : Answers) :
    ∃ cursors, a.Trail {} cursors ∧ a.Sweeps (fun _ => True) cursors := by
  have hl := pass_leads a {}
  refine exists_sweep rfl hl hl.first fun rom n hbits hrom hlast hp hd => ?_
  rw [← hbits] at hp hd ⊢
  exact exists_sweep_after hrom hlast hp hd

end Answers

end OneWire.Search
