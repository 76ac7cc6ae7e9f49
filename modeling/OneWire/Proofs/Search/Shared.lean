import OneWire.Proofs.Search.Enumerate

/-!
# Searches on a shared line

What one pass finds on a shared line, from any cursor, and that a search finds each device once.
-/

namespace OneWire.Search

variable {σ ε : Type} {scope : Scope} {devices : List Device} {c : Cursor}

/-! ## The choice of a pass -/

/-- The bit that a pass prefers: that of the last path, 0 at the last discrepancy, and then 1. -/
def Cursor.target (c : Cursor) (i : Nat) : Bool :=
  if i + 1 < c.last.position then c.path.getLsbD i else decide (c.last.position < i + 1)

theorem Cursor.branch_eq_target (c : Cursor) (i : Nat) : c.branch i = c.target i := by
  unfold branch target
  split_ifs with h
  · simp [h, Nat.not_lt.2 h.le]
  · simp [h]

/-- Where `r` parts from one of the others, it has the bit that the cursor prefers. -/
def Cursor.Prefers (c : Cursor) (roms : Finset Rom) (r : Rom) : Prop :=
  ∀ d ∈ roms, ∀ i, r.PartsAt d i → r.toWireBits.getLsbD i = c.target i

theorem Cursor.Prefers.unique {roms : Finset Rom} {r x : Rom} (hr : c.Prefers roms r)
    (hx : c.Prefers roms x) (hrmem : r ∈ roms) (hxmem : x ∈ roms) : x = r := by
  by_contra hne
  obtain ⟨i, hi⟩ := Rom.exists_partsAt hne
  exact hi.2 ((hx r hrmem i hi).trans (hr x hxmem i hi.symm).symm)

/-- After `r`, the others that come later are left, from the deepest wire bit on. -/
def Leaves (roms : Finset Rom) (r : Rom) : Discrepancy → Prop
  | .fork p => ∃ i, p = i + 1 ∧
      (∃ d ∈ roms, r.PartsAt d i ∧ r.toWireBits.getLsbD i = true) ∧
      ∀ d ∈ roms, ∀ j, r.PartsAt d j → r.toWireBits.getLsbD j = true → j ≤ i
  | .lastDevice => ∀ d ∈ roms, ¬ r.Before d
  | .start | .noDevice => False

section Choice

variable (hanswered : Line.Answered devices scope) {r : Rom} {last : Discrepancy}
include hanswered

theorem prefers_of_leads (h : (Line.answers devices scope).Leads c r.wireBits last) :
    c.Prefers (Line.asked devices scope) r := by
  intro d hd i hi
  obtain ⟨p, rfl, hpr, hpd⟩ := Rom.partsAt_iff.1 hi
  have hcomplete := (Line.complete_iff hanswered).2 ⟨d, hd, rfl⟩
  rw [← c.branch_eq_target]
  exact h.follows p _ hpr (hcomplete.1 p _ hpd)

theorem leaves_of_deepest (h : (Line.answers devices scope).Deepest r.wireBits last) :
    Leaves (Line.asked devices scope) r last := by
  have hopen : ∀ p, p ++ [true] <+: r.wireBits → ((Line.answers devices scope).Open p false ↔
      ∃ d ∈ Line.asked devices scope, p ++ [false] <+: d.wireBits) := by
    intro p hp
    exact Line.open_iff_asked hanswered (Rom.concat_prefix_wireBits_iff.1 hp).1
  cases last with
  | start => exact h
  | noDevice => exact h
  | lastDevice =>
    intro d hd hbefore
    obtain ⟨p, hpr, hpd⟩ := Rom.before_iff.1 hbefore
    exact h p ((hopen p hpr).2 ⟨d, hd, hpd⟩) hpr
  | fork n =>
    obtain ⟨p, rfl, hp, hpr, hmax⟩ := h
    obtain ⟨d, hd, hpd⟩ := (hopen p hpr).1 hp
    refine ⟨p.length, rfl, ⟨d, hd, Rom.partsAt_one_iff.2 ⟨p, rfl, hpr, hpd⟩⟩, ?_⟩
    intro d hd j hj hbit
    obtain ⟨q, rfl, hqr, hqd⟩ := Rom.partsAt_one_iff.1 ⟨hj, hbit⟩
    exact hmax q ((hopen q hqr).2 ⟨d, hd, hqd⟩) hqr

theorem route_of_asked (hsome : (Line.asked devices scope).Nonempty) (c : Cursor) :
    ∃ r ∈ Line.asked devices scope, (Line.answers devices scope).route c = r.wireBits ∧
      ((Line.answers devices scope).pass c).path = r.toWireBits := by
  rcases ((Line.answers devices scope).pass_leads c).ending with ⟨-, hdead⟩ | ⟨hcomplete, -⟩
  · have hnone := ((Line.deadEnd_iff hanswered).1 hdead).2
    simp [hnone] at hsome
  · obtain ⟨r, hr, hroute⟩ := (Line.complete_iff hanswered).1 hcomplete
    refine ⟨r, hr, hroute.symm, wireBits_inj ?_⟩
    have hpath : ((Line.answers devices scope).pass c).path =
        overwrite c.path ((Line.answers devices scope).route c) := rfl
    rw [hpath, wireBits_overwrite _ hcomplete.2, ← hroute]
    rfl

end Choice

theorem active_passed {line : Line} (hleft : line.resetsLeft ≠ some 0)
    (hstay : ∀ d ∈ line.devices, d.dropAt = none) {r : Rom} :
    ∀ node ∈ (Wire.passed scope.command r.wireBits line).nodes, node.active = true ↔
      scope.asks node.device = true ∧ node.device.rom = r := by
  rw [Line.passed_eq hleft scope r.length_wireBits.le]
  intro node hnode
  obtain ⟨node, hmem, rfl⟩ := List.mem_map.1 hnode
  have hd : node.device ∈ line.devices := List.mem_map_of_mem hmem
  simp only [decide_eq_true_eq, Line.follows_iff (hstay _ hd) r.length_wireBits.le]
  refine and_congr_right fun _ => ⟨fun h => ?_, fun h => by rw [h]⟩
  exact (Rom.wireBits_injective (h.eq_of_length (by simp))).symm

/-! ## One pass -/

section Pass

variable {line : σ → Line}

theorem pass_ensures_shared {bus : ByteMaster σ ε} (hd : bus.Drives line) (scope : Scope)
    (c : Cursor) (s : σ) (hleft : (line s).resetsLeft ≠ some 0) :
    (pass bus scope c).Ensures s
      (fun c' s' => c' = (Line.answers (line s).devices scope).pass c ∧
        (line s').devices = (line s).devices ∧
        (line s').resetsLeft = (line s).resetsLeft.map (· - 1) ∧
        ((line s).nodes ≠ [] → line s' = Wire.passed scope.command
          ((Line.answers (line s).devices scope).route c) (line s)))
      fun _ _ => True := by
  have hfst : (Wire.reset (line s)).1 = !(line s).nodes.isEmpty := Line.reset_fst hleft
  have hroute := (Line.answers (line s).devices scope).length_route_le c
  refine (pass_ensures hd scope c s (fun p hp => Line.answer_searched hleft scope hp) ?_).mono ?_
    fun _ _ _ => trivial
  · intro hnone
    have hnodes : (line s).nodes = [] := by simpa [hfst] using hnone
    simp [Line.answers, Line.devices, hnodes]
  · rintro _ s' ⟨rfl, hs'⟩
    refine ⟨rfl, ?_⟩
    by_cases hnodes : (line s).nodes = []
    · have hsnd : (Wire.reset (line s)).2 = (Line.reset (line s)).2 := rfl
      simp only [hfst, hnodes, List.isEmpty_nil, Bool.not_true, Bool.false_eq_true, if_false, hsnd,
        Line.reset_snd hleft] at hs'
      simp [hs', Line.devices, hnodes]
    · rw [if_pos (by simp [hfst, hnodes])] at hs'
      refine ⟨?_, ?_, fun _ => hs'⟩
      · rw [hs', Line.devices_passed hleft scope hroute]
      · rw [hs', Line.passed_eq hleft scope hroute]
        rfl

variable {bus : Master σ ε} {sound : σ → Prop} {depth : σ → Nat}

theorem pass_shared (hd : bus.toByteMaster.Drives line) (hf : bus.Faultless sound depth)
    (scope : Scope) (c : Cursor) {s : σ} (hs : sound s) (hleft : (line s).resetsLeft ≠ some 0) :
    ∃ s', pass bus.toByteMaster scope c s =
        .ok ((Line.answers (line s).devices scope).pass c) s' ∧
      sound s' ∧ depth s' = depth s ∧ (line s').devices = (line s).devices ∧
      (line s').resetsLeft = (line s).resetsLeft.map (· - 1) ∧
      ((line s).nodes ≠ [] → line s' = Wire.passed scope.command
        ((Line.answers (line s).devices scope).route c) (line s)) := by
  obtain ⟨c', s', hok, hs', hdepth⟩ := (pass_works hf scope c s hs).returns
  obtain ⟨rfl, hline⟩ := (pass_ensures_shared hd scope c s hleft).of_ok hok
  exact ⟨s', hok, hs', hdepth, hline⟩

/--
One pass from any cursor. It finds the one device that the cursor prefers where it parts from each
other device, and that device alone stays active.
-/
theorem pass_exact (hd : bus.toByteMaster.Drives line) (hf : bus.Faultless sound depth)
    (scope : Scope) (c : Cursor) {s : σ} (hs : sound s) (hleft : (line s).resetsLeft ≠ some 0)
    (hstay : ∀ d ∈ (line s).devices, d.dropAt = none) :
    ∃ (c' : Cursor) (s' : σ), pass bus.toByteMaster scope c s = .ok c' s' ∧
      (line s').devices = (line s).devices ∧
      (Line.asked (line s).devices scope = ∅ → c' = { c with last := .noDevice }) ∧
      ((Line.asked (line s).devices scope).Nonempty →
        ∃ r ∈ Line.asked (line s).devices scope, c'.path = r.toWireBits ∧
          (∀ x ∈ Line.asked (line s).devices scope,
            c.Prefers (Line.asked (line s).devices scope) x ↔ x = r) ∧
          Leaves (Line.asked (line s).devices scope) r c'.last ∧
          ∀ node ∈ (line s').nodes, node.active = true ↔
            scope.asks node.device = true ∧ node.device.rom = r) := by
  obtain ⟨s', hok, -, -, hdevices, -, hline⟩ := pass_shared hd hf scope c hs hleft
  have hanswered : Line.Answered (line s).devices scope := Line.answered_of_stay hstay
  refine ⟨_, s', hok, hdevices, fun hnone => ?_, fun hsome => ?_⟩
  · have hroot := (Line.deadEnd_iff hanswered).2 ⟨rfl, hnone⟩
    exact Answers.pass_of_dead hroot.2.2 c
  · obtain ⟨r, hr, hroute, hpath⟩ := route_of_asked hanswered hsome c
    have hl := (Line.answers (line s).devices scope).pass_leads c
    rw [hroute] at hl
    have hprefers := prefers_of_leads hanswered hl
    refine ⟨r, hr, hpath, fun x hx => ⟨fun h => hprefers.unique h hr hx, ?_⟩, ?_, ?_⟩
    · rintro rfl
      exact hprefers
    · rcases hl.ending with ⟨-, hdead⟩ | ⟨-, hdeepest⟩
      · exact absurd r.length_wireBits hdead.2.1.ne
      · exact leaves_of_deepest hanswered hdeepest
    · obtain ⟨d, hd, -⟩ := Line.mem_asked.1 hr
      have hnodes : (line s).nodes ≠ [] := by
        intro h
        simp [Line.devices, h] at hd
      rw [hline hnodes, hroute]
      exact active_passed hleft hstay

/-- Three devices, two of them with an alarm. -/
def threeDevices (resetsLeft : Option Nat) : Bench Line :=
  .idle (.ofDevices [{ rom := .ofWireBits 1, alarm := true }, { rom := .ofWireBits 3 },
    { rom := .ofWireBits 6, alarm := true }] resetsLeft)

theorem quiet_threeDevices (resetsLeft : Option Nat) : (threeDevices resetsLeft).Quiet :=
  Bench.quiet_idle _

theorem pass_exact_stale :
    ∃ (c' : Cursor) (b' : Bench Line), ∃ r ∈ Line.asked (threeDevices none).line.devices .all,
      pass Bench.byteHost.toByteMaster .all ⟨.fork 2, 5⟩ (threeDevices none) = .ok c' b' ∧
      c'.path = r.toWireBits ∧
      ∀ node ∈ b'.line.nodes, node.active = true ↔ node.device.rom = r := by
  obtain ⟨c', b', hok, -, -, hsome⟩ := pass_exact Bench.byteHost_drives Bench.byteHost_faultless
    .all ⟨.fork 2, 5⟩ (quiet_threeDevices none) (by decide) (by decide)
  obtain ⟨r, hr, hpath, -, -, hactive⟩ := hsome (by decide)
  refine ⟨c', b', r, hr, hok, hpath, fun node hnode => ?_⟩
  simpa [Scope.asks] using hactive node hnode

end Pass

/-! ## A whole search -/

/-- Passes that find the identifiers asked for, each once and in order. -/
structure Exhausts (roms : Finset Rom) (cursors : List Cursor) : Prop where
  found : (cursors.filterMap Cursor.found).toFinset = roms
  sorted : (cursors.filterMap Cursor.found).Pairwise Rom.Before
  forks : ∀ c ∈ cursors.dropLast, ∃ p, c.last = .fork p
  ending : ∃ c, cursors.getLast? = some c ∧ c.last = if roms = ∅ then .noDevice else .lastDevice

namespace Exhausts

variable {roms : Finset Rom} {cursors : List Cursor}

theorem length_found (h : Exhausts roms cursors) :
    (cursors.filterMap Cursor.found).length = roms.card := by
  rw [← h.found, List.toFinset_card_of_nodup (Rom.nodup_of_pairwise_before h.sorted)]

theorem length (h : Exhausts roms cursors) : cursors.length = max roms.card 1 := by
  obtain ⟨c, hc, hlast⟩ := h.ending
  obtain ⟨init, rfl⟩ := List.getLast?_eq_some_iff.1 hc
  have hinit : (init.filterMap Cursor.found).length = init.length :=
    length_found_of_forks fun c' hc' => h.forks c' (by simpa using hc')
  have hlen := h.length_found
  rw [List.filterMap_append, List.length_append, hinit] at hlen
  split_ifs at hlast with hroms
  · subst hroms
    simp [Cursor.found, hlast] at hlen ⊢
    exact hlen
  · simp [Cursor.found, hlast] at hlen ⊢
    omega

end Exhausts

theorem exhausts_of_sweeps (hanswered : Line.Answered devices scope) {cursors : List Cursor}
    (h : (Line.answers devices scope).Sweeps (fun _ => True) cursors) :
    Exhausts (Line.asked devices scope) cursors where
  found := by
    ext r
    simp only [List.mem_toFinset, h.mem_iff, Line.complete_iff hanswered, Line.deadEnd_iff hanswered]
    constructor
    · rintro ⟨⟨r', hr', heq⟩, -⟩
      rwa [← Rom.wireBits_injective heq]
    · intro hr
      refine ⟨⟨r, hr, rfl⟩, trivial, ?_⟩
      rintro d ⟨-, hnone⟩
      simp [hnone] at hr
  sorted := h.sorted
  forks := h.forks
  ending := by
    obtain ⟨c, hc, hend⟩ := h.ending
    refine ⟨c, hc, ?_⟩
    simp only [Line.deadEnd_iff hanswered] at hend
    rcases hend with ⟨hlast, hdead⟩ | ⟨hlast, _, ⟨-, hnone⟩, -⟩
    · rw [if_neg fun hnone => hdead [] ⟨rfl, hnone⟩ trivial, hlast]
    · rw [if_pos hnone, hlast]

section Enumerate

variable {line : σ → Line} {bus : Master σ ε} {sound : σ → Prop} {depth : σ → Nat}

theorem trail_shared (hd : bus.toByteMaster.Drives line) (hf : bus.Faultless sound depth)
    (scope : Scope) {s : σ} (hs : sound s) {cursors : List Cursor}
    (h : (Line.answers (line s).devices scope).Trail c cursors)
    (hleft : ∀ n, (line s).resetsLeft = some n → cursors.length ≤ n) :
    ∃ s', Trail bus.toByteMaster scope c s cursors s' ∧ sound s' ∧ depth s' = depth s ∧
      (line s').devices = (line s).devices ∧
      ((line s).resetsLeft = none → (line s').resetsLeft = none) := by
  obtain ⟨s', htrail, hs', hdepth, hdevices, -, hnone⟩ := trail_of_answers
    (fun k t => sound t ∧ depth t = depth s ∧ (line t).devices = (line s).devices ∧
      (∀ n, (line t).resetsLeft = some n → k ≤ n) ∧
      ((line s).resetsLeft = none → (line t).resetsLeft = none))
    (fun k c t ⟨ht, hdepth, hdevices, hk, hnone⟩ => by
      have hzero : (line t).resetsLeft ≠ some 0 := fun h => by simpa using hk 0 h
      obtain ⟨t', hok, ht', hdepth', hdevices', hleft', -⟩ := pass_shared hd hf scope c ht hzero
      rw [hdevices] at hok hdevices'
      refine ⟨t', hok, ht', hdepth'.trans hdepth, hdevices', ?_, fun h => by simp [hleft', hnone h]⟩
      rw [hleft']
      cases hleft : (line t).resetsLeft with
      | none => simp
      | some m =>
        have := hk m hleft
        rintro n ⟨⟩
        simp
        omega)
    h ⟨hs, rfl, rfl, hleft, id⟩
  exact ⟨s', htrail, hs', hdepth, hdevices, hnone⟩

theorem exists_trail_shared (hd : bus.toByteMaster.Drives line) (hf : bus.Faultless sound depth)
    (scope : Scope) {s : σ} (hs : sound s) (hanswered : Line.Answered (line s).devices scope)
    (hleft : ∀ n, (line s).resetsLeft = some n →
      max (Line.asked (line s).devices scope).card 1 ≤ n) :
    ∃ (cursors : List Cursor) (s₁ s₂ s' : σ),
      bus.lock s = .ok () s₁ ∧ sound s₁ ∧ 0 < depth s₁ ∧
      Trail bus.toByteMaster scope {} s₁ cursors s₂ ∧ bus.unlock s₂ = .ok () s' ∧
      Exhausts (Line.asked (line s).devices scope) cursors := by
  obtain ⟨_, s₁, hlock, hs₁, hdepth₁⟩ := (hf.lock s hs).returns
  obtain ⟨-, hline₁⟩ := (hd.lock s).of_ok hlock
  simp only at hline₁
  rw [← hline₁] at hanswered hleft ⊢
  obtain ⟨cursors, htrail, hsweeps⟩ := (Line.answers (line s₁).devices scope).exists_trail
  have hexhausts := exhausts_of_sweeps hanswered hsweeps
  rw [← hexhausts.length] at hleft
  obtain ⟨s₂, htrail₂, hs₂, hdepth₂, -⟩ := trail_shared hd hf scope hs₁ htrail hleft
  obtain ⟨_, s', hunlock, -⟩ := (hf.unlock s₂ hs₂ (by omega)).returns
  exact ⟨cursors, s₁, s₂, s', hlock, hs₁, by omega, htrail₂, hunlock, hexhausts⟩

/-- A search finds each device asked for once and in order, with as many passes. -/
theorem enumerate_exact (hd : bus.toByteMaster.Drives line) (hf : bus.Faultless sound depth)
    (scope : Scope) (family : Byte) {s : σ} (hs : sound s)
    (hstay : ∀ d ∈ (line s).devices, d.dropAt = none)
    (hleft : ∀ n, (line s).resetsLeft = some n →
      max (Line.asked (line s).devices scope).card 1 ≤ n) :
    ∃ (cursors : List Cursor) (found : List Rom) (s₁ s₂ s' : σ),
      bus.lock s = .ok () s₁ ∧ Trail bus.toByteMaster scope {} s₁ cursors s₂ ∧
      bus.unlock s₂ = .ok () s' ∧ found = cursors.filterMap Cursor.found ∧
      found.toFinset = Line.asked (line s).devices scope ∧ found.Pairwise Rom.Before ∧
      cursors.length = max (Line.asked (line s).devices scope).card 1 ∧
      (∀ c ∈ cursors.dropLast, ∃ p, c.last = .fork p) ∧
      (∃ c, cursors.getLast? = some c ∧
        c.last = if Line.asked (line s).devices scope = ∅ then .noDevice else .lastDevice) ∧
      (∀ limit, cursors.length ≤ limit → enumerate bus limit scope family (s, []) =
        .ok (some (Line.asked (line s).devices scope).card) (s', found)) ∧
      ∀ limit, limit < cursors.length →
        ∃ p, enumerate bus limit scope family (s, []) = .ok none p := by
  obtain ⟨cursors, s₁, s₂, s', hlock, hs₁, hdepth₁, htrail, hunlock, hexhausts⟩ :=
    exists_trail_shared hd hf scope hs (Line.answered_of_stay hstay) hleft
  refine ⟨cursors, _, s₁, s₂, s', hlock, htrail, hunlock, rfl, hexhausts.found, hexhausts.sorted,
    hexhausts.length, hexhausts.forks, hexhausts.ending, fun limit hlimit => ?_,
    fun limit hlimit => htrail.enumerate_of_lt hf hlock hs₁ hdepth₁ family hlimit⟩
  rw [← hexhausts.length_found]
  exact htrail.enumerate_eq hlock hunlock family hlimit

/-- Two devices have an alarm, and the line answers just as often. -/
theorem enumerate_exact_alarmed :
    ∃ (found : List Rom) (b' : Bench Line),
      enumerate Bench.bitHost.toMaster 2 .alarmed 7 (threeDevices (some 2), []) =
        .ok (some 2) (b', found) ∧
      found.toFinset = Line.asked (threeDevices (some 2)).line.devices .alarmed := by
  obtain ⟨cursors, found, _, _, b', -, -, -, -, hfound, -, hlength, -, -, hsearch, -⟩ :=
    enumerate_exact Bench.bitHost_drives Bench.bitHost_faultless .alarmed 7
      (quiet_threeDevices (some 2)) (by decide) (by rintro n ⟨⟩; decide)
  exact ⟨found, b', hsearch 2 (by rw [hlength]; decide), hfound⟩

end Enumerate

end OneWire.Search
