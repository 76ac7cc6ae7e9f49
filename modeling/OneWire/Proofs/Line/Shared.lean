import OneWire.Line.Shared
import OneWire.Proofs.Line.Search

/-!
# Searches among devices on a shared line

On a shared line a device takes part in a search as long as the bits written are its own. So the
answers are those of the devices whose identifier starts with the path.
-/

namespace OneWire

open Search

/-! ## Devices in a search -/

/-- A search in this scope asks the device. -/
def Search.Scope.asks : Scope → Device → Bool
  | .all, _ => true
  | .alarmed, d => d.alarm

/-- The device is still active in a search after path `p`. -/
def Device.Follows (scope : Scope) (p : List Bool) (d : Device) : Prop :=
  scope.asks d = true ∧ (∀ i < p.length, d.staysAt i = true) ∧ Along d.rom.bit p

instance (scope : Scope) (p : List Bool) (d : Device) : Decidable (d.Follows scope p) :=
  inferInstanceAs (Decidable (_ ∧ _ ∧ ∀ i < p.length, p[i]? = some (d.rom.bit i)))

theorem Device.follows_nil {scope : Scope} {d : Device} :
    d.Follows scope [] ↔ scope.asks d = true := by
  simp [Follows, along_nil]

theorem Device.follows_concat {scope : Scope} {p : List Bool} {b : Bool} {d : Device} :
    d.Follows scope (p ++ [b]) ↔
      d.Follows scope p ∧ d.staysAt p.length = true ∧ d.rom.bit p.length = b := by
  simp only [Follows, along_concat, List.length_append, List.length_singleton,
    Nat.forall_lt_succ_right]
  tauto

namespace Line

def devices (line : Line) : List Device :=
  line.nodes.map (·.device)

/-- What the devices answer in a search. -/
def answers (devices : List Device) (scope : Scope) : Answers := fun p =>
  let sends (d : Device) : Bool := decide (d.Follows scope p) && d.staysAt p.length
  (devices.all fun d => !sends d || d.rom.bit p.length,
    devices.all fun d => !sends d || !d.rom.bit p.length)

/-! ## The line in a search -/

/-- The line in a search after path `p`. -/
def onPath (scope : Scope) (p : List Bool) (line : Line) : Line where
  nodes := line.nodes.map fun node =>
    { node with active := decide (node.device.Follows scope p) }
  mode := if p.length = Rom.width then .selected 0 else .search p.length .value
  resetsLeft := line.resetsLeft.map (· - 1)

theorem obey_mode (line : Line) (m : Mode) (c : Option Command) :
    { line with mode := m }.obey c = line.obey c := by
  cases c with
  | none => rfl
  | some c => cases c <;> rfl

theorem write_command {line : Line} {received : List Bool} (hmode : line.mode = .command received)
    (b : Bool) :
    Wire.write b line =
      if (received ++ [b]).length = 8 then line.obey (Command.ofCode? (.ofBits (received ++ [b])))
      else { line with mode := .command (received ++ [b]) } := by
  have hwrite : Wire.write b line = write b line := rfl
  rw [hwrite, write, hmode]

theorem writeBits_command {line : Line} {received bits : List Bool}
    (hmode : line.mode = .command received) (hlen : received.length + bits.length = 8)
    (hne : bits ≠ []) :
    Wire.writeBits bits line = line.obey (Command.ofCode? (.ofBits (received ++ bits))) := by
  induction bits generalizing line received with
  | nil => contradiction
  | cons b bits ih =>
    rw [Wire.writeBits, write_command hmode]
    by_cases hlast : bits = []
    · subst hlast
      rw [if_pos (by simpa using hlen)]
      rfl
    · have hpos := List.length_pos_iff.2 hlast
      simp only [List.length_cons] at hlen
      rw [if_neg (by simp; omega), ih rfl (by simp; omega) hlast, obey_mode]
      simp

theorem writeByte_command {line : Line} (hmode : line.mode = .command []) (c : Command) :
    Wire.writeByte c.code line = line.obey (some c) := by
  rw [Wire.writeByte, writeBits_command hmode (by simp [Byte.length_bits]) (by simp [Byte.bits]),
    List.nil_append, Byte.ofBits_bits, Command.ofCode?_code]

theorem reset_snd {line : Line} (h : line.resetsLeft ≠ some 0) :
    (reset line).2 =
      { nodes := line.nodes.map ({ · with active := true })
        mode := .command []
        resetsLeft := line.resetsLeft.map (· - 1) } := by
  rw [reset]
  split
  · contradiction
  · rfl

theorem reset_fst {line : Line} (h : line.resetsLeft ≠ some 0) :
    (reset line).1 = !line.nodes.isEmpty := by
  rw [reset]
  split
  · contradiction
  · rfl

theorem searched_nil {line : Line} (h : line.resetsLeft ≠ some 0) (scope : Scope) :
    Wire.searched scope.command [] line = line.onPath scope [] := by
  have hreset : (Wire.reset line).2 = (reset line).2 := rfl
  rw [Wire.searched, List.foldl_nil, hreset, reset_snd h, writeByte_command rfl]
  cases scope <;> simp [Scope.command, obey, onPath, Device.follows_nil, Scope.asks]

theorem answer_onPath (line : Line) (scope : Scope) {p : List Bool} (hp : p.length < Rom.width) :
    Wire.answer (line.onPath scope p) =
      (answers line.devices scope p,
        { line.onPath scope p with mode := .search p.length .branch }) := by
  have hread (l : Line) : Wire.read l = read l := rfl
  simp only [Wire.answer, hread, onPath, read, hp.ne, if_false, level, answers, devices,
    Node.takesPart, List.all_map, Function.comp_def]

theorem searched_eq {line : Line} (h : line.resetsLeft ≠ some 0) (scope : Scope) {p : List Bool}
    (hp : p.length ≤ Rom.width) : Wire.searched scope.command p line = line.onPath scope p := by
  induction p using List.reverseRecOn with
  | nil => exact searched_nil h scope
  | append_singleton p b ih =>
    have hlt : p.length < Rom.width := by simp at hp; omega
    have hwrite (l : Line) : Wire.write b l = write b l := rfl
    have hnode (node : Node) :
        narrow p.length b { node with active := decide (node.device.Follows scope p) } =
          { node with active := decide (node.device.Follows scope (p ++ [b])) } := by
      simp only [narrow, Node.takesPart, Device.follows_concat, Bool.decide_and, Bool.and_assoc,
        Bool.decide_eq_true, beq_eq_decide]
    rw [Wire.searched_concat, ih hlt.le, answer_onPath _ _ hlt, hwrite, write]
    simp only [onPath, after, List.map_map, Function.comp_def, hnode, List.length_append,
      List.length_singleton]

/-! ## A pass -/

theorem passed_eq {line : Line} (h : line.resetsLeft ≠ some 0) (scope : Scope) {p : List Bool}
    (hp : p.length ≤ Rom.width) :
    Wire.passed scope.command p line =
      { line.onPath scope p with
        mode := if p.length = Rom.width then .selected 0 else .search p.length .branch } := by
  rw [Wire.passed, searched_eq h scope hp]
  split
  · simp only [onPath, *, if_true]
  · rw [answer_onPath _ _ (by omega)]

theorem devices_passed {line : Line} (h : line.resetsLeft ≠ some 0) (scope : Scope) {p : List Bool}
    (hp : p.length ≤ Rom.width) : (Wire.passed scope.command p line).devices = line.devices := by
  rw [passed_eq h scope hp]
  simp [devices, onPath]

theorem answer_searched {line : Line} (h : line.resetsLeft ≠ some 0) (scope : Scope)
    {p : List Bool} (hp : p.length < Rom.width) :
    (Wire.answer (Wire.searched scope.command p line)).1 = answers line.devices scope p := by
  rw [searched_eq h scope hp.le, answer_onPath _ _ hp]

/-! ## What stays -/

theorem devices_obey (line : Line) (c : Option Command) : (line.obey c).devices = line.devices := by
  cases c with
  | none => rfl
  | some c => cases c <;> simp [obey, devices, Function.comp_def]

theorem resetsLeft_obey (line : Line) (c : Option Command) :
    (line.obey c).resetsLeft = line.resetsLeft := by
  cases c with
  | none => rfl
  | some c => cases c <;> rfl

theorem closed_devices (devices : List Device) :
    Wire.Closed fun line : Line => line.devices = devices ∧ line.resetsLeft = none where
  reset := by
    rintro line ⟨rfl, hleft⟩
    have hreset : (Wire.reset line).2 = (reset line).2 := rfl
    rw [hreset, reset_snd (by simp [hleft])]
    simp [Line.devices, hleft, Function.comp_def]
  read := by
    intro line h
    have hread : Wire.read line = read line := rfl
    rw [hread]
    unfold read
    split <;> exact h
  write := by
    rintro b line ⟨rfl, hleft⟩
    have hwrite : Wire.write b line = write b line := rfl
    rw [hwrite]
    unfold write
    split
    · exact ⟨rfl, hleft⟩
    · exact ⟨rfl, hleft⟩
    · exact ⟨rfl, hleft⟩
    · simp only
      split
      · exact ⟨devices_obey _ _, (resetsLeft_obey _ _).trans hleft⟩
      · exact ⟨rfl, hleft⟩
    · exact ⟨by simp [Line.devices, narrow, Function.comp_def], hleft⟩
    · exact ⟨by simp [Line.devices, compareBit, Function.comp_def], hleft⟩

/-! ## The tree -/

section Tree

variable {devices : List Device} {scope : Scope} {p : List Bool}

theorem open_iff {b : Bool} :
    (answers devices scope).Open p b ↔ ∃ d ∈ devices, d.Follows scope (p ++ [b]) := by
  simp only [Device.follows_concat]
  cases b <;> simp [Answers.Open, answers, and_assoc]

theorem path_iff :
    (answers devices scope).Path p ↔ p = [] ∨ ∃ d ∈ devices, d.Follows scope p := by
  constructor
  · intro h
    rcases List.eq_nil_or_concat' p with rfl | ⟨q, b, rfl⟩
    · exact .inl rfl
    · exact .inr (open_iff.1 (h q b (by simp)))
  · rintro (rfl | ⟨d, hd, h⟩)
    · exact Answers.path_nil
    · intro q b hq
      refine open_iff.2 ⟨d, hd, ?_⟩
      obtain ⟨t, rfl⟩ := hq
      obtain ⟨hasks, hstays, halong⟩ := h
      refine ⟨hasks, fun i hi => hstays i (by simp at hi ⊢; omega), fun i hi => ?_⟩
      rw [← halong i (by simp at hi ⊢; omega), List.getElem?_append_left hi]

theorem follows_iff {d : Device} (hstay : d.dropAt = none) (hp : p.length ≤ Rom.width) :
    d.Follows scope p ↔ scope.asks d = true ∧ p <+: d.rom.wireBits := by
  have hbits : d.rom.toWireBits.getLsbD = d.rom.bit := funext d.rom.getLsbD_toWireBits
  simp [Device.Follows, Rom.prefix_wireBits_iff, hbits, hp, Device.staysAt, hstay]

/-- The identifiers that a search is to find. -/
def asked (devices : List Device) (scope : Scope) : Finset Rom :=
  ((devices.filter scope.asks).map (·.rom)).toFinset

theorem mem_asked {r : Rom} :
    r ∈ asked devices scope ↔ ∃ d ∈ devices, scope.asks d = true ∧ d.rom = r := by
  simp [asked, and_assoc]

/-- Each identifier asked for has a device that stays to the end of the search. -/
def Answered (devices : List Device) (scope : Scope) : Prop :=
  ∀ r ∈ asked devices scope, ∃ d ∈ devices,
    scope.asks d = true ∧ d.rom = r ∧ ∀ i < Rom.width, d.staysAt i = true

theorem answered_of_stay (hstay : ∀ d ∈ devices, d.dropAt = none) : Answered devices scope := by
  intro r hr
  obtain ⟨d, hd, hasks, hrom⟩ := mem_asked.1 hr
  exact ⟨d, hd, hasks, hrom, fun i _ => by simp [Device.staysAt, hstay d hd]⟩

theorem prefix_of_follows {d : Device} (h : d.Follows scope p) (hp : p.length ≤ Rom.width) :
    p <+: d.rom.wireBits := by
  have hbits : d.rom.toWireBits.getLsbD = d.rom.bit := funext d.rom.getLsbD_toWireBits
  exact Rom.prefix_wireBits_iff.2 ⟨hp, hbits ▸ h.2.2⟩

section Answered

variable (hanswered : Answered devices scope)
include hanswered

theorem exists_follower {r : Rom} (hr : r ∈ asked devices scope) (hp : p <+: r.wireBits) :
    ∃ d ∈ devices, d.Follows scope p ∧ d.rom = r ∧ ∀ i < Rom.width, d.staysAt i = true := by
  obtain ⟨d, hd, hasks, rfl, hstays⟩ := hanswered r hr
  obtain ⟨hlen, halong⟩ := Rom.prefix_wireBits_iff.1 hp
  have hbits : d.rom.toWireBits.getLsbD = d.rom.bit := funext d.rom.getLsbD_toWireBits
  exact ⟨d, hd, ⟨hasks, fun i hi => hstays i (hi.trans_le hlen), hbits ▸ halong⟩, rfl, hstays⟩

theorem complete_iff :
    (answers devices scope).Complete p ↔ ∃ r ∈ asked devices scope, r.wireBits = p := by
  constructor
  · rintro ⟨hpath, hlen⟩
    rcases path_iff.1 hpath with rfl | ⟨d, hd, hfollows⟩
    · contradiction
    · have hown := prefix_of_follows hfollows hlen.le
      exact ⟨d.rom, mem_asked.2 ⟨d, hd, hfollows.1, rfl⟩,
        (hown.eq_of_length (by simp [hlen])).symm⟩
  · rintro ⟨r, hr, rfl⟩
    obtain ⟨d, hd, hfollows, -⟩ := exists_follower hanswered hr List.prefix_rfl
    exact ⟨path_iff.2 (.inr ⟨d, hd, hfollows⟩), r.length_wireBits⟩

theorem open_iff_asked {b : Bool} (hp : p.length < Rom.width) :
    (answers devices scope).Open p b ↔ ∃ r ∈ asked devices scope, p ++ [b] <+: r.wireBits := by
  have hlen : (p ++ [b]).length ≤ Rom.width := by simp; omega
  rw [open_iff]
  constructor
  · rintro ⟨d, hd, hfollows⟩
    exact ⟨d.rom, mem_asked.2 ⟨d, hd, hfollows.1, rfl⟩, prefix_of_follows hfollows hlen⟩
  · rintro ⟨r, hr, hown⟩
    obtain ⟨d, hd, hfollows, -⟩ := exists_follower hanswered hr hown
    exact ⟨d, hd, hfollows⟩

theorem deadEnd_iff :
    (answers devices scope).DeadEnd p ↔ p = [] ∧ asked devices scope = ∅ := by
  constructor
  · rintro ⟨hpath, hlen, hdead⟩
    have hnone : ∀ d ∈ devices, ¬ d.Follows scope p := by
      intro d hd h
      have hr := mem_asked.2 ⟨d, hd, h.1, rfl⟩
      obtain ⟨d', hd', h', -, hstays⟩ :=
        exists_follower hanswered hr (prefix_of_follows h hlen.le)
      exact Answers.not_open_of_dead hdead (d'.rom.bit p.length)
        (open_iff.2 ⟨d', hd', Device.follows_concat.2 ⟨h', hstays _ hlen, rfl⟩⟩)
    rcases path_iff.1 hpath with rfl | ⟨d, hd, h⟩
    · refine ⟨rfl, Finset.eq_empty_of_forall_notMem fun r hr => ?_⟩
      obtain ⟨d, hd, hasks, -⟩ := mem_asked.1 hr
      exact hnone d hd (Device.follows_nil.2 hasks)
    · exact absurd h (hnone d hd)
  · rintro ⟨rfl, hnone⟩
    have hasks : ∀ d ∈ devices, scope.asks d = false := by
      intro d hd
      by_contra h
      have hmem := mem_asked.2 ⟨d, hd, by simpa using h, rfl⟩
      simp [hnone] at hmem
    refine ⟨Answers.path_nil, by decide, ?_⟩
    simp only [answers, Device.follows_nil, Prod.mk.injEq, List.all_eq_true]
    exact ⟨fun d hd => by simp [hasks d hd], fun d hd => by simp [hasks d hd]⟩

end Answered

end Tree

/-! ## Consistency -/

/-- Devices that answer every reset make a consistent line, whether they leave searches or not. -/
theorem consistent {line : Line} (hresets : line.resetsLeft = none) (hnodes : line.nodes ≠ [])
    (scope : Scope) : Wire.Consistent scope.command (answers line.devices scope) line := by
  have hkeep : ∀ l, Wire.Between scope.command line l →
      l.devices = line.devices ∧ l.resetsLeft = none := by
    intro l h
    induction h with
    | start => exact ⟨rfl, hresets⟩
    | @pass l p _ hp ih =>
      obtain ⟨hdevices, hleft⟩ := ih
      have hzero : l.resetsLeft ≠ some 0 := by simp [hleft]
      refine ⟨(devices_passed hzero scope hp).trans hdevices, ?_⟩
      rw [passed_eq hzero scope hp]
      simp [onPath, hleft]
  constructor
  · intro l h
    obtain ⟨hdevices, hleft⟩ := hkeep l h
    have hreset : (Wire.reset l).1 = (reset l).1 := rfl
    rw [hreset, reset_fst (by simp [hleft])]
    have hne : l.nodes ≠ [] := by
      intro h
      simp_all [devices]
    simpa using hne
  · intro l p h hp
    obtain ⟨hdevices, hleft⟩ := hkeep l h
    rw [answer_searched (by simp [hleft]) scope hp, hdevices]

end Line

end OneWire
