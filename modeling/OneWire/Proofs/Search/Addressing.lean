import OneWire.Master.Request
import OneWire.Proofs.Search.Shared

/-!
# What is found can be addressed

MATCH ROM sends an identifier in the bit order in which a search finds it. So it selects the device
that was found, and RESUME selects that device again.
-/

namespace OneWire

open OneWire.Action

/-! ## The line -/

namespace Line

/-- The line after MATCH ROM and the bits `p`. -/
def matching (p : List Bool) (line : Line) : Line where
  nodes := line.nodes.map fun node =>
    { node with
      active := decide (p <+: node.device.rom.wireBits)
      resumes :=
        if p.length = Rom.width then decide (p <+: node.device.rom.wireBits) else node.resumes }
  mode := if p.length = Rom.width then .selected 0 else .address p.length
  resetsLeft := line.resetsLeft.map (· - 1)

theorem writeBits_matching {line : Line} (hleft : line.resetsLeft ≠ some 0) {p : List Bool}
    (hp : p.length ≤ Rom.width) :
    Wire.writeBits p (Wire.writeByte Command.matchRom.code (Wire.reset line).2) =
      line.matching p := by
  induction p using List.reverseRecOn with
  | nil =>
    have hreset : (Wire.reset line).2 = (reset line).2 := rfl
    rw [Wire.writeBits, hreset, reset_snd hleft, writeByte_command rfl]
    simp [obey, matching]
  | append_singleton p b ih =>
    have hlt : p.length < Rom.width := by simp at hp; omega
    have hwrite (l : Line) : Wire.writeBits [b] l = write b l := rfl
    -- The devices that stay are those whose identifier goes on with the bit just written.
    have hprefix (r : Rom) :
        p ++ [b] <+: r.wireBits ↔ p <+: r.wireBits ∧ r.bit p.length = b := by
      rw [Rom.concat_prefix_wireBits_iff, Rom.prefix_wireBits_iff, Rom.getLsbD_toWireBits]
      simp [hlt, hlt.le]
    rw [Wire.writeBits_append, ih hlt.le, hwrite, write]
    simp only [matching, if_neg hlt.ne, after, compareBit, List.map_map, Function.comp_def, hprefix,
      Bool.decide_and, beq_eq_decide, List.length_append, List.length_singleton]

/-- Just the devices with identifier `r` are selected, and RESUME would select them. -/
structure Selected (r : Rom) (line : Line) : Prop where
  mode : line.mode = .selected 0
  active : ∀ node ∈ line.nodes, node.active = decide (node.device.rom = r)
  resumes : ∀ node ∈ line.nodes, node.resumes = decide (node.device.rom = r)

theorem selected_matching (line : Line) (r : Rom) : (line.matching r.wireBits).Selected r := by
  have hprefix (r' : Rom) : r.wireBits <+: r'.wireBits ↔ r' = r := by
    refine ⟨fun h => (Rom.wireBits_injective (h.eq_of_length (by simp))).symm, ?_⟩
    rintro rfl
    exact List.prefix_rfl
  refine ⟨by simp [matching], ?_, ?_⟩
  · simp [matching, hprefix]
  · simp [matching, hprefix]

/-- The line after RESUME. -/
def resumed (line : Line) : Line where
  nodes := line.nodes.map fun node => { node with active := node.resumes }
  mode := .selected 0
  resetsLeft := line.resetsLeft.map (· - 1)

theorem writeByte_resumed {line : Line} (hleft : line.resetsLeft ≠ some 0) :
    Wire.writeByte Command.resume.code (Wire.reset line).2 = line.resumed := by
  have hreset : (Wire.reset line).2 = (reset line).2 := rfl
  rw [hreset, reset_snd hleft, writeByte_command rfl]
  simp [obey, resumed]

theorem Selected.resumed {r : Rom} {line : Line} (h : line.Selected r) :
    line.resumed.Selected r := by
  refine ⟨rfl, ?_, ?_⟩
  · simpa [Line.resumed] using h.resumes
  · simpa [Line.resumed] using h.resumes

@[simp] theorem devices_matching (p : List Bool) (line : Line) :
    (line.matching p).devices = line.devices := by
  simp [devices, matching]

@[simp] theorem devices_resumed (line : Line) : line.resumed.devices = line.devices := by
  simp [devices, resumed]

/-- The devices that listen and send. -/
def activeDevices (line : Line) : List Device :=
  (line.nodes.filter (·.active)).map (·.device)

theorem Selected.activeDevices {r : Rom} {line : Line} (h : line.Selected r) :
    line.activeDevices = line.devices.filter (·.rom = r) := by
  rw [Line.activeDevices, devices, List.filter_map, List.filter_congr h.active]
  rfl

theorem filter_rom_eq_singleton {devices : List Device} {d : Device}
    (hdistinct : (devices.map (·.rom)).Nodup) (hd : d ∈ devices) :
    devices.filter (·.rom = d.rom) = [d] := by
  obtain ⟨before, after, rfl⟩ := List.append_of_mem hd
  rw [List.map_append, List.map_cons, List.nodup_middle, List.nodup_cons, List.mem_append]
    at hdistinct
  have hother : ∀ x ∈ before ++ after, x.rom ≠ d.rom := by
    intro x hx heq
    rw [List.mem_append] at hx
    exact hdistinct.1 (hx.imp (fun h => heq ▸ List.mem_map_of_mem h)
      fun h => heq ▸ List.mem_map_of_mem h)
  have hbefore : before.filter (·.rom = d.rom) = [] := by
    simpa using fun x hx => hother x (List.mem_append_left _ hx)
  have hafter : after.filter (·.rom = d.rom) = [] := by
    simpa using fun x hx => hother x (List.mem_append_right _ hx)
  rw [List.filter_append, List.filter_cons_of_pos (by simp), hbefore, hafter, List.nil_append]

theorem Selected.activeDevices_of_mem {line : Line} {d : Device} (h : line.Selected d.rom)
    (hdistinct : (line.devices.map (·.rom)).Nodup) (hd : d ∈ line.devices) :
    line.activeDevices = [d] := by
  rw [h.activeDevices, filter_rom_eq_singleton hdistinct hd]

end Line

/-! ## Transactions -/

namespace Master

variable {L σ ε : Type} [Wire L] {line : σ → L} {sound : σ → Prop} {depth : σ → Nat}

/-- A transaction does its part after the reset, unless nobody is present. -/
theorem transaction_ensures {α : Type} (bus : Master σ ε) (hd : bus.toByteMaster.Drives line)
    (hf : bus.Faultless sound depth) {body : Action (Error ε) σ α} (ok : α → L → Prop)
    (failed : Error ε → L → Prop) {s : σ} (hs : sound s)
    (habsent : (Wire.reset (line s)).1 = false → failed .noPresence (Wire.reset (line s)).2)
    (hbody : ∀ t, sound t → line t = (Wire.reset (line s)).2 → (Wire.reset (line s)).1 = true →
      body.Ensures t (fun a t' => sound t' ∧ depth t' = depth t ∧ ok a (line t'))
        fun e t' => sound t' ∧ depth t' = depth t ∧ failed e (line t')) :
    (bus.whileLocked do bus.expectPresence; body).Ensures s
      (fun a s' => sound s' ∧ ok a (line s')) fun e s' => failed e (line s') := by
  unfold whileLocked expectPresence
  rw [ensures_between]
  refine ((hf.lock s hs).and (hd.lock s)).mono ?_ fun _ _ h => h.1.elim
  rintro _ s₁ ⟨⟨hs₁, hdepth₁⟩, -, hline₁⟩
  have hunlock (t : σ) (ht : sound t) (hdepth : depth t = depth s₁) :
      bus.unlock.Ensures t (fun _ t' => sound t' ∧ line t' = line t) fun _ _ => False := by
    refine ((hf.unlock t ht (by omega)).and (hd.unlock t)).mono ?_ fun _ _ h => h.1
    rintro _ t' ⟨⟨ht', -⟩, -, hline⟩
    exact ⟨ht', hline⟩
  simp only at hline₁
  rw [ensures_bind, ensures_bind, ensures_onBus]
  refine ((hf.reset s₁ hs₁).and (hd.reset s₁)).mono ?_ fun _ _ h => h.1.elim
  rintro present s₂ ⟨⟨hs₂, hdepth₂⟩, rfl, hline₂⟩
  rw [hline₁] at hline₂ ⊢
  cases hpresent : (Wire.reset (line s)).1 with
  | false =>
    refine (hunlock s₂ hs₂ hdepth₂).mono ?_ fun _ _ => False.elim
    rintro _ s₃ ⟨-, hline₃⟩
    rw [hline₃, hline₂]
    exact habsent hpresent
  | true =>
    refine (hbody s₂ hs₂ hline₂ hpresent).mono ?_ ?_
    · rintro a s₃ ⟨hs₃, hdepth₃, hok⟩
      refine (hunlock s₃ hs₃ (hdepth₃.trans hdepth₂)).mono ?_ fun _ _ => False.elim
      rintro _ s₄ ⟨hs₄, hline₄⟩
      exact ⟨hs₄, hline₄ ▸ hok⟩
    · rintro e s₃ ⟨hs₃, hdepth₃, hfailed⟩
      refine (hunlock s₃ hs₃ (hdepth₃.trans hdepth₂)).mono ?_ fun _ _ => False.elim
      rintro _ s₄ ⟨-, hline₄⟩
      exact hline₄ ▸ hfailed

theorem commanded_ensures (bus : Master σ ε) (hd : bus.toByteMaster.Drives line)
    (hf : bus.Faultless sound depth) {body : Action (Error ε) σ Unit} (effect : L → L)
    (hbody : ∀ s, sound s → body.Ensures s
      (fun _ s' => sound s' ∧ depth s' = depth s ∧ line s' = effect (line s)) fun _ _ => False)
    {s : σ} (hs : sound s) :
    (bus.whileLocked do bus.expectPresence; body).Ensures s
      (fun _ s' => sound s' ∧ (Wire.reset (line s)).1 = true ∧
        line s' = effect (Wire.reset (line s)).2)
      (fun e s' => e = .noPresence ∧ (Wire.reset (line s)).1 = false ∧
        line s' = (Wire.reset (line s)).2) := by
  refine transaction_ensures bus hd hf
    (fun _ l => (Wire.reset (line s)).1 = true ∧ l = effect (Wire.reset (line s)).2)
    (fun e l => e = .noPresence ∧ (Wire.reset (line s)).1 = false ∧ l = (Wire.reset (line s)).2)
    hs (fun habsent => ⟨rfl, habsent, rfl⟩) fun t ht hline hpresent => ?_
  refine (hbody t ht).mono ?_ fun _ _ => False.elim
  rintro _ t' ⟨ht', hdepth, hline'⟩
  exact ⟨ht', hdepth, hpresent, by rw [hline', hline]⟩

theorem issue_ensures (bus : Master σ ε) (hd : bus.toByteMaster.Drives line)
    (hf : bus.Faultless sound depth) (c : Command) {s : σ} (hs : sound s) :
    (bus.issue c).Ensures s
      (fun _ s' => sound s' ∧ depth s' = depth s ∧ line s' = Wire.writeByte c.code (line s))
      fun _ _ => False := by
  rw [issue, ensures_onBus]
  refine ((hf.writeByte c.code s hs).and (hd.writeByte c.code s)).mono ?_ fun _ _ h => h.1
  rintro _ s' ⟨⟨hs', hdepth⟩, -, hline⟩
  exact ⟨hs', hdepth, hline⟩

variable {bus : ByteMaster σ ε}

theorem issueMatch_ensures (hd : bus.Drives line) (hf : bus.toMaster.Faultless sound depth)
    (rom : Rom) {s : σ} (hs : sound s) :
    (bus.toMaster.issueMatch rom).Ensures s
      (fun _ s' => sound s' ∧ depth s' = depth s ∧ line s' =
        Wire.writeBits rom.wireBits (Wire.writeByte Command.matchRom.code (line s)))
      fun _ _ => False := by
  unfold issueMatch
  refine (issue_ensures bus.toMaster hd hf .matchRom hs).bind ?_
  rintro _ s₁ ⟨hs₁, hdepth₁, hline₁⟩
  rw [ensures_onBus]
  have hworks := ByteMaster.writeBytes_works hf.writeByte rom.toBytes.toList
  refine ((hworks s₁ hs₁).and (hd.writeBytes rom.toBytes.toList s₁)).mono ?_ fun _ _ h => h.1
  rintro _ s₂ ⟨⟨hs₂, hdepth₂⟩, -, hline₂⟩
  rw [Rom.flatMap_bits_toBytes, hline₁] at hline₂
  exact ⟨hs₂, hdepth₂.trans hdepth₁, hline₂⟩

end Master

/-! ## Devices -/

namespace Master

variable {σ ε : Type} {bus : ByteMaster σ ε} {line : σ → Line} {sound : σ → Prop}
  {depth : σ → Nat}

theorem matchRom_ensures (hd : bus.Drives line) (hf : bus.toMaster.Faultless sound depth)
    (rom : Rom) {s : σ} (hs : sound s) (hleft : (line s).resetsLeft ≠ some 0) :
    (bus.toMaster.matchRom rom).Ensures s
      (fun _ s' => sound s' ∧ (line s).nodes ≠ [] ∧ line s' = (line s).matching rom.wireBits)
      (fun e s' => e = .noPresence ∧ (line s).nodes = [] ∧ (line s').nodes = []) := by
  have hreset : Wire.reset (line s) = Line.reset (line s) := rfl
  have hensures := commanded_ensures bus.toMaster hd hf
    (fun l => Wire.writeBits rom.wireBits (Wire.writeByte Command.matchRom.code l))
    (fun _ => issueMatch_ensures hd hf rom) hs
  refine hensures.mono ?_ ?_
  · rintro _ s' ⟨hs', hpresent, hline⟩
    rw [Line.writeBits_matching hleft (by simp)] at hline
    rw [hreset, Line.reset_fst hleft] at hpresent
    exact ⟨hs', by simpa using hpresent, hline⟩
  · rintro e s' ⟨rfl, habsent, hline⟩
    rw [hreset, Line.reset_fst hleft] at habsent
    have hnodes : (line s).nodes = [] := by simpa using habsent
    rw [hline, hreset, Line.reset_snd hleft]
    exact ⟨rfl, hnodes, by simp [hnodes]⟩

theorem resumeRom_ensures (hd : bus.Drives line) (hf : bus.toMaster.Faultless sound depth)
    {s : σ} (hs : sound s) (hleft : (line s).resetsLeft ≠ some 0)
    (hdevices : (line s).devices ≠ []) :
    bus.toMaster.resumeRom.Ensures s (fun _ s' => sound s' ∧ line s' = (line s).resumed)
      fun _ _ => False := by
  have hensures := commanded_ensures bus.toMaster hd hf (Wire.writeByte Command.resume.code)
    (fun _ => issue_ensures bus.toMaster hd hf .resume) hs
  refine hensures.mono ?_ ?_
  · rintro _ s' ⟨hs', -, hline⟩
    exact ⟨hs', hline.trans (Line.writeByte_resumed hleft)⟩
  · rintro e s' ⟨-, habsent, -⟩
    have hfst : (Wire.reset (line s)).1 = !(line s).nodes.isEmpty := Line.reset_fst hleft
    rw [hfst] at habsent
    exact hdevices (by simpa [Line.devices] using habsent)

theorem repeated_resumeRom (hd : bus.Drives line) (hf : bus.toMaster.Faultless sound depth)
    {r : Rom} {n : Nat} (done : Nat) {s : σ} (hs : sound s)
    (hleft : ∀ m, (line s).resetsLeft = some m → n ≤ m) (hdevices : (line s).devices ≠ [])
    (hselected : (line s).Selected r) :
    ∃ s', repeated bus.toMaster.resumeRom n done s = (.ok (), done + n, s') ∧
      (line s').Selected r ∧ (line s').devices = (line s).devices := by
  induction n generalizing done s with
  | zero => exact ⟨s, rfl, hselected, rfl⟩
  | succ n ih =>
    have hzero : (line s).resetsLeft ≠ some 0 := fun h => by simpa using hleft 0 h
    obtain ⟨_, s₁, hok, hs₁, hline₁⟩ := (resumeRom_ensures hd hf hs hzero hdevices).returns
    have hdevices₁ : (line s₁).devices = (line s).devices := by simp [hline₁]
    have hleft₁ : ∀ m, (line s₁).resetsLeft = some m → n ≤ m := by
      rw [hline₁]
      intro m hm
      obtain ⟨m', hm', rfl⟩ := Option.map_eq_some_iff.1 hm
      have := hleft m' hm'
      omega
    obtain ⟨s', hrest, hselected', hdevices'⟩ :=
      ih (done + 1) hs₁ hleft₁ (by rwa [hdevices₁]) (hline₁ ▸ hselected.resumed)
    refine ⟨s', ?_, hselected', hdevices'.trans hdevices₁⟩
    unfold repeated
    simp only [hok, hrest]
    rw [Nat.add_assoc, Nat.add_comm 1]

theorem matchRom_selects (hd : bus.Drives line) (hf : bus.toMaster.Faultless sound depth)
    {s : σ} (hs : sound s) (hleft : (line s).resetsLeft ≠ some 0)
    (hdistinct : ((line s).devices.map (·.rom)).Nodup) {d : Device} (hmem : d ∈ (line s).devices) :
    ∃ t, bus.toMaster.matchRom d.rom s = .ok () t ∧
      (line t).mode = .selected 0 ∧ (line t).activeDevices = [d] ∧
      ∀ n, (∀ m, (line s).resetsLeft = some m → n < m) →
        ∃ t', repeated bus.toMaster.resumeRom n 0 t = (.ok (), n, t') ∧
          (line t').mode = .selected 0 ∧ (line t').activeDevices = [d] := by
  have hnodes : (line s).nodes ≠ [] := by
    intro h
    simp [Line.devices, h] at hmem
  obtain ⟨_, t, hmatch, ht, -, hline⟩ :=
    ((matchRom_ensures hd hf d.rom hs hleft).mono (fun _ _ => id) fun _ _ h => hnodes h.2.1).returns
  have hselected : (line t).Selected d.rom := hline ▸ Line.selected_matching (line s) d.rom
  have hdevices : (line t).devices = (line s).devices := by simp [hline]
  rw [← hdevices] at hdistinct hmem
  refine ⟨t, hmatch, hselected.mode, hselected.activeDevices_of_mem hdistinct hmem, fun n hn => ?_⟩
  have hleft_t : ∀ m, (line t).resetsLeft = some m → n ≤ m := by
    rw [hline]
    intro m hm
    obtain ⟨m', hm', rfl⟩ := Option.map_eq_some_iff.1 hm
    have := hn m' hm'
    omega
  obtain ⟨t', hresume, hselected', hdevices'⟩ :=
    repeated_resumeRom hd hf 0 ht hleft_t (List.ne_nil_of_mem hmem) hselected
  rw [← hdevices'] at hdistinct hmem
  rw [Nat.zero_add] at hresume
  exact ⟨t', hresume, hselected'.mode, hselected'.activeDevices_of_mem hdistinct hmem⟩

theorem matchRom_selects_none (hd : bus.Drives line) (hf : bus.toMaster.Faultless sound depth)
    {s : σ} (hs : sound s) (hleft : (line s).resetsLeft ≠ some 0) {r : Rom}
    (hr : ∀ d ∈ (line s).devices, d.rom ≠ r) :
    (line ((bus.toMaster.matchRom r).attempt s).2).activeDevices = [] := by
  refine Ensures.attempt (I := fun t => (line t).activeDevices = [])
    ((matchRom_ensures hd hf r hs hleft).mono ?_ ?_)
  · rintro _ t ⟨-, -, hline⟩
    rw [hline, (Line.selected_matching (line s) r).activeDevices]
    simpa using hr
  · rintro _ t ⟨-, -, hnone⟩
    simp [Line.activeDevices, hnone]

end Master

namespace Search

variable {σ ε : Type} {bus : ByteMaster σ ε} {line : σ → Line} {sound : σ → Prop}
  {depth : σ → Nat}

theorem exists_device_of_complete {devices : List Device} {scope : Scope} {r : Rom}
    (h : (Line.answers devices scope).Complete r.wireBits) : ∃ d ∈ devices, d.rom = r := by
  obtain ⟨hpath, hlen⟩ := h
  rcases Line.path_iff.1 hpath with hnil | ⟨d, hd, -, -, halong⟩
  · simp [hnil] at hlen
  · have hbits : d.rom.toWireBits.getLsbD = d.rom.bit := funext d.rom.getLsbD_toWireBits
    rw [← hbits] at halong
    have hown := Rom.prefix_wireBits_iff.2 ⟨hlen.le, halong⟩
    exact ⟨d, hd, (Rom.wireBits_injective (hown.eq_of_length (by simp))).symm⟩

theorem enumerate_finds_devices (hd : bus.Drives line) (hf : bus.toMaster.Faultless sound depth)
    (scope : Scope) (family : Byte) {s : σ} (hs : sound s) (hleft : (line s).resetsLeft = none) :
    ∃ (found : List Rom) (s' : σ),
      (∀ limit, found.length < limit →
        enumerate bus.toMaster limit scope family (s, []) =
          .ok (some found.length) (s', found)) ∧
      sound s' ∧ (line s').devices = (line s).devices ∧ (line s').resetsLeft = none ∧
      ∀ r ∈ found, ∃ d ∈ (line s).devices, d.rom = r := by
  have hd' : bus.toMaster.toByteMaster.Drives line := hd
  obtain ⟨_, s₁, hlock, hs₁, hdepth₁⟩ := (hf.lock s hs).returns
  obtain ⟨-, hline₁⟩ := (hd.lock s).of_ok hlock
  simp only at hline₁
  rw [← hline₁] at hleft ⊢
  obtain ⟨cursors, htrail, hsweeps⟩ := (Line.answers (line s₁).devices scope).exists_trail
  obtain ⟨s₂, htrail₂, hs₂, hdepth₂, hdevices₂, hleft₂⟩ :=
    trail_shared hd' hf scope hs₁ htrail (by simp [hleft])
  obtain ⟨_, s', hunlock, hs', -⟩ := (hf.unlock s₂ hs₂ (by omega)).returns
  obtain ⟨-, hline'⟩ := (hd.unlock s₂).of_ok hunlock
  simp only at hline'
  refine ⟨cursors.filterMap Cursor.found, s', fun limit hlimit => ?_, hs', ?_, ?_, ?_⟩
  · exact htrail₂.enumerate_eq hlock hunlock family (hsweeps.length_le.trans hlimit)
  · rw [hline', hdevices₂]
  · rw [hline', hleft₂ hleft]
  · intro r hr
    exact exists_device_of_complete ((hsweeps.mem_iff r).1 hr).1

/--
Each identifier that a search finds can be addressed from then on, whatever the master did in
between: MATCH ROM selects the one device that has it, and so does each RESUME after that, as long
as the line answers resets. An identifier that no device has selects none. The bytes of an
identifier spell the path of the search.
-/
theorem found_addressable (hd : bus.Drives line) (hf : bus.toMaster.Faultless sound depth)
    (scope : Scope) (family : Byte) {s : σ} (hs : sound s) (hleft : (line s).resetsLeft = none)
    (hdistinct : ((line s).devices.map (·.rom)).Nodup) :
    (∃ (found : List Rom) (s' : σ),
      (∀ limit, found.length < limit →
        enumerate bus.toMaster limit scope family (s, []) =
          .ok (some found.length) (s', found)) ∧
      (sound s' ∧ (line s').devices = (line s).devices ∧ (line s').resetsLeft = none) ∧
      ∀ u, sound u → (line u).devices = (line s).devices → (line u).resetsLeft ≠ some 0 →
        (∀ r ∈ found, ∃ d ∈ (line s).devices, d.rom = r ∧
          ∃ t, bus.toMaster.matchRom r u = .ok () t ∧
            (line t).mode = .selected 0 ∧ (line t).activeDevices = [d] ∧
            ∀ n, (∀ m, (line u).resetsLeft = some m → n < m) →
              ∃ t', Master.repeated bus.toMaster.resumeRom n 0 t = (.ok (), n, t') ∧
                (line t').mode = .selected 0 ∧ (line t').activeDevices = [d]) ∧
        ∀ r, (∀ d ∈ (line s).devices, d.rom ≠ r) →
          (line ((bus.toMaster.matchRom r).attempt u).2).activeDevices = []) ∧
      ∀ path : BitVec 64, (Rom.ofWireBits path).toBytes.toList.flatMap Byte.bits =
        wireBits path := by
  refine ⟨?_, fun path => by rw [Rom.flatMap_bits_toBytes, Rom.wireBits_ofWireBits]⟩
  obtain ⟨found, s', hsearch, hs', hdevices', hleft', hfound⟩ :=
    enumerate_finds_devices hd hf scope family hs hleft
  refine ⟨found, s', hsearch, ⟨hs', hdevices', hleft'⟩, fun u hu hdevices hzero => ?_⟩
  rw [← hdevices] at hdistinct hfound ⊢
  refine ⟨fun r hr => ?_, fun r hr => Master.matchRom_selects_none hd hf hu hzero hr⟩
  obtain ⟨d, hmem, rfl⟩ := hfound r hr
  exact ⟨d, hmem, rfl, Master.matchRom_selects hd hf hu hzero hdistinct hmem⟩

/-- The line after the search, and one that answers just as often as it is asked. -/
theorem found_addressable_three :
    ∃ (found : List Rom) (b' : Bench Line),
      (∀ limit, found.length < limit →
        enumerate Bench.bitHost.toMaster limit .all 0 (threeDevices none, []) =
          .ok (some found.length) (b', found)) ∧
      found ≠ [] ∧
      ∀ b ∈ [b', threeDevices (some 3)],
        (∀ r ∈ found, ∃ d ∈ (threeDevices none).line.devices, d.rom = r ∧
          ∃ t, Bench.bitHost.toMaster.matchRom r b = .ok () t ∧ t.line.activeDevices = [d] ∧
            ∃ t', Master.repeated Bench.bitHost.toMaster.resumeRom 2 0 t = (.ok (), 2, t') ∧
              t'.line.activeDevices = [d]) ∧
        ((Bench.bitHost.toMaster.matchRom (.ofWireBits 2)).attempt b).2.line.activeDevices = [] := by
  obtain ⟨⟨found, b', hsearch, ⟨hb', hdevices', hleft'⟩, haddress⟩, -⟩ :=
    found_addressable Bench.bitHost_drives Bench.bitHost_faultless .all 0
      (quiet_threeDevices none) rfl (by decide)
  refine ⟨found, b', hsearch, ?_, fun b hb => ?_⟩
  · -- A single pass is not enough for the search to end.
    rintro rfl
    have hended : ((enumerate Bench.bitHost.toMaster 1 .all 0).attempt (threeDevices none, [])).1 =
        .ok (some 0) := congrArg Prod.fst (attempt_of_ok (hsearch 1 Nat.zero_lt_one))
    exact absurd hended (by decide +kernel)
  · have hready : b.Quiet ∧ b.line.devices = (threeDevices none).line.devices ∧
        b.line.resetsLeft ≠ some 0 ∧ ∀ m, b.line.resetsLeft = some m → 2 < m := by
      simp only [List.mem_cons, List.not_mem_nil, or_false] at hb
      rcases hb with rfl | rfl
      · exact ⟨hb', hdevices', by simp [hleft'], by simp [hleft']⟩
      · exact ⟨quiet_threeDevices _, rfl, by decide, by rintro m ⟨⟩; decide⟩
    obtain ⟨hquiet, hdevices, hzero, hleft⟩ := hready
    obtain ⟨hfound, hother⟩ := haddress b hquiet hdevices hzero
    refine ⟨fun r hr => ?_, hother (.ofWireBits 2) (by decide)⟩
    obtain ⟨d, hmem, hrom, t, hmatch, -, hactive, hresumes⟩ := hfound r hr
    obtain ⟨t', hresume, -, hactive'⟩ := hresumes 2 hleft
    exact ⟨d, hmem, hrom, t, hmatch, hactive, t', hresume, hactive'⟩

end Search

end OneWire
