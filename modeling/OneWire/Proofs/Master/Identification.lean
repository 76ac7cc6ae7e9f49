import OneWire.Proofs.Line.Response

/-!
# Reading identifiers

After READ ROM all devices send their identifiers at once, so that the bitwise AND of them is read.
A search comes to the identifier of a device bit by bit. With one device, or several of the same
identifier, the two agree.
-/

namespace OneWire

open OneWire.Action

/-! ## The AND of identifiers -/

namespace Rom

/-- The bitwise AND of identifiers; all ones if there are none. -/
def meet (roms : List Rom) : Rom :=
  .ofWireBits ((roms.map toWireBits).foldr (· &&& ·) (.allOnes 64))

theorem bit_meet (roms : List Rom) {i : Nat} (hi : i < width) :
    (meet roms).bit i = roms.all (·.bit i) := by
  rw [meet, bit_ofWireBits _ hi]
  induction roms with
  | nil =>
    rw [List.map_nil, List.foldr_nil, BitVec.getLsbD_allOnes]
    exact decide_eq_true hi
  | cons r roms ih =>
    rw [List.map_cons, List.foldr_cons, BitVec.getLsbD_and, getLsbD_toWireBits, ih, List.all_cons]

theorem meet_eq_of_forall {roms : List Rom} {r : Rom} (hsome : roms ≠ []) (h : ∀ x ∈ roms, x = r) :
    meet roms = r := by
  obtain ⟨n, hn⟩ := Nat.exists_eq_add_one.2 (List.length_pos_iff.2 hsome)
  rw [List.eq_replicate_of_mem h, hn, meet]
  suffices ((List.replicate (n + 1) r).map toWireBits).foldr (· &&& ·) (.allOnes 64) =
      r.toWireBits by rw [this, ofWireBits_toWireBits]
  clear hn
  induction n with
  | zero => exact BitVec.and_allOnes
  | succ n ih => rw [List.replicate_succ, List.map_cons, List.foldr_cons, ih, BitVec.and_self]

theorem ofBytes_byte (r : Rom) : ofBytes (.ofFn fun i => r.byte i) = r := by
  have hbytes : (Vector.ofFn fun i : Fin size => r.byte i) = r.toBytes :=
    Vector.ext fun i hi => by rw [Vector.getElem_ofFn, getElem_toBytes r hi]
  rw [hbytes, ofBytes_toBytes]

end Rom

/-! ## The line -/

namespace Line

variable {devices : List Device} {i : Nat} {line : Line}

/-- The devices send their identifiers together, and wire bit `i` is the next. -/
structure Identifies (devices : List Device) (i : Nat) (line : Line) : Prop where
  mode : line.mode = if i = Rom.width then .selected 0 else .identify i
  active : line.activeDevices = devices

theorem commanded_identifies (hleft : line.resetsLeft ≠ some 0) :
    (Wire.writeByte Command.readRom.code (Wire.reset line).2).Identifies line.devices 0 := by
  have hreset : (Wire.reset line).2 = (reset line).2 := rfl
  rw [hreset, reset_snd hleft, writeByte_command rfl]
  exact ⟨rfl, by simp [obey, activeDevices, devices, List.filter_map, Function.comp_def]⟩

theorem Identifies.read (h : line.Identifies devices i) (hi : i < Rom.width) :
    (Wire.read line).1 = (Rom.meet (devices.map (·.rom))).bit i ∧
      (Wire.read line).2.Identifies devices (i + 1) := by
  have hread : Wire.read line = (level line.nodes (·.active) (·.device.rom.bit i),
      { line with mode := after i (.identify (i + 1)) (.selected 0) }) := by
    change Line.read line = _
    unfold Line.read
    rw [h.mode, if_neg hi.ne]
  rw [hread]
  refine ⟨?_, rfl, h.active⟩
  rw [level_active line (·.rom.bit i), h.active, Rom.bit_meet _ hi, List.all_map]
  rfl

theorem Identifies.readByte (h : line.Identifies devices (8 * i)) (hi : i < Rom.size) :
    (Wire.readByte line).1 = (Rom.meet (devices.map (·.rom))).byte i ∧
      (Wire.readByte line).2.Identifies devices (8 * (i + 1)) := by
  have hlast : 8 * i + 8 ≤ Rom.width := by
    have : i < 8 := hi
    rw [Rom.width]
    omega
  obtain ⟨hbits, hnext⟩ := Wire.readBits_of_reads (n := 8)
    (fun j hj _ hl => hl.read (hj.trans_le hlast)) h
  refine ⟨?_, hnext⟩
  change Byte.ofBits (Wire.readBits 8 line).1 = _
  rw [hbits, ← Rom.bits_byte, Byte.ofBits_bits]

end Line

/-! ## Masters -/

namespace Master

variable {σ ε : Type} {bus : ByteMaster σ ε} {line : σ → Line} {sound : σ → Prop}
  {depth : σ → Nat}

theorem receive_ensures (hd : bus.Drives line) (hread : bus.readByte.Works sound depth)
    {devices : List Device} {s : σ} (hs : sound s) (hl : (line s).Identifies devices 0) :
    (bus.toMaster.receive Rom.size).Ensures s
      (fun bytes s' => sound s' ∧ depth s' = depth s ∧
        Rom.ofBytes bytes = .meet (devices.map (·.rom)))
      fun _ _ => False := by
  unfold receive
  rw [ensures_filling]
  refine (bus.readBlock_ensures (Rom.meet (devices.map (·.rom))).byte
    (fun i t => sound t ∧ depth t = depth s ∧ (line t).Identifies devices (8 * i))
    ?_ ⟨hs, rfl, hl⟩).mono ?_ fun _ _ => id
  · rintro i hi t ⟨ht, hdepth, hl⟩
    obtain ⟨hbyte, hnext⟩ := hl.readByte hi
    refine ((hread t ht).and (hd.readByte t)).mono ?_ fun _ _ h => h.1
    rintro _ t' ⟨⟨ht', hdepth'⟩, rfl, hline⟩
    exact ⟨hbyte, ht', hdepth'.trans hdepth, by rwa [hline]⟩
  · rintro _ ⟨t, _⟩ ⟨⟨ht, hdepth, -⟩, rfl⟩
    exact ⟨ht, hdepth, Rom.ofBytes_byte _⟩

theorem readRom_ensures (hd : bus.Drives line) (hf : bus.toMaster.Faultless sound depth)
    (hread : bus.readByte.Works sound depth) {s : σ} (hs : sound s)
    (hleft : (line s).resetsLeft ≠ some 0) :
    bus.toMaster.readRom.Ensures s
      (fun rom _ => (line s).devices ≠ [] ∧ rom = .meet ((line s).devices.map (·.rom)) ∧
        rom.isValid = true)
      fun e _ => e = .noPresence ∧ (line s).devices = [] ∨
        e = .checksumMismatch ∧ (line s).devices ≠ [] ∧
          (Rom.meet ((line s).devices.map (·.rom))).isValid = false := by
  unfold readRom
  refine (transaction_ensures bus.toMaster hd hf
    (fun rom _ => (line s).devices ≠ [] ∧ rom = .meet ((line s).devices.map (·.rom)) ∧
      rom.isValid = true)
    (fun e _ => e = .noPresence ∧ (line s).devices = [] ∨
      e = .checksumMismatch ∧ (line s).devices ≠ [] ∧
        (Rom.meet ((line s).devices.map (·.rom))).isValid = false)
    hs ?_ ?_).mono (fun _ _ h => h.2) fun _ _ => id
  · intro habsent
    refine .inl ⟨rfl, ?_⟩
    by_contra hsome
    rw [(Line.reset_fst_iff hleft).2 hsome] at habsent
    contradiction
  · intro t ht hline hpresent
    have hsome := (Line.reset_fst_iff hleft).1 hpresent
    rw [ensures_bind]
    refine (issue_ensures bus.toMaster hd hf .readRom ht).mono ?_ fun _ _ => False.elim
    rintro _ t₁ ⟨ht₁, hdepth₁, hline₁⟩
    have hl : (line t₁).Identifies (line s).devices 0 := by
      rw [hline₁, hline]
      exact Line.commanded_identifies hleft
    rw [ensures_bind, ensures_onBus]
    refine (receive_ensures hd hread ht₁ hl).mono ?_ fun _ _ => False.elim
    rintro bytes t₂ ⟨ht₂, hdepth₂, hrom⟩
    have hdepth := hdepth₂.trans hdepth₁
    simp only [hrom]
    split
    · rename_i hvalid
      exact ⟨ht₂, hdepth, hsome, rfl, hvalid⟩
    · rename_i hvalid
      exact ⟨ht₂, hdepth, .inr ⟨rfl, hsome, by simpa using hvalid⟩⟩

end Master

/-! ## Searches -/

section Search

variable {σ ε : Type} {line : σ → Line} {sound : σ → Prop} {depth : σ → Nat}

theorem Search.enumerate_twins {bus : Master σ ε} (hd : bus.toByteMaster.Drives line)
    (hf : bus.Faultless sound depth) (family : Byte) {s : σ} (hs : sound s)
    (hleft : (line s).resetsLeft ≠ some 0) {r : Rom} (hsame : ∀ d ∈ (line s).devices, d.rom = r)
    (hstays : ∃ d ∈ (line s).devices, ∀ i < Rom.width, d.staysAt i = true) {limit : Nat}
    (hlimit : 1 ≤ limit) :
    ∃ s', enumerate bus limit .all family (s, []) = .ok (some 1) (s', [r]) := by
  obtain ⟨d, hmem, hstays⟩ := hstays
  have hasked : Line.asked (line s).devices .all = {r} := by
    ext x
    rw [Line.mem_asked, Finset.mem_singleton]
    constructor
    · rintro ⟨d', hd', -, rfl⟩
      exact hsame d' hd'
    · rintro rfl
      exact ⟨d, hmem, rfl, hsame d hmem⟩
  have hanswered : Line.Answered (line s).devices .all := by
    intro x hx
    rw [hasked, Finset.mem_singleton] at hx
    exact ⟨d, hmem, rfl, (hsame d hmem).trans hx.symm, hstays⟩
  have hresets : ∀ n, (line s).resetsLeft = some n →
      max (Line.asked (line s).devices .all).card 1 ≤ n := by
    intro n hn
    rw [hasked, Finset.card_singleton, Nat.max_self, Nat.one_le_iff_ne_zero]
    rintro rfl
    exact hleft hn
  obtain ⟨cursors, s₁, s₂, s', hlock, -, -, htrail, hunlock, hexhausts⟩ :=
    exists_trail_shared hd hf .all hs hanswered hresets
  rw [hasked] at hexhausts
  have hlength : cursors.length = 1 := hexhausts.length
  obtain ⟨x, hfound⟩ := List.length_eq_one_iff.1 hexhausts.length_found
  have hx : x = r := by simpa [hfound] using hexhausts.found
  refine ⟨s', ?_⟩
  rw [htrail.enumerate_eq hlock hunlock family (hlength.trans_le hlimit), hfound, hx]
  rfl

/--
READ ROM finds nobody on an empty line, and else the bitwise AND of all identifiers if that has its
checksum. Where all devices have one identifier, that is what READ ROM gives, if it has its
checksum, and a search finds it alone, if one of the devices stays to the end.
-/
theorem readRom_agrees {bus : ByteMaster σ ε} (hd : bus.Drives line)
    (hf : bus.toMaster.Faultless sound depth) (hread : bus.readByte.Works sound depth) {s : σ}
    (hs : sound s) (hleft : (line s).resetsLeft ≠ some 0) :
    ((bus.toMaster.readRom.attempt s).1 = .error .noPresence ↔ (line s).devices = []) ∧
    ((line s).devices ≠ [] → (bus.toMaster.readRom.attempt s).1 =
      if (Rom.meet ((line s).devices.map (·.rom))).isValid = true then
        .ok (.meet ((line s).devices.map (·.rom)))
      else .error .checksumMismatch) ∧
    ∀ r, (line s).devices ≠ [] → (∀ d ∈ (line s).devices, d.rom = r) →
      ((bus.toMaster.readRom.attempt s).1 = .ok r ↔ r.isValid = true) ∧
      ((∃ d ∈ (line s).devices, ∀ i < Rom.width, d.staysAt i = true) → ∀ limit, 1 ≤ limit →
        ∃ s', Search.findAll bus.toMaster limit (s, []) = .ok (some 1) (s', [r])) := by
  have houtcome : (bus.toMaster.readRom.attempt s).1 =
      if (line s).devices = [] then .error .noPresence
      else if (Rom.meet ((line s).devices.map (·.rom))).isValid = true then
        .ok (.meet ((line s).devices.map (·.rom)))
      else .error .checksumMismatch := by
    refine Ensures.outcome (P := fun outcome _ => outcome = _)
      ((Master.readRom_ensures hd hf hread hs hleft).mono ?_ ?_)
    · rintro _ _ ⟨hsome, rfl, hvalid⟩
      rw [if_neg hsome, if_pos hvalid]
    · rintro _ _ (⟨rfl, hnone⟩ | ⟨rfl, hsome, hinvalid⟩)
      · rw [if_pos hnone]
      · rw [if_neg hsome, if_neg (by simp [hinvalid])]
  rw [houtcome]
  refine ⟨?_, fun hsome => if_neg hsome, fun r hsome hsame => ⟨?_, ?_⟩⟩
  · split_ifs with hnone hvalid
    · simp [hnone]
    · simp [hnone]
    · simp [hnone]
  · have hmeet : Rom.meet ((line s).devices.map (·.rom)) = r :=
      Rom.meet_eq_of_forall (by simpa using hsome) (by simpa using hsame)
    rw [if_neg hsome, hmeet]
    split_ifs with hvalid
    · simp [hvalid]
    · simp [hvalid]
  · intro hstays limit hlimit
    exact Search.enumerate_twins hd hf Search.anyFamily hs hleft hsame hstays hlimit

def sharedRom : Rom := .issue 0x28 #v[1, 2, 3, 4, 5, 6]

/-- Two devices of one identifier in the middle of a search, which one of them leaves. -/
def twins : Bench Line :=
  .idle {
    nodes := [{ device := { rom := sharedRom, dropAt := some 7 } },
      { device := { rom := sharedRom }, active := true }]
    mode := .search 6 .branch }

theorem readRom_agrees_twins :
    ∃ b' b'' : Bench Line,
      (Bench.bitHost.toMaster.readRom.attempt twins).1 = .ok sharedRom ∧
      Search.findAll Bench.bitHost.toMaster 1 (twins, []) = .ok (some 1) (b', [sharedRom]) ∧
      (Bench.byteHost.toMaster.readRom.attempt twins).1 = .ok sharedRom ∧
      Search.findAll Bench.byteHost.toMaster 1 (twins, []) = .ok (some 1) (b'', [sharedRom]) := by
  have hvalid : sharedRom.isValid = true := by decide +kernel
  have hsame : ∀ d ∈ twins.line.devices, d.rom = sharedRom := by
    simp [twins, Bench.idle, Line.devices]
  have hstays : ∃ d ∈ twins.line.devices, ∀ i < Rom.width, d.staysAt i = true :=
    ⟨{ rom := sharedRom }, by simp [twins, Bench.idle, Line.devices], fun _ _ => rfl⟩
  have hbits := Bench.bitHost_faultless_declares (L := Line) 0
  have hbytes := Bench.byteHost_faultless_declares (L := Line) 0
  have hreads : (Bench.byteHost : Host (Bench Line) Bench.Call).readByte.Works (Bench.Declares 0)
      Bench.depth := Bench.works_of_performs fun b₀ => (Bench.byteHost_performs b₀).readByte
  have hquiet : twins.Declares 0 := ⟨Bench.quiet_idle _, rfl⟩
  obtain ⟨-, -, hagrees⟩ := readRom_agrees Bench.bitHost_drives hbits
    (Slots.readByte_works hbits.readBit) hquiet (by decide)
  obtain ⟨hread, hsearch⟩ := hagrees sharedRom (by decide) hsame
  obtain ⟨b', hfound⟩ := hsearch hstays 1 (Nat.le_refl 1)
  obtain ⟨-, -, hagrees'⟩ := readRom_agrees Bench.byteHost_drives hbytes hreads hquiet (by decide)
  obtain ⟨hread', hsearch'⟩ := hagrees' sharedRom (by decide) hsame
  obtain ⟨b'', hfound'⟩ := hsearch' hstays 1 (Nat.le_refl 1)
  exact ⟨b', b'', hread.2 hvalid, hfound, hread'.2 hvalid, hfound'⟩

end Search

end OneWire
