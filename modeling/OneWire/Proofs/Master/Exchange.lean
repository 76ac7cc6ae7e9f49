import OneWire.Bench.Master
import OneWire.Master.Trace
import OneWire.Proofs.Bench.Drive
import OneWire.Proofs.Line.Response
import OneWire.Proofs.Trace.Logs

/-!
# Exchanges with one device

An exchange resets the line once, selects one device and sends it the data. What it reads is the
response of that device and of no other.
-/

namespace OneWire

open OneWire.Action

/-! ## Entries -/

namespace Entry

variable {ε : Type}

def written (b : Byte) : Entry ε := .writeByte b (.ok ())

def fetched (b : Byte) : Entry ε := .readByte (.ok b)

/-- The entries of a master that makes its bytes from slots. -/
def bitwise : Entry ε → List (Entry ε)
  | .readByte (.ok b) => b.bits.map fun bit => .readBit (.ok bit)
  | .writeByte b (.ok ()) => b.bits.map fun bit => .writeBit bit (.ok ())
  | e => [e]

/-- The calls that select `rom` on a board that declares `count` devices. -/
def opening (count : Nat) (rom : Rom) : List (Entry ε) :=
  [.lock (.ok ()), .reset (.ok true)] ++ (rom.selection count).map written ++ [.unlock (.ok ())]

/-- The calls of a transaction that sends `data` to the device `rom` and reads `response`. -/
def conversation (count : Nat) (rom : Rom) (data response : List Byte) : List (Entry ε) :=
  [.lock (.ok ())] ++ opening count rom ++ data.map written ++ response.map fetched ++
    [.unlock (.ok ())]

/-- The calls of a transaction that finds nobody. -/
def unanswered : List (Entry ε) :=
  [.lock (.ok ()), .lock (.ok ()), .reset (.ok false), .unlock (.ok ()), .unlock (.ok ())]

end Entry

open Entry

/-! ## Masters that log -/

-- `At k l log s` says that in state `s` the bus is locked `k` times, has the line `l` behind it,
-- and made the calls `log`.
/-- No call fails, each does its part to the line, and all are logged. -/
structure ByteMaster.Transcribes {τ ε L : Type} [Wire L] (bus : ByteMaster τ ε) (count : Nat)
    (At : Nat → L → List (Entry ε) → τ → Prop) : Prop where
  deviceCount {k : Nat} {l : L} {log : List (Entry ε)} {s : τ} :
    At k l log s → bus.deviceCount s = count
  lock {k : Nat} {l : L} {log : List (Entry ε)} {s : τ} : At k l log s →
    bus.lock.Ensures s (fun _ => At (k + 1) l (log ++ [.lock (.ok ())])) fun _ _ => False
  unlock {k : Nat} {l : L} {log : List (Entry ε)} {s : τ} : At (k + 1) l log s →
    bus.unlock.Ensures s (fun _ => At k l (log ++ [.unlock (.ok ())])) fun _ _ => False
  reset {k : Nat} {l : L} {log : List (Entry ε)} {s : τ} : At k l log s →
    bus.reset.Ensures s
      (fun present s' => present = (Wire.reset l).1 ∧
        At k (Wire.reset l).2 (log ++ [.reset (.ok present)]) s')
      fun _ _ => False
  writeByte (b : Byte) {k : Nat} {l : L} {log : List (Entry ε)} {s : τ} : At k l log s →
    (bus.writeByte b).Ensures s (fun _ => At k (Wire.writeByte b l) (log ++ [written b]))
      fun _ _ => False
  readByte {k : Nat} {l : L} {log : List (Entry ε)} {s : τ} : At k l log s →
    bus.readByte.Ensures s
      (fun b s' => b = (Wire.readByte l).1 ∧ At k (Wire.readByte l).2 (log ++ [fetched b]) s')
      fun _ _ => False

namespace ByteMaster.Transcribes

section Wire

variable {τ ε L : Type} [Wire L] {bus : ByteMaster τ ε} {count : Nat}
  {At : Nat → L → List (Entry ε) → τ → Prop} {k : Nat} {l : L} {log : List (Entry ε)} {s : τ}

theorem writeBytes (h : bus.Transcribes count At) (data : List Byte) (hs : At k l log s) :
    (bus.writeBytes data).Ensures s
      (fun _ => At k (Wire.writeBits (data.flatMap Byte.bits) l) (log ++ data.map written))
      fun _ _ => False := by
  induction data generalizing l log s with
  | nil => simpa [ByteMaster.writeBytes, Wire.writeBits] using hs
  | cons b data ih =>
    unfold ByteMaster.writeBytes
    apply (h.writeByte b hs).bind
    intro _ s₁ hs₁
    rw [List.flatMap_cons, Wire.writeBits_append, List.map_cons, List.append_cons]
    exact ih hs₁

theorem issue (h : bus.Transcribes count At) (rom : Rom) (hs : At k l log s) :
    Ensures (ε := Error ε)
      (do if bus.deviceCount (← get) > 1 then bus.toMaster.issueMatch rom
          else bus.toMaster.issue .skipRom) s
      (fun _ => At k (Wire.writeBits ((rom.selection count).flatMap Byte.bits) l)
        (log ++ (rom.selection count).map written))
      fun _ _ => False := by
  rw [ensures_bind, ensures_get, h.deviceCount hs]
  unfold Rom.selection Master.issueMatch Master.issue
  split
  · rw [List.flatMap_cons, Wire.writeBits_append, List.map_cons, List.append_cons, ensures_bind,
      ensures_onBus]
    apply (h.writeByte _ hs).mono _ fun _ _ => id
    intro _ s₁ hs₁
    rw [ensures_onBus]
    exact h.writeBytes rom.toBytes.toList hs₁
  · rw [List.flatMap_singleton, List.map_singleton, ensures_onBus]
    exact h.writeByte _ hs

theorem select (h : bus.Transcribes count At) (rom : Rom) (hs : At k l log s)
    (hpresent : (Wire.reset l).1 = true) :
    (bus.toMaster.select rom).Ensures s
      (fun _ => At k (Wire.writeBits ((rom.selection count).flatMap Byte.bits) (Wire.reset l).2)
        (log ++ opening count rom))
      fun _ _ => False := by
  unfold Master.select Master.whileLocked Master.expectPresence opening
  rw [ensures_between]
  apply (h.lock hs).mono _ fun _ _ => id
  intro _ s₁ hs₁
  rw [ensures_bind, ensures_bind, ensures_onBus]
  apply (h.reset hs₁).mono _ fun _ _ => False.elim
  rintro present s₂ ⟨rfl, hs₂⟩
  rw [hpresent] at hs₂ ⊢
  apply (h.issue rom hs₂).mono _ fun _ _ => False.elim
  intro _ s₃ hs₃
  apply (h.unlock hs₃).mono _ fun _ _ => id
  intro _ s₄ hs₄
  simpa using hs₄

theorem select_absent (h : bus.Transcribes count At) (rom : Rom) (hs : At k l log s)
    (habsent : (Wire.reset l).1 = false) :
    (bus.toMaster.select rom).Ensures s (fun _ _ => False)
      (fun e s' => e = .noPresence ∧ At k (Wire.reset l).2
        (log ++ [.lock (.ok ()), .reset (.ok false), .unlock (.ok ())]) s') := by
  unfold Master.select Master.whileLocked Master.expectPresence
  rw [ensures_between]
  apply (h.lock hs).mono _ fun _ _ => False.elim
  intro _ s₁ hs₁
  rw [ensures_bind, ensures_bind, ensures_onBus]
  apply (h.reset hs₁).mono _ fun _ _ => False.elim
  rintro present s₂ ⟨rfl, hs₂⟩
  rw [habsent] at hs₂ ⊢
  apply (h.unlock hs₂).mono _ fun _ _ => False.elim
  intro _ s₃ hs₃
  refine ⟨rfl, ?_⟩
  simpa using hs₃

theorem send_absent (h : bus.Transcribes count At) (rom : Rom) (data : List Byte)
    (hs : At k l log s) (habsent : (Wire.reset l).1 = false) :
    (bus.toMaster.send rom data).Ensures s (fun _ _ => False)
      (fun e s' => e = .noPresence ∧ ∃ l', At k l' (log ++ unanswered) s') := by
  unfold Master.send Master.whileLocked unanswered
  rw [ensures_between]
  apply (h.lock hs).mono _ fun _ _ => False.elim
  intro _ s₁ hs₁
  rw [ensures_bind]
  apply (h.select_absent rom hs₁ habsent).mono fun _ _ => False.elim
  rintro _ s₂ ⟨rfl, hs₂⟩
  apply (h.unlock hs₂).mono _ fun _ _ => False.elim
  intro _ s₃ hs₃
  exact ⟨rfl, _, by simpa using hs₃⟩

theorem exchange_absent (h : bus.Transcribes count At) (rom : Rom) (data : List Byte) {n : Nat}
    (buffer : Vector Byte n) (hs : At k l log s) (habsent : (Wire.reset l).1 = false) :
    (bus.toMaster.exchange rom data n).Ensures (s, buffer) (fun _ _ => False)
      (fun e q => e = .noPresence ∧ (∃ l', At k l' (log ++ unanswered) q.1) ∧ q.2 = buffer) := by
  unfold Master.exchange Master.whileLockedBeside unanswered
  rw [ensures_between, ensures_beside]
  apply (h.lock hs).mono _ fun _ _ => False.elim
  intro _ s₁ hs₁
  rw [ensures_bind, ensures_beside]
  apply (h.select_absent rom hs₁ habsent).mono fun _ _ => False.elim
  rintro _ s₂ ⟨rfl, hs₂⟩
  rw [ensures_beside]
  apply (h.unlock hs₂).mono _ fun _ _ => False.elim
  intro _ s₃ hs₃
  exact ⟨rfl, ⟨_, by simpa using hs₃⟩, rfl⟩

end Wire

section Device

variable {τ ε : Type} {bus : ByteMaster τ ε} {count : Nat}
  {At : Nat → Line → List (Entry ε) → τ → Prop} {k : Nat} {l : Line} {log : List (Entry ε)}
  {d : Device}

theorem readBlock (h : bus.Transcribes count At) {n : Nat} {p : τ × Vector Byte n}
    (hl : l.Sends d 0) (hp : At k l log p.1) :
    (bus.toMaster.readBlock n).Ensures p
      (fun _ q => (∃ l', At k l' (log ++ (d.response n).toList.map fetched) q.1) ∧
        q.2 = d.response n)
      fun _ _ => False := by
  have hresponse : (List.range n).map (fun j => fetched (ε := ε) (d.dataByte j)) =
      (d.response n).toList.map fetched := by
    apply List.ext_getElem
    · simp
    · simp [Device.response]
  -- The first `i` bytes are logged, and byte `i` is the next that the device sends.
  refine (bus.readBlock_ensures d.dataByte
    (fun i s => ∃ l, l.Sends d (8 * i) ∧
      At k l (log ++ (List.range i).map fun j => fetched (d.dataByte j)) s)
    ?_ ⟨l, hl, by simpa using hp⟩).mono ?_ fun _ _ => id
  · rintro i - s ⟨l, hl, hs⟩
    obtain ⟨hbyte, hnext⟩ := hl.readByte
    apply (h.readByte hs).mono _ fun _ _ => id
    rintro _ s' ⟨rfl, hs'⟩
    rw [hbyte] at hs' ⊢
    exact ⟨rfl, _, hnext, by simpa [List.range_succ] using hs'⟩
  · rintro _ q ⟨⟨l', -, hq⟩, hbuffer⟩
    exact ⟨⟨l', hresponse ▸ hq⟩, hbuffer⟩

variable {s : τ}

theorem send (h : bus.Transcribes count At) (rom : Rom) (data : List Byte) (hs : At k l log s)
    (hpresent : (Wire.reset l).1 = true) :
    (bus.toMaster.send rom data).Ensures s
      (fun _ s' => ∃ l', At k l' (log ++ conversation count rom data []) s')
      fun _ _ => False := by
  unfold Master.send Master.whileLocked conversation
  rw [ensures_between]
  apply (h.lock hs).mono _ fun _ _ => id
  intro _ s₁ hs₁
  rw [ensures_bind]
  apply (h.select rom hs₁ hpresent).mono _ fun _ _ => False.elim
  intro _ s₂ hs₂
  rw [ensures_onBus]
  apply (h.writeBytes data hs₂).mono _ fun _ _ => False.elim
  intro _ s₃ hs₃
  apply (h.unlock hs₃).mono _ fun _ _ => id
  intro _ s₄ hs₄
  exact ⟨_, by simpa using hs₄⟩

theorem exchange (h : bus.Transcribes count At) (data : List Byte) {n : Nat}
    (buffer : Vector Byte n) (hs : At k l log s) (hpresent : (Wire.reset l).1 = true)
    (hl : (Wire.writeBits ((d.rom.selection count).flatMap Byte.bits) (Wire.reset l).2).Sends d 0) :
    (bus.toMaster.exchange d.rom data n).Ensures (s, buffer)
      (fun _ q =>
        (∃ l', At k l' (log ++ conversation count d.rom data (d.response n).toList) q.1) ∧
        q.2 = d.response n)
      fun _ _ => False := by
  unfold Master.exchange Master.whileLockedBeside conversation
  rw [ensures_between, ensures_beside]
  apply (h.lock hs).mono _ fun _ _ => id
  intro _ s₁ hs₁
  rw [ensures_bind, ensures_beside]
  apply (h.select d.rom hs₁ hpresent).mono _ fun _ _ => False.elim
  intro _ s₂ hs₂
  rw [ensures_bind, ensures_beside, ensures_onBus]
  apply (h.writeBytes data hs₂).mono _ fun _ _ => False.elim
  intro _ s₃ hs₃
  -- The selected device takes no notice of the data.
  rw [hl.writeBits] at hs₃
  rw [ensures_onBus]
  apply (h.readBlock hl hs₃).mono _ fun _ _ => False.elim
  rintro _ q ⟨⟨l', hq⟩, hbuffer⟩
  rw [ensures_beside]
  apply (h.unlock hq).mono _ fun _ _ => id
  intro _ s₄ hs₄
  exact ⟨⟨l', by simpa using hs₄⟩, hbuffer⟩

end Device

end ByteMaster.Transcribes

/-! ## Traced masters -/

section Traced

variable {σ ε L : Type} [Wire L] {line : σ → L} {sound : σ → Prop} {depth : σ → Nat}

/-- A sound state, locked `k` times and with the line `l` behind it, and what was logged. -/
structure Stands (line : σ → L) (sound : σ → Prop) (depth : σ → Nat) (k : Nat) (l : L)
    (entries : List (Entry ε)) (p : σ × List (Entry ε)) : Prop where
  sound : sound p.1
  depth : depth p.1 = k
  line : line p.1 = l
  log : p.2 = entries

variable {k : Nat} {l : L} {entries : List (Entry ε)} {p : σ × List (Entry ε)}

omit [Wire L] in
theorem Stands.traced {α : Type} {act : Action ε σ α} {effect : L → α × L}
    (hp : Stands line sound depth k l entries p) (hd : act.Drives line effect)
    (hw : act.Works sound depth) (entry : Except ε α → Entry ε) :
    (act.traced entry).Ensures p
      (fun a p' => a = (effect l).1 ∧
        Stands line sound depth k (effect l).2 (entries ++ [entry (.ok a)]) p')
      fun _ _ => False := by
  rw [ensures_traced]
  apply ((hw p.1 hp.sound).and (hd p.1)).mono _ fun _ _ h => h.1
  rintro a s' ⟨⟨hs', hdepth⟩, ha, hline⟩
  rw [hp.line] at ha hline
  exact ⟨ha, hs', hdepth.trans hp.depth, hline, congrArg (· ++ _) hp.log⟩

theorem Stands.lock {bus : Slots σ ε} (hp : Stands line sound depth k l entries p)
    (hd : bus.Drives line)
    (hw : bus.lock.Ensures p.1 (fun _ s' => sound s' ∧ depth s' = depth p.1 + 1)
      fun _ _ => False) :
    bus.traced.lock.Ensures p
      (fun _ => Stands line sound depth (k + 1) l (entries ++ [.lock (.ok ())]))
      fun _ _ => False := by
  apply ensures_traced.2
  apply (hw.and (hd.lock p.1)).mono _ fun _ _ h => h.1
  rintro _ s' ⟨⟨hs', hdepth⟩, -, hline⟩
  exact ⟨hs', by rw [hdepth, hp.depth], hline.trans hp.line, congrArg (· ++ _) hp.log⟩

theorem Stands.unlock {bus : Slots σ ε} (hp : Stands line sound depth (k + 1) l entries p)
    (hd : bus.Drives line)
    (hw : 0 < depth p.1 → bus.unlock.Ensures p.1
      (fun _ s' => sound s' ∧ depth s' + 1 = depth p.1) fun _ _ => False) :
    bus.traced.unlock.Ensures p
      (fun _ => Stands line sound depth k l (entries ++ [.unlock (.ok ())]))
      fun _ _ => False := by
  have hdepth := hp.depth
  apply ensures_traced.2
  apply ((hw (by omega)).and (hd.unlock p.1)).mono _ fun _ _ h => h.1
  rintro _ s' ⟨⟨hs', hdepth'⟩, -, hline⟩
  rw [hdepth] at hdepth'
  exact ⟨hs', Nat.succ.inj hdepth', hline.trans hp.line, congrArg (· ++ _) hp.log⟩

theorem Stands.readBits {bus : Slots σ ε} (hp : Stands line sound depth k l entries p)
    (hd : bus.Drives line) (hw : bus.readBit.Works sound depth) (n : Nat) :
    (bus.traced.readBits n).Ensures p
      (fun bs p' => bs = (Wire.readBits n l).1 ∧ bs.length = n ∧
        Stands line sound depth k (Wire.readBits n l).2
          (entries ++ bs.map fun b => .readBit (.ok b)) p')
      fun _ _ => False := by
  induction n generalizing l entries p with
  | zero => exact ⟨rfl, rfl, by simpa [Wire.readBits] using hp⟩
  | succ n ih =>
    unfold Slots.readBits
    apply (hp.traced hd.readBit hw .readBit).bind
    rintro _ p₁ ⟨rfl, hp₁⟩
    apply (ih hp₁).bind
    rintro _ p₂ ⟨rfl, hlength, hp₂⟩
    rw [← List.append_cons, ← List.map_cons (f := fun b => Entry.readBit (.ok b))] at hp₂
    exact ⟨rfl, by rw [List.length_cons, hlength], hp₂⟩

theorem Stands.writeBits {bus : Slots σ ε} (hp : Stands line sound depth k l entries p)
    (hd : bus.Drives line) (hw : ∀ b, (bus.writeBit b).Works sound depth) (bs : List Bool) :
    (bus.traced.writeBits bs).Ensures p
      (fun _ => Stands line sound depth k (Wire.writeBits bs l)
        (entries ++ bs.map fun b => .writeBit b (.ok ())))
      fun _ _ => False := by
  induction bs generalizing l entries p with
  | nil => simpa [Slots.writeBits, Wire.writeBits] using hp
  | cons b bs ih =>
    unfold Slots.writeBits
    apply (hp.traced (hd.writeBit b) (hw b) (.writeBit b)).bind
    rintro _ p₁ ⟨-, hp₁⟩
    rw [List.map_cons, List.append_cons]
    exact ih hp₁

variable {count : Nat}

theorem traced_transcribes {bus : ByteMaster σ ε} (hd : bus.Drives line)
    (hf : bus.toMaster.Faultless sound depth) (hread : bus.readByte.Works sound depth)
    (hcount : ∀ s, sound s → bus.deviceCount s = count) :
    bus.traced.Transcribes count fun k l log => Stands line sound depth k l log where
  deviceCount hp := hcount _ hp.sound
  lock hp := hp.lock hd.toDrives (hf.lock _ hp.sound)
  unlock hp := hp.unlock hd.toDrives (hf.unlock _ hp.sound)
  reset hp := hp.traced hd.reset hf.reset .reset
  writeByte b _ _ _ _ hp :=
    (hp.traced (hd.writeByte b) (hf.writeByte b) (.writeByte b)).mono (fun _ _ h => h.2)
      fun _ _ => id
  readByte hp := hp.traced hd.readByte hread .readByte

theorem traced_slots_transcribes {bus : Slots σ ε} (hd : bus.Drives line)
    (hf : bus.toMaster.Faultless sound depth)
    (hcount : ∀ s, sound s → bus.deviceCount s = count) :
    bus.traced.toByteMaster.Transcribes count fun k l log =>
      Stands line sound depth k l (log.flatMap Entry.bitwise) where
  deviceCount hp := hcount _ hp.sound
  lock hp := by
    simp only [List.flatMap_append, List.flatMap_singleton]
    exact hp.lock hd (hf.lock _ hp.sound)
  unlock hp := by
    simp only [List.flatMap_append, List.flatMap_singleton]
    exact hp.unlock hd (hf.unlock _ hp.sound)
  reset hp := by
    simp only [List.flatMap_append, List.flatMap_singleton]
    exact hp.traced hd.reset hf.reset .reset
  writeByte b _ _ _ _ hp := by
    simp only [List.flatMap_append, List.flatMap_singleton]
    exact hp.writeBits hd hf.writeBit b.bits
  readByte hp := by
    apply (hp.readBits hd hf.readBit 8).bind
    rintro _ p' ⟨rfl, hlength, hp'⟩
    rw [← Byte.bits_ofBits hlength] at hp'
    simp only [List.flatMap_append, List.flatMap_singleton]
    exact ⟨rfl, hp'⟩

end Traced

/-! ## Devices on a line -/

/-- What transactions with the devices on a line come to, and what `bus` logs of them. -/
structure Converses {σ ε : Type} (bus : Master (σ × List (Entry ε)) ε)
    (spell : Entry ε → List (Entry ε)) (count : Nat) (devices : List Device) (s : σ) : Prop where
  send : ∀ d ∈ devices, ∀ data, ∃ s',
    bus.send d.rom data (s, []) =
      .ok () (s', (conversation count d.rom data []).flatMap spell)
  exchange : ∀ d ∈ devices, ∀ data n buffer, ∃ s',
    bus.exchange d.rom data n ((s, []), buffer) =
      .ok ()
        ((s', (conversation count d.rom data (d.response n).toList).flatMap spell), d.response n)
  send_absent : devices = [] → ∀ rom data, ∃ s',
    bus.send rom data (s, []) = .error .noPresence (s', unanswered)
  exchange_absent : devices = [] → ∀ rom data n buffer, ∃ s',
    bus.exchange rom data n ((s, []), buffer) =
      .error .noPresence ((s', unanswered), buffer)

theorem ByteMaster.Transcribes.converses {σ ε : Type} {bus : ByteMaster (σ × List (Entry ε)) ε}
    {line : σ → Line} {sound : σ → Prop} {depth : σ → Nat} {count : Nat}
    {spell : Entry ε → List (Entry ε)}
    (h : bus.Transcribes count fun k l log => Stands line sound depth k l (log.flatMap spell))
    (hspell : unanswered.flatMap spell = unanswered) {s : σ} (hs : sound s)
    (hleft : (line s).resetsLeft ≠ some 0) (hdistinct : ((line s).devices.map (·.rom)).Nodup)
    (hfew : (line s).devices.length ≤ max 1 count) :
    Converses bus.toMaster spell count (line s).devices s := by
  have hstart : Stands (ε := ε) line sound depth (depth s) (line s) ([].flatMap spell) (s, []) :=
    ⟨hs, rfl, rfl, rfl⟩
  constructor
  · intro d hd data
    have hpresent := Line.reset_fst_of_mem hleft hd
    obtain ⟨_, ⟨s', _⟩, hsend, _, -, -, -, rfl⟩ := (h.send d.rom data hstart hpresent).returns
    exact ⟨s', hsend⟩
  · intro d hd data n buffer
    have hpresent := Line.reset_fst_of_mem hleft hd
    have hsends := Line.selection_sends hleft hdistinct hfew hd
    obtain ⟨_, ⟨⟨s', _⟩, _⟩, hexchange, ⟨_, -, -, -, rfl⟩, rfl⟩ :=
      (h.exchange data buffer hstart hpresent hsends).returns
    exact ⟨s', hexchange⟩
  · intro hnone rom data
    have habsent := Line.reset_fst_of_nil hnone
    obtain ⟨_, ⟨s', _⟩, hsend, rfl, _, -, -, -, rfl⟩ :=
      (h.send_absent rom data hstart habsent).fails
    rw [List.nil_append, hspell] at hsend
    exact ⟨s', hsend⟩
  · intro hnone rom data n buffer
    have habsent := Line.reset_fst_of_nil hnone
    obtain ⟨_, ⟨⟨s', _⟩, _⟩, hexchange, rfl, ⟨_, -, -, -, rfl⟩, rfl⟩ :=
      (h.exchange_absent rom data buffer hstart habsent).fails
    rw [List.nil_append, hspell] at hexchange
    exact ⟨s', hexchange⟩

/--
Among devices that are told apart, and are no more than the board declares, an exchange with one
reads the response of that one and of no other. It resets the line once, selects the device, and
writes the data and nothing else. With no device on the line it fails and writes nothing. A master
that has only slots makes the same bytes bit by bit.
-/
theorem exchange_delivers {σ ε : Type} {bus : ByteMaster σ ε} {line : σ → Line}
    {sound : σ → Prop} {depth : σ → Nat} {count : Nat} (hd : bus.Drives line)
    (hf : bus.toMaster.Faultless sound depth) (hread : bus.readByte.Works sound depth)
    (hcount : ∀ s, sound s → bus.deviceCount s = count) {s : σ} (hs : sound s)
    (hleft : (line s).resetsLeft ≠ some 0) (hdistinct : ((line s).devices.map (·.rom)).Nodup)
    (hfew : (line s).devices.length ≤ max 1 count) :
    Converses bus.traced.toMaster (fun e => [e]) count (line s).devices s ∧
      ∀ bits : Slots σ ε, bus = bits.toByteMaster →
        Converses bits.traced.toMaster Entry.bitwise count (line s).devices s := by
  constructor
  · have htranscribes : bus.traced.Transcribes count fun k l log =>
        Stands line sound depth k l (log.flatMap fun e => [e]) := by
      simpa only [List.flatMap_singleton'] using traced_transcribes hd hf hread hcount
    exact htranscribes.converses rfl hs hleft hdistinct hfew
  · rintro bits rfl
    exact (traced_slots_transcribes hd.toDrives hf hcount).converses rfl hs hleft hdistinct hfew

/-- A device that has one byte to send. -/
def terse : Device := { rom := .ofWireBits 0x19, data := [0xA5] }

/-- Two devices, declared as two. -/
def couple : Bench Line where
  line := .ofDevices [terse, { rom := .ofWireBits 6 }]
  meter := { plan := fun _ _ => false }
  declared := 2

/-- The second byte of the response is past its end. -/
theorem exchange_delivers_couple :
    ∃ b' : Bench Line,
      Bench.slots.traced.toMaster.exchange terse.rom [0x44] 2 ((couple, []), .replicate 2 0) =
        .ok () ((b', (conversation 2 terse.rom [0x44] [0xA5, 0xFF]).flatMap Entry.bitwise),
          #v[0xA5, 0xFF]) := by
  have hresponse : terse.response 2 = #v[0xA5, 0xFF] := by decide
  have hworks := Bench.bitHost_faultless_declares (L := Line) 2
  have hdelivers := exchange_delivers Bench.bitHost_drives hworks
    (Slots.readByte_works hworks.readBit) (fun _ hb => hb.declared) (s := couple)
    ⟨fun _ _ => rfl, rfl⟩ (by decide) (by decide) (by decide)
  obtain ⟨b', hexchange⟩ :=
    (hdelivers.2 Bench.slots rfl).exchange terse (.head _) [0x44] 2 (.replicate 2 0)
  rw [hresponse] at hexchange
  exact ⟨b', hexchange⟩

end OneWire
