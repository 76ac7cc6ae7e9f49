import OneWire.Bench.Board
import OneWire.Proofs.Ds2484.Chip

/-!
# The DS2484 on the bench

A chip on a board without faults does what the host relies on, if it is awake and not busy for too
long, and if its noise leaves the bits alone that tell how a request went.
-/

namespace OneWire.Bench

open OneWire.Action Ds2484

variable {L α : Type}

/-! ## The chip -/

def Chip.view (chip : Chip) (line : L) : View L where
  line := line
  pointer := chip.pointer
  data := chip.data
  busy := chip.busyLeft
  status := (· = chip.status ||| chip.noise)

/-- The host will find the chip, and will understand its status. -/
structure Chip.Fits (c : Config) (chip : Chip) : Prop where
  address : chip.address = c.address
  busy : chip.busy < c.pollLimit
  busyNoise : isBusy chip.noise = false
  presenceNoise : hasPresence chip.noise = false
  sampleNoise : sampled chip.noise = false
  status : isBusy chip.status = false

namespace Chip.Fits

variable {c : Config} {chip : Chip}

theorem finish (h : chip.Fits c) (status : Byte) (hstatus : isBusy status = false) :
    (chip.finish status).Fits c :=
  { h with status := hstatus }

theorem takes [Wire L] (h : chip.Fits c) (p : Primitive) (line : L) :
    ∃ chip' line', chip.write p.bytes line = some (chip', line') ∧ chip'.Fits c ∧
      Takes c.pollLimit p (chip.view line) (chip'.view line') := by
  cases p with
  | reset =>
    refine ⟨chip.finish (if (Wire.reset line).1 then 0x02 else 0), (Wire.reset line).2, rfl,
      h.finish _ (by split <;> rfl), rfl, rfl, rfl, h.busy, ?_⟩
    rintro _ rfl
    simp only [Primitive.Tells, view, Chip.finish, hasPresence_or, h.presenceNoise, Bool.or_false]
    cases (Wire.reset line).1 <;> rfl
  | slot b =>
    refine ⟨chip.finish (if (Wire.slot b line).1 then 0x20 else 0), (Wire.slot b line).2, ?_,
      h.finish _ (by split <;> rfl), rfl, rfl, rfl, h.busy, ?_⟩
    · cases b <;> rfl
    · rintro _ rfl
      simp only [Primitive.Tells, view, Chip.finish, sampled_or, h.sampleNoise, Bool.or_false]
      cases (Wire.slot b line).1 <;> rfl
  | writeByte b =>
    exact ⟨chip.finish 0, Wire.writeByte b line, rfl, h.finish 0 rfl, rfl, rfl, rfl, h.busy,
      fun _ _ => trivial⟩
  | readByte =>
    exact ⟨{ chip.finish 0 with data := (Wire.readByte line).1 }, (Wire.readByte line).2, rfl,
      { h.finish 0 rfl with }, rfl, rfl, rfl, h.busy, fun _ _ => trivial⟩

theorem gives (h : chip.Fits c) (line : L) :
    (chip.read).2.Fits c ∧ Gives (chip.view line) chip.read.1 (chip.read.2.view line) := by
  unfold Chip.read
  split
  · rename_i hpointer
    split
    · rename_i hbusy
      exact ⟨h, .idle hpointer hbusy (by simp [h.status, h.busyNoise]) rfl⟩
    · rename_i n hbusy
      exact ⟨{ h with }, .busy hpointer hbusy (by simp [isBusy])⟩
  · rename_i hstatus
    split
    · exact ⟨h, .data ‹_›⟩
    · rename_i hdata
      split
      · exact ⟨h, .other hstatus hdata⟩
      · exact ⟨h, .other hstatus hdata⟩

end Chip.Fits

/-! ## The board -/

namespace Board

def view (b : Board L) : View L :=
  match b.peer with
  | .chip chip => chip.view b.line
  | .recording _ _ => Chip.view {} b.line

/-- No access is to fail, and the chip is awake. -/
structure Sound (c : Config) (b : Board L) : Prop where
  quiet (m : Access) (n : Nat) : b.meter.plan m n = false
  awake : b.pin ≠ some false
  chip : ∃ chip, b.peer = .chip chip ∧ chip.Fits c

theorem ensures_access {m : Access} {failed : BoardEvent}
    {act : Board L → Option (α × BoardEvent × Board L)} {b : Board L} {ok : α → Board L → Prop}
    {c : Config} (hb : b.Sound c)
    (h : ∃ a e b', act { b with meter := b.meter.tick m } = some (a, e, b') ∧ ok a (b'.note e)) :
    (access m failed act).Ensures b ok fun _ _ => False := by
  obtain ⟨a, e, b', hact, hok⟩ := h
  unfold Ensures access
  simp only [FaultMeter.fails, hb.quiet, hact]
  exact hok

theorem ensures_write [Wire L] {c : Config} {bytes : List Byte} {b : Board L} {chip chip' : Chip}
    {line' : L} (hb : b.Sound c) (hpeer : b.peer = .chip chip) (hfits : chip.Fits c)
    (hwrite : chip.write bytes b.line = some (chip', line')) (hfits' : chip'.Fits c) :
    (write c.address bytes).Ensures b (fun _ b' => b'.Sound c ∧ b'.view = chip'.view line')
      fun _ _ => False := by
  refine ensures_access hb ⟨(), .write c.address bytes,
    { b with meter := b.meter.tick .write, peer := .chip chip', line := line' }, ?_,
    ⟨hb.quiet, hb.awake, chip', rfl, hfits'⟩, rfl⟩
  simp [hpeer, hears, hfits.address, hb.awake, hwrite]

theorem ensures_read {c : Config} {b : Board L} {chip : Chip} (hb : b.Sound c)
    (hpeer : b.peer = .chip chip) (hfits : chip.Fits c) :
    (read c.address).Ensures b
      (fun byte b' => byte = chip.read.1 ∧ b'.Sound c ∧ b'.view = chip.read.2.view b.line)
      fun _ _ => False := by
  refine ensures_access hb ⟨chip.read.1, .read c.address chip.read.1,
    { b with meter := b.meter.tick .read, peer := .chip chip.read.2 }, ?_, rfl,
    ⟨hb.quiet, hb.awake, chip.read.2, rfl, (hfits.gives b.line).1⟩, rfl⟩
  simp [hpeer, hears, hfits.address, hb.awake]

theorem serves [Wire L] {pin : SleepPin} (hpin : pin ≠ .driven) (c : Config) :
    Serves (wiring pin : Wiring (Board L)) c delay view (Sound c) where
  request p b hb := by
    obtain ⟨chip, hpeer, hfits⟩ := hb.chip
    obtain ⟨chip', line', hwrite, hfits', htakes⟩ := hfits.takes p b.line
    refine (ensures_write hb hpeer hfits hwrite hfits').mono ?_ fun _ _ => id
    rintro _ b' ⟨hb', hview⟩
    rw [hview, view, hpeer]
    exact ⟨hb', htakes⟩
  point pointer b hb := by
    obtain ⟨chip, hpeer, hfits⟩ := hb.chip
    have hfits' : Chip.Fits c { chip with pointer } := { hfits with }
    refine (ensures_write hb hpeer hfits rfl hfits').mono ?_ fun _ _ => id
    rintro _ b' ⟨hb', hview⟩
    rw [hview, view, hpeer]
    exact ⟨hb', rfl⟩
  read b hb := by
    obtain ⟨chip, hpeer, hfits⟩ := hb.chip
    refine (ensures_read hb hpeer hfits).mono ?_ fun _ _ => id
    rintro _ b' ⟨rfl, hb', hview⟩
    rw [hview, view, hpeer]
    exact ⟨hb', (hfits.gives b.line).2⟩
  setPin {set} hset high b hb := by
    cases pin with
    | absent => contradiction
    | tied =>
      cases hset
      exact ⟨hb, rfl⟩
    | driven => contradiction
  delay _ _ hb := ⟨{ hb with }, rfl⟩

end Board

end OneWire.Bench
