import OneWire.Proofs.Master.Drive
import OneWire.Proofs.Master.Keeps
import OneWire.Proofs.Trace.Logs

/-!
# Blocks from bits

A master that makes its blocks from bits stops at the first bit that fails. What it then has read or
written is told by the bits before that one.
-/

namespace OneWire

open OneWire.Action

variable {σ ε : Type} {n : Nat}

/-! ## Calls -/

section Makes

variable {ε' τ : Type}

/--
From `s` the action leaves in the log, behind those `before`, calls that have `P` with its outcome
and the state it leaves.
-/
def Action.Makes (log : τ → List (Entry ε)) (before : List (Entry ε)) (act : Action ε' τ Unit)
    (s : τ) (P : Except ε' Unit → List (Entry ε) → τ → Prop) : Prop :=
  act.Ensures s (fun _ q => ∃ entries, log q = before ++ entries ∧ P (.ok ()) entries q)
    fun e q => ∃ entries, log q = before ++ entries ∧ P (.error e) entries q

variable {log : τ → List (Entry ε)} {before : List (Entry ε)} {act : Action ε' τ Unit} {s : τ}
  {P Q : Except ε' Unit → List (Entry ε) → τ → Prop}

theorem Action.Makes.after {front : List (Entry ε)} (h : act.Makes log (before ++ front) s P)
    (hPQ : ∀ o entries q, P o entries q → Q o (front ++ entries) q) :
    act.Makes log before s Q := by
  apply Ensures.mono h
  · rintro _ q ⟨entries, hlog, hP⟩
    exact ⟨front ++ entries, by rw [hlog, List.append_assoc], hPQ _ _ _ hP⟩
  · rintro e q ⟨entries, hlog, hP⟩
    exact ⟨front ++ entries, by rw [hlog, List.append_assoc], hPQ _ _ _ hP⟩

theorem Action.Makes.outcome (h : act.Makes log before s P) :
    ∃ entries, log (act.attempt s).2 = before ++ entries ∧
      P (act.attempt s).1 entries (act.attempt s).2 :=
  Ensures.outcome (P := fun o q => ∃ entries, log q = before ++ entries ∧ P o entries q) h

end Makes

/-! ## Bits -/

def Entry.sentBit? : Entry ε → Option Bool
  | writeBit b (.ok _) => some b
  | _ => none

/-- What becomes of reading `total` bits: the outcome, the bits that arrive and the calls. -/
inductive BitsRead (total : Nat) : Except ε Unit → List Bool → List (Entry ε) → Prop
  | all {bits : List Bool} (h : bits.length = total) :
      BitsRead total (.ok ()) bits (bits.map fun b => .readBit (.ok b))
  | failed {bits : List Bool} (h : bits.length < total) (e : ε) :
      BitsRead total (.error e) bits ((bits.map fun b => .readBit (.ok b)) ++ [.readBit (.error e)])

/-- What becomes of writing `bits`: the outcome and the calls. -/
inductive BitsWritten (bits : List Bool) : Except ε Unit → List (Entry ε) → Prop
  | all : BitsWritten bits (.ok ()) (bits.map fun b => .writeBit b (.ok ()))
  | failed (before : List Bool) {after : List Bool} {b : Bool} (h : bits = before ++ b :: after)
      (e : ε) :
      BitsWritten bits (.error e)
        ((before.map fun b => .writeBit b (.ok ())) ++ [.writeBit b (.error e)])

namespace BitsRead

variable {total total' : Nat} {outcome : Except ε Unit} {bits bits' : List Bool}
  {entries entries' : List (Entry ε)}

theorem length_entries (h : BitsRead total outcome bits entries) :
    entries.length = min (bits.length + 1) total := by
  cases h with
  | all h => simp; omega
  | failed h => simp; omega

theorem length_of_ok (h : BitsRead total (.ok ()) bits entries) : bits.length = total := by
  cases h with
  | all h => exact h

theorem length_of_error {e : ε} (h : BitsRead total (.error e) bits entries) :
    bits.length < total := by
  cases h with
  | failed h => exact h

theorem widen {e : ε} (h : BitsRead total (.error e) bits entries) (hle : total ≤ total') :
    BitsRead total' (.error e) bits entries := by
  cases h with
  | failed h => exact .failed (h.trans_le hle) e

theorem append (h : BitsRead total (.ok ()) bits entries)
    (h' : BitsRead total' outcome bits' entries') :
    BitsRead (total + total') outcome (bits ++ bits') (entries ++ entries') := by
  cases h with
  | all h =>
    cases h' with
    | all h' =>
      rw [← List.map_append]
      exact .all (by simp [h, h'])
    | failed h' e =>
      rw [← List.append_assoc, ← List.map_append]
      exact .failed (by simp [h, h']) e

end BitsRead

theorem BitsWritten.cons {bits : List Bool} {outcome : Except ε Unit} {entries : List (Entry ε)}
    (h : BitsWritten bits outcome entries) (b : Bool) :
    BitsWritten (b :: bits) outcome ([.writeBit b (.ok ())] ++ entries) := by
  cases h with
  | all => exact .all
  | failed before h e =>
    subst h
    exact .failed (b :: before) rfl e

theorem BitsWritten.sent {bits : List Bool} {entries : List (Entry ε)}
    (h : BitsWritten bits (.ok ()) entries) : entries.filterMap Entry.sentBit? = bits := by
  cases h with
  | all => simp [List.filterMap_map, Function.comp_def, Entry.sentBit?]

namespace Slots

theorem readBits_reads (bus : Slots σ ε) (n : Nat) (p : σ × List (Entry ε)) :
    (bus.traced.readBits n).Ensures p
      (fun bits q => ∃ entries, q.2 = p.2 ++ entries ∧ BitsRead n (.ok ()) bits entries)
      fun e q => ∃ bits entries, q.2 = p.2 ++ entries ∧ BitsRead n (.error e) bits entries := by
  induction n generalizing p with
  | zero => exact ⟨[], (List.append_nil _).symm, .all rfl⟩
  | succ n ih =>
    unfold readBits
    rw [ensures_bind, Nat.add_comm]
    refine .traced (fun b s => ?_) fun e s => ?_
    · have hbit : BitsRead 1 (.ok () : Except ε Unit) [b] [.readBit (.ok b)] := .all rfl
      rw [ensures_bind]
      apply (ih _).mono
      · rintro bits q ⟨entries, hlog, h⟩
        exact ⟨_, by simp [hlog], hbit.append h⟩
      · rintro e q ⟨bits, entries, hlog, h⟩
        exact ⟨_, _, by simp [hlog], hbit.append h⟩
    · exact ⟨[], _, rfl, .failed (by simp) e⟩

theorem writeBits_writes (bus : Slots σ ε) (bits : List Bool) (p : σ × List (Entry ε)) :
    (bus.traced.writeBits bits).Makes Prod.snd p.2 p
      fun outcome entries _ => BitsWritten bits outcome entries := by
  induction bits generalizing p with
  | nil => exact ⟨[], (List.append_nil _).symm, .all⟩
  | cons b bits ih =>
    unfold writeBits Makes
    rw [ensures_bind]
    refine .traced (fun _ s => ?_) fun e s => ⟨_, rfl, .failed [] rfl e⟩
    exact (ih (s, p.2 ++ [.writeBit b (.ok ())])).after
      (Q := fun outcome entries _ => BitsWritten (b :: bits) outcome entries)
      fun _ _ _ h => h.cons b

theorem writeBits_append (bus : Slots σ ε) (bits bits' : List Bool) :
    bus.writeBits (bits ++ bits') = bus.writeBits bits >>= fun _ => bus.writeBits bits' := by
  induction bits with
  | nil => rfl
  | cons b bits ih =>
    rw [List.cons_append, writeBits, ih, writeBits, bind_assoc]

theorem writeBlock_eq (bus : Slots σ ε) (data : List Byte) :
    bus.toMaster.writeBlock data = bus.writeBits (data.flatMap Byte.bits) := by
  change bus.toByteMaster.writeBytes data = _
  induction data with
  | nil => rfl
  | cons b data ih =>
    rw [ByteMaster.writeBytes, ih, List.flatMap_cons, writeBits_append]
    rfl

theorem writeBlock_writes (bus : Slots σ ε) (data : List Byte) (p : σ × List (Entry ε)) :
    (bus.traced.toMaster.writeBlock data).Makes Prod.snd p.2 p
      fun outcome entries _ => BitsWritten (data.flatMap Byte.bits) outcome entries :=
  bus.traced.writeBlock_eq data ▸ bus.writeBits_writes (data.flatMap Byte.bits) p

end Slots

/-! ## Buffers -/

/-- The buffer after `bits` arrived: the bytes that are complete are new. -/
structure Filled (buffer : Vector Byte n) (bits : List Bool) (buffer' : Vector Byte n) : Prop where
  read {j : Nat} (hj : j < n) (h : 8 * (j + 1) ≤ bits.length) {i : Nat} (hi : i < 8) :
    bits[8 * j + i]? = some (buffer'[j].getLsbD i)
  kept {j : Nat} (hj : j < n) (h : bits.length < 8 * (j + 1)) : buffer'[j] = buffer[j]

namespace Filled

variable {buffer buffer' : Vector Byte n} {bits bits' : List Bool} {i : Nat}

theorem nil : Filled buffer [] buffer where
  read _ h := by simp at h
  kept _ _ := rfl

theorem append_partial (h : Filled buffer bits buffer') (hbits : bits.length = 8 * i)
    (hbits' : bits'.length < 8) : Filled buffer (bits ++ bits') buffer' where
  read {j} hj hlength {k} hk := by
    rw [List.length_append] at hlength
    rw [List.getElem?_append_left (by omega)]
    exact h.read hj (by omega) hk
  kept {j} hj hlength := by
    rw [List.length_append] at hlength
    exact h.kept hj (by omega)

theorem append_byte (h : Filled buffer bits buffer') (hbits : bits.length = 8 * i) (hi : i < n)
    (hbits' : bits'.length = 8) :
    Filled buffer (bits ++ bits') (buffer'.set i (.ofBits bits')) where
  read {j} hj hlength {k} hk := by
    rw [List.length_append] at hlength
    by_cases hij : i = j
    · subst hij
      rw [List.getElem?_append_right (by omega), Vector.getElem_set_self,
        Byte.getLsbD_ofBits _ hk, List.getD_eq_getElem?_getD, hbits, Nat.add_sub_cancel_left,
        List.getElem?_eq_getElem (by omega), Option.getD_some]
    · rw [List.getElem?_append_left (by omega), Vector.getElem_set_ne hi hj hij]
      exact h.read hj (by omega) hk
  kept {j} hj hlength := by
    rw [List.length_append] at hlength
    rw [Vector.getElem_set_ne hi hj (by omega)]
    exact h.kept hj (by omega)

end Filled

/-- Reading a block stops at the first bit that fails, and fills the bytes complete by then. -/
def BlockRead (buffer : Vector Byte n) (outcome : Except ε Unit) (entries : List (Entry ε))
    (buffer' : Vector Byte n) : Prop :=
  ∃ bits, BitsRead (8 * n) outcome bits entries ∧
    entries.length = min (bits.length + 1) (8 * n) ∧ Filled buffer bits buffer'

namespace Slots

theorem readByte_reads (bus : Slots σ ε) (p : σ × List (Entry ε)) :
    bus.traced.toByteMaster.readByte.Ensures p
      (fun b q => ∃ bits entries, b = .ofBits bits ∧ q.2 = p.2 ++ entries ∧
        BitsRead 8 (.ok ()) bits entries)
      fun e q => ∃ bits entries, q.2 = p.2 ++ entries ∧ BitsRead 8 (.error e) bits entries := by
  refine ensures_bind.2 ((bus.readBits_reads 8 p).mono ?_ fun _ _ => id)
  rintro bits q ⟨entries, hlog, h⟩
  exact ⟨bits, entries, rfl, hlog, h⟩

theorem fill_reads (bus : Slots σ ε) (buffer : Vector Byte n) (places : List (Fin n)) {i : Nat}
    (hplaces : places.map (·.val) = List.range' i places.length) {bits : List Bool}
    (hbits : bits.length = 8 * i) {p : (σ × List (Entry ε)) × Vector Byte n}
    (hp : Filled buffer bits p.2) :
    (bus.traced.toByteMaster.fill places).Makes (fun q => q.1.2) p.1.2 p
      fun outcome entries q => ∃ more, BitsRead (8 * places.length) outcome more entries ∧
        Filled buffer (bits ++ more) q.2 := by
  induction places generalizing i bits p with
  | nil => exact ⟨[], by simp, [], .all rfl, by simpa using hp⟩
  | cons place places ih =>
    rw [List.map_cons, List.length_cons, List.range'_succ, List.cons.injEq] at hplaces
    obtain ⟨rfl, hrest⟩ := hplaces
    rw [List.length_cons, Nat.mul_add_one, Nat.add_comm]
    unfold ByteMaster.fill Makes
    rw [ensures_bind, ensures_beside]
    apply (bus.readByte_reads p.1).mono
    · rintro _ q ⟨byte, entries, rfl, hlog, hbyte⟩
      have hlength := hbyte.length_of_ok
      have hbits' : (bits ++ byte).length = 8 * (place + 1) := by
        rw [List.length_append]
        omega
      rw [ensures_bind, ensures_modify]
      have hfill := ih hrest hbits' (p := (q, p.2.set place (.ofBits byte)))
        (hp.append_byte hbits place.isLt hlength)
      rw [hlog] at hfill
      refine hfill.after (Q := fun outcome entries q => ∃ more,
        BitsRead (8 + 8 * places.length) outcome more entries ∧ Filled buffer (bits ++ more) q.2) ?_
      rintro o entries' q' ⟨more, hmore, hfilled⟩
      exact ⟨byte ++ more, hbyte.append hmore, by rwa [← List.append_assoc]⟩
    · rintro e q ⟨byte, entries, hlog, hbyte⟩
      exact ⟨entries, hlog, byte, hbyte.widen (by omega),
        hp.append_partial hbits hbyte.length_of_error⟩

theorem readBlock_reads (bus : Slots σ ε) (p : (σ × List (Entry ε)) × Vector Byte n) :
    (bus.traced.toMaster.readBlock n).Makes (fun q => q.1.2) p.1.2 p
      fun outcome entries q => BlockRead p.2 outcome entries q.2 := by
  have hfill := bus.fill_reads p.2 (List.finRange n) (ByteMaster.places_finRange n) rfl (p := p) .nil
  rw [List.length_finRange, ← List.append_nil p.1.2] at hfill
  refine hfill.after ?_
  rintro o entries q ⟨bits, h, hfilled⟩
  exact ⟨bits, h, h.length_entries, hfilled⟩

/-! ## What was written, read back -/

theorem readBits_split (bus : Slots σ ε) {bits bits' : List Bool} {m : Nat} {s t : σ}
    (h : bus.readBits (bits.length + m) s = .ok (bits ++ bits') t) :
    ∃ s', bus.readBits bits.length s = .ok bits s' ∧ bus.readBits m s' = .ok bits' t := by
  induction bits generalizing s with
  | nil => exact ⟨s, rfl, by simpa using h⟩
  | cons b bits ih =>
    rw [List.length_cons, Nat.add_right_comm, readBits] at h
    rw [List.length_cons, readBits]
    simp only [Bind.bind, EStateM.bind, Pure.pure, EStateM.pure] at h ⊢
    cases hbit : bus.readBit s with
    | error e s₁ => simp [hbit] at h
    | ok b' s₁ =>
      simp only [hbit] at h ⊢
      cases hrest : bus.readBits (bits.length + m) s₁ with
      | error e s₂ => simp [hrest] at h
      | ok more s₂ =>
        simp only [hrest, List.cons_append, EStateM.Result.ok.injEq, List.cons.injEq] at h
        obtain ⟨⟨rfl, rfl⟩, rfl⟩ := h
        obtain ⟨s', hfirst, hsecond⟩ := ih hrest
        exact ⟨s', by simp only [hfirst], hsecond⟩

theorem readBlock_of_readBits (bus : Slots σ ε) (data : Vector Byte n) {s t : σ}
    (h : bus.readBits (8 * n) s = .ok (data.toList.flatMap Byte.bits) t) (buffer : Vector Byte n) :
    bus.toMaster.readBlock n (s, buffer) = .ok () (t, data) := by
  -- After `i` bytes the bits to come are those of the bytes from `i` on.
  let At (i : Nat) (s : σ) : Prop :=
    bus.readBits (8 * (n - i)) s = .ok ((data.toList.drop i).flatMap Byte.bits) t
  have hread : ∀ i < n, ∀ s, At i s →
      bus.toByteMaster.readByte.Ensures s
        (fun b s' => b = data.toList.getD i 0 ∧ At (i + 1) s') fun _ _ => False := by
    intro i hi s hs
    have hn : 8 * (n - i) = data[i].bits.length + 8 * (n - (i + 1)) := by
      rw [Byte.length_bits]
      omega
    have hdrop : data.toList.drop i = data[i] :: data.toList.drop (i + 1) := by
      rw [List.drop_eq_getElem_cons (by simpa using hi), Vector.getElem_toList]
    simp only [At, hn, hdrop, List.flatMap_cons] at hs
    obtain ⟨s', hbyte, hs'⟩ := bus.readBits_split hs
    rw [Byte.length_bits] at hbyte
    have hresult : bus.toByteMaster.readByte s = .ok (.ofBits data[i].bits) s' := by
      simp only [toByteMaster, Bind.bind, EStateM.bind, hbyte, Pure.pure, EStateM.pure]
    unfold Ensures
    rw [hresult]
    exact ⟨by simp [Byte.ofBits_bits, hi], hs'⟩
  obtain ⟨_, ⟨t', data'⟩, hresult, ht, hdata⟩ :=
    (bus.toByteMaster.readBlock_ensures (fun i => data.toList.getD i 0) At hread
      (p := (s, buffer)) h).returns
  simp only [At, Nat.sub_self, Nat.mul_zero, readBits, pure, EStateM.pure,
    EStateM.Result.ok.injEq] at ht
  obtain ⟨-, rfl⟩ := ht
  have hdata' : data' = data := by
    change data' = _ at hdata
    rw [hdata]
    ext i hi
    simp
  rw [← hdata']
  exact hresult

end Slots

/-! ## Exchanges -/

def Entry.isReadBit : Entry ε → Bool
  | readBit _ => true
  | _ => false

/-- Nothing has been read since the log was `log`. -/
def Unread (log : List (Entry ε)) (p : σ × List (Entry ε)) : Prop :=
  ∃ entries, p.2 = log ++ entries ∧ ∀ e ∈ entries, e.isReadBit = false

theorem Unread.concat {log : List (Entry ε)} {p : σ × List (Entry ε)} (h : Unread log p)
    {e : Entry ε} (he : e.isReadBit = false) (s : σ) : Unread log (s, p.2 ++ [e]) := by
  obtain ⟨entries, hlog, hentries⟩ := h
  exact ⟨entries ++ [e], by simp [hlog], List.forall_mem_append.2 ⟨hentries, by simpa using he⟩⟩

theorem keeps_unread {α : Type} (log : List (Entry ε)) {entry : Except ε α → Entry ε}
    (h : ∀ o, (entry o).isReadBit = false) (act : Action ε σ α) :
    (act.traced entry).Keeps (Unread log) := by
  intro p hp
  exact .traced (fun a s => hp.concat (h _) s) fun e s => hp.concat (h _) s

/-- The master with reads that make no slots. -/
def Master.mute (bus : Master σ ε) : Master σ ε :=
  { bus with readBit := pure false, readByte := pure 0, readBlock := fun _ => pure () }

theorem Slots.mute_keeps (bus : Slots σ ε) (log : List (Entry ε)) :
    bus.traced.toMaster.mute.Keeps (Unread log) where
  reset := keeps_unread log (fun _ => rfl) bus.reset
  readBit := fun _ => id
  writeBit b := keeps_unread log (fun _ => rfl) (bus.writeBit b)
  lock := keeps_unread log (fun _ => rfl) bus.lock
  unlock := keeps_unread log (fun _ => rfl) bus.unlock
  resume := keeps_unread log (fun _ => rfl) bus.resume
  suspend := keeps_unread log (fun _ => rfl) bus.suspend
  readByte := fun _ => id
  writeByte := writeByte_keeps fun b => keeps_unread log (fun _ => rfl) (bus.writeBit b)
  readBlock := fun _ _ => id
  writeBlock := ByteMaster.writeBlock_keeps
    (writeByte_keeps fun b => keeps_unread log (fun _ => rfl) (bus.writeBit b))

/-- What becomes of the buffer of an exchange. -/
inductive ExchangeRead (buffer : Vector Byte n) :
    Except (Error ε) Unit → List (Entry ε) → Vector Byte n → Prop
  /-- It stops before it reads. -/
  | unread (e : Error ε) {entries : List (Entry ε)} (h : ∀ e ∈ entries, e.isReadBit = false) :
      ExchangeRead buffer (.error e) entries buffer
  /-- An error of the read counts before one of the unlock. -/
  | read {opening entries : List (Entry ε)} {outcome : Except ε Unit} {buffer' : Vector Byte n}
      (hopening : ∀ e ∈ opening, e.isReadBit = false)
      (h : BlockRead buffer outcome entries buffer') (unlocked : Except ε Unit) :
      ExchangeRead buffer ((outcome >>= fun _ => unlocked).mapError .bus)
        (opening ++ entries ++ [.unlock unlocked]) buffer'

theorem Unread.exchangeRead {log : List (Entry ε)} {q : σ × List (Entry ε)} (h : Unread log q)
    (buffer : Vector Byte n) (e : Error ε) :
    ∃ entries, q.2 = log ++ entries ∧ ExchangeRead buffer (.error e) entries buffer := by
  obtain ⟨entries, hlog, hentries⟩ := h
  exact ⟨entries, hlog, .unread e hentries⟩

theorem Slots.exchange_reads (bus : Slots σ ε) (rom : Rom) (data : List Byte)
    (p : (σ × List (Entry ε)) × Vector Byte n) :
    (bus.traced.toMaster.exchange rom data n).Makes (fun q => q.1.2) p.1.2 p
      fun outcome entries q => ExchangeRead p.2 outcome entries q.2 := by
  -- Nothing reads before the block is read, so that until then the mute master will do.
  have hmute := bus.mute_keeps p.1.2
  have hselect : (bus.traced.toMaster.select rom).Keeps (Unread p.1.2) :=
    keeps_iff_mirrors.2 (hmute.mirrors.nests.select (d := 0) (by omega) rom)
  have hwrite : (bus.traced.toMaster.writeBlock data).Keeps (Unread p.1.2) := hmute.writeBlock data
  have habandon {e : Error ε} {q : σ × List (Entry ε)} (hq : Unread p.1.2 q) :
      bus.traced.toMaster.unlock.beside.Ensures (q, p.2)
        (fun _ q => ∃ entries, q.1.2 = p.1.2 ++ entries ∧ ExchangeRead p.2 (.error e) entries q.2)
        fun _ q => ∃ entries, q.1.2 = p.1.2 ++ entries ∧
          ExchangeRead p.2 (.error e) entries q.2 := by
    rw [ensures_beside]
    exact (hmute.unlock q hq).mono (fun _ _ h => h.exchangeRead p.2 e)
      fun _ _ h => h.exchangeRead p.2 e
  unfold Makes Master.exchange Master.whileLockedBeside
  rw [ensures_between, ensures_beside]
  apply (hmute.lock p.1 ⟨[], by simp, by simp⟩).mono _ fun e _ h => h.exchangeRead p.2 (.bus e)
  intro _ q₁ hq₁
  rw [ensures_bind, ensures_beside]
  apply (hselect q₁ hq₁).mono _ fun _ _ => habandon
  intro _ q₂ hq₂
  rw [ensures_bind, ensures_beside, ensures_onBus]
  apply (hwrite q₂ hq₂).mono _ fun _ _ => habandon
  rintro _ q₃ ⟨opening, hopening, hsilent⟩
  rw [ensures_onBus]
  have hclose {outcome : Except ε Unit} {entries : List (Entry ε)}
      {q : (σ × List (Entry ε)) × Vector Byte n} (hlog : q.1.2 = q₃.2 ++ entries)
      (h : BlockRead p.2 outcome entries q.2) (o : Except ε Unit) :
      ∃ entries', q.1.2 ++ [.unlock o] = p.1.2 ++ entries' ∧
        ExchangeRead p.2 ((outcome >>= fun _ => o).mapError .bus) entries' q.2 :=
    ⟨_, by simp [hlog, hopening], .read hsilent h o⟩
  apply Ensures.mono (bus.readBlock_reads (q₃, p.2))
  · rintro _ q₄ ⟨entries, hlog, h⟩
    rw [ensures_beside]
    exact .traced (fun _ _ => hclose hlog h (.ok ())) fun e _ => hclose hlog h (.error e)
  · rintro e q₄ ⟨entries, hlog, h⟩
    rw [ensures_beside]
    exact .traced (fun _ _ => hclose hlog h (.ok ())) fun e' _ => hclose hlog h (.error e')

/-! ## Blocks -/

theorem attempts_of_traced {ε' : Type} {act : Action ε' (σ × Vector Byte n) Unit}
    {act' : Action ε' ((σ × List (Entry ε)) × Vector Byte n) Unit}
    (hmirrors : act'.Mirrors (Beside fun p s => p.1 = s) act) {s : σ} {log : List (Entry ε)}
    {buffer : Vector Byte n} {P : Except ε' Unit → List (Entry ε) → Vector Byte n → Prop}
    (h : act'.Makes (fun q => q.1.2) log ((s, log), buffer)
      fun outcome entries q => P outcome entries q.2) :
    ∃ outcome s' entries buffer', act.attempt (s, buffer) = (outcome, s', buffer') ∧
      act'.attempt ((s, log), buffer) = (outcome, (s', log ++ entries), buffer') ∧
      P outcome entries buffer' := by
  obtain ⟨entries, hlog, hP⟩ := h.outcome
  obtain ⟨houtcome, hstate, hbuffer⟩ := hmirrors ((s, log), buffer) (s, buffer) ⟨rfl, rfl⟩
  exact ⟨_, _, entries, _, Prod.ext houtcome.symm (Prod.ext hstate.symm hbuffer.symm),
    Prod.ext rfl (Prod.ext (Prod.ext rfl hlog) rfl), hP⟩

/--
Blocks are exact up to the bit that fails, read and written, and in the buffer of an exchange. What
was written reads back as the same bytes.
-/
theorem Slots.blocks_exact (bus : Slots σ ε) (s : σ) (log : List (Entry ε)) :
    (∀ {n : Nat} (buffer : Vector Byte n), ∃ outcome s' entries buffer',
      (bus.toMaster.readBlock n).attempt (s, buffer) = (outcome, s', buffer') ∧
        (bus.traced.toMaster.readBlock n).attempt ((s, log), buffer) =
          (outcome, (s', log ++ entries), buffer') ∧
        BlockRead buffer outcome entries buffer') ∧
    (∀ data : List Byte, ∃ outcome s' entries,
      (bus.toMaster.writeBlock data).attempt s = (outcome, s') ∧
        (bus.traced.toMaster.writeBlock data).attempt (s, log) = (outcome, s', log ++ entries) ∧
        BitsWritten (data.flatMap Byte.bits) outcome entries) ∧
    (∀ {n : Nat} (data : Vector Byte n) {s' : σ} {entries : List (Entry ε)},
      bus.traced.toMaster.writeBlock data.toList (s, log) = .ok () (s', log ++ entries) →
      ∀ {τ ε' : Type} (reader : Slots τ ε') (t t' : τ) (buffer : Vector Byte n),
        reader.readBits (8 * n) t = .ok (entries.filterMap Entry.sentBit?) t' →
          reader.toMaster.readBlock n (t, buffer) = .ok () (t', data)) ∧
    ∀ (rom : Rom) (data : List Byte) {n : Nat} (buffer : Vector Byte n),
      ∃ outcome s' entries buffer',
        (bus.toMaster.exchange rom data n).attempt (s, buffer) = (outcome, s', buffer') ∧
          (bus.traced.toMaster.exchange rom data n).attempt ((s, log), buffer) =
            (outcome, (s', log ++ entries), buffer') ∧
          ExchangeRead buffer outcome entries buffer' := by
  have hmirrors := bus.traced_mirrors.toByteMaster.toMaster
  refine ⟨fun buffer => ?_, fun data => ?_, ?_, fun rom data _ buffer => ?_⟩
  · exact attempts_of_traced (hmirrors.readBlock _) (bus.readBlock_reads ((s, log), buffer))
  · obtain ⟨entries, hlog, h⟩ := (bus.writeBlock_writes data (s, log)).outcome
    obtain ⟨houtcome, hstate⟩ := hmirrors.writeBlock data (s, log) s rfl
    exact ⟨_, _, entries, Prod.ext houtcome.symm hstate.symm, Prod.ext rfl (Prod.ext rfl hlog), h⟩
  · intro n data s' entries hresult τ ε' reader t t' buffer hread
    obtain ⟨entries', hlog, h⟩ := Ensures.of_ok (bus.writeBlock_writes data.toList (s, log)) hresult
    obtain rfl := List.append_cancel_left hlog
    rw [h.sent] at hread
    exact reader.readBlock_of_readBits data hread buffer
  · exact attempts_of_traced (hmirrors.nests.exchange (d := 0) (by omega) rom data _)
      (bus.exchange_reads rom data ((s, log), buffer))

end OneWire
