import OneWire.Master.Addressing
import OneWire.Master.Trace
import OneWire.Proofs.Trace.Logs
import OneWire.Search.Enumerate

/-!
# What transactions and searches log

Each transaction with a device logs a transcript, and a search logs accesses between lock and
unlock. Both hold for every master, whatever fails.
-/

namespace OneWire

open OneWire.Action

variable {σ ε : Type}

/-! ## Calls -/

theorem logs_traced {α : Type} {d : Demand} {entry : Except ε α → Entry ε}
    (haccess : ∀ o, (entry o).isAccess)
    (herror : ∀ o, d.error? (entry o) = (failure? o).map .bus) (act : Action ε σ α)
    (p : σ × List (Entry ε)) :
    (act.traced entry).Logs Prod.snd (fun err => Accesses d (err.map .bus)) p := by
  exact (notes_traced entry act).logs (fun o => .single (haccess o) (herror o)) p

namespace Slots

theorem logs_readBit (bus : Slots σ ε) (p : σ × List (Entry ε)) :
    bus.traced.readBit.Logs Prod.snd (fun err => Accesses .nothing (err.map .bus)) p :=
  logs_traced (fun _ => rfl) (fun _ => Demand.error?_nothing _) bus.readBit p

theorem logs_writeBit (bus : Slots σ ε) (b : Bool) (p : σ × List (Entry ε)) :
    (bus.traced.writeBit b).Logs Prod.snd (fun err => Accesses .nothing (err.map .bus)) p :=
  logs_traced (fun _ => rfl) (fun _ => Demand.error?_nothing _) (bus.writeBit b) p

end Slots

/-! ## Searches -/

namespace Search

theorem logs_walk (bus : Slots σ ε) (c : Cursor) (n : Nat) (deepest : Discrepancy)
    (path : BitVec 64) (p : σ × List (Entry ε)) :
    (walk bus.traced c n deepest path).Logs Prod.snd
      (fun err => Accesses .nothing (err.map .bus)) p := by
  have hcomposes := (@composes_accesses ε .nothing).map Error.bus
  induction n generalizing deepest path p with
  | zero => exact .pure hcomposes _
  | succ n ih =>
    unfold walk
    refine (bus.logs_readBit p).bind hcomposes fun value p₁ => ?_
    refine (bus.logs_readBit p₁).bind hcomposes fun complement p₂ => ?_
    split
    · exact .pure hcomposes _
    · exact (bus.logs_writeBit _ p₂).bind hcomposes fun _ p₃ => ih _ _ p₃

theorem logs_pass (bus : ByteMaster σ ε) (scope : Scope) (c : Cursor)
    (p : σ × List (Entry ε)) :
    (pass bus.traced scope c).Logs Prod.snd (fun err => Accesses .nothing (err.map .bus)) p := by
  have hcomposes := (@composes_accesses ε .nothing).map Error.bus
  have hreset (p : σ × List (Entry ε)) :
      bus.traced.reset.Logs Prod.snd (fun err => Accesses .nothing (err.map .bus)) p :=
    logs_traced (fun _ => rfl) (fun _ => Demand.error?_nothing _) bus.reset p
  have hwrite (b : Byte) (p : σ × List (Entry ε)) :
      (bus.traced.writeByte b).Logs Prod.snd (fun err => Accesses .nothing (err.map .bus)) p :=
    logs_traced (fun _ => rfl) (fun _ => Demand.error?_nothing _) (bus.writeByte b) p
  unfold pass
  refine (hreset p).bind hcomposes fun present p₁ => ?_
  split
  · exact (hwrite _ p₁).bind hcomposes fun _ p₂ => logs_walk bus.toSlots c _ _ _ p₂
  · exact .pure hcomposes _

theorem logs_passes (bus : ByteMaster σ ε) (scope : Scope) (limit count : Nat) (c : Cursor)
    (p : (σ × List (Entry ε)) × List Rom) :
    (passes bus.traced scope limit count c).Logs (fun p => p.1.2)
      (fun err => Accesses .nothing (err.map .bus)) p := by
  have hcomposes := (@composes_accesses ε .nothing).map Error.bus
  induction limit generalizing count c p with
  | zero => exact .pure hcomposes _
  | succ limit ih =>
    unfold passes
    refine (logs_beside.2 (logs_pass bus scope c p.1)).bind hcomposes fun c' p₁ => ?_
    split
    · exact .pure hcomposes _
    · refine (Logs.modify hcomposes ?_).bind hcomposes fun _ p₂ => ?_
      · rfl
      · split
        · exact .pure hcomposes _
        · exact ih _ _ p₂

theorem logs_enumerate (bus : Master σ ε) (limit : Nat) (scope : Scope) (family : Byte)
    (p : (σ × List (Entry ε)) × List Rom) :
    (enumerate bus.traced limit scope family).Logs (fun p => p.1.2)
      (Bracketed (Accesses .nothing)) p :=
  logs_between (notes_traced _ bus.lock).beside (notes_traced _ bus.unlock).beside
    (fun q => logs_onBus.2 (logs_passes bus.toByteMaster scope limit 0 {} q)) p

end Search

/-! ## Transactions -/

namespace Master

variable {bus : Master σ ε} {d : Demand}

theorem logs_whileLocked {α : Type} {body : Action (Error ε) (σ × List (Entry ε)) α}
    (hbody : ∀ p, body.Logs Prod.snd (Transcript d) p) (p : σ × List (Entry ε)) :
    (bus.traced.whileLocked body).Logs Prod.snd (Transcript d) p :=
  (logs_between (notes_traced _ bus.lock) (notes_traced _ bus.unlock) hbody p).mono
    fun _ _ h => h.transcript

theorem logs_whileLockedBeside {α β : Type}
    {body : Action (Error ε) ((σ × List (Entry ε)) × β) α}
    (hbody : ∀ p, body.Logs (fun p => p.1.2) (Transcript d) p) (p : (σ × List (Entry ε)) × β) :
    (bus.traced.whileLockedBeside body).Logs (fun p => p.1.2) (Transcript d) p :=
  (logs_between (notes_traced _ bus.lock).beside (notes_traced _ bus.unlock).beside hbody p).mono
    fun _ _ h => h.transcript

theorem logs_expectPresence (hd : d ≠ .nothing) (p : σ × List (Entry ε)) :
    bus.traced.expectPresence.Logs Prod.snd (Transcript d) p := by
  unfold expectPresence
  refine logs_checked (fun present => if present then none else some .noPresence) ?_ ?_
  · refine .traced (fun present s => ?_) fun e s => ?_
    · refine ⟨_, rfl, rfl, ?_⟩
      cases present <;> cases d <;> first | rfl | contradiction
    · exact ⟨_, rfl, rfl, rfl⟩
  · intro present p₁
    cases present <;> exact ⟨rfl, rfl⟩

theorem logs_writeBlock (data : List Byte) (p : σ × List (Entry ε)) :
    (bus.traced.writeBlock data).onBus.Logs Prod.snd (Transcript d) p := by
  refine logs_onBus.2 ((logs_traced (d := d) ?_ ?_ (bus.writeBlock data) p).mono ?_)
  · exact fun _ => rfl
  · intro o
    cases o <;> cases d <;> rfl
  · exact fun _ _ h => h.transcript

theorem logs_issue (c : Command) (p : σ × List (Entry ε)) :
    (bus.traced.issue c).Logs Prod.snd (Transcript d) p := by
  refine logs_onBus.2 ((logs_traced (d := d) ?_ ?_ (bus.writeByte c.code) p).mono ?_)
  · exact fun _ => rfl
  · intro o
    cases o <;> cases d <;> rfl
  · exact fun _ _ h => h.transcript

/-- The calls of a command that is all of its transaction, and the error. -/
inductive Commanding (c : Command) : Option (Error ε) → List (Entry ε) → Prop
  | notReset (failure : ε) : Commanding c (some (.bus failure)) [.reset (.error failure)]
  | absent : Commanding c (some .noPresence) [.reset (.ok false)]
  | issued (o : Except ε Unit) :
      Commanding c ((failure? o).map .bus) [.reset (.ok true), .writeByte c.code o]

theorem Commanding.transcript {c : Command} {err : Option (Error ε)} {entries : List (Entry ε)}
    (h : Commanding c err entries) : Transcript .presence err entries := by
  cases h with
  | notReset failure => exact .single rfl rfl
  | absent => exact .single rfl rfl
  | issued o =>
    have hreset : Transcript .presence (none : Option (Error ε)) [.reset (.ok true)] :=
      .single rfl rfl
    have hwrite : Transcript .presence ((failure? o).map .bus) [.writeByte c.code o] :=
      .single rfl (by cases o <;> rfl)
    exact (composes_transcript _).append hreset hwrite

theorem transcript_of_commanding {c : Command} {err : Option (Error ε)} {entries : List (Entry ε)}
    (h : Bracketed (Commanding c) err entries) : Transcript .presence err entries :=
  (h.mono fun _ _ h => h.transcript).transcript

theorem logs_command (c : Command) (p : σ × List (Entry ε)) :
    (do
      bus.traced.expectPresence
      bus.traced.issue c : Action (Error ε) (σ × List (Entry ε)) Unit).Logs Prod.snd
        (Commanding c) p := by
  unfold expectPresence issue
  refine logs_iff_ensures.2 (ensures_bind.2 (ensures_bind.2 (ensures_onBus.2 ?_)))
  refine .traced (fun present s => ?_) fun failure s => ?_
  · cases present with
    | false => exact ⟨_, rfl, .absent⟩
    | true =>
      refine ensures_onBus.2 (.traced (fun _ s' => ?_) fun failure s' => ?_)
      · exact ⟨_, by simp, .issued (.ok ())⟩
      · exact ⟨_, by simp, .issued (.error failure)⟩
  · exact ⟨_, rfl, .notReset failure⟩

theorem logs_issueMatch (rom : Rom) (p : σ × List (Entry ε)) :
    (bus.traced.issueMatch rom).Logs Prod.snd (Transcript d) p := by
  unfold issueMatch
  exact (logs_issue _ p).bind (composes_transcript d) fun _ p₁ => logs_writeBlock _ p₁

theorem logs_identify (p : σ × List (Entry ε)) :
    (do
      let rom := Rom.ofBytes (← (bus.traced.receive Rom.size).onBus)
      if rom.isValid then pure rom else throw .checksumMismatch :
        Action (Error ε) (σ × List (Entry ε)) Rom).Logs Prod.snd (Transcript .checksum) p := by
  refine logs_checked (fun bytes =>
    if (Rom.ofBytes bytes).isValid then none else some .checksumMismatch) ?_ ?_
  · refine ensures_filling.2 (ensures_tracedFill.2 ((ensures_true _ _).mono ?_ ?_))
    · intro _ q _
      -- The bytes that are checked are those that the log shows.
      refine ⟨_, rfl, rfl, ?_⟩
      simp [Demand.error?, Demand.objection, Entry.failure, failure?, Rom.isValid,
        Rom.toBytes_ofBytes]
    · exact fun e q _ => ⟨_, rfl, rfl, rfl⟩
  · intro bytes p₁
    cases h : (Rom.ofBytes bytes).isValid <;> simp only [h] <;> exact ⟨rfl, rfl⟩

variable (bus)

theorem logs_readRom (p : σ × List (Entry ε)) :
    bus.traced.readRom.Logs Prod.snd (Transcript .checksum) p := by
  unfold readRom
  refine logs_whileLocked (fun p₁ => ?_) p
  refine (logs_expectPresence (by decide) p₁).bind (composes_transcript _) fun _ p₂ => ?_
  refine (logs_issue _ p₂).bind (composes_transcript _) fun _ p₃ => ?_
  exact logs_identify p₃

theorem logs_matchRom (rom : Rom) (p : σ × List (Entry ε)) :
    (bus.traced.matchRom rom).Logs Prod.snd (Transcript .presence) p := by
  unfold matchRom
  refine logs_whileLocked (fun p₁ => ?_) p
  exact (logs_expectPresence (by decide) p₁).bind (composes_transcript _) fun _ p₂ =>
    logs_issueMatch rom p₂

theorem logs_commanded (c : Command) (p : σ × List (Entry ε)) :
    (bus.traced.whileLocked do
      bus.traced.expectPresence
      bus.traced.issue c).Logs Prod.snd (Bracketed (Commanding c)) p :=
  logs_between (notes_traced _ bus.lock) (notes_traced _ bus.unlock) (logs_command c) p

theorem logs_skipRom (p : σ × List (Entry ε)) :
    bus.traced.skipRom.Logs Prod.snd (Transcript .presence) p :=
  (bus.logs_commanded .skipRom p).mono fun _ _ h => transcript_of_commanding h

theorem logs_resumeRom (p : σ × List (Entry ε)) :
    bus.traced.resumeRom.Logs Prod.snd (Transcript .presence) p :=
  (bus.logs_commanded .resume p).mono fun _ _ h => transcript_of_commanding h

theorem logs_select (rom : Rom) (p : σ × List (Entry ε)) :
    (bus.traced.select rom).Logs Prod.snd (Transcript .presence) p := by
  have hcomposes := @composes_transcript ε .presence
  unfold select
  refine logs_whileLocked (fun p₁ => ?_) p
  refine (logs_expectPresence (by decide) p₁).bind hcomposes fun _ p₂ => ?_
  refine (Logs.get hcomposes).bind hcomposes fun _ p₃ => ?_
  split
  · exact logs_issueMatch rom p₃
  · exact logs_issue _ p₃

theorem logs_send (rom : Rom) (data : List Byte) (p : σ × List (Entry ε)) :
    (bus.traced.send rom data).Logs Prod.snd (Transcript .presence) p := by
  unfold send
  refine logs_whileLocked (fun p₁ => ?_) p
  exact (bus.logs_select rom p₁).bind (composes_transcript _) fun _ p₂ => logs_writeBlock data p₂

theorem logs_exchange (rom : Rom) (data : List Byte) (n : Nat)
    (p : (σ × List (Entry ε)) × Vector Byte n) :
    (bus.traced.exchange rom data n).Logs (fun p => p.1.2) (Transcript .presence) p := by
  have hcomposes := @composes_transcript ε .presence
  unfold exchange
  refine logs_whileLockedBeside (fun p₁ => ?_) p
  refine (logs_beside.2 (bus.logs_select rom p₁.1)).bind hcomposes fun _ p₂ => ?_
  refine (logs_beside.2 (logs_writeBlock data p₂.1)).bind hcomposes fun _ p₃ => ?_
  refine logs_onBus.2 (logs_tracedFill (fun bytes o => ?_) (bus.readBlock n) p₃)
  exact .single rfl (by cases o <;> rfl)

end Master

end OneWire
