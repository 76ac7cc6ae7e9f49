import OneWire.Proofs.Search.Shared
import OneWire.Proofs.Session.Scan
import OneWire.Proofs.Trace.Transactions

/-!
# Searches that fail

A search that fails has found the first of what it would have found, just the identifiers whose
passes were complete before the failure.
-/

namespace OneWire

open OneWire.Action

variable {σ ε : Type}

/-! ## Traced masters -/

theorem Action.Drives.traced {L α : Type} {line : σ → L} {effect : L → α × L}
    {act : Action ε σ α} (h : act.Drives line effect) (entry : Except ε α → Entry ε) :
    (act.traced entry).Drives (fun p => line p.1) effect := by
  intro p
  rw [ensures_traced]
  exact h p.1

theorem ByteMaster.Drives.traced {L : Type} [Wire L] {bus : ByteMaster σ ε} {line : σ → L}
    (h : bus.Drives line) : bus.traced.Drives fun p => line p.1 where
  reset := h.reset.traced .reset
  readBit := h.readBit.traced .readBit
  writeBit b := (h.writeBit b).traced (.writeBit b)
  lock := h.lock.traced .lock
  unlock := h.unlock.traced .unlock
  readByte := h.readByte.traced .readByte
  writeByte b := (h.writeByte b).traced (.writeByte b)

namespace Search

/-! ## Passes in a log -/

/-- The bits written since the last reset, and the identifiers complete so far. -/
structure Reached where
  path : List Bool := []
  roms : List Rom := []

def spelled (path : List Bool) : List Rom :=
  if path.length = Rom.width then [.ofWireBits (overwrite 0 path)] else []

def Reached.add (r : Reached) : Entry ε → Reached
  | .reset _ => { r with path := [] }
  | .writeBit b (.ok _) => ⟨r.path ++ [b], r.roms ++ spelled (r.path ++ [b])⟩
  | _ => r

def Reached.ofLog (log : List (Entry ε)) : Reached :=
  log.foldl .add {}

/-- The identifiers whose passes a log shows to be complete. -/
def reached (log : List (Entry ε)) : List Rom :=
  (Reached.ofLog log).roms

theorem Reached.ofLog_concat (log : List (Entry ε)) (e : Entry ε) :
    ofLog (log ++ [e]) = (ofLog log).add e := by
  simp [ofLog]

theorem Reached.roms_add {r : Reached} {e : Entry ε} (h : ∀ b, e ≠ .writeBit b (.ok ())) :
    (r.add e).roms = r.roms := by
  unfold add
  split
  · rfl
  · exact absurd rfl (h _)
  · rfl

theorem reached_append {log rest : List (Entry ε)}
    (h : ∀ e ∈ rest, ∀ b, e ≠ .writeBit b (.ok ())) : reached (log ++ rest) = reached log := by
  induction rest using List.reverseRecOn with
  | nil => rw [List.append_nil]
  | append_singleton rest e ih =>
    rw [← List.append_assoc]
    unfold reached
    rw [Reached.ofLog_concat, Reached.roms_add (h e (by simp))]
    exact ih fun e he => h e (by simp [he])

theorem overwrite_eq_of_length (n : BitVec 64) {p : List Bool} (h : p.length = Rom.width) :
    overwrite n p = overwrite 0 p := by
  apply wireBits_inj
  rw [wireBits_overwrite n h, wireBits_overwrite 0 h]

/-! ## Failing passes -/

theorem traced_reached {α : Type} (act : Action ε σ α) {entry : Except ε α → Entry ε}
    {r t : Reached} {q : σ × List (Entry ε)} (hq : Reached.ofLog q.2 = r)
    (hok : ∀ a, r.add (entry (.ok a)) = t)
    (hfailed : ∀ e, (r.add (entry (.error e))).roms = r.roms) :
    (act.traced entry).Ensures q (fun _ q' => Reached.ofLog q'.2 = t)
      fun _ q' => reached q'.2 = r.roms := by
  refine .traced (fun a _ => ?_) fun e _ => ?_
  · rw [Reached.ofLog_concat, hq, hok]
  · unfold reached
    rw [Reached.ofLog_concat, hq, hfailed]

theorem walk_reached (bus : Slots σ ε) (c : Cursor) {n : Nat} {d : Discrepancy} {p : List Bool}
    {roms : List Rom} {q : σ × List (Entry ε)} (hn : p.length + n = Rom.width)
    (hd : ∀ path, (⟨d, path⟩ : Cursor).found = some (.ofWireBits path))
    (hq : Reached.ofLog q.2 = ⟨p, roms ++ spelled p⟩) :
    (walk bus.traced c n d (overwrite c.path p)).Ensures q
      (fun c' q' => reached q'.2 = roms ++ c'.found.toList) fun _ q' => reached q'.2 = roms := by
  induction n generalizing d p q with
  | zero =>
    have hlength : p.length = Rom.width := hn
    unfold walk reached
    rw [ensures_pure, hq, hd, overwrite_eq_of_length _ hlength]
    simp [spelled, hlength]
  | succ n ih =>
    have hlt : p.length < Rom.width := by omega
    have hnone : spelled p = [] := by simp [spelled, hlt.ne]
    have hi : Rom.width - (n + 1) = p.length := by omega
    rw [hnone, List.append_nil] at hq
    unfold walk
    rw [hi]
    apply (traced_reached bus.readBit hq (fun _ => rfl) fun _ => rfl).bind
    intro value q₁ hq₁
    apply (traced_reached bus.readBit hq₁ (fun _ => rfl) fun _ => rfl).bind
    intro complement q₂ hq₂
    cases c.choose p.length value complement with
    | none =>
      unfold reached
      simp [Cursor.found, hq₂]
    | some b =>
      apply (traced_reached (bus.writeBit b) hq₂ (fun _ => rfl) fun _ => rfl).bind
      intro _ q₃ hq₃
      rw [← overwrite_concat]
      apply ih (by simp; omega) _ hq₃
      intro path
      unfold deepen
      split
      · rfl
      · exact hd path

theorem pass_reached (bus : ByteMaster σ ε) (scope : Scope) (c : Cursor)
    (q : σ × List (Entry ε)) :
    (pass bus.traced scope c).Ensures q
      (fun c' q' => reached q'.2 = reached q.2 ++ c'.found.toList)
      fun _ q' => reached q'.2 = reached q.2 := by
  unfold pass
  apply (traced_reached bus.reset rfl (t := ⟨[], reached q.2⟩) (fun _ => rfl) fun _ => rfl).bind
  intro present q₁ hq₁
  split
  · apply (traced_reached (bus.writeByte _) hq₁ (fun _ => rfl) fun _ => rfl).bind
    intro _ q₂ hq₂
    apply walk_reached bus.toSlots c (p := []) rfl (fun _ => rfl)
    rw [hq₂]
    simp [spelled, Rom.width]
  · unfold reached at hq₁ ⊢
    simp [Cursor.found, hq₁]

theorem passes_reached (bus : ByteMaster σ ε) (scope : Scope) (limit count : Nat) (c : Cursor) :
    (passes bus.traced scope limit count c).Keeps fun q => reached q.1.2 = q.2 := by
  induction limit generalizing count c with
  | zero => exact fun q hq => hq
  | succ limit ih =>
    intro q hq
    unfold passes
    rw [ensures_bind, ensures_beside]
    apply (pass_reached bus scope c q.1).mono
    · intro c' q₁ hq₁
      cases hfound : c'.found with
      | none => simpa [hfound, hq] using hq₁
      | some rom =>
        rw [ensures_bind, ensures_modify]
        have hq₂ : reached q₁.2 = q.2 ++ [rom] := by simpa [hfound, hq] using hq₁
        split
        · exact hq₂
        · exact ih _ _ _ hq₂
    · intro _ q₁ hq₁
      exact hq₁.trans hq

/-! ## Failing searches -/

theorem Answers.found_of_unfinished {a : Answers} {c : Cursor}
    (h : (a.pass c).isFinished = false) : ∃ rom, (a.pass c).found = some rom := by
  have hl := a.pass_leads c
  unfold Cursor.isFinished at h
  rcases hl.ending with ⟨hlast, -⟩ | ⟨-, hdeepest⟩
  · simp [hlast] at h
  · exact ⟨_, Answers.found_of_complete rfl hdeepest⟩

section Shared

variable {line : σ → Line} {scope : Scope} {c : Cursor} {cursors : List Cursor}

/-- Whatever fails, what is found are the first of the identifiers that the passes find. -/
theorem passes_ensures {bus : ByteMaster σ ε} (hd : bus.Drives line) {devices : List Device}
    (h : (Line.answers devices scope).Trail c cursors) {limit : Nat}
    (hlimit : cursors.length ≤ limit) (count : Nat) {p : σ × List Rom}
    (hdevices : (line p.1).devices = devices) (hleft : (line p.1).resetsLeft = none) :
    (passes bus scope limit count c).Ensures p
      (fun n q => n = some (count + (cursors.filterMap Cursor.found).length) ∧
        q.2 = p.2 ++ cursors.filterMap Cursor.found)
      fun _ q => ∃ found, found <+: cursors.filterMap Cursor.found ∧ q.2 = p.2 ++ found := by
  induction h generalizing limit count p with
  | @last c hfinished =>
    obtain ⟨limit, rfl⟩ := Nat.exists_eq_add_one.2 (Nat.lt_of_lt_of_le (by simp) hlimit)
    have hpass := pass_ensures_shared hd scope c p.1 (by simp [hleft])
    rw [hdevices] at hpass
    unfold passes
    rw [ensures_bind, ensures_beside]
    apply hpass.mono
    · rintro _ s₁ ⟨rfl, -⟩
      cases hfound : ((Line.answers devices scope).pass c).found with
      | none => simp [hfound]
      | some rom =>
        simp only
        rw [ensures_bind, ensures_modify, hfinished]
        simp [hfound]
    · exact fun _ _ _ => ⟨[], List.nil_prefix, by simp⟩
  | @more c cursors hfinished _ ih =>
    obtain ⟨limit, rfl⟩ := Nat.exists_eq_add_one.2 (Nat.lt_of_lt_of_le (by simp) hlimit)
    have hpass := pass_ensures_shared hd scope c p.1 (by simp [hleft])
    obtain ⟨rom, hfound⟩ := Answers.found_of_unfinished hfinished
    rw [hdevices] at hpass
    unfold passes
    rw [ensures_bind, ensures_beside]
    apply hpass.mono
    · rintro _ s₁ ⟨rfl, hdevices₁, hleft₁, -⟩
      rw [hfound]
      simp only
      rw [ensures_bind, ensures_modify, hfinished]
      apply (ih (by simpa using hlimit) (count + 1) hdevices₁ (by simp [hleft₁, hleft])).mono
      · rintro n q ⟨rfl, hq⟩
        simp [hfound, hq, Nat.add_assoc, Nat.add_comm 1]
      · rintro _ q ⟨found, hfirst, hq⟩
        refine ⟨rom :: found, ?_, by simp [hq]⟩
        rw [List.filterMap_cons_some hfound, List.prefix_cons_inj]
        exact hfirst
    · exact fun _ _ _ => ⟨[], List.nil_prefix, by simp⟩

end Shared

/-! ## Logs of failing searches -/

theorem exists_failed {err : Error ε} {entries : List (Entry ε)}
    (h : Accesses .nothing (some err) entries) :
    ∃ e ∈ entries, e.failure ≠ none ∧ e.isUnlock = false := by
  have hfirst := h.transcript.first
  cases hfirst with
  | @stopped good e rest _ _ he =>
    have hmem : e ∈ good ++ e :: rest := by simp
    refine ⟨e, hmem, ?_, Entry.not_isUnlock_of_isAccess (h.access e hmem)⟩
    intro hnone
    rw [Demand.error?_nothing, hnone] at he
    contradiction

theorem failed_at {err : Option (Error ε)} {before after : List (Entry ε)} {e : Entry ε}
    {failure : ε} (h : FirstError .nothing err (before ++ e :: after))
    (hbefore : ∀ e ∈ before, e.failure = none) (he : e.failure = some failure) :
    err = some (.bus failure) ∧ ∀ e ∈ after, e.isUnlock = true := by
  have hgood (e : Entry ε) : Demand.nothing.error? e = none ↔ e.failure = none := by
    rw [Demand.error?_nothing, Option.map_eq_none_iff]
  generalize hentries : before ++ e :: after = entries at h
  cases h with
  | completed hnone =>
    have := (hgood e).1 (hnone e (by simp [← hentries]))
    simp [he] at this
  | @stopped good e' rest err hgood' he' hrest =>
    -- There is one way to split a log at its first failure.
    rcases List.append_eq_append_iff.1 hentries with ⟨t, rfl, ht⟩ | ⟨t, rfl, ht⟩
    · cases t with
      | nil =>
        obtain ⟨rfl, rfl⟩ := List.cons.inj ht
        rw [Demand.error?_nothing, he] at he'
        exact ⟨he'.symm, hrest⟩
      | cons x t =>
        obtain ⟨rfl, -⟩ := List.cons.inj ht
        have := (hgood e).1 (hgood' e (by simp))
        simp [he] at this
    · cases t with
      | nil =>
        obtain ⟨rfl, rfl⟩ := List.cons.inj ht
        rw [Demand.error?_nothing, he] at he'
        exact ⟨he'.symm, hrest⟩
      | cons x t =>
        obtain ⟨rfl, -⟩ := List.cons.inj ht
        rw [Demand.error?_nothing, hbefore e' (by simp)] at he'
        contradiction

variable {host : Master σ ε} {line : σ → Line} {scope : Scope} {s : σ} {limit : Nat}

theorem enumerate_ensures (hd : host.toByteMaster.Drives line) (family : Byte)
    {cursors : List Cursor} (htrail : (Line.answers (line s).devices scope).Trail {} cursors)
    (hleft : (line s).resetsLeft = none) (hlimit : cursors.length ≤ limit) :
    (enumerate host.traced limit scope family).Ensures ((s, []), [])
      (fun n q => n = some (cursors.filterMap Cursor.found).length ∧
        q.2 = cursors.filterMap Cursor.found)
      fun _ q => q.2 <+: cursors.filterMap Cursor.found ∧
        (q.2 = cursors.filterMap Cursor.found ∨
          ∃ e ∈ q.1.2, e.failure ≠ none ∧ e.isUnlock = false) := by
  unfold enumerate Master.whileLockedBeside
  rw [ensures_between, ensures_beside]
  apply (ensures_traced.2 _)
  apply (hd.lock s).mono
  · rintro _ s₁ ⟨-, hline⟩
    simp only at hline
    rw [← hline] at htrail hleft
    have hpasses := passes_ensures hd.traced htrail hlimit 0
      (p := ((s₁, [.lock (.ok ())]), [])) rfl hleft
    have hlogs := logs_iff_ensures.1 (logs_passes host.toByteMaster scope limit 0 {}
      ((s₁, [.lock (.ok ())]), []))
    rw [ensures_onBus]
    apply (hpasses.and hlogs).mono
    · rintro n q ⟨⟨rfl, hfound⟩, -⟩
      rw [List.nil_append] at hfound
      rw [ensures_beside]
      exact .traced (fun _ _ => ⟨by rw [Nat.zero_add], hfound⟩)
        fun _ _ => ⟨by rw [hfound], .inl hfound⟩
    · rintro e q ⟨⟨found, hfirst, hfound⟩, entries, hlog, haccesses⟩
      obtain ⟨x, hx, hfailed⟩ := exists_failed haccesses
      have hmem : x ∈ q.1.2 := by simp [hlog, hx]
      rw [List.nil_append] at hfound
      subst hfound
      rw [ensures_beside]
      exact .traced (fun _ _ => ⟨hfirst, .inr ⟨x, List.mem_append_left _ hmem, hfailed⟩⟩)
        fun _ _ => ⟨hfirst, .inr ⟨x, List.mem_append_left _ hmem, hfailed⟩⟩
  · intro e s₁ _
    refine ⟨List.nil_prefix, .inr ⟨.lock (.error e), by simp, ?_, rfl⟩⟩
    simp [Entry.failure, failure?]

theorem enumerate_reached (host : Master σ ε) (limit : Nat) (scope : Scope) (family : Byte) :
    (enumerate host.traced limit scope family).Keeps fun q => reached q.1.2 = q.2 := by
  have hcall {o : Except ε Unit} (entry : Except ε Unit → Entry ε) {log : List (Entry ε)}
      (h : ∀ b, entry o ≠ .writeBit b (.ok ())) : reached (log ++ [entry o]) = reached log :=
    reached_append (by simpa using h)
  have hunlock : (host.traced.unlock.beside (β := List Rom)).Keeps
      fun q => reached q.1.2 = q.2 := by
    intro q hq
    rw [ensures_beside]
    exact .traced (fun _ _ => (hcall .unlock (by simp)).trans hq)
      fun _ _ => (hcall .unlock (by simp)).trans hq
  intro q hq
  unfold enumerate Master.whileLockedBeside
  rw [ensures_between, ensures_beside]
  refine .traced (fun _ s₁ => ?_) fun _ _ => (hcall .lock (by simp)).trans hq
  rw [ensures_onBus]
  apply (passes_reached host.toByteMaster scope limit 0 {} _
    ((hcall .lock (by simp)).trans hq)).mono
  · exact fun _ q₁ hq₁ => hunlock q₁ hq₁
  · exact fun _ q₁ hq₁ => hunlock q₁ hq₁

theorem firstError_enumerate {family : Byte} {s' : σ} {outcome : Except (Error ε) (Option Nat)}
    {log : List (Entry ε)} {found : List Rom}
    (h : (enumerate host.traced limit scope family).attempt ((s, []), []) =
      (outcome, (s', log), found)) :
    FirstError .nothing (failure? outcome) log := by
  obtain ⟨entries, hlog, hbracketed⟩ := logs_enumerate host limit scope family ((s, []), [])
  rw [h] at hlog hbracketed
  obtain rfl : log = entries := hlog
  exact (hbracketed.mono fun _ _ h => h.transcript).transcript.first

theorem enumerate_of_trail {sound : σ → Prop} {depth : σ → Nat}
    (hd : host.toByteMaster.Drives line) (hf : host.Faultless sound depth) (family : Byte)
    (hs : sound s) (hleft : (line s).resetsLeft = none) {cursors : List Cursor}
    (htrail : (Line.answers (line s).devices scope).Trail {} cursors) :
    ∃ s', (∀ limit, cursors.length ≤ limit → enumerate host limit scope family (s, []) =
        .ok (some (cursors.filterMap Cursor.found).length)
          (s', cursors.filterMap Cursor.found)) ∧
      ∀ limit, limit < cursors.length →
        ∃ p, enumerate host limit scope family (s, []) = .ok none p := by
  obtain ⟨_, s₁, hlock, hs₁, hdepth₁⟩ := (hf.lock s hs).returns
  obtain ⟨-, hline₁⟩ := (hd.lock s).of_ok hlock
  simp only at hline₁
  rw [← hline₁] at hleft htrail
  obtain ⟨s₂, htrail₂, hs₂, hdepth₂, -⟩ :=
    trail_shared hd hf scope hs₁ htrail (by simp [hleft])
  obtain ⟨_, s', hunlock, -⟩ := (hf.unlock s₂ hs₂ (by omega)).returns
  exact ⟨s', fun limit hlimit => htrail₂.enumerate_eq hlock hunlock family hlimit,
    fun limit hlimit => htrail₂.enumerate_of_lt hf hlock hs₁ (by omega) family hlimit⟩

/-! ## What a failure leaves -/

/--
What a search with this log hands over, where it would find `all` if nothing failed. It is `all` if
the search succeeds, and the identifiers complete before the first failure if not.
-/
structure Salvages (all : List Rom) (outcome : Except (Error ε) (Option Nat))
    (log : List (Entry ε)) (found : List Rom) : Prop where
  first : found <+: all
  complete : ∀ n, outcome = .ok n → n = some all.length ∧ found = all
  stopped : ∀ before e after failure, log = before ++ e :: after →
    (∀ e ∈ before, e.failure = none) → e.failure = some failure →
    outcome = .error (.bus failure) ∧ found = reached before
  unlocked : (∀ e ∈ log, e.failure ≠ none → e.isUnlock = true) → found = all

theorem salvages_of_trail (hd : host.toByteMaster.Drives line) {family : Byte}
    {cursors : List Cursor}
    (htrail : (Line.answers (line s).devices scope).Trail {} cursors)
    (hleft : (line s).resetsLeft = none) (hlimit : cursors.length ≤ limit) {s' : σ}
    {outcome : Except (Error ε) (Option Nat)} {log : List (Entry ε)} {found : List Rom}
    (hsearch : (enumerate host.traced limit scope family).attempt ((s, []), []) =
      (outcome, (s', log), found)) :
    Salvages (cursors.filterMap Cursor.found) outcome log found := by
  have hensures := enumerate_ensures hd family htrail hleft hlimit
  have hreached : reached log = found := by
    have hkeeps := (enumerate_reached host limit scope family).attempt (s := ((s, []), [])) rfl
    rwa [hsearch] at hkeeps
  have hfirst := firstError_enumerate hsearch
  have hstopped (before : List (Entry ε)) (e : Entry ε) (after : List (Entry ε)) (failure : ε)
      (hlog : log = before ++ e :: after) (hbefore : ∀ e ∈ before, e.failure = none)
      (he : e.failure = some failure) :
      outcome = .error (.bus failure) ∧ found = reached before := by
    rw [hlog] at hfirst
    obtain ⟨herr, hafter⟩ := failed_at hfirst hbefore he
    constructor
    · cases outcome with
      | ok n => contradiction
      | error e => exact congrArg _ (Option.some.inj herr)
    · have hnone : ∀ x ∈ e :: after, ∀ b, x ≠ .writeBit b (.ok ()) := by
        rintro x hx b rfl
        rcases List.mem_cons.1 hx with rfl | hx
        · simp [Entry.failure, failure?] at he
        · simpa [Entry.isUnlock] using hafter _ hx
      rw [← hreached, hlog]
      exact reached_append hnone
  cases outcome with
  | ok n =>
    obtain ⟨hn, hfound⟩ := hensures.of_ok (eq_ok_of_attempt (congrArg Prod.fst hsearch))
    rw [hsearch] at hfound
    have hall : found = cursors.filterMap Cursor.found := hfound
    refine ⟨by rw [hall], ?_, hstopped, fun _ => hall⟩
    rintro _ ⟨⟩
    exact ⟨hn, hall⟩
  | error err =>
    obtain ⟨hinitial, hrest⟩ := hensures.of_error (eq_error_of_attempt (congrArg Prod.fst hsearch))
    rw [hsearch] at hinitial hrest
    refine ⟨hinitial, fun _ h => by contradiction, hstopped, fun hunlocks => ?_⟩
    rcases hrest with hall | ⟨e, he, hfailed, hother⟩
    · exact hall
    · have := hunlocks e he hfailed
      simp [hother] at this

/--
Whatever fails, a search hands over the first of the identifiers that it finds when nothing fails,
just those complete before the failure. A scan counts the same.
-/
theorem enumerate_salvages {σ₀ ε₀ : Type} {reference : Master σ₀ ε₀} {host : Host σ ε}
    {line₀ : σ₀ → Line} {line : σ → Line} {sound : σ₀ → Prop} {depth : σ₀ → Nat}
    (hd₀ : reference.toByteMaster.Drives line₀) (hf₀ : reference.Faultless sound depth)
    (hd : host.toByteMaster.Drives line) (scope : Scope) (family : Byte) {s₀ : σ₀} {s : σ}
    (hs₀ : sound s₀) (hleft₀ : (line₀ s₀).resetsLeft = none) (hleft : (line s).resetsLeft = none)
    (hdevices : (line s).devices = (line₀ s₀).devices) :
    (∃ (all : List Rom) (s₀' : σ₀), ∀ limit, all.length < limit →
      enumerate reference limit scope family (s₀, []) = .ok (some all.length) (s₀', all)) ∧
    ∀ {limit n : Nat} {all : List Rom} {s₀' : σ₀},
      enumerate reference limit scope family (s₀, []) = .ok (some n) (s₀', all) →
      ∀ {outcome : Except (Error ε) (Option Nat)} {s' : σ} {log : List (Entry ε)}
        {found : List Rom},
      (enumerate host.traced.toMaster limit scope family).attempt ((s, []), []) =
        (outcome, (s', log), found) →
      Salvages all outcome log found ∧
      ∀ {κ : Type} (accept : Rom → κ → Bool × κ) (k : κ) (session : Session (σ × List (Entry ε))),
        session.bus = (s, []) → session.phase = .acquired → session.config.scope = scope →
        ∃ report session' k', Session.scan host.traced limit accept session k =
          (some report, session', k') ∧ report.value = found.length := by
  obtain ⟨cursors, htrail, hsweeps⟩ := (Line.answers (line₀ s₀).devices scope).exists_trail
  obtain ⟨s₁, henough, hfew⟩ := enumerate_of_trail hd₀ hf₀ family hs₀ hleft₀ htrail
  refine ⟨⟨_, s₁, fun limit hlimit => henough limit (hsweeps.length_le.trans hlimit)⟩, ?_⟩
  intro limit n all s₀' hreference outcome s' log found hsearch
  have hlimit : cursors.length ≤ limit := by
    by_contra hlt
    obtain ⟨p, hnone⟩ := hfew limit (by omega)
    rw [hnone] at hreference
    cases hreference
  rw [henough limit hlimit] at hreference
  cases hreference
  rw [← hdevices] at htrail
  have hsalvages := salvages_of_trail hd htrail hleft hlimit hsearch
  refine ⟨hsalvages, ?_⟩
  intro κ accept k session hbus hphase hscope
  have hscan : (enumerate host.traced.toMaster limit session.config.scope anyFamily).attempt
      (session.bus, []) = (outcome, (s', log), found) := by
    rw [hbus, hscope]
    exact hsearch
  have hend : outcome ≠ .ok none := by
    rintro rfl
    have := (hsalvages.complete none rfl).1
    contradiction
  obtain ⟨_, k', -, -, hreport⟩ := Session.scan_of_found accept k hphase hscan hend
  exact ⟨_, _, k', hreport, rfl⟩

/-- Three devices. The second pass breaks off at a write. -/
def brokenOff : Bench Line :=
  { threeDevices none with meter := { plan := fun c n => c == .writeBit && n == 100 } }

/-- A bench where nothing fails finds three identifiers, and this one hands over the first. -/
theorem enumerate_salvages_brokenOff :
    ∃ (outcome : Except (Error Bench.Call) (Option Nat)) (b' : Bench Line)
      (log : List (Entry Bench.Call)) (found : List Rom),
      (enumerate Bench.bitHost.traced.toMaster 4 .all 0).attempt ((brokenOff, []), []) =
        (outcome, (b', log), found) ∧
      Salvages [.ofWireBits 3, .ofWireBits 1, .ofWireBits 6] outcome log found ∧
      found = [.ofWireBits 3] := by
  have hreference := eq_ok_of_attempt_beside (enumerate Bench.byteHost.toMaster 4 .all 0)
    (p := (threeDevices none, [])) (a := some 3)
    (b := [.ofWireBits 3, .ofWireBits 1, .ofWireBits 6]) (by decide +kernel) (by decide +kernel)
  have hfound : ((enumerate Bench.bitHost.traced.toMaster 4 .all 0).attempt
      ((brokenOff, []), [])).2.2 = [.ofWireBits 3] := by decide +kernel
  generalize hsearch : (enumerate Bench.bitHost.traced.toMaster 4 .all 0).attempt
    ((brokenOff, []), []) = r at hfound
  obtain ⟨outcome, ⟨b', log⟩, found⟩ := r
  obtain ⟨-, hsalvages⟩ := enumerate_salvages (s := brokenOff) Bench.byteHost_drives
    Bench.byteHost_faultless Bench.bitHost_drives .all 0 (quiet_threeDevices none) rfl rfl rfl
  exact ⟨outcome, b', log, found, rfl, (hsalvages hreference hsearch).1, hfound⟩

end Search

end OneWire
