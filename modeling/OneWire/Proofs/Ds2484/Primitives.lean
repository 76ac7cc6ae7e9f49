import Mathlib.Logic.Function.Iterate
import OneWire.Ds2484.Trace
import OneWire.Proofs.Ds2484.Chip

/-!
# How the primitives of the DS2484 poll

What comes of a primitive, and what it accesses, told from the answers that the chip gives to the
reads of its status. Any board will do, with any failures.
-/

namespace OneWire.Ds2484

open OneWire.Action Bridge

variable {π α β : Type}

/-! ## Answers of the chip -/

section Answers

variable (w : Wiring π) (c : Config)

/-- The board after `n` reads, whether or not they fail. -/
def afterReads (n : Nat) (p : π) : π :=
  (fun p => ((w.read c.address).attempt p).2)^[n] p

/-- What the next `n` reads give. -/
def answers (n : Nat) (p : π) : List (Except Unit Byte) :=
  (List.range n).map fun i => ((w.read c.address).attempt (afterReads w c i p)).1

def reads (as : List (Except Unit Byte)) : List BoardEntry :=
  as.map (.read c.address)

theorem answers_succ (n : Nat) (p : π) :
    answers w c (n + 1) p =
      ((w.read c.address).attempt p).1 :: answers w c n ((w.read c.address).attempt p).2 := by
  unfold answers
  rw [List.range_succ_eq_map, List.map_cons, List.map_map]
  rfl

end Answers

theorem answers_cases (as : List (Except Unit Byte)) :
    ∃ busy : List Byte, (∀ b ∈ busy, isBusy b = true) ∧
      (as = busy.map .ok ∨ (∃ rest, as = busy.map .ok ++ .error () :: rest) ∨
        ∃ status rest, isBusy status = false ∧ as = busy.map .ok ++ .ok status :: rest) := by
  induction as with
  | nil => exact ⟨[], by simp, .inl rfl⟩
  | cons a as ih =>
    cases a with
    | error => exact ⟨[], by simp, .inr (.inl ⟨as, rfl⟩)⟩
    | ok status =>
      cases hstatus : isBusy status with
      | false => exact ⟨[], by simp, .inr (.inr ⟨status, as, hstatus, rfl⟩)⟩
      | true =>
        obtain ⟨busy, hbusy, h⟩ := ih
        refine ⟨status :: busy, List.forall_mem_cons.2 ⟨hstatus, hbusy⟩, ?_⟩
        rcases h with rfl | ⟨rest, rfl⟩ | ⟨idle, rest, hidle, rfl⟩
        · exact .inl rfl
        · exact .inr (.inl ⟨rest, rfl⟩)
        · exact .inr (.inr ⟨idle, rest, hidle, rfl⟩)

/-! ## Polling -/

section Polling

variable (w : Wiring π) (c : Config)

theorem failingAs_noting (f : Failure) (entry : Except Unit α → BoardEntry) (act : Action Unit π α)
    (p : π) (log : List BoardEntry) :
    failingAs f (noting entry act) (p, log) =
      match act p with
      | .ok a p => .ok a (p, log ++ [entry (.ok a)])
      | .error _ p => .error f (p, log ++ [entry (.error ())]) := by
  unfold failingAs noting
  cases act p <;> rfl

theorem request_traced_eq (bytes : List Byte) (p : π) (log : List BoardEntry) :
    request w.traced c bytes (p, log) =
      match w.write c.address bytes p with
      | .ok _ p => .ok () (p, log ++ [.write c.address bytes (.ok ())])
      | .error _ p => .error .i2c (p, log ++ [.write c.address bytes (.error ())]) := by
  have h := failingAs_noting .i2c (.write c.address bytes) (w.write c.address bytes) p log
  cases hact : w.write c.address bytes p <;> rw [hact] at h <;> exact h

theorem readRegister_traced_eq (p : π) (log : List BoardEntry) :
    readRegister w.traced c (p, log) =
      match w.read c.address p with
      | .ok b p => .ok b (p, log ++ [.read c.address (.ok b)])
      | .error _ p => .error .i2c (p, log ++ [.read c.address (.error ())]) := by
  have h := failingAs_noting .i2c (.read c.address) (w.read c.address) p log
  cases hact : w.read c.address p <;> rw [hact] at h <;> exact h

theorem poll_succ_traced_eq (n : Nat) (p : π) (log : List BoardEntry) :
    poll w.traced c (n + 1) (p, log) =
      match w.read c.address p with
      | .ok b p =>
        if isBusy b then poll w.traced c n (p, log ++ [.read c.address (.ok b)])
        else .ok b (p, log ++ [.read c.address (.ok b)])
      | .error _ p => .error .i2c (p, log ++ [.read c.address (.error ())]) := by
  rw [poll]
  simp only [bind, EStateM.bind, readRegister_traced_eq]
  cases w.read c.address p with
  | error => rfl
  | ok b p =>
    cases h : isBusy b with
    | false =>
      simp [h]
      rfl
    | true => simp [h]

variable {w c}

theorem poll_busy {busy : List Byte} (log : List BoardEntry)
    (hbusy : ∀ b ∈ busy, isBusy b = true) {rest : List (Except Unit Byte)} {n : Nat} {p : π}
    (h : answers w c n p = busy.map .ok ++ rest) :
    ∃ m, rest = answers w c m (afterReads w c busy.length p) ∧
      poll w.traced c n (p, log) = poll w.traced c m
        (afterReads w c busy.length p, log ++ reads c (busy.map .ok)) := by
  -- Each busy status takes one read of the limit, so that what is left of it is hidden in `m`.
  induction busy generalizing n p log with
  | nil => exact ⟨n, h.symm, by simp [reads, afterReads]⟩
  | cons b busy ih =>
    cases n with
    | zero => contradiction
    | succ n =>
      rw [answers_succ, List.map_cons, List.cons_append, List.cons.injEq] at h
      obtain ⟨hb, htail⟩ := h
      obtain ⟨m, hrest, hpoll⟩ := ih _ (List.forall_mem_cons.1 hbusy).2 htail
      refine ⟨m, hrest, ?_⟩
      rw [poll_succ_traced_eq, eq_ok_of_attempt hb]
      simp only [(List.forall_mem_cons.1 hbusy).1, if_true]
      rw [hpoll]
      simp [reads, afterReads]

theorem poll_stuck {busy : List Byte} (hbusy : ∀ b ∈ busy, isBusy b = true) {n : Nat} {p : π}
    {log : List BoardEntry} (h : answers w c n p = busy.map .ok) :
    poll w.traced c n (p, log) = .error .timeout
      (afterReads w c busy.length p, log ++ reads c (busy.map .ok)) := by
  obtain ⟨m, hm, hpoll⟩ := poll_busy log hbusy (h.trans (List.append_nil _).symm)
  cases m with
  | zero => exact hpoll
  | succ m => simp [answers_succ] at hm

theorem poll_interrupted {busy : List Byte} (hbusy : ∀ b ∈ busy, isBusy b = true)
    {rest : List (Except Unit Byte)} {n : Nat} {p : π} {log : List BoardEntry}
    (h : answers w c n p = busy.map .ok ++ .error () :: rest) :
    poll w.traced c n (p, log) = .error .i2c (afterReads w c (busy.length + 1) p,
      log ++ reads c (busy.map .ok ++ [.error ()])) := by
  obtain ⟨m, hm, hpoll⟩ := poll_busy log hbusy h
  cases m with
  | zero => contradiction
  | succ m =>
    rw [answers_succ, List.cons.injEq] at hm
    rw [hpoll, poll_succ_traced_eq, eq_error_of_attempt hm.1.symm]
    simp [reads, afterReads, Function.iterate_succ_apply']

theorem poll_finished {busy : List Byte} (hbusy : ∀ b ∈ busy, isBusy b = true) {status : Byte}
    (hstatus : isBusy status = false) {rest : List (Except Unit Byte)} {n : Nat} {p : π}
    {log : List BoardEntry} (h : answers w c n p = busy.map .ok ++ .ok status :: rest) :
    poll w.traced c n (p, log) = .ok status (afterReads w c (busy.length + 1) p,
      log ++ reads c (busy.map .ok ++ [.ok status])) := by
  obtain ⟨m, hm, hpoll⟩ := poll_busy log hbusy h
  cases m with
  | zero => contradiction
  | succ m =>
    rw [answers_succ, List.cons.injEq] at hm
    rw [hpoll, poll_succ_traced_eq, eq_ok_of_attempt hm.1.symm]
    simp [hstatus, reads, afterReads, Function.iterate_succ_apply']

end Polling

/-! ## Primitives -/

/-- What the action comes to from `s`. It leaves the locks and the flag alone. -/
structure Yields (act : Action Failure (Bridge (π × List BoardEntry)) α)
    (s : Bridge (π × List BoardEntry)) (o : Except Failure α) (accesses : List BoardEntry) :
    Prop where
  outcome : (act.attempt s).1 = o
  log : (act.attempt s).2.board.2 = s.board.2 ++ accesses
  depth : (act.attempt s).2.depth = s.depth
  active : (act.attempt s).2.active = s.active

/--
From `s` the action sends one command and polls for its end. Once the chip is idle, `ending` tells
from the board and the status what comes of the action and what else it accesses.
-/
structure Polls (w : Wiring π) (c : Config)
    (act : Action Failure (Bridge (π × List BoardEntry)) α) (command : List Byte)
    (ending : π → Byte → Except Failure α × List BoardEntry)
    (s : Bridge (π × List BoardEntry)) : Prop where
  refused {p : π} (hwrite : w.write c.address command s.board.1 = .error () p) :
    Yields act s (.error .i2c) [.write c.address command (.error ())]
  stuck {p : π} {busy : List Byte} (hwrite : w.write c.address command s.board.1 = .ok () p)
    (hanswers : answers w c c.pollLimit p = busy.map .ok) (hbusy : ∀ b ∈ busy, isBusy b = true) :
    Yields act s (.error .timeout)
      (.write c.address command (.ok ()) :: reads c (answers w c c.pollLimit p))
  interrupted {p : π} {busy : List Byte} {rest : List (Except Unit Byte)}
    (hwrite : w.write c.address command s.board.1 = .ok () p)
    (hanswers : answers w c c.pollLimit p = busy.map .ok ++ .error () :: rest)
    (hbusy : ∀ b ∈ busy, isBusy b = true) :
    Yields act s (.error .i2c)
      (.write c.address command (.ok ()) :: reads c (busy.map .ok ++ [.error ()]))
  finished {p : π} {busy : List Byte} {status : Byte} {rest : List (Except Unit Byte)}
    (hwrite : w.write c.address command s.board.1 = .ok () p)
    (hanswers : answers w c c.pollLimit p = busy.map .ok ++ .ok status :: rest)
    (hbusy : ∀ b ∈ busy, isBusy b = true) (hstatus : isBusy status = false) :
    Yields act s (ending (afterReads w c (busy.length + 1) p) status).1
      (.write c.address command (.ok ()) :: reads c (busy.map .ok ++ [.ok status]) ++
        (ending (afterReads w c (busy.length + 1) p) status).2)

/-- A timeout comes just when all the answers that the limit allows show the chip busy. -/
structure PollsExactly (w : Wiring π) (c : Config)
    (act : Action Failure (Bridge (π × List BoardEntry)) α) (command : List Byte)
    (ending : π → Byte → Except Failure α × List BoardEntry)
    (s : Bridge (π × List BoardEntry)) : Prop extends Polls w c act command ending s where
  timeout :
    (act.attempt s).1 = .error .timeout ↔
      ∃ p, w.write c.address command s.board.1 = .ok () p ∧
        ∃ busy : List Byte, (∀ b ∈ busy, isBusy b = true) ∧
          answers w c c.pollLimit p = busy.map .ok

section Primitives

variable (w : Wiring π) (c : Config)

def fetched (p : π) : Except Failure Byte × List BoardEntry :=
  match w.write c.address [0xE1, 0xE1] p with
  | .error _ _ => (.error .i2c, [.write c.address [0xE1, 0xE1] (.error ())])
  | .ok _ p =>
    match w.read c.address p with
    | .error _ _ =>
      (.error .i2c, [.write c.address [0xE1, 0xE1] (.ok ()), .read c.address (.error ())])
    | .ok b _ => (.ok b, [.write c.address [0xE1, 0xE1] (.ok ()), .read c.address (.ok b)])

variable {w c}

theorem yields_onBoard {act : Action Failure (π × List BoardEntry) α}
    {s : Bridge (π × List BoardEntry)} {o : Except Failure α} {accesses : List BoardEntry}
    (houtcome : (act.attempt s.board).1 = o)
    (hlog : (act.attempt s.board).2.2 = s.board.2 ++ accesses) :
    Yields (onBoard act) s o accesses := by
  unfold attempt at houtcome hlog
  constructor <;> unfold attempt onBoard <;> cases hact : act s.board <;> simp_all

theorem yields_of_error {act : Action Failure (π × List BoardEntry) α}
    {next : α → Action Failure (π × List BoardEntry) β} {s : Bridge (π × List BoardEntry)}
    {e : Failure} {p : π} {accesses : List BoardEntry}
    (h : act s.board = .error e (p, s.board.2 ++ accesses)) :
    Yields (onBoard (act >>= next)) s (.error e) accesses := by
  have hbind : (act >>= next) s.board = .error e (p, s.board.2 ++ accesses) := by
    simp only [bind, EStateM.bind, h]
  apply yields_onBoard <;> rw [attempt_of_error hbind]

theorem yields_of_ok {act : Action Failure (π × List BoardEntry) α}
    {next : α → Action Failure (π × List BoardEntry) β} {s : Bridge (π × List BoardEntry)}
    {a : α} {p : π} {o : Except Failure β} {accesses more : List BoardEntry}
    (h : act s.board = .ok a (p, s.board.2 ++ accesses))
    (houtcome : ((next a).attempt (p, s.board.2 ++ accesses)).1 = o)
    (hlog : ((next a).attempt (p, s.board.2 ++ accesses)).2.2 = s.board.2 ++ accesses ++ more) :
    Yields (onBoard (act >>= next)) s o (accesses ++ more) := by
  have hbind : (act >>= next).attempt s.board = (next a).attempt (p, s.board.2 ++ accesses) := by
    simp only [attempt, bind, EStateM.bind, h]
  apply yields_onBoard
  · rw [hbind, houtcome]
  · rw [hbind, hlog, List.append_assoc]

theorem complete_refused {command : List Byte} {p₀ p : π} {log : List BoardEntry}
    (hwrite : w.write c.address command p₀ = .error () p) :
    complete w.traced c command (p₀, log) =
      .error .i2c (p, log ++ [.write c.address command (.error ())]) := by
  unfold complete
  simp only [bind, EStateM.bind, request_traced_eq, hwrite]

theorem complete_sent {command : List Byte} {p₀ p : π} {log : List BoardEntry}
    (hwrite : w.write c.address command p₀ = .ok () p) :
    complete w.traced c command (p₀, log) =
      poll w.traced c c.pollLimit (p, log ++ [.write c.address command (.ok ())]) := by
  unfold complete
  simp only [bind, EStateM.bind, request_traced_eq, hwrite]

theorem polls_complete {command : List Byte} {next : Byte → Action Failure (π × List BoardEntry) α}
    {ending : π → Byte → Except Failure α × List BoardEntry}
    (houtcome : ∀ status p log, ((next status).attempt (p, log)).1 = (ending p status).1)
    (hlog : ∀ status p log, ((next status).attempt (p, log)).2.2 = log ++ (ending p status).2)
    (s : Bridge (π × List BoardEntry)) :
    Polls w c (onBoard (complete w.traced c command >>= next)) command ending s where
  refused hwrite := yields_of_error (complete_refused hwrite)
  stuck hwrite hanswers hbusy := by
    apply yields_of_error
    rw [complete_sent hwrite, poll_stuck hbusy hanswers, hanswers, List.append_assoc]
    rfl
  interrupted hwrite hanswers hbusy := by
    apply yields_of_error
    rw [complete_sent hwrite, poll_interrupted hbusy hanswers, List.append_assoc]
    rfl
  finished hwrite hanswers hbusy hstatus := by
    refine yields_of_ok ?_ (houtcome _ _ _) (hlog _ _ _)
    rw [complete_sent hwrite, poll_finished hbusy hstatus hanswers, List.append_assoc]
    rfl

theorem Polls.exactly {act : Action Failure (Bridge (π × List BoardEntry)) α} {command : List Byte}
    {ending : π → Byte → Except Failure α × List BoardEntry} {s : Bridge (π × List BoardEntry)}
    (h : Polls w c act command ending s)
    (hending : ∀ p status, (ending p status).1 ≠ .error .timeout) :
    PollsExactly w c act command ending s where
  toPolls := h
  timeout := by
    constructor
    · intro htimeout
      cases hwrite : w.write c.address command s.board.1 with
      | error _ p => cases htimeout.symm.trans (h.refused hwrite).outcome
      | ok _ p =>
        obtain ⟨busy, hbusy, hall | ⟨rest, hfail⟩ | ⟨status, rest, hstatus, hidle⟩⟩ :=
          answers_cases (answers w c c.pollLimit p)
        · exact ⟨p, rfl, busy, hbusy, hall⟩
        · cases htimeout.symm.trans (h.interrupted hwrite hfail hbusy).outcome
        · have hend := (h.finished hwrite hidle hbusy hstatus).outcome
          exact absurd (hend.symm.trans htimeout) (hending _ _)
    · rintro ⟨p, hwrite, busy, hbusy, hanswers⟩
      exact (h.stuck hwrite hanswers hbusy).outcome

theorem polls_status (command : List Byte) (tells : Byte → α) (s : Bridge (π × List BoardEntry)) :
    PollsExactly w c (onBoard (do pure (tells (← complete w.traced c command)))) command
      (fun _ status => (.ok (tells status), [])) s := by
  refine Polls.exactly (polls_complete ?_ ?_ s) ?_
  · exact fun _ _ _ => rfl
  · exact fun _ _ log => (List.append_nil log).symm
  · exact fun _ _ => nofun

theorem fetch_traced (p : π) (log : List BoardEntry) :
    let act : Action Failure (π × List BoardEntry) Byte := do
      request w.traced c [setReadPointer, dataPointer]
      readRegister w.traced c
    (act.attempt (p, log)).1 = (fetched w c p).1 ∧
      (act.attempt (p, log)).2.2 = log ++ (fetched w c p).2 := by
  unfold attempt fetched
  simp only [bind, EStateM.bind, request_traced_eq, setReadPointer, dataPointer]
  cases w.write c.address [0xE1, 0xE1] p with
  | error => exact ⟨rfl, rfl⟩
  | ok _ p =>
    simp only [readRegister_traced_eq]
    cases w.read c.address p <;> simp

theorem polls_readByte (s : Bridge (π × List BoardEntry)) :
    PollsExactly w c (onBoard (readByte w.traced c)) [0x96] (fun p _ => fetched w c p) s := by
  refine Polls.exactly (polls_complete ?_ ?_ s) ?_
  · exact fun _ p log => (fetch_traced p log).1
  · exact fun _ p log => (fetch_traced p log).2
  · intro p _
    unfold fetched
    split
    · simp
    · split <;> simp

variable (w c)

/--
Each primitive is one command and then reads of the status, one after another, up to the first that
does not show the chip busy, and never more than the limit. The result is in that status, or for a
byte in the data register.
-/
theorem primitives_poll_exactly (s : Bridge (π × List BoardEntry)) :
    PollsExactly w c (master w.traced c).reset [0xB4]
        (fun _ status => (.ok (status.getLsbD 1), [])) s ∧
      PollsExactly w c (master w.traced c).readBit [0x87, 0x80]
        (fun _ status => (.ok (status.getLsbD 5), [])) s ∧
      (∀ b, PollsExactly w c ((master w.traced c).writeBit b) [0x87, if b then 0x80 else 0]
        (fun _ _ => (.ok (), [])) s) ∧
      (∀ v, PollsExactly w c ((master w.traced c).writeByte v) [0xA5, v]
        (fun _ _ => (.ok (), [])) s) ∧
      PollsExactly w c (master w.traced c).readByte [0x96] (fun p _ => fetched w c p) s := by
  refine ⟨polls_status [0xB4] hasPresence s, polls_status [0x87, 0x80] sampled s, ?_, ?_,
    polls_readByte s⟩
  · intro b
    have hslot : (master w.traced c).writeBit b =
        onBoard (do pure ((fun _ => ()) (← complete w.traced c [0x87, slotParameter b]))) := by
      simp only [master, ByteMaster.toMaster, onBoard_discard, slot, bind_assoc, pure_bind]
      rfl
    rw [hslot]
    exact polls_status [0x87, slotParameter b] (fun _ => ()) s
  · intro v
    exact polls_status [0xA5, v] (fun _ => ()) s

end Primitives

end OneWire.Ds2484
