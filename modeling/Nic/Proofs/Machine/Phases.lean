/-
The two phases take turns, until the machine stops.

Program counter, address of the next instruction, status and phase decide whether a phase can be
carried out and what comes after it. What an action can do to these four is said once (`Controlled`,
`controlled_act`), and everything that holds after every sequence of requests is read off there: a
machine that is about to execute has status ok (`Controlled.orderly`), and a machine that a bad word
or a bad address has stopped stays stopped until it starts over (`Controlled.status_of_terminal`).

Requests for a phase are refused in one case only (`fetch_eq_error_iff`, `execute_eq_error_iff`).
Requests that choose the phase themselves never run into it: a fetch that goes well is followed by
an execute (`phase_of_fetch_ok`).
-/
import Nic.Proofs.Instruction
import Nic.Proofs.Machine.Snapshot

set_option autoImplicit false

namespace Nic

/-- What decides which phase can be carried out. -/
structure Control where
  pc : Byte
  nr : Byte
  status : Status
  phase : Phase

/-- The part of a snapshot that decides which phase can be carried out. -/
def Snapshot.control (s : Snapshot) : Control := ⟨s.pc, s.nr, s.status, s.phase⟩

theorem Phase.ne_execute_iff {p : Phase} : p ≠ .execute ↔ p = .fetch := by
  cases p <;> decide

theorem Phase.ne_fetch_iff {p : Phase} : p ≠ .fetch ↔ p = .execute := by
  cases p <;> decide

namespace Machine

/-- The part of a machine that decides which phase can be carried out. -/
def control (m : Machine) : Control := m.snapshot.control

/-! ## What actions do to it -/

/-- What an action can do. -/
inductive Controlled : Action → Control → Control → Prop where
  /-- The action is about something else, or the phase is not carried out. -/
  | keep {a : Action} {c : Control} : Controlled a c c
  | start {image : List Nibble} {c : Control} : Controlled (.start image) c ⟨0, 0, .ok, .fetch⟩
  | setPc {x : Byte} {c : Control} : Controlled (.setPc x) c { c with pc := x }
  | fetched {c : Control} (hphase : c.phase = .fetch) (hstatus : c.status.isTerminal = false)
    (hpc : c.pc.aligned = c.pc) : Controlled .fetch c ⟨c.pc, c.pc + 4, .ok, .execute⟩
  | misaligned {c : Control} (hphase : c.phase = .fetch) (hstatus : c.status.isTerminal = false)
    (hpc : c.pc.aligned ≠ c.pc) : Controlled .fetch c { c with status := .badAlignment }
  | badInstruction {c : Control} (hphase : c.phase = .execute)
    (hstatus : c.status.isTerminal = false) :
    Controlled .execute c { c with status := .badInstruction, phase := .fetch }
  /-- The instruction is carried out. It is followed by the next one, unless it jumps; and it leaves
  the status as it is, unless it halts. -/
  | executed {c : Control} {pc : Byte} {status : Status} (hphase : c.phase = .execute)
    (hstatus : c.status.isTerminal = false) (hpc : pc = c.nr ∨ pc.aligned = pc)
    (hleft : status = c.status ∨ status = .halted) :
    Controlled .execute c ⟨pc, c.nr, status, .fetch⟩

theorem control_setStatus (m : Machine) (s : Status) :
    (m.setStatus s).control = { m.control with status := s } := by
  rw [control, snapshot_setStatus]
  rfl

theorem control_carryOut (m : Machine) (i : Instr) :
    (m.carryOut i).control = ⟨m.successor i, m.nr, (m.perform i).status, m.phase⟩ := by
  obtain ⟨mem, regs, status, hframe⟩ := perform_frame m i
  -- counting the instruction changes nothing of the control
  have hset : (m.carryOut i).control = ((m.perform i).setPc (m.successor i)).snapshot.control := rfl
  have hstatus : (m.perform i).status = status := congrArg Machine.status hframe
  rw [hset, snapshot_setPc, ← snapshot_unobserved (m.perform i), hframe, hstatus]
  rfl

/-- A jump goes to the address of an instruction, whatever its word is. -/
theorem successor_of_decode {w : Word} {i : Instr} (hi : Instr.decode w = some i) (m : Machine) :
    m.successor i = m.nr ∨ (m.successor i).aligned = m.successor i := by
  have haligned : i.IsAligned := (Instr.decode_eq_some_iff.mp hi).2
  cases i with
  | jump a cond target =>
    rw [successor]
    split
    · exact .inr haligned
    · exact .inl rfl
  | _ => exact .inl rfl

theorem status_perform_or (m : Machine) (i : Instr) :
    (m.perform i).status = m.status ∨ (m.perform i).status = .halted := by
  by_cases hi : i = .halt
  · subst hi
    exact .inr (congrArg Snapshot.status (snapshot_setStatus m .halted))
  · exact .inl (status_perform hi m)

theorem controlled_fetch (m : Machine) : Controlled .fetch m.control m.fetch.2.control := by
  rw [fetch_eq]
  split
  · exact .keep
  next hterminal =>
  have hstatus : m.control.status.isTerminal = false := Bool.eq_false_iff.mpr hterminal
  split
  · exact .keep
  next hexecute =>
  have hphase : m.control.phase = .fetch := Phase.ne_execute_iff.mp hexecute
  split
  next hpc =>
    rw [outcome, control, control, snapshot_readInstr]
    exact .fetched hphase hstatus hpc
  next hpc =>
    rw [outcome, control_setStatus]
    exact .misaligned hphase hstatus hpc

theorem controlled_execute (m : Machine) : Controlled .execute m.control m.execute.2.control := by
  rw [execute_eq]
  split
  · exact .keep
  next hterminal =>
  have hstatus : m.control.status.isTerminal = false := Bool.eq_false_iff.mpr hterminal
  split
  · exact .keep
  next hfetch =>
  have hphase : m.control.phase = .execute := Phase.ne_fetch_iff.mp hfetch
  split
  · rw [outcome, control_setStatus]
    exact .badInstruction hphase hstatus
  next i hi =>
    rw [outcome, control_carryOut]
    have hpc := successor_of_decode hi m.toFetch
    exact .executed hphase hstatus hpc (status_perform_or m.toFetch i)

/-- **What an action can do to the control of the machine.** -/
theorem controlled_act (m : Machine) (a : Action) : Controlled a m.control (m.act a).control := by
  cases a with
  | start image => exact .start
  | fetch => exact controlled_fetch m
  | execute => exact controlled_execute m
  | setReg r b =>
    rw [act, control, control, snapshot_setReg]
    exact .keep
  | setPc x =>
    rw [act, control, control, snapshot_setPc]
    exact .setPc
  | setCell x d =>
    rw [act, control, control, snapshot_setCell]
    exact .keep
  | setFlags flags => exact .keep
  | clear => exact .keep

/-! ## Phase and status -/

/-- A machine that is about to execute is neither halted nor stopped. -/
def Orderly (c : Control) : Prop := c.phase = .execute → c.status = .ok

theorem Controlled.orderly {a : Action} {c c' : Control} (h : Controlled a c c')
    (hc : Orderly c) : Orderly c' := by
  intro hphase'
  cases h with
  | keep => exact hc hphase'
  | start => cases hphase'
  | setPc => exact hc hphase'
  | fetched => rfl
  | misaligned hphase => exact absurd (hphase.symm.trans hphase') (by decide)
  | badInstruction => cases hphase'
  | executed => cases hphase'

/-- Only starting over helps a machine that is stopped. -/
theorem Controlled.status_of_terminal {a : Action} {c c' : Control} (h : Controlled a c c')
    (ha : ∀ image, a ≠ .start image) (hc : c.status.isTerminal = true) :
    c'.status = c.status := by
  cases h with
  | keep => rfl
  | start => exact absurd rfl (ha _)
  | setPc => rfl
  | fetched _ hstatus => exact absurd (hstatus.symm.trans hc) (by decide)
  | misaligned _ hstatus => exact absurd (hstatus.symm.trans hc) (by decide)
  | badInstruction _ hstatus => exact absurd (hstatus.symm.trans hc) (by decide)
  | executed _ hstatus => exact absurd (hstatus.symm.trans hc) (by decide)

/-- After every sequence of requests to a new machine, a machine that is about to execute has status
ok. -/
theorem orderly_of_requests {flags : Flags} {requests : List Request} {m : Machine}
    (h : (Machine.new flags).afterAll? requests = some m) : Orderly m.control := by
  have hreaches : Reaches (fun _ => True) (Machine.new flags) m :=
    reaches_of_requests (fun _ _ _ _ => trivial) h
  refine hreaches.invariant (P := fun m => Orderly m.control) ?_ ?_
  · intro m a _ hm
    exact (controlled_act m a).orderly hm
  · intro hphase
    cases hphase

/-- A machine that is stopped keeps its status as long as no request starts over. -/
theorem status_of_requests {requests : List Request} {m m' : Machine}
    (hrequests : ∀ q ∈ requests, q.startsOver = false) (h : m.afterAll? requests = some m')
    (hm : m.status.isTerminal = true) : m'.status = m.status := by
  have hreaches : Reaches (fun a => ∀ image, a ≠ .start image) m m' := by
    refine reaches_of_requests ?_ h
    rintro q hq _ huses image rfl
    exact absurd ((hrequests q hq).symm.trans huses) (by decide)
  refine hreaches.invariant (P := fun n => n.status = m.status) ?_ rfl
  intro n a ha hn
  have hterminal : n.control.status.isTerminal = true := by
    rw [← hm, ← hn]
    rfl
  exact ((controlled_act n a).status_of_terminal ha hterminal).trans hn

/-! ## Refused phases -/

/-- Both phases begin in the same way: a machine that is stopped answers with its status, and a
phase is refused if it is the other one's turn. -/
theorem guarded_eq_error_iff {m m' : Machine} {fault : MachineFault} {p : Prop} [Decidable p]
    {o : Outcome} (ho : ∀ fault m', o ≠ (.error fault, m')) :
    (if m.status.isTerminal then m.outcome else if p then (.error .wrongPhase, m) else o) =
        (.error fault, m') ↔
      fault = .wrongPhase ∧ m' = m ∧ m.status.isTerminal = false ∧ p := by
  constructor
  · intro h
    split at h
    · cases h
    next hterminal =>
    split at h
    next hp =>
      cases h
      exact ⟨rfl, rfl, Bool.eq_false_iff.mpr hterminal, hp⟩
    next => exact absurd h (ho fault m')
  · rintro ⟨rfl, rfl, hstatus, hp⟩
    rw [if_neg (Bool.eq_false_iff.mp hstatus), if_pos hp]

theorem fetch_eq_error_iff {m m' : Machine} {fault : MachineFault} :
    m.fetch = (.error fault, m') ↔
      fault = .wrongPhase ∧ m' = m ∧ m.status.isTerminal = false ∧ m.phase = .execute := by
  rw [fetch_eq]
  apply guarded_eq_error_iff
  intro fault m' h
  split at h <;> cases h

theorem execute_eq_error_iff {m m' : Machine} {fault : MachineFault} :
    m.execute = (.error fault, m') ↔
      fault = .wrongPhase ∧ m' = m ∧ m.status.isTerminal = false ∧ m.phase = .fetch := by
  rw [execute_eq]
  apply guarded_eq_error_iff
  intro fault m' h
  split at h <;> cases h

/-! ## Requests that choose the phase -/

theorem outcome_ne_ok_of_terminal {m : Machine} (h : m.status.isTerminal = true) (m' : Machine) :
    m.outcome ≠ (.ok .ok, m') := by
  intro heq
  obtain ⟨hok, -⟩ := Prod.mk.inj heq
  rw [Except.ok.inj hok] at h
  cases h

/-- A fetch that goes well is followed by an execute. -/
theorem phase_of_fetch_ok {m m' : Machine} (h : m.fetch = (.ok .ok, m')) :
    m'.phase = .execute := by
  rw [fetch_eq] at h
  split at h
  next hterminal => exact absurd h (outcome_ne_ok_of_terminal hterminal m')
  next =>
  split at h
  · cases h
  split at h
  · obtain ⟨-, rfl⟩ := Prod.mk.inj h
    exact congrArg Snapshot.phase (snapshot_readInstr m)
  · obtain ⟨hok, -⟩ := Prod.mk.inj h
    have hbad : (m.setStatus .badAlignment).status = .badAlignment :=
      congrArg Control.status (control_setStatus m .badAlignment)
    rw [hbad] at hok
    cases hok

/-- A machine that is about to fetch, and could not do it, is still about to fetch. -/
theorem phase_of_fetch_not_ok {m : Machine} (hphase : m.phase = .fetch)
    (h : ∀ m', m.fetch ≠ (.ok .ok, m')) : m.fetch.2.phase = .fetch := by
  rw [fetch_eq] at h ⊢
  split
  · exact hphase
  next hterminal =>
  rw [if_neg hterminal] at h
  split
  · exact hphase
  next hturn =>
  rw [if_neg hturn] at h
  split
  next hpc =>
    have hok : m.readInstr.status = .ok := congrArg Snapshot.status (snapshot_readInstr m)
    rw [if_pos hpc, outcome, hok] at h
    exact absurd rfl (h m.readInstr)
  next => exact (congrArg Control.phase (control_setStatus m .badAlignment)).trans hphase

/-- Unless the machine is stopped, it is about to fetch after an execute. -/
theorem phase_execute {m : Machine} (hstatus : m.status.isTerminal = false) :
    m.execute.2.phase = .fetch := by
  rw [execute_eq, if_neg (Bool.eq_false_iff.mp hstatus)]
  split
  next hfetch => exact hfetch
  next =>
  split
  · exact congrArg Control.phase (control_setStatus m.toFetch .badInstruction)
  next i _ => exact congrArg Control.phase (control_carryOut m.toFetch i)

/-- An execute that goes well is followed by a fetch. -/
theorem phase_of_execute_ok {m m' : Machine} (h : m.execute = (.ok .ok, m')) :
    m'.phase = .fetch := by
  have hstatus : m.status.isTerminal = false := by
    rw [Bool.eq_false_iff]
    intro hterminal
    rw [execute_eq, if_pos hterminal] at h
    exact outcome_ne_ok_of_terminal hterminal m' h
  have hphase := phase_execute hstatus
  rw [h] at hphase
  exact hphase

/-- An instruction that is completed, and leaves the machine ready to go on, is followed by a
fetch. -/
theorem phase_of_stepIn_ok {m m' : Machine} (h : m.stepIn = (.ok .ok, m')) :
    m'.phase = .fetch := by
  rw [stepIn] at h
  split at h
  · exact phase_of_execute_ok h
  · split at h
    · exact phase_of_execute_ok h
    next hstopped => exact absurd h (hstopped m')

/-- Whatever comes of an instruction that is begun and completed, it is followed by a fetch. -/
theorem phase_stepIn {m : Machine} (hphase : m.phase = .fetch) : m.stepIn.2.phase = .fetch := by
  rw [stepIn]
  split
  next hexecute => exact absurd (hphase.symm.trans hexecute) (by decide)
  next =>
  split
  next m₁ hm₁ =>
    have horderly : Orderly m.fetch.2.control := by
      refine (controlled_fetch m).orderly ?_
      intro hexecute
      exact absurd (hphase.symm.trans hexecute) (by decide)
    rw [hm₁] at horderly
    have hok : m₁.status = .ok := horderly (phase_of_fetch_ok hm₁)
    apply phase_execute
    rw [hok]
    rfl
  next hne => exact phase_of_fetch_not_ok hphase hne

theorem step_ne_error (m : Machine) (fault : MachineFault) (m' : Machine) :
    m.step ≠ (.error fault, m') := by
  intro h
  rw [step] at h
  split at h
  next hphase =>
    have hexecute := (fetch_eq_error_iff.mp h).2.2.2
    exact absurd (hphase.symm.trans hexecute) (by decide)
  next hphase =>
    have hfetch := (execute_eq_error_iff.mp h).2.2.2
    exact absurd (hphase.symm.trans hfetch) (by decide)

theorem stepIn_ne_error (m : Machine) (fault : MachineFault) (m' : Machine) :
    m.stepIn ≠ (.error fault, m') := by
  intro h
  rw [stepIn] at h
  split at h
  next hphase =>
    have hfetch := (execute_eq_error_iff.mp h).2.2.2
    exact absurd (hphase.symm.trans hfetch) (by decide)
  next hphase =>
    split at h
    next m₁ hm₁ =>
      have hfetch := (execute_eq_error_iff.mp h).2.2.2
      exact absurd ((phase_of_fetch_ok hm₁).symm.trans hfetch) (by decide)
    next =>
      have hexecute := (fetch_eq_error_iff.mp h).2.2.2
      exact absurd (hphase.symm.trans hexecute) (by decide)

theorem runWithLimit_ne_error (limit : Nat) (m : Machine) (fault : MachineFault) (m' : Machine) :
    m.runWithLimit limit ≠ (.error fault, m') := by
  induction limit generalizing m with
  | zero =>
    intro h
    cases h
  | succ limit ih =>
    rw [runWithLimit]
    split
    · apply ih
    · apply stepIn_ne_error

theorem exists_status {o : Outcome} (h : ∀ fault m', o ≠ (.error fault, m')) :
    ∃ status, o.1 = .ok status := by
  obtain ⟨result, m⟩ := o
  cases result with
  | error fault => exact absurd rfl (h fault m)
  | ok status => exact ⟨status, rfl⟩

/-! ## A machine that is stopped -/

/-- Whatever phases or runs the machine is asked for, it answers with its status, and nothing of it
changes. -/
structure StandsStill (m : Machine) : Prop where
  fetch : m.fetch = m.outcome
  execute : m.execute = m.outcome
  step : m.step = m.outcome
  stepIn : m.stepIn = m.outcome
  run : m.run = some m.outcome
  runWithLimit (limit : Nat) : m.runWithLimit limit = m.outcome

section Terminal

variable {m : Machine} (h : m.status.isTerminal = true)

include h

theorem fetch_of_terminal : m.fetch = m.outcome := by
  rw [fetch_eq, if_pos h]

theorem execute_of_terminal : m.execute = m.outcome := by
  rw [execute_eq, if_pos h]

theorem step_of_terminal : m.step = m.outcome := by
  rw [step]
  split
  · exact fetch_of_terminal h
  · exact execute_of_terminal h

theorem stepIn_of_terminal : m.stepIn = m.outcome := by
  rw [stepIn]
  split
  · exact execute_of_terminal h
  · rw [fetch_of_terminal h]
    split
    next heq => exact absurd heq (outcome_ne_ok_of_terminal h _)
    next => rfl

theorem runWithLimit_of_terminal (limit : Nat) : m.runWithLimit limit = m.outcome := by
  cases limit with
  | zero => rfl
  | succ limit =>
    rw [runWithLimit, stepIn_of_terminal h]
    split
    next heq => exact absurd heq (outcome_ne_ok_of_terminal h _)
    next => rfl

theorem runWhile_of_terminal (goOn : Machine → Bool) (fuel : Nat) :
    m.runWhile goOn (fuel + 1) = some m.outcome := by
  rw [runWhile, stepIn_of_terminal h]
  split
  · split
    next heq => exact absurd heq (outcome_ne_ok_of_terminal h _)
    next => rfl
  · rfl

omit h in
theorem configurations_pos : 0 < configurations := by
  unfold configurations
  apply Nat.pow_pos
  exact Nat.two_pos

theorem run_of_terminal : m.run = some m.outcome := by
  have hpos := configurations_pos
  rw [run]
  -- the number itself is too large to be looked at
  generalize configurations = fuel at hpos ⊢
  cases fuel with
  | zero => exact absurd hpos (Nat.lt_irrefl 0)
  | succ fuel => exact runWhile_of_terminal h _ fuel

theorem standsStill_of_terminal : StandsStill m where
  fetch := fetch_of_terminal h
  execute := execute_of_terminal h
  step := step_of_terminal h
  stepIn := stepIn_of_terminal h
  run := run_of_terminal h
  runWithLimit := runWithLimit_of_terminal h

end Terminal

/-- **The protocol of phases and status.** A new machine with any settings is used in any way.

If it is halted or stopped, then it is about to fetch. A fetch is refused exactly if the machine is
not stopped and about to execute, and an execute exactly if it is not stopped and about to fetch; it
is then the other phase's turn, and nothing of the machine changes, nor of its observer. The next
phase, one instruction and a run with a limit are never refused.

If it is stopped, then it keeps this status whatever it is asked for, unless it is to start over;
and in all this time it answers every request for a phase or a run with the status, and nothing of
it changes. -/
theorem phase_protocol {flags : Flags} {requests : List Request} {m : Machine}
    (h : (Machine.new flags).afterAll? requests = some m) :
    (m.status.isTerminal = true ∨ m.status = .halted → m.phase = .fetch) ∧
    (∀ fault m', m.fetch = (.error fault, m') ↔
      fault = .wrongPhase ∧ m' = m ∧ m.status.isTerminal = false ∧ m.phase = .execute) ∧
    (∀ fault m', m.execute = (.error fault, m') ↔
      fault = .wrongPhase ∧ m' = m ∧ m.status.isTerminal = false ∧ m.phase = .fetch) ∧
    ((∃ status, m.step.1 = .ok status) ∧ (∃ status, m.stepIn.1 = .ok status) ∧
      ∀ limit, ∃ status, (m.runWithLimit limit).1 = .ok status) ∧
    (m.status.isTerminal = true → ∀ (later : List Request) (m' : Machine),
      (∀ q ∈ later, q.startsOver = false) → m.afterAll? later = some m' →
        m'.status = m.status ∧ StandsStill m') := by
  refine ⟨?_, fun _ _ => fetch_eq_error_iff, fun _ _ => execute_eq_error_iff, ⟨?_, ?_, ?_⟩, ?_⟩
  · intro hstatus
    apply Phase.ne_execute_iff.mp
    intro hphase
    have hok : m.status = .ok := orderly_of_requests h hphase
    rw [hok] at hstatus
    rcases hstatus with hterminal | hhalted
    · cases hterminal
    · cases hhalted
  · exact exists_status (step_ne_error m)
  · exact exists_status (stepIn_ne_error m)
  · intro limit
    exact exists_status (runWithLimit_ne_error limit m)
  · intro hterminal later m' hlater hm'
    have hstatus : m'.status = m.status := status_of_requests hlater hm' hterminal
    refine ⟨hstatus, standsStill_of_terminal ?_⟩
    rw [hstatus]
    exact hterminal

/-- The second word is no instruction. The program counter is set after it was fetched, when a
second fetch would be refused; executing it stops the machine. It then stays stopped, although the
program counter is set to an instruction, and a text that is no executable is refused. -/
theorem phase_protocol_badInstruction :
    ∃ m₁ m₂ m₃, (Machine.new .default).afterAll? [.load ⟨[2, 1, 0, 5, 0, 0, 0, 1], none⟩, .stepIn,
        .fetch, .setPc 3] = some m₁ ∧ m₁.fetch = (.error .wrongPhase, m₁) ∧
      (Machine.new .default).afterAll? [.load ⟨[2, 1, 0, 5, 0, 0, 0, 1], none⟩, .stepIn,
        .fetch, .setPc 3, .execute] = some m₂ ∧ m₂.status = .badInstruction ∧ m₂.phase = .fetch ∧
      m₂.afterAll? [.setPc 0, .loadText "1f", .setReg ⟨1⟩ 7] = some m₃ ∧
      m₃.status = .badInstruction ∧ m₃.stepIn = m₃.outcome ∧ m₃.run = some m₃.outcome := by
  let requests : List Request :=
    [.load ⟨[2, 1, 0, 5, 0, 0, 0, 1], none⟩, .stepIn, .fetch, .setPc 3]
  have hfetched : ((Machine.new .default).afterAll? requests).any (fun m =>
      decide (m.status.isTerminal = false ∧ m.phase = .execute)) = true := by decide +kernel
  obtain ⟨m₁, hm₁, hdecide₁⟩ := (Option.any_eq_true _ _).mp hfetched
  obtain ⟨hstatus₁, hphase₁⟩ := of_decide_eq_true hdecide₁
  have hstopped : ((Machine.new .default).afterAll? (requests ++ [.execute])).any (fun m =>
      decide (m.status = .badInstruction) &&
        (m.afterAll? [.setPc 0, .loadText "1f", .setReg ⟨1⟩ 7]).isSome) = true := by
    decide +kernel
  obtain ⟨m₂, hm₂, hdecide₂⟩ := (Option.any_eq_true _ _).mp hstopped
  obtain ⟨hstatus₂, hlater⟩ := Bool.and_eq_true_iff.mp hdecide₂
  have hstatus₂ : m₂.status = .badInstruction := of_decide_eq_true hstatus₂
  obtain ⟨m₃, hm₃⟩ := Option.isSome_iff_exists.mp hlater
  obtain ⟨-, hrefused, -, -, -⟩ := phase_protocol hm₁
  obtain ⟨hturn, -, -, -, hstays⟩ := phase_protocol hm₂
  have hterminal : m₂.status.isTerminal = true := by rw [hstatus₂]; rfl
  obtain ⟨hstatus₃, hstill⟩ := hstays hterminal _ m₃ (by decide +kernel) hm₃
  exact ⟨m₁, m₂, m₃, hm₁, (hrefused _ _).mpr ⟨rfl, rfl, hstatus₁, hphase₁⟩, hm₂, hstatus₂,
    hturn (.inl hterminal), hm₃, hstatus₃.trans hstatus₂, hstill.stepIn, hstill.run⟩

end Machine

end Nic
