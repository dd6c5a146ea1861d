/-
Runs with a tripwire.

A run asks its tripwire before each instruction whether to go on. The tripwire may keep something in
mind from one time to the next, and may even make requests of its own; most tripwires only look. A
limit on the number of instructions is a tripwire that looks at the count of instructions
(`runWithLimit_eq_loop`): since every instruction that leaves status ok is counted once
(`executed_of_stepIn_ok`), it lets exactly so many instructions pass.

A run that a tripwire stops answers with the status of the machine at that moment. After an
instruction of the run this is ok, or the run would have stopped there. But a tripwire is asked
before the first instruction as well, and then the status is what the machine had when the run was
begun: a halted machine, or one that is stopped, is not ok (`Trips.status_eq`).
-/
import Mathlib.Algebra.Ring.Nat
import Nic.Proofs.Machine.Phases

set_option autoImplicit false

namespace Nic.Machine

/-! ## Requests by their answers -/

theorem stepIn_eq (m : Machine) :
    m.stepIn = if m.phase = .execute then m.execute
      else if m.fetch.1 = .ok .ok then m.fetch.2.execute else m.fetch := by
  unfold stepIn
  split
  next hphase => rw [if_pos hphase]
  next hphase =>
    rw [if_neg (by rw [hphase]; decide)]
    split
    next m₁ hok => rw [hok, if_pos rfl]
    next hstopped =>
      rw [if_neg]
      intro hok
      exact hstopped m.fetch.2 (Prod.ext hok rfl)

theorem runWithLimit_succ (m : Machine) (limit : Nat) :
    m.runWithLimit (limit + 1) =
      if m.stepIn.1 = .ok .ok then m.stepIn.2.runWithLimit limit else m.stepIn := by
  rw [runWithLimit]
  split
  next m₁ hok => rw [hok, if_pos rfl]
  next hstopped =>
    rw [if_neg]
    intro hok
    exact hstopped m.stepIn.2 (Prod.ext hok rfl)

theorem runWhile_succ (m : Machine) (goOn : Machine → Bool) (fuel : Nat) :
    m.runWhile goOn (fuel + 1) =
      if goOn m then
        if m.stepIn.1 = .ok .ok then m.stepIn.2.runWhile goOn fuel else some m.stepIn
      else some m.outcome := by
  rw [runWhile]
  by_cases hgo : goOn m = true
  · rw [if_pos hgo, if_pos hgo]
    split
    next m₁ hok => rw [hok, if_pos rfl]
    next hstopped =>
      rw [if_neg]
      intro hok
      exact hstopped m.stepIn.2 (Prod.ext hok rfl)
  · rw [if_neg hgo, if_neg hgo]

/-! ## What is answered and what is counted -/

/-- An answer that is a status is the status that the machine then has. -/
theorem status_of_fetch {m : Machine} {s : Status} (h : m.fetch.1 = .ok s) :
    m.fetch.2.status = s := by
  rw [fetch_eq] at h ⊢
  by_cases hterminal : m.status.isTerminal = true
  · rw [if_pos hterminal] at h ⊢
    exact Except.ok.inj h
  by_cases hturn : m.phase = .execute
  · rw [if_neg hterminal, if_pos hturn] at h
    cases h
  rw [if_neg hterminal, if_neg hturn] at h ⊢
  by_cases hpc : m.pc.aligned = m.pc
  · rw [if_pos hpc] at h ⊢
    exact Except.ok.inj h
  · rw [if_neg hpc] at h ⊢
    exact Except.ok.inj h

theorem status_of_execute {m : Machine} {s : Status} (h : m.execute.1 = .ok s) :
    m.execute.2.status = s := by
  rw [execute_eq] at h ⊢
  by_cases hterminal : m.status.isTerminal = true
  · rw [if_pos hterminal] at h ⊢
    exact Except.ok.inj h
  by_cases hturn : m.phase = .fetch
  · rw [if_neg hterminal, if_pos hturn] at h
    cases h
  rw [if_neg hterminal, if_neg hturn] at h ⊢
  cases hi : Instr.decode m.ir with
  | none =>
    rw [hi] at h
    exact Except.ok.inj h
  | some i =>
    rw [hi] at h
    exact Except.ok.inj h

theorem status_of_stepIn {m : Machine} {s : Status} (h : m.stepIn.1 = .ok s) :
    m.stepIn.2.status = s := by
  rw [stepIn_eq] at h ⊢
  by_cases hphase : m.phase = .execute
  · rw [if_pos hphase] at h ⊢
    exact status_of_execute h
  rw [if_neg hphase] at h ⊢
  by_cases hok : m.fetch.1 = .ok .ok
  · rw [if_pos hok] at h ⊢
    exact status_of_execute h
  · rw [if_neg hok] at h ⊢
    exact status_of_fetch h

theorem executed_setStatus (m : Machine) (s : Status) :
    (m.setStatus s).executed = m.executed :=
  congrArg Snapshot.executed (snapshot_setStatus m s)

theorem executed_carryOut (m : Machine) (i : Instr) :
    (m.carryOut i).executed = m.executed + 1 := by
  obtain ⟨mem, regs, status, hframe⟩ := perform_frame m i
  have hset := congrArg Machine.executed (unobserved_setPc (m.perform i) (m.successor i))
  have hperform := congrArg Machine.executed hframe
  exact congrArg (· + 1) (hset.trans hperform)

/-- Nothing is counted when a word is fetched. -/
theorem executed_fetch (m : Machine) : m.fetch.2.executed = m.executed := by
  rw [fetch_eq]
  split
  · rfl
  split
  · rfl
  split
  · exact congrArg Snapshot.executed (snapshot_readInstr m)
  · exact executed_setStatus m _

/-- At most one instruction is counted when the instruction register is executed, and exactly one if
the status is ok afterwards. -/
theorem executed_execute (m : Machine) :
    m.executed ≤ m.execute.2.executed ∧ m.execute.2.executed ≤ m.executed + 1 ∧
      (m.execute.1 = .ok .ok → m.execute.2.executed = m.executed + 1) := by
  rw [execute_eq]
  by_cases hterminal : m.status.isTerminal = true
  · rw [if_pos hterminal]
    refine ⟨Nat.le_refl _, Nat.le_succ _, ?_⟩
    intro hok
    have heq : m.outcome = (.ok .ok, m) := Prod.ext hok rfl
    exact absurd heq (outcome_ne_ok_of_terminal hterminal m)
  rw [if_neg hterminal]
  by_cases hturn : m.phase = .fetch
  · rw [if_pos hturn]
    refine ⟨Nat.le_refl _, Nat.le_succ _, ?_⟩
    intro hok
    cases hok
  rw [if_neg hturn]
  cases Instr.decode m.ir with
  | none =>
    have hcount : (m.toFetch.setStatus .badInstruction).executed = m.executed :=
      executed_setStatus m.toFetch .badInstruction
    have hbad : (m.toFetch.setStatus .badInstruction).status = .badInstruction :=
      congrArg Control.status (control_setStatus m.toFetch .badInstruction)
    refine ⟨Nat.le_of_eq hcount.symm, Nat.le_succ_of_le (Nat.le_of_eq hcount), ?_⟩
    intro hok
    exact absurd (hbad.symm.trans (Except.ok.inj hok)) (by decide)
  | some i =>
    have hcount : (m.toFetch.carryOut i).executed = m.executed + 1 := executed_carryOut m.toFetch i
    refine ⟨?_, Nat.le_of_eq hcount, fun _ => hcount⟩
    show m.executed ≤ (m.toFetch.carryOut i).executed
    omega

/-- The same for an instruction that is completed. -/
theorem executed_stepIn (m : Machine) :
    m.executed ≤ m.stepIn.2.executed ∧ m.stepIn.2.executed ≤ m.executed + 1 ∧
      (m.stepIn.1 = .ok .ok → m.stepIn.2.executed = m.executed + 1) := by
  rw [stepIn_eq]
  by_cases hphase : m.phase = .execute
  · rw [if_pos hphase]
    exact executed_execute m
  rw [if_neg hphase]
  by_cases hok : m.fetch.1 = .ok .ok
  · rw [if_pos hok, ← executed_fetch m]
    exact executed_execute m.fetch.2
  · rw [if_neg hok, executed_fetch]
    exact ⟨Nat.le_refl _, Nat.le_succ _, fun h => absurd h hok⟩

theorem executed_of_stepIn_ok {m : Machine} (h : m.stepIn.1 = .ok .ok) :
    m.stepIn.2.executed = m.executed + 1 :=
  (executed_stepIn m).2.2 h

/-! ## Tripwires -/

/-- What a run asks before each instruction (the tripwire of `Machine::run_while`): whether to go
on. It may keep something in mind from one time to the next, and it may change the machine. -/
def Tripwire (σ : Type) : Type := σ → Machine → Bool × σ × Machine

namespace Tripwire

/-- A condition on the machine. -/
def look (goOn : Machine → Bool) : Tripwire Unit := fun _ m => (goOn m, (), m)

section

variable {σ : Type} (t : Tripwire σ)

/-- The machine is left as it is. -/
def OnlyLooks : Prop := ∀ s m, (t s m).2.2 = m

/-- Makes a request again and again, as long as the tripwire lets it and the answer is ok (the loop
of `Machine::run_while`). There is no outcome if this has not ended after `fuel` requests. -/
def loop (request : Machine → Outcome) (s : σ) (m : Machine) : Nat → Option Outcome
  | 0 => none
  | fuel + 1 =>
    let (goesOn, s, m) := t s m
    if goesOn then
      if (request m).1 = .ok .ok then loop request s (request m).2 fuel else some (request m)
    else some m.outcome

/-- The tripwire stops a run after `k` instructions, and leaves the machine as `m'`. -/
inductive Trips : σ → Machine → Nat → Machine → Prop where
  | now {s : σ} {m : Machine} (h : (t s m).1 = false) : Trips s m 0 (t s m).2.2
  | later {s : σ} {m m' : Machine} {k : Nat} (h : (t s m).1 = true)
    (hok : (t s m).2.2.stepIn.1 = .ok .ok)
    (hrest : Trips (t s m).2.1 (t s m).2.2.stepIn.2 k m') : Trips s m (k + 1) m'

end

variable {σ : Type} {t : Tripwire σ} {request : Machine → Outcome}

theorem loop_succ (s : σ) (m : Machine) (fuel : Nat) :
    t.loop request s m (fuel + 1) =
      if (t s m).1 then
        if (request (t s m).2.2).1 = .ok .ok then
          t.loop request (t s m).2.1 (request (t s m).2.2).2 fuel
        else some (request (t s m).2.2)
      else some (t s m).2.2.outcome := rfl

/-- A run with a condition is the run with the tripwire that looks at it. -/
theorem runWhile_eq_loop (goOn : Machine → Bool) (m : Machine) (fuel : Nat) :
    m.runWhile goOn fuel = (look goOn).loop stepIn () m fuel := by
  induction fuel generalizing m with
  | zero => rfl
  | succ fuel ih =>
    rw [runWhile_succ, loop_succ, ih]
    rfl

/-- A run that the tripwire stops ends with the machine as the tripwire leaves it, and answers with
its status. -/
theorem Trips.loop_eq {s : σ} {m m' : Machine} {k fuel : Nat} (h : t.Trips s m k m')
    (hfuel : k < fuel) : t.loop stepIn s m fuel = some m'.outcome := by
  induction h generalizing fuel with
  | now hstop =>
    obtain ⟨fuel, rfl⟩ : ∃ n, fuel = n + 1 := ⟨fuel - 1, by omega⟩
    rw [loop_succ, hstop, if_neg (by decide)]
  | later hgo hok _ ih =>
    obtain ⟨fuel, rfl⟩ : ∃ n, fuel = n + 1 := ⟨fuel - 1, by omega⟩
    rw [loop_succ, if_pos hgo, if_pos hok]
    apply ih
    omega

/-- A run that ends with the answer ok was stopped by its tripwire. -/
theorem trips_of_loop_ok {s : σ} {m : Machine} {fuel : Nat} {o : Outcome}
    (h : t.loop stepIn s m fuel = some o) (hok : o.1 = .ok .ok) :
    ∃ k < fuel, t.Trips s m k o.2 := by
  induction fuel generalizing s m with
  | zero => cases h
  | succ fuel ih =>
    rw [loop_succ] at h
    by_cases hgo : (t s m).1 = true
    · rw [if_pos hgo] at h
      -- an instruction that leaves another status ends the run with an answer that is not ok
      by_cases hstep : (t s m).2.2.stepIn.1 = .ok .ok
      · rw [if_pos hstep] at h
        obtain ⟨k, hk, htrips⟩ := ih h
        exact ⟨k + 1, Nat.succ_lt_succ hk, .later hgo hstep htrips⟩
      · rw [if_neg hstep] at h
        rw [← Option.some.inj h] at hok
        exact absurd hok hstep
    · rw [if_neg hgo] at h
      rw [← Option.some.inj h]
      exact ⟨0, Nat.zero_lt_succ fuel, .now (Bool.eq_false_iff.mpr hgo)⟩

/-- The status when a tripwire that only looks stops a run. -/
theorem Trips.status_eq {s : σ} {m m' : Machine} {k : Nat} (h : t.Trips s m k m')
    (hlooks : t.OnlyLooks) : m'.status = if k = 0 then m.status else .ok := by
  induction h with
  | now _ => rw [hlooks, if_pos rfl]
  | @later s m m' k _ hok _ ih =>
    rw [if_neg (Nat.succ_ne_zero k), ih]
    -- the instruction before the tripwire left status ok, and so did those before it
    by_cases hk : k = 0
    · rw [if_pos hk]
      exact status_of_stepIn hok
    · rw [if_neg hk]

theorem Trips.status_eq_ok_iff {s : σ} {m m' : Machine} {k : Nat} (h : t.Trips s m k m')
    (hlooks : t.OnlyLooks) : m'.status = .ok ↔ 0 < k ∨ m.status = .ok := by
  rw [h.status_eq hlooks]
  by_cases hk : k = 0
  · rw [if_pos hk]
    constructor
    · exact .inr
    · rintro (hpos | hok)
      · omega
      · exact hok
  · rw [if_neg hk]
    exact iff_of_true rfl (.inl (Nat.pos_of_ne_zero hk))

theorem onlyLooks_look (goOn : Machine → Bool) : (look goOn).OnlyLooks := fun _ _ => rfl

end Tripwire

/-! ## Limits -/

/-- The number of instructions between two counts. Counts have 64 bits, so the difference is taken
modulo `2 ^ 64`. -/
def elapsed (start now : Nat) : Nat :=
  (BitVec.ofNat 64 now - BitVec.ofNat 64 start).toNat

theorem elapsed_add {k : Nat} (hk : k < 2 ^ 64) (start : Nat) : elapsed start (start + k) = k := by
  unfold elapsed
  rw [BitVec.ofNat_add, BitVec.add_comm, BitVec.add_sub_cancel, BitVec.toNat_ofNat]
  exact Nat.mod_eq_of_lt hk

/-- Fewer than `limit` instructions were completed since there were `start` of them. -/
def withinLimit (start limit : Nat) (m : Machine) : Bool :=
  decide (elapsed start m.executed < limit)

/-- Within a run with a limit, `done` instructions are behind and `left` are still to come. -/
structure Underway (start limit done left : Nat) (m : Machine) : Prop where
  counted : m.executed = start + done
  total : done + left = limit
  fits : limit < 2 ^ 64

namespace Underway

variable {start limit done left : Nat} {m : Machine}

theorem begin (m : Machine) (h : limit < 2 ^ 64) : Underway m.executed limit 0 limit m :=
  ⟨rfl, Nat.zero_add limit, h⟩

theorem withinLimit_iff (h : Underway start limit done left m) :
    withinLimit start limit m = true ↔ 0 < left := by
  have htotal := h.total
  have hfits := h.fits
  have helapsed : elapsed start m.executed = done := by
    rw [h.counted]
    apply elapsed_add
    omega
  rw [withinLimit, helapsed, decide_eq_true_iff]
  omega

theorem next (h : Underway start limit done (left + 1) m) (hok : m.stepIn.1 = .ok .ok) :
    Underway start limit (done + 1) left m.stepIn.2 where
  counted := by rw [executed_of_stepIn_ok hok, h.counted, Nat.add_assoc]
  total := by
    have htotal := h.total
    omega
  fits := h.fits

open Tripwire in
theorem loop_eq (h : Underway start limit done left m) {fuel : Nat} (hfuel : left < fuel) :
    (look (withinLimit start limit)).loop stepIn () m fuel = some (m.runWithLimit left) := by
  induction left generalizing m done fuel with
  | zero =>
    obtain ⟨fuel, rfl⟩ : ∃ n, fuel = n + 1 := ⟨fuel - 1, by omega⟩
    rw [loop_succ, if_neg]
    · rfl
    · show ¬ withinLimit start limit m = true
      rw [h.withinLimit_iff]
      exact Nat.lt_irrefl 0
  | succ left ih =>
    obtain ⟨fuel, rfl⟩ : ∃ n, fuel = n + 1 := ⟨fuel - 1, by omega⟩
    have hgo : withinLimit start limit m = true := h.withinLimit_iff.mpr (Nat.zero_lt_succ left)
    have hgo' : (look (withinLimit start limit) () m).1 = true := hgo
    rw [loop_succ, if_pos hgo', runWithLimit_succ]
    show (if m.stepIn.1 = .ok .ok then _ else _) = _
    by_cases hok : m.stepIn.1 = .ok .ok
    · rw [if_pos hok, if_pos hok]
      apply ih (h.next hok)
      omega
    · rw [if_neg hok, if_neg hok]
      rfl

open Tripwire in
/-- The limit stops a run when nothing is left of it. -/
theorem eq_of_trips (h : Underway start limit done left m) {s : Unit} {k : Nat} {m' : Machine}
    (htrips : (look (withinLimit start limit)).Trips s m k m') : k = left := by
  induction htrips generalizing done left with
  | now hstop =>
    have hleft : ¬ 0 < left := by
      rw [← h.withinLimit_iff]
      exact Bool.eq_false_iff.mp hstop
    omega
  | later hgo hok _ ih =>
    have hleft : 0 < left := h.withinLimit_iff.mp hgo
    obtain ⟨left, rfl⟩ : ∃ n, left = n + 1 := ⟨left - 1, by omega⟩
    rw [ih (h.next hok)]

end Underway

open Tripwire

/-- The tripwire of a run with a limit (`Machine::run_with_limit`). -/
def limitWire (m : Machine) (limit : Nat) : Tripwire Unit := look (withinLimit m.executed limit)

/-- **A limit is a tripwire**, and the run with it ends. -/
theorem runWithLimit_eq_loop {limit fuel : Nat} (hlimit : limit < 2 ^ 64) (hfuel : limit < fuel)
    (m : Machine) : (limitWire m limit).loop stepIn () m fuel = some (m.runWithLimit limit) :=
  (Underway.begin m hlimit).loop_eq hfuel

/-! ## The status of a run that is stopped -/

/-- In every state that a machine can be in, a run that its condition stops answers that the status
is ok. -/
def TrippedRunsOk : Prop :=
  ∀ (flags : Flags) (requests : List Request) (m : Machine),
    (Machine.new flags).afterAll? requests = some m →
      ∀ (goOn : Machine → Bool) (k : Nat) (m' : Machine), (look goOn).Trips () m k m' →
        ∀ fuel, k < fuel → ∃ final, m.runWhile goOn fuel = some (.ok .ok, final)

/-- In every state that a machine can be in, a run that its limit stops answers that the status is
ok. -/
def LimitedRunsOk : Prop :=
  ∀ (flags : Flags) (requests : List Request) (m : Machine),
    (Machine.new flags).afterAll? requests = some m →
      ∀ (limit k : Nat) (m' : Machine), limit < 2 ^ 64 → (limitWire m limit).Trips () m k m' →
        (m.runWithLimit limit).1 = .ok .ok

/-- A machine that has halted is asked to run, with a condition that does not hold or with a limit
of no instructions. The run is stopped at once, and answers that the machine is halted. -/
theorem not_trippedRunsOk : ¬ TrippedRunsOk ∧ ¬ LimitedRunsOk := by
  have hhalted : ((Machine.new .default).afterAll? [.stepIn]).any (fun m =>
      decide (m.status = .halted)) = true := by decide +kernel
  obtain ⟨m, hm, hdecide⟩ := (Option.any_eq_true _ _).mp hhalted
  have hstatus : m.status = .halted := of_decide_eq_true hdecide
  constructor
  · intro htripped
    have htrips : (look fun _ => false).Trips () m 0 m := .now rfl
    obtain ⟨final, hfinal⟩ := htripped _ _ m hm _ 0 m htrips 1 Nat.one_pos
    rw [runWhile_eq_loop, htrips.loop_eq Nat.one_pos, outcome, hstatus] at hfinal
    cases hfinal
  · intro hlimited
    have htrips : (limitWire m 0).Trips () m 0 m := .now rfl
    have hok := hlimited _ _ m hm 0 0 m (by decide) htrips
    rw [runWithLimit, outcome, hstatus] at hok
    cases hok

/-- **What a run answers when its tripwire stops it.** Take any machine and any tripwire, which may
keep something in mind and may change the machine. If it stops the run after `k` instructions, then
the run ends, with the machine as the tripwire leaves it, and the answer is its status. If the
tripwire only looks, this is ok exactly if an instruction was executed, or if the status was ok
when the run was begun. On the other hand, only a tripwire makes a run end with the answer ok.

A run with a condition is the run with the tripwire that looks at it. A run with a limit is the run
with the tripwire that counts; if the limit stops it, then so many instructions were executed, and
the answer is ok exactly if the limit is not zero, or if the status was ok when the run was
begun. -/
theorem tripped_run_status (m : Machine) :
    (∀ (σ : Type) (t : Tripwire σ) (s : σ),
      (∀ (k : Nat) (m' : Machine), t.Trips s m k m' →
        (∀ fuel, k < fuel → t.loop stepIn s m fuel = some (.ok m'.status, m')) ∧
        (t.OnlyLooks → (m'.status = .ok ↔ 0 < k ∨ m.status = .ok))) ∧
      ∀ (fuel : Nat) (m' : Machine), t.loop stepIn s m fuel = some (.ok .ok, m') →
        ∃ k < fuel, t.Trips s m k m') ∧
    (∀ (goOn : Machine → Bool) (fuel : Nat),
      m.runWhile goOn fuel = (look goOn).loop stepIn () m fuel) ∧
    ∀ limit : Nat, limit < 2 ^ 64 →
      (∀ fuel, limit < fuel →
        (limitWire m limit).loop stepIn () m fuel = some (m.runWithLimit limit)) ∧
      ∀ (k : Nat) (m' : Machine), (limitWire m limit).Trips () m k m' →
        k = limit ∧ m.runWithLimit limit = (.ok m'.status, m') ∧
          (m'.status = .ok ↔ 0 < limit ∨ m.status = .ok) := by
  refine ⟨?_, fun goOn fuel => runWhile_eq_loop goOn m fuel, ?_⟩
  · intro σ t s
    refine ⟨?_, fun fuel m' hloop => trips_of_loop_ok hloop rfl⟩
    intro k m' htrips
    exact ⟨fun fuel hfuel => htrips.loop_eq hfuel, htrips.status_eq_ok_iff⟩
  · intro limit hlimit
    refine ⟨fun fuel hfuel => runWithLimit_eq_loop hlimit hfuel m, ?_⟩
    intro k m' htrips
    obtain rfl : k = limit := (Underway.begin m hlimit).eq_of_trips htrips
    have hloop := htrips.loop_eq (Nat.lt_succ_self k)
    rw [runWithLimit_eq_loop hlimit (Nat.lt_succ_self k)] at hloop
    exact ⟨rfl, Option.some.inj hloop, htrips.status_eq_ok_iff (onlyLooks_look _)⟩

/-- A tripwire that counts down lets one instruction of two pass, and the answer is ok. When the
program has halted, the same tripwire at zero, and a limit of zero, stop the run at once, and the
answer is that the machine is halted. -/
theorem tripped_run_status_countdown :
    let countdown : Tripwire Nat := fun n m => (decide (0 < n), n - 1, m)
    let m := (Machine.new .default).load ⟨[2, 1, 0, 5, 0, 0, 0, 0], none⟩
    let halted := m.stepIn.2.stepIn.2
    m.status = .ok ∧ countdown.loop stepIn 1 m 2 = some (.ok .ok, m.stepIn.2) ∧
      halted.status = .halted ∧ countdown.loop stepIn 0 halted 1 = some (.ok .halted, halted) ∧
      halted.runWithLimit 0 = (.ok .halted, halted) := by
  intro countdown m halted
  obtain ⟨htrip, -, -⟩ := tripped_run_status m
  obtain ⟨htrip₀, -, hlimit⟩ := tripped_run_status halted
  have hok : m.stepIn.1 = .ok .ok := by decide +kernel
  have hhalted : halted.status = .halted := by decide +kernel
  have hstatus : m.status = .ok := by decide +kernel
  have honce : countdown.Trips 1 m 1 m.stepIn.2 := .later rfl hok (.now rfl)
  have hnever : countdown.Trips 0 halted 0 halted := .now rfl
  have hlooks : countdown.OnlyLooks := fun _ _ => rfl
  obtain ⟨hloop, hiff⟩ := (htrip Nat countdown 1).1 1 _ honce
  obtain ⟨hloop₀, -⟩ := (htrip₀ Nat countdown 0).1 0 _ hnever
  obtain ⟨-, hrun, -⟩ := (hlimit 0 (by decide)).2 0 halted (.now rfl)
  have hafter : m.stepIn.2.status = .ok := (hiff hlooks).mpr (.inl Nat.one_pos)
  refine ⟨hstatus, ?_, hhalted, ?_, ?_⟩
  · rw [hloop 2 (by decide), hafter]
  · rw [hloop₀ 1 (by decide), hhalted]
  · rw [hrun, hhalted]

end Nic.Machine
