/-
Runs with a limit, and runs by single phases.

An instruction takes one or two phases, depending on where the machine stands when it is begun, and
any phase may stop it. Yet a run with a limit is nothing but the next phase, again and again, until
a phase leaves another status than ok or the instructions of the limit are completed
(`Underway.stepWhile_eq`): the first of two phases completes nothing, so the limit cannot come
between them. As machines are compared as they are, this is also a statement about what the observer
is told, by every phase and in order.

A run that used its limit up and left status ok is as good as the first part of a longer run
(`runWithLimit_add`).
-/
import Nic.Proofs.Machine.Notifications
import Nic.Proofs.Machine.Tripwire

set_option autoImplicit false

namespace Nic.Machine

open Tripwire

/-! ## By single phases -/

/-- Carries out the next phase again and again, as long as a condition holds before it and it leaves
status ok. There is no outcome if this has not ended after `fuel` phases. -/
def stepWhile (m : Machine) (goOn : Machine → Bool) (fuel : Nat) : Option Outcome :=
  (look goOn).loop step () m fuel

theorem stepWhile_of_not {m : Machine} {goOn : Machine → Bool} (h : ¬ goOn m = true) (fuel : Nat) :
    m.stepWhile goOn (fuel + 1) = some m.outcome := by
  have hstop : ¬ (look goOn () m).1 = true := h
  unfold stepWhile
  rw [loop_succ, if_neg hstop]
  rfl

theorem stepWhile_of_goOn {m : Machine} {goOn : Machine → Bool} (h : goOn m = true) (fuel : Nat) :
    m.stepWhile goOn (fuel + 1) =
      if m.step.1 = .ok .ok then m.step.2.stepWhile goOn fuel else some m.step := by
  have hgo : (look goOn () m).1 = true := h
  unfold stepWhile
  rw [loop_succ, if_pos hgo]
  rfl

/-- An instruction that was fetched already is completed by one phase. -/
theorem stepIn_of_execute {m : Machine} (h : m.phase = .execute) : m.stepIn = m.step := by
  unfold stepIn step
  rw [h]

/-- An instruction that is begun takes two phases, unless the first one stops the machine. -/
theorem stepIn_of_fetch {m : Machine} (h : m.phase = .fetch) :
    m.stepIn = if m.step.1 = .ok .ok then m.step.2.step else m.step := by
  have hstep : m.step = m.fetch := by
    unfold step
    rw [h]
  rw [stepIn_eq, if_neg (by rw [h]; decide), hstep]
  by_cases hok : m.fetch.1 = .ok .ok
  · have hphase : m.fetch.2.phase = .execute := phase_of_fetch_ok (Prod.ext hok rfl)
    have hnext : m.fetch.2.step = m.fetch.2.execute := by
      unfold step
      rw [hphase]
    rw [if_pos hok, if_pos hok, hnext]
  · rw [if_neg hok, if_neg hok]

namespace Underway

variable {start limit done left : Nat} {m : Machine}

/-- Fetching completes nothing. -/
theorem fetched (h : Underway start limit done left m) (hphase : m.phase = .fetch) :
    Underway start limit done left m.step.2 where
  counted := by
    unfold step
    rw [hphase]
    exact (executed_fetch m).trans h.counted
  total := h.total
  fits := h.fits

/-- **Phase by phase or instruction by instruction, a run with a limit is the same.** -/
theorem stepWhile_eq (h : Underway start limit done left m) {fuel : Nat} (hfuel : 2 * left < fuel) :
    m.stepWhile (withinLimit start limit) fuel = some (m.runWithLimit left) := by
  induction left generalizing m done fuel with
  | zero =>
    obtain ⟨fuel, rfl⟩ : ∃ n, fuel = n + 1 := ⟨fuel - 1, by omega⟩
    rw [stepWhile_of_not]
    · rfl
    · rw [h.withinLimit_iff]
      exact Nat.lt_irrefl 0
  | succ left ih =>
    -- two phases are enough for an instruction, and one may be
    obtain ⟨fuel, rfl⟩ : ∃ n, fuel = n + 2 := ⟨fuel - 2, by omega⟩
    have hgo : withinLimit start limit m = true := h.withinLimit_iff.mpr (Nat.zero_lt_succ left)
    rw [stepWhile_of_goOn hgo, runWithLimit_succ]
    by_cases hphase : m.phase = .execute
    · have hone := stepIn_of_execute hphase
      rw [← hone]
      by_cases hok : m.stepIn.1 = .ok .ok
      · rw [if_pos hok, if_pos hok]
        apply ih (h.next hok)
        omega
      · rw [if_neg hok, if_neg hok]
    · have hphase : m.phase = .fetch := Phase.ne_execute_iff.mp hphase
      have htwo := stepIn_of_fetch hphase
      by_cases hfetch : m.step.1 = .ok .ok
      · rw [if_pos hfetch] at htwo
        have hgo' : withinLimit start limit m.step.2 = true :=
          (h.fetched hphase).withinLimit_iff.mpr (Nat.zero_lt_succ left)
        rw [if_pos hfetch, stepWhile_of_goOn hgo', ← htwo]
        by_cases hok : m.stepIn.1 = .ok .ok
        · rw [if_pos hok, if_pos hok]
          apply ih (h.next hok)
          omega
        · rw [if_neg hok, if_neg hok]
      · rw [if_neg hfetch] at htwo
        rw [if_neg hfetch, htwo, if_neg hfetch]

end Underway

/-! ## Counting -/

/-- A run counts no more instructions than its limit allows. -/
theorem executed_runWithLimit (m : Machine) (limit : Nat) :
    m.executed ≤ (m.runWithLimit limit).2.executed ∧
      (m.runWithLimit limit).2.executed ≤ m.executed + limit := by
  induction limit generalizing m with
  | zero => exact ⟨Nat.le_refl _, Nat.le_refl _⟩
  | succ limit ih =>
    rw [runWithLimit_succ]
    obtain ⟨hlow, hhigh, -⟩ := executed_stepIn m
    by_cases hok : m.stepIn.1 = .ok .ok
    · rw [if_pos hok]
      have hrest := ih m.stepIn.2
      omega
    · rw [if_neg hok]
      omega

/-- A run that leaves status ok has used its limit up. -/
theorem executed_of_runWithLimit_ok {m : Machine} {limit : Nat}
    (h : (m.runWithLimit limit).1 = .ok .ok) :
    (m.runWithLimit limit).2.executed = m.executed + limit := by
  induction limit generalizing m with
  | zero => rfl
  | succ limit ih =>
    rw [runWithLimit_succ] at h ⊢
    by_cases hok : m.stepIn.1 = .ok .ok
    · rw [if_pos hok] at h ⊢
      rw [ih h, executed_of_stepIn_ok hok]
      omega
    · rw [if_neg hok] at h
      exact absurd h hok

/-! ## One run after the other -/

/-- **A run that leaves status ok can be gone on with**, as if it had not been interrupted. -/
theorem runWithLimit_add {m : Machine} {a : Nat} (h : (m.runWithLimit a).1 = .ok .ok) (b : Nat) :
    (m.runWithLimit a).2.runWithLimit b = m.runWithLimit (a + b) := by
  induction a generalizing m with
  | zero =>
    rw [Nat.zero_add]
    rfl
  | succ a ih =>
    rw [runWithLimit_succ] at h ⊢
    rw [Nat.succ_add, runWithLimit_succ]
    by_cases hok : m.stepIn.1 = .ok .ok
    · rw [if_pos hok] at h ⊢
      rw [if_pos hok]
      exact ih h
    · rw [if_neg hok] at h
      exact absurd h hok

/-- What a run tells the observer. -/
theorem tells_runWithLimit (m : Machine) (limit : Nat) : Tells m (m.runWithLimit limit).2 :=
  (reaches_runWithLimit (.inl rfl) (.inr rfl) limit m).tells

/-- **Runs with a limit.** Take any machine, whatever it did before, and limits of together less
than `2 ^ 64` instructions.

* The run ends: asked before each instruction whether the count has risen by less than the limit, it
  is over after as many instructions at most. The count rises by no more than the limit.
* The next phase, again and again, until a phase leaves another status than ok or the instructions
  of the limit are completed, gives the same answer and the same machine. The observer is part of
  the machine, so it is told the same changes in the same order, and so are all its subscribers.
* If the run leaves status ok, then it has executed as many instructions as the limit allows, and a
  second run after it gives the same answer and the same machine as one run with both limits. -/
theorem bounded_runs (m : Machine) (a b : Nat) (h : a + b < 2 ^ 64) :
    (∀ fuel, a < fuel → m.runWhile (withinLimit m.executed a) fuel = some (m.runWithLimit a)) ∧
    (m.executed ≤ (m.runWithLimit a).2.executed ∧
      (m.runWithLimit a).2.executed ≤ m.executed + a) ∧
    (∀ fuel, 2 * a < fuel →
      m.stepWhile (withinLimit m.executed a) fuel = some (m.runWithLimit a)) ∧
    (∃ told, (m.runWithLimit a).2.observer = m.observer.notifyAll told ∧
      ∀ k, ((m.runWithLimit a).2.observer.receive k).1 =
        (m.observer.receive k).1.map (· ++ told)) ∧
    ((m.runWithLimit a).1 = .ok .ok →
      (m.runWithLimit a).2.executed = m.executed + a ∧
        (m.runWithLimit a).2.runWithLimit b = m.runWithLimit (a + b)) := by
  have ha : a < 2 ^ 64 := by omega
  refine ⟨?_, executed_runWithLimit m a, ?_, ?_, ?_⟩
  · intro fuel hfuel
    rw [runWhile_eq_loop]
    exact runWithLimit_eq_loop ha hfuel m
  · intro fuel hfuel
    exact (Underway.begin m ha).stepWhile_eq hfuel
  · obtain ⟨told, -, hobserver⟩ := tells_runWithLimit m a
    refine ⟨told, hobserver, ?_⟩
    intro k
    rw [hobserver, Observer.receive_notifyAll]
  · intro hok
    exact ⟨executed_of_runWithLimit_ok hok, runWithLimit_add hok b⟩

/-- A program of two loads and a halt. Someone subscribes, and the first word is fetched by hand.
Then a limit of one instruction needs one more phase, and with another limit of four the program
halts after two more instructions. The subscriber is told of everything, in order. -/
theorem bounded_runs_mid_instruction :
    let loaded := (Machine.new .default).load ⟨[2, 1, 0, 5, 2, 2, 0, 6, 0, 0, 0, 0], none⟩
    let m := { loaded with observer := loaded.observer.subscribe.2 }.fetch.2
    m.phase = .execute ∧ m.step.2.executed = 1 ∧
      m.stepWhile (withinLimit m.executed 1) 3 = some (m.runWithLimit 1) ∧
      (m.runWithLimit 1).2.executed = m.executed + 1 ∧
      (m.runWithLimit 1).2.runWithLimit 4 = m.runWithLimit 5 ∧
      (m.runWithLimit 5).1 = .ok .halted ∧
      (m.runWithLimit 5).2.executed = 3 ∧
      ((m.runWithLimit 5).2.observer.receive 0).1 =
        some [.ir, .nr, .reg ⟨1⟩, .pc, .ir, .nr, .reg ⟨2⟩, .pc, .ir, .nr, .sr, .pc] := by
  intro loaded m
  obtain ⟨-, -, hphases, -, hafter⟩ := bounded_runs m 1 4 (by decide)
  obtain ⟨hcount, htwo⟩ := hafter (by decide +kernel)
  refine ⟨by decide +kernel, by decide +kernel, hphases 3 (by decide), hcount, htwo, ?_⟩
  decide +kernel

end Nic.Machine
