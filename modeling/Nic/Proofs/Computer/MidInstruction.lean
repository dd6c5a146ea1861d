/-
Instructions that are half finished when a run begins.

A tick completes an instruction, so between two ticks of a run the machine is about to fetch
(`Event.phase_after`). Before the first tick it need not be: a call to start looks whether there is
a run, but not at the phase (`Event.phase_of_begins`), and if an instruction was fetched by hand and
not executed, then this is what everybody sees until the first tick.

This is the only way. The phase in a run is known from the phase at its beginning and from whether
there was a tick (`Begun.phase_iff`), and it is always to fetch exactly if every run begins between
two instructions.
-/
import Mathlib.Data.List.Induction
import Nic.Proofs.Computer.Events
import Nic.Proofs.Machine.Phases

set_option autoImplicit false

namespace Nic.Computer

/-! ## One event -/

/-- The phase that a snapshot shows. -/
def phase (c : Computer) : Phase := c.machine.snapshot.phase

/-- **The phase after an event of a run that goes on**: a tick completes an instruction, and nothing
else is done. -/
theorem Event.phase_after {c : Computer} {e : Event} (hc : c.running = true)
    (hgoes : (e.after c).running = true) :
    (e.after c).phase = .fetch ↔ c.phase = .fetch ∨ e = .tick := by
  cases e with
  | tick =>
    by_cases hok : c.machine.stepIn.1 = .ok .ok
    · have hphase : c.machine.stepIn.2.phase = .fetch :=
        Machine.phase_of_stepIn_ok (Prod.ext hok rfl)
      rw [after, tick_of_ok hc hok]
      exact iff_of_true hphase (.inr rfl)
    · rw [after, tick_of_not_ok hc hok] at hgoes
      cases hgoes
  | call x =>
    have hsame : x.after c = c := by
      cases x with
      | start => exact start_of_running hc
      | stop => exact absurd ((running_stop c).symm.trans hgoes) Bool.false_ne_true
      | toggle =>
        rw [after, Call.after, toggle, if_pos hc] at hgoes
        exact absurd ((running_stop c).symm.trans hgoes) Bool.false_ne_true
      | byHand x => exact byHand_of_running hc x
    rw [after, hsame]
    simp

/-- A run begins with the machine as it is. -/
theorem Event.phase_of_begins {c : Computer} {e : Event} (hc : c.running = false)
    (hbegins : (e.after c).running = true) : (e.after c).phase = c.phase := by
  have hdoes := e.does c
  generalize e.after c = c', e.applied c = xs at hdoes hbegins
  cases hdoes with
  | nothing => rfl
  | begins => rfl
  | ends => cases hbegins
  | byHand => exact absurd (hc.symm.trans hbegins) Bool.false_ne_true
  | goesOn hrunning => exact absurd (hc.symm.trans hrunning) Bool.false_ne_true
  | runsOut => cases hbegins

/-- Nobody but the user, with a call for the next phase, leaves an instruction half finished. -/
theorem Does.phase_eq {c c' : Computer} {e : Event} {xs : List ByHand} (h : Does c e xs c')
    (he : e ≠ .call (.byHand .step)) (hc : c.phase = .fetch) : c'.phase = .fetch := by
  have hstepIn : c.machine.stepIn.2.phase = .fetch := Machine.phase_stepIn hc
  cases h with
  | nothing => exact hc
  | begins => exact hc
  | ends => exact hc
  | @byHand x =>
    cases x with
    | step => exact absurd rfl he
    | stepIn => exact hstepIn
    | reset => rfl
    | load e => rfl
  | goesOn => exact hstepIn
  | runsOut => exact hstepIn

/-! ## Sequences of events -/

/-- **The phase in a run** is that at its beginning until the first tick, and to fetch from then
on. -/
theorem Begun.phase_iff {c : Computer} {first : Event} {during : List Event}
    (h : Begun c first during) :
    (c.afterAll (first :: during)).phase = .fetch ↔ c.phase = .fetch ∨ .tick ∈ during := by
  induction during using List.reverseRecOn with
  | nil =>
    have hfirst : (c.afterAll [first]).phase = c.phase :=
      first.phase_of_begins h.stopped h.running_first
    rw [hfirst]
    simp
  | append_singleton during e ih =>
    have hbefore : Begun c first during :=
      ⟨h.stopped, fun hp => h.running (hp.trans (List.prefix_append during [e]))⟩
    have hrunning : (c.afterAll (first :: during)).running = true :=
      hbefore.running List.prefix_rfl
    have hgoes := h.running List.prefix_rfl
    rw [← List.cons_append, afterAll_concat] at hgoes ⊢
    rw [Event.phase_after hrunning hgoes, ih hbefore]
    simp [or_assoc, eq_comm]

/-- Without calls for the next phase there is never a half-finished instruction. -/
theorem phase_afterAll {c : Computer} {events : List Event}
    (hevents : .call (.byHand .step) ∉ events) (hc : c.phase = .fetch) :
    (c.afterAll events).phase = .fetch := by
  induction events generalizing c with
  | nil => exact hc
  | cons e events ih =>
    obtain ⟨hne, hrest⟩ := List.ne_and_not_mem_of_not_mem_cons hevents
    exact ih hrest ((e.does c).phase_eq (Ne.symm hne) hc)

/-- Snapshots of a run show no half-finished instruction, at any time of the sequence. -/
def NeverHalfFinished (c : Computer) (events : List Event) : Prop :=
  ∀ before, before <+: events →
    (c.afterAll before).running = true → (c.afterAll before).phase = .fetch

/-- An instruction is fetched by hand, and then a run is begun. The machine runs, and a snapshot
shows the instruction that was fetched and not executed. -/
theorem not_forall_neverHalfFinished :
    ¬ ∀ (m : Machine) (events : List Event), NeverHalfFinished (new m) events := by
  intro hnever
  let events : List Event :=
    [.call (.byHand (.load ⟨[2, 1, 0, 5, 0, 0, 0, 0], none⟩)), .call (.byHand .step), .call .start]
  have hrunning : ((new (Machine.new .default)).afterAll events).running = true := by decide +kernel
  have hphase : ((new (Machine.new .default)).afterAll events).phase = .execute := by
    decide +kernel
  have hfetch := hnever (Machine.new .default) events events List.prefix_rfl hrunning
  exact absurd (hphase.symm.trans hfetch) (by decide)

/-- Every run of the sequence begins between two instructions. -/
def BeginsBetween (c : Computer) (events : List Event) : Prop :=
  ∀ before e, before ++ [e] <+: events → (c.afterAll before).running = false →
    (c.afterAll (before ++ [e])).running = true → (c.afterAll before).phase = .fetch

theorem neverHalfFinished_of_beginsBetween {c : Computer} {events : List Event}
    (hc : c.running = false) (h : BeginsBetween c events) : NeverHalfFinished c events := by
  intro before hbefore hrunning
  induction before using List.reverseRecOn with
  | nil => exact absurd (hc.symm.trans hrunning) Bool.false_ne_true
  | append_singleton before e ih =>
    have hprefix : before <+: events := (List.prefix_append before [e]).trans hbefore
    by_cases hran : (c.afterAll before).running = true
    · -- the run was there already, and `e` is one of its events
      have hphase := ih hprefix hran
      rw [afterAll_concat] at hrunning ⊢
      exact (Event.phase_after hran hrunning).mpr (.inl hphase)
    · rw [Bool.not_eq_true] at hran
      have hphase := h before e hbefore hran hrunning
      rw [afterAll_concat] at hrunning ⊢
      exact (Event.phase_of_begins hran hrunning).trans hphase

theorem beginsBetween_of_neverHalfFinished {c : Computer} {events : List Event}
    (h : NeverHalfFinished c events) : BeginsBetween c events := by
  intro before e hbefore hstopped hrunning
  have hphase := h _ hbefore hrunning
  rw [afterAll_concat] at hrunning hphase
  exact (Event.phase_of_begins hstopped hrunning).symm.trans hphase

/-- **When snapshots of a run show whole instructions.** A computer gets a machine, and then any
calls, with ticks between them.

* Snapshots of its runs never show a half-finished instruction exactly if every run begins between
  two instructions. Nothing in a call to start sees to that.
* In a run that is begun after these events, snapshots show a half-finished instruction exactly if
  there was one when the run was begun and there was no tick since.
* If the machine comes without one, and there are no calls for the next phase, then there is never
  one. -/
theorem phase_in_run (m : Machine) (events : List Event) :
    (NeverHalfFinished (new m) events ↔ BeginsBetween (new m) events) ∧
    (∀ first during, ((new m).afterAll events).Begun first during →
      (((new m).afterAll (events ++ first :: during)).phase = .fetch ↔
        ((new m).afterAll events).phase = .fetch ∨ .tick ∈ during)) ∧
    (m.phase = .fetch → .call (.byHand .step) ∉ events →
      ((new m).afterAll events).phase = .fetch) := by
  refine ⟨⟨beginsBetween_of_neverHalfFinished, neverHalfFinished_of_beginsBetween rfl⟩, ?_, ?_⟩
  · intro first during hbegun
    rw [afterAll_append]
    exact hbegun.phase_iff
  · intro hphase hevents
    exact phase_afterAll hevents hphase

/-- A run that is begun with an instruction that was fetched by hand, before its first tick and
after it. -/
theorem phase_in_run_first_tick :
    ((new (Machine.new .default)).afterAll [.call (.byHand (.load ⟨[2, 1, 0, 5, 0, 0, 0, 0],
      none⟩)), .call (.byHand .step), .call .start]).phase ≠ .fetch ∧
    ((new (Machine.new .default)).afterAll [.call (.byHand (.load ⟨[2, 1, 0, 5, 0, 0, 0, 0],
      none⟩)), .call (.byHand .step), .call .start, .tick]).phase = .fetch := by
  let events : List Event :=
    [.call (.byHand (.load ⟨[2, 1, 0, 5, 0, 0, 0, 0], none⟩)), .call (.byHand .step)]
  obtain ⟨-, hrun, -⟩ := phase_in_run (Machine.new .default) events
  have hstopped : ((new (Machine.new .default)).afterAll events).running = false := by
    decide +kernel
  have hfetched : ((new (Machine.new .default)).afterAll events).phase = .execute := by
    decide +kernel
  have hbegun : ((new (Machine.new .default)).afterAll events).Begun (.call .start) [] :=
    begun_nil hstopped (by decide +kernel)
  have hticked : ((new (Machine.new .default)).afterAll events).Begun (.call .start) [.tick] :=
    hbegun.concat (by decide +kernel)
  refine ⟨?_, ?_⟩
  · intro hphase
    rcases (hrun _ _ hbegun).mp hphase with hfetch | htick
    · exact absurd (hfetched.symm.trans hfetch) (by decide)
    · exact absurd htick List.not_mem_nil
  · exact (hrun _ _ hticked).mpr (.inr List.mem_cons_self)

end Nic.Computer
