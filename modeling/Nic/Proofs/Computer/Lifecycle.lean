/-
From the beginning of a run to its end.

A run is begun by a call, and it ends by a call or by itself. Everything that a user can rely on is
put together here (`run_lifecycle`): what was announced, what is refused, and what was done to the
machine. It is said of calls and ticks that are done at one stroke, one after the other; and then
that two threads, whose steps come in any order, come to nothing else.
-/
import Nic.Proofs.Computer.Threads
import Nic.Proofs.Machine.Phases

set_option autoImplicit false

namespace Nic.Computer

/-- Calls by hand are answered with the fault that there is a run, and do nothing. -/
structure Refuses (c : Computer) : Prop where
  step : c.step = (.error .running, c)
  stepIn : c.stepIn = (.error .running, c)
  reset : c.reset = (.error .running, c)
  load (e : Executable) : c.load e = (.error .running, c)

/-- Calls by hand are carried out, and the answer is not a fault. -/
structure Accepts (c : Computer) : Prop where
  step : ∃ status, c.step.1 = .ok status
  stepIn : ∃ status, c.stepIn.1 = .ok status
  reset : c.reset.1 = .ok ()
  load (e : Executable) : (c.load e).1 = .ok ()

section

variable {c : Computer} {α : Type} (f : Machine → Except MachineFault α × Machine)

theorem answer_of_running (hc : c.running = true) : c.byHand f = (.error .running, c) := by
  rw [byHand, if_pos hc]

theorem answer_of_not_running (hc : c.running = false) : (c.byHand f).1 = (f c.machine).1 := by
  rw [byHand, if_neg (Bool.eq_false_iff.mp hc)]

end

theorem refuses_of_running {c : Computer} (hc : c.running = true) : c.Refuses where
  step := answer_of_running _ hc
  stepIn := answer_of_running _ hc
  reset := answer_of_running _ hc
  load _ := answer_of_running _ hc

theorem accepts_of_not_running {c : Computer} (hc : c.running = false) : c.Accepts where
  step := by
    obtain ⟨status, hstatus⟩ := Machine.exists_status (Machine.step_ne_error c.machine)
    exact ⟨status, (answer_of_not_running _ hc).trans hstatus⟩
  stepIn := by
    obtain ⟨status, hstatus⟩ := Machine.exists_status (Machine.stepIn_ne_error c.machine)
    exact ⟨status, (answer_of_not_running _ hc).trans hstatus⟩
  reset := answer_of_not_running _ hc
  load _ := answer_of_not_running _ hc

/-- **The life of a run.** A computer gets a machine, and then any calls, with ticks between them.

* Since then its subscribers were told all the same number of times that it runs or no longer runs,
  and this number is even exactly if it does not run.
* The machine is as if it had been given exactly the calls by hand that were accepted and one
  instruction for each tick of a run, in the order of the events.
* While it runs, calls by hand are refused and a call to start does nothing. While it does not run,
  calls by hand are accepted and a call to stop does nothing.
* From before the beginning of a run to its end, the subscribers are told exactly twice.

If the calls and ticks are the steps of two threads, in any order, then the computer is as after the
events that take effect in them; a run can be begun without waiting whenever the user comes to it;
and after a call to stop has returned there is no tick before a run is begun again. -/
theorem run_lifecycle (m : Machine) :
    (∀ events,
      let c := (new m).afterAll events
      (∃ n, (∀ k, c.machine.announced k = (m.announced k).map (· + n)) ∧
        (Even n ↔ c.running = false)) ∧
      c.machine.unobserved = (((new m).applied events).foldl ByHand.act m).unobserved ∧
      (c.running = true → c.Refuses ∧ c.start = c) ∧
      (c.running = false → c.Accepts ∧ c.stop = c) ∧
      ∀ first during last, c.Begun first during →
        (c.afterAll (first :: during ++ [last])).running = false →
        ∀ k, (c.afterAll (first :: during ++ [last])).machine.announced k =
          (c.machine.announced k).map (· + 2)) ∧
    ∀ events s, Threads.Run (.new m) events s →
      s.computer = (new m).afterAll events ∧
      (s.AtStart → ∃ s', s.Step [.call .start] s') ∧
      ∀ before between after, events = before ++ .call .stop :: between ++ .tick :: after →
        .call .start ∈ between := by
  refine ⟨?_, ?_⟩
  · intro events
    refine ⟨announced_afterAll (new m) events, unobserved_afterAll (new m) events, ?_, ?_, ?_⟩
    · intro hc
      exact ⟨refuses_of_running hc, start_of_running hc⟩
    · intro hc
      exact ⟨accepts_of_not_running hc, stop_of_not_running hc⟩
    · intro first during last hbegun hended
      exact hbegun.announced_of_ended hended
  · intro events s hrun
    have hnew := Threads.sound_new m
    refine ⟨hrun.computer_eq hnew, (hrun.sound hnew).starts, ?_⟩
    intro before between after
    exact hrun.begun_before_tick hnew

/-- A run whose first tick ends it, just after the user has seen it in a call to toggle. It is over
when the worker is told to stop. -/
theorem Threads.exists_run_toggle_at_end {m : Machine} {e : Executable}
    (hended : ((Computer.new m).afterAll [.call (.byHand (.load e)), .call .start,
      .tick]).running = false) :
    ∃ s, Run (.new m) [.call (.byHand (.load e)), .call .start, .call (.byHand .step), .tick,
      .call .stop] s := by
  have hloaded := (Run.nil.snoc (.reach (s := .new m) (x := .load e) rfl rfl)).snoc (.act rfl)
  have hrefused := (hloaded.snoc (.start (.inl rfl) rfl (.inl rfl))).snoc
    (.refuse (x := .step) rfl rfl)
  have hhalted := ((hrefused.snoc (.look rfl)).snoc (.elapse rfl)).snoc (.tick rfl)
  have hstopped := (hhalted.snoc (.tell (.inr rfl) nofun)).snoc
    (.stop rfl (congrArg some (if_neg (Bool.eq_false_iff.mp hended))))
  exact ⟨_, hstopped⟩

/-- A machine with one subscriber is loaded, and a run is begun. A step by hand is refused. The user
then toggles, and sees the run; but before anything comes of it, the clock ticks and the machine
halts. The worker is still there when it is told to stop, and the end of the run is not announced a
second time. -/
theorem run_lifecycle_toggle_at_halt :
    ∃ s, Threads.Run (.new { Machine.new .default with observer := Observer.new.subscribe.2 })
        [.call (.byHand (.load ⟨[0, 0, 0, 0], none⟩)), .call .start, .call (.byHand .step), .tick,
          .call .stop] s ∧
      s.computer.machine.status = .halted ∧ s.computer.machine.announced 0 = some 2 ∧
      s.computer.Accepts := by
  let m : Machine := { Machine.new .default with observer := Observer.new.subscribe.2 }
  let load : Event := .call (.byHand (.load ⟨[0, 0, 0, 0], none⟩))
  obtain ⟨s, hs⟩ := Threads.exists_run_toggle_at_end (m := m) (e := ⟨[0, 0, 0, 0], none⟩)
    (by decide +kernel)
  obtain ⟨hevents, hthreads⟩ := run_lifecycle m
  obtain ⟨hcomputer, -⟩ := hthreads _ _ hs
  obtain ⟨-, -, -, -, hperiod⟩ := hevents [load]
  obtain ⟨-, -, -, hresting, -⟩ := hevents [load, .call .start, .call (.byHand .step), .tick]
  have hbegun : ((new m).afterAll [load]).Begun (.call .start) [.call (.byHand .step)] :=
    (begun_nil rfl rfl).concat rfl
  have hended : ((new m).afterAll [load, .call .start, .call (.byHand .step), .tick]).running =
      false := by decide +kernel
  have hbefore : ((new m).afterAll [load]).machine.announced 0 = some 0 :=
    ByHand.announced_act m (.load ⟨[0, 0, 0, 0], none⟩) 0
  simp only [← afterAll_append] at hperiod
  have htwice := hperiod _ _ .tick hbegun hended 0
  rw [hbefore] at htwice
  obtain ⟨haccepts, hstop⟩ := hresting hended
  have hover : s.computer =
      (new m).afterAll [load, .call .start, .call (.byHand .step), .tick] :=
    hcomputer.trans ((afterAll_append (new m) [load, _, _, _] [.call .stop]).trans hstop)
  refine ⟨s, hs, ?_, ?_, ?_⟩
  · rw [hover]
    decide +kernel
  · rw [hover]
    exact htwice
  · rw [hover]
    exact haccepts

end Nic.Computer
