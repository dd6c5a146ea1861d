/-
The two threads of a computer.

Neither a call nor a tick is done at one stroke. A run has a thread of its own, the worker, which
waits for some time, takes the machine for a tick and waits again. The user looks whether there is a
run and then does something about it; or tells the worker to stop, waits until it has left, and only
then ends the run. Between two steps of the one there can be steps of the other, so a run can end by
itself right after the user has seen it, and a worker that has left stays unnoticed until the next
call. What is done while the machine is held is one step (`Step`).

In whatever order the steps come, the computer is as if calls and ticks had been done at one stroke,
each at one of its steps (`Run.computer_eq`). What makes this true is the invariant `Sound`: a
worker that has not left belongs to a run, and a run has such a worker, but for the time between its
leaving because it was told to and the end of the call that told it. So nothing comes between the
user's look and a call by hand; a run is begun only after the worker of the one before has left; and
after a run was stopped there is nobody who could tick.
-/
import Nic.Proofs.Computer.Events

set_option autoImplicit false

namespace Nic.Computer

/-! ## Steps -/

/-- Where the thread of a run is. -/
inductive Worker where
  /-- It waits for the next tick, or to be told to stop. -/
  | waiting
  /-- It has waited long enough, and the next thing is to take the machine. -/
  | due
  /-- It has left. -/
  | done

/-- Where the user is. -/
inductive User where
  /-- Between two calls. -/
  | idle
  /-- In a call to toggle: has looked whether there is a run, and has done nothing yet. -/
  | toggling (seen : Bool)
  /-- In a call by hand: has seen that there is no run, and the next thing is to take the
  machine. -/
  | reaching (x : ByHand)
  /-- In a call to stop: has told the worker, and waits until it has left. -/
  | stopping

/-- A computer in use: the thread of its last run, as long as nobody has waited for its end; whether
that thread was told to stop; and the thread of the user. -/
structure Threads where
  computer : Computer
  worker : Option Worker
  told : Bool
  user : User

namespace Threads

/-- A machine that is not running. -/
def new (m : Machine) : Threads := ⟨.new m, none, false, .idle⟩

/-- The user is about to begin a run, in a call to start or in one to toggle. -/
def AtStart (s : Threads) : Prop := s.user = .idle ∨ s.user = .toggling false

/-- The user is about to end a run, in a call to stop or in one to toggle. -/
def AtStop (s : Threads) : Prop := s.user = .idle ∨ s.user = .toggling true

/-- **One step**, and the call or the tick that takes effect in it. -/
inductive Step : Threads → List Event → Threads → Prop where
  /-- There is a run already. -/
  | startAgain {s : Threads} (hu : s.AtStart) (hc : s.computer.running = true) :
    Step s [.call .start] { s with user := .idle }
  /-- A new worker is set off, and only if the one before has left: the user holds the machine, and
  would wait for it forever. -/
  | start {s : Threads} (hu : s.AtStart) (hc : s.computer.running = false)
    (hw : s.worker = none ∨ s.worker = some .done) :
    Step s [.call .start] ⟨s.computer.start, some .waiting, false, .idle⟩
  /-- There is nobody to stop. -/
  | stopNobody {s : Threads} (hu : s.AtStop) (hw : s.worker = none) :
    Step s [.call .stop] { s with user := .idle }
  | tell {s : Threads} (hu : s.AtStop) (hw : s.worker ≠ none) :
    Step s [] { s with told := true, user := .stopping }
  /-- The worker has left. Perhaps it did so before it was told, and the run is over already. -/
  | stop {s : Threads} (hu : s.user = .stopping) (hw : s.worker = some .done) :
    Step s [.call .stop] ⟨s.computer.stop, none, false, .idle⟩
  | look {s : Threads} (hu : s.user = .idle) :
    Step s [] { s with user := .toggling s.computer.running }
  | refuse {s : Threads} {x : ByHand} (hu : s.user = .idle) (hc : s.computer.running = true) :
    Step s [.call (.byHand x)] s
  | reach {s : Threads} {x : ByHand} (hu : s.user = .idle) (hc : s.computer.running = false) :
    Step s [] { s with user := .reaching x }
  /-- The user takes the machine, without another look. -/
  | act {s : Threads} {x : ByHand} (hu : s.user = .reaching x) :
    Step s [.call (.byHand x)]
      { s with
        computer := { s.computer with machine := x.act s.computer.machine }, user := .idle }
  | elapse {s : Threads} (hw : s.worker = some .waiting) : Step s [] { s with worker := some .due }
  | leave {s : Threads} (hw : s.worker = some .waiting) (ht : s.told = true) :
    Step s [] { s with worker := some .done }
  /-- The worker takes the machine, and leaves if there is no run or it has come to its end. -/
  | tick {s : Threads} (hw : s.worker = some .due) :
    Step s [.tick]
      { s with
        computer := s.computer.tick
        worker := some (if s.computer.tick.running then .waiting else .done) }

/-- Steps in any order, and what takes effect in them. -/
inductive Run (s : Threads) : List Event → Threads → Prop where
  | nil : Run s [] s
  | snoc {events events' : List Event} {s₁ s₂ : Threads} (h : Run s events s₁)
    (hstep : Step s₁ events' s₂) : Run s (events ++ events') s₂

/-! ## The invariant -/

/-- The worker has not left. -/
def Live (s : Threads) : Prop := s.worker = some .waiting ∨ s.worker = some .due

structure Sound (s : Threads) : Prop where
  live : s.Live → s.computer.running = true
  running : s.computer.running = true → s.Live ∨ s.worker = some .done ∧ s.user = .stopping
  told : s.told = true → s.user = .stopping
  reaching {x : ByHand} : s.user = .reaching x → s.computer.running = false

theorem sound_new (m : Machine) : Sound (new m) where
  live := by rintro (h | h) <;> cases h
  running := nofun
  told := nofun
  reaching := nofun

theorem AtStart.ne_stopping {s : Threads} (h : s.AtStart) : s.user ≠ .stopping := by
  rcases h with h | h <;> simp [h]

theorem AtStop.ne_stopping {s : Threads} (h : s.AtStop) : s.user ≠ .stopping := by
  rcases h with h | h <;> simp [h]

/-- Unless the user waits for the worker to leave, a run has a worker that has not. -/
theorem Sound.live_of_running {s : Threads} (hs : Sound s) (hu : s.user ≠ .stopping)
    (hc : s.computer.running = true) : s.Live := by
  rcases hs.running hc with hlive | ⟨-, hstopping⟩
  · exact hlive
  · exact absurd hstopping hu

theorem Sound.not_running_of_nobody {s : Threads} (hs : Sound s) (hw : s.worker = none) :
    s.computer.running = false := by
  rw [Bool.eq_false_iff]
  intro hc
  rcases hs.running hc with (h | h) | ⟨h, -⟩ <;> cases hw.symm.trans h

/-- The user goes from one place to another outside of the call that waits for the worker. -/
theorem Sound.of_user {s : Threads} (hs : Sound s) (hu : s.user ≠ .stopping) {user : User}
    (hreaching : ∀ x, user = .reaching x → s.computer.running = false) :
    Sound { s with user } where
  live := hs.live
  running := by
    intro hc
    exact .inl (hs.live_of_running hu hc)
  told := by
    intro ht
    exact absurd (hs.told ht) hu
  reaching := hreaching _

/-- **One step keeps the invariant.** -/
theorem Sound.step {s s' : Threads} {events : List Event} (hs : Sound s)
    (h : Step s events s') : Sound s' := by
  cases h with
  | startAgain hu => exact hs.of_user hu.ne_stopping nofun
  | start hu hc =>
    have hrunning : s.computer.start.running = true := by rw [start_of_not_running hc]
    exact ⟨fun _ => hrunning, fun _ => .inl (.inl rfl), nofun, nofun⟩
  | stopNobody hu => exact hs.of_user hu.ne_stopping nofun
  | tell hu =>
    refine ⟨hs.live, ?_, fun _ => rfl, nofun⟩
    intro hc
    exact .inl (hs.live_of_running hu.ne_stopping hc)
  | stop =>
    refine ⟨?_, ?_, nofun, nofun⟩
    · rintro (h | h) <;> cases h
    · intro hc
      exact absurd ((running_stop s.computer).symm.trans hc) Bool.false_ne_true
  | look hu => exact hs.of_user (by simp [hu]) nofun
  | refuse => exact hs
  | reach hu hc => exact hs.of_user (by simp [hu]) (fun _ _ => hc)
  | act hu =>
    refine ⟨hs.live, ?_, ?_, nofun⟩
    · intro hc
      exact absurd ((hs.reaching hu).symm.trans hc) Bool.false_ne_true
    · intro ht
      cases hu.symm.trans (hs.told ht)
  | elapse hw =>
    exact ⟨fun _ => hs.live (.inl hw), fun _ => .inl (.inr rfl), hs.told, hs.reaching⟩
  | leave hw ht =>
    refine ⟨?_, fun _ => .inr ⟨rfl, hs.told ht⟩, hs.told, hs.reaching⟩
    rintro (h | h) <;> cases h
  | tick hw =>
    refine ⟨?_, ?_, hs.told, ?_⟩
    · intro hlive
      by_contra hover
      rcases hlive with h | h <;> simp [hover] at h
    · intro hgoes
      exact .inl (.inl (congrArg some (if_pos hgoes)))
    · intro x hu
      exact absurd ((hs.reaching hu).symm.trans (hs.live (.inr hw))) Bool.false_ne_true

theorem Run.sound {s s' : Threads} {events : List Event} (h : Run s events s') (hs : Sound s) :
    Sound s' := by
  induction h with
  | nil => exact hs
  | snoc _ hstep ih => exact ih.step hstep

/-! ## What takes effect -/

/-- One step does what takes effect in it, and nothing else. -/
theorem Step.computer_eq {s s' : Threads} {events : List Event} (h : Step s events s')
    (hs : Sound s) : s'.computer = s.computer.afterAll events := by
  cases h with
  | startAgain _ hc => exact (start_of_running hc).symm
  | start => rfl
  | stopNobody _ hw => exact (stop_of_not_running (hs.not_running_of_nobody hw)).symm
  | tell => rfl
  | stop => rfl
  | look => rfl
  | refuse _ hc => exact (byHand_of_running hc _).symm
  | reach => rfl
  | act hu => exact (byHand_of_not_running (hs.reaching hu) _).symm
  | elapse => rfl
  | leave => rfl
  | tick => rfl

/-- **Steps in any order come to calls and ticks one after the other.** -/
theorem Run.computer_eq {s s' : Threads} {events : List Event} (h : Run s events s')
    (hs : Sound s) : s'.computer = s.computer.afterAll events := by
  induction h with
  | nil => rfl
  | snoc hrun hstep ih => rw [hstep.computer_eq (hrun.sound hs), ih, afterAll_append]

/-- Beginning a run never waits for the worker of the one before. -/
theorem Sound.starts {s : Threads} (hs : Sound s) (hu : s.AtStart) :
    ∃ s', Step s [.call .start] s' := by
  by_cases hc : s.computer.running = true
  · exact ⟨_, .startAgain hu hc⟩
  · refine ⟨_, .start hu (Bool.eq_false_iff.mpr hc) ?_⟩
    have hnot : ¬ s.Live := fun hlive => hc (hs.live hlive)
    cases hw : s.worker with
    | none => exact .inl rfl
    | some w =>
      cases w with
      | waiting => exact absurd (.inl hw) hnot
      | due => exact absurd (.inr hw) hnot
      | done => exact .inr rfl

/-! ## Ticks -/

/-- A tick happens in a run, and nothing else does in its step. -/
theorem Step.running_of_tick {s s' : Threads} {events : List Event} (h : Step s events s')
    (hs : Sound s) (htick : .tick ∈ events) :
    events = [.tick] ∧ s.computer.running = true := by
  cases h with
  | tick hw => exact ⟨rfl, hs.live (.inr hw)⟩
  | _ => simp at htick

/-- **Every tick happens in a run.** -/
theorem Run.running_of_tick {s s' : Threads} {events before after : List Event}
    (h : Run s events s') (hs : Sound s) (hsplit : events = before ++ .tick :: after) :
    (s.computer.afterAll before).running = true := by
  induction h generalizing after with
  | nil => simp at hsplit
  | @snoc events events' s₁ s₂ hrun hstep ih =>
    -- the tick is in the last step, or before it
    have hlast : ∀ between, before = events ++ between → events' = between ++ .tick :: after →
        (s.computer.afterAll before).running = true := by
      intro between hbefore hevents'
      obtain ⟨hone, hrunning⟩ := hstep.running_of_tick (hrun.sound hs) (by simp [hevents'])
      have hnil : between = [] := by
        rw [hone] at hevents'
        cases between with
        | nil => rfl
        | cons _ _ => simp at hevents'
      rw [hbefore, hnil, List.append_nil, ← hrun.computer_eq hs]
      exact hrunning
    rcases List.append_eq_append_iff.mp hsplit with ⟨between, hb, he⟩ | ⟨between, he, ha⟩
    · exact hlast between hb he
    · cases between with
      | nil => exact hlast [] (by simpa using he.symm) (by simpa using ha.symm)
      | cons e between =>
        obtain ⟨rfl, -⟩ := List.cons.inj ha
        exact ih he

/-- A call to toggle takes effect as a call to start or to stop. -/
theorem Run.toggle_not_mem {s s' : Threads} {events : List Event} (h : Run s events s') :
    .call .toggle ∉ events := by
  induction h with
  | nil => exact List.not_mem_nil
  | snoc _ hstep ih =>
    rw [List.mem_append, not_or]
    refine ⟨ih, ?_⟩
    cases hstep <;> simp

/-- **No tick is late**: between the end of a call to stop and a tick, a run was begun. -/
theorem Run.begun_before_tick {s s' : Threads} {events before between after : List Event}
    (h : Run s events s') (hs : Sound s)
    (hsplit : events = before ++ .call .stop :: between ++ .tick :: after) :
    .call .start ∈ between := by
  have hrunning := h.running_of_tick hs hsplit
  rw [afterAll_append] at hrunning
  have hbegun : .call .start ∈ between ∨ .call .toggle ∈ between :=
    begun_of_running (running_stop (s.computer.afterAll before)) hrunning
  rcases hbegun with hstart | htoggle
  · exact hstart
  · exact absurd (by simp [hsplit, htoggle]) h.toggle_not_mem

end Threads

end Nic.Computer
