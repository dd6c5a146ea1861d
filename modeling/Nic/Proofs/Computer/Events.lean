/-
Calls to a computer, and the ticks of its clock.

The user of a computer makes calls, and while there is a run the clock ticks between them. What
comes of any sequence of both is said by `afterAll`, and what a single event can come to is said
once (`Does`, `Event.does`). Two things are read off there. An event tells that the machine runs, or
no longer runs, exactly once if it begins or ends a run, and not at all otherwise
(`Does.announced`); and it does to the machine what a call by hand or a tick is there for, or
nothing (`Does.unobserved`).
-/
import Mathlib.Algebra.Group.Even
import Mathlib.Algebra.Group.Nat.Even
import Nic.Computer
import Nic.Proofs.Machine.ExecuteIo
import Nic.Proofs.Machine.Notifications

set_option autoImplicit false

namespace Nic

namespace Computer

/-! ## Events -/

/-- What can be done to the machine by hand. -/
inductive ByHand where
  | step
  | stepIn
  | reset
  | load (e : Executable)

/-- A call to a computer. -/
inductive Call where
  | start
  | stop
  | toggle
  | byHand (x : ByHand)

/-- A call, or a tick of the clock. -/
inductive Event where
  | call (x : Call)
  | tick

/-- The machine after something was done to it. -/
def ByHand.act (m : Machine) : ByHand → Machine
  | step => m.step.2
  | stepIn => m.stepIn.2
  | reset => m.reset
  | load e => m.load e

/-- The computer after a call, whatever the answer is. -/
def Call.after (c : Computer) : Call → Computer
  | start => c.start
  | stop => c.stop
  | toggle => c.toggle
  | byHand .step => c.step.2
  | byHand .stepIn => c.stepIn.2
  | byHand .reset => c.reset.2
  | byHand (.load e) => (c.load e).2

/-- The computer after an event. -/
def Event.after (c : Computer) : Event → Computer
  | call x => x.after c
  | tick => c.tick

/-- The computer after a sequence of events. -/
def afterAll (c : Computer) (events : List Event) : Computer :=
  events.foldl (fun c e => e.after c) c

theorem afterAll_append (c : Computer) (es es' : List Event) :
    c.afterAll (es ++ es') = (c.afterAll es).afterAll es' := by
  rw [afterAll, List.foldl_append]
  rfl

theorem afterAll_concat (c : Computer) (events : List Event) (e : Event) :
    c.afterAll (events ++ [e]) = e.after (c.afterAll events) :=
  afterAll_append c events [e]

/-! ## What comes to the machine -/

/-- What an event does to the machine, in the order in which it is done: a call by hand that is
accepted does what it is for, and a tick of a run completes one instruction. -/
def Event.applied (c : Computer) : Event → List ByHand
  | call (.byHand x) => if c.running then [] else [x]
  | call _ => []
  | tick => if c.running then [.stepIn] else []

/-- What a sequence of events does to the machine. -/
def applied (c : Computer) : List Event → List ByHand
  | [] => []
  | e :: es => e.applied c ++ (e.after c).applied es

/-! ## What an event can come to -/

/-- **What an event can come to**: what is done to the machine, and the computer after it. -/
inductive Does (c : Computer) : Event → List ByHand → Computer → Prop where
  /-- The event has nothing to do, or the call is refused. -/
  | nothing {e : Event} : Does c e [] c
  | begins {x : Call} (hx : x = .start ∨ x = .toggle) (hc : c.running = false) :
    Does c (.call x) [] { c with running := true, machine := c.machine.notify .running }
  | ends {x : Call} (hx : x = .stop ∨ x = .toggle) (hc : c.running = true) :
    Does c (.call x) [] { c with running := false, machine := c.machine.notify .running }
  | byHand {x : ByHand} (hc : c.running = false) :
    Does c (.call (.byHand x)) [x] { c with machine := x.act c.machine }
  /-- An instruction of a run that goes on. -/
  | goesOn (hc : c.running = true) (hok : c.machine.stepIn.1 = .ok .ok) :
    Does c .tick [.stepIn] { c with machine := c.machine.stepIn.2 }
  /-- An instruction after which the run is over. -/
  | runsOut (hc : c.running = true) (hok : c.machine.stepIn.1 ≠ .ok .ok) :
    Does c .tick [.stepIn]
      { c with running := false, machine := c.machine.stepIn.2.notify .running }

section

variable {c : Computer}

theorem start_of_running (hc : c.running = true) : c.start = c := by
  rw [start, if_pos hc]

theorem start_of_not_running (hc : c.running = false) :
    c.start = { c with running := true, machine := c.machine.notify .running } := by
  rw [start, if_neg (by simp [hc])]

theorem stop_of_running (hc : c.running = true) :
    c.stop = { c with running := false, machine := c.machine.notify .running } := by
  rw [stop, if_pos hc]

theorem stop_of_not_running (hc : c.running = false) : c.stop = c := by
  rw [stop, if_neg (by simp [hc])]

theorem running_stop (c : Computer) : c.stop.running = false := by
  by_cases hc : c.running = true
  · rw [stop_of_running hc]
  · rw [Bool.not_eq_true] at hc
    rw [stop_of_not_running hc, hc]

/-- While there is a run, calls by hand do nothing. -/
theorem byHand_of_running (hc : c.running = true) (x : ByHand) :
    (Call.byHand x).after c = c := by
  cases x <;> simp [Call.after, step, stepIn, reset, load, byHand, hc]

theorem byHand_of_not_running (hc : c.running = false) (x : ByHand) :
    (Call.byHand x).after c = { c with machine := x.act c.machine } := by
  cases x <;> simp [Call.after, step, stepIn, reset, load, byHand, hc, ByHand.act]

theorem tick_of_ok (hc : c.running = true) (hok : c.machine.stepIn.1 = .ok .ok) :
    c.tick = { c with machine := c.machine.stepIn.2 } := by
  rw [tick, if_pos hc]
  split
  next machine heq => rw [heq]
  next result machine hne heq =>
    rw [heq] at hok
    exact absurd hok hne

theorem tick_of_not_ok (hc : c.running = true) (hne : c.machine.stepIn.1 ≠ .ok .ok) :
    c.tick = { c with running := false, machine := c.machine.stepIn.2.notify .running } := by
  rw [tick, if_pos hc]
  split
  next machine heq =>
    rw [heq] at hne
    exact absurd rfl hne
  next result machine _ heq =>
    have hrunning : Computer.running { c with machine } = true := hc
    rw [stop_of_running hrunning, heq]

end

section

variable (c : Computer)

theorem does_start : Does c (.call .start) [] c.start := by
  by_cases hc : c.running = true
  · rw [start_of_running hc]
    exact .nothing
  · rw [Bool.not_eq_true] at hc
    rw [start_of_not_running hc]
    exact .begins (.inl rfl) hc

theorem does_stop : Does c (.call .stop) [] c.stop := by
  by_cases hc : c.running = true
  · rw [stop_of_running hc]
    exact .ends (.inl rfl) hc
  · rw [Bool.not_eq_true] at hc
    rw [stop_of_not_running hc]
    exact .nothing

theorem does_toggle : Does c (.call .toggle) [] c.toggle := by
  by_cases hc : c.running = true
  · rw [toggle, if_pos hc, stop_of_running hc]
    exact .ends (.inr rfl) hc
  · rw [toggle, if_neg hc]
    rw [Bool.not_eq_true] at hc
    rw [start_of_not_running hc]
    exact .begins (.inr rfl) hc

theorem does_byHand (x : ByHand) :
    Does c (.call (.byHand x)) (if c.running then [] else [x]) ((Call.byHand x).after c) := by
  by_cases hc : c.running = true
  · rw [if_pos hc, byHand_of_running hc]
    exact .nothing
  · rw [if_neg hc]
    rw [Bool.not_eq_true] at hc
    rw [byHand_of_not_running hc]
    exact .byHand hc

theorem does_tick : Does c .tick (if c.running then [.stepIn] else []) c.tick := by
  by_cases hc : c.running = true
  · rw [if_pos hc]
    by_cases hok : c.machine.stepIn.1 = .ok .ok
    · rw [tick_of_ok hc hok]
      exact .goesOn hc hok
    · rw [tick_of_not_ok hc hok]
      exact .runsOut hc hok
  · rw [if_neg hc, tick, if_neg hc]
    exact .nothing

theorem Event.does (e : Event) : Does c e (e.applied c) (e.after c) := by
  cases e with
  | call x =>
    cases x with
    | start => exact does_start c
    | stop => exact does_stop c
    | toggle => exact does_toggle c
    | byHand x => exact does_byHand c x
  | tick => exact does_tick c

end

/-- Only a call to start or to toggle begins a run. -/
theorem begun_of_running {c : Computer} {events : List Event} (hc : c.running = false)
    (h : (c.afterAll events).running = true) :
    .call .start ∈ events ∨ .call .toggle ∈ events := by
  induction events generalizing c with
  | nil => exact absurd (hc.symm.trans h) Bool.false_ne_true
  | cons e events ih =>
    have hrest : (e.after c).running = false →
        .call .start ∈ e :: events ∨ .call .toggle ∈ e :: events := by
      intro hfirst
      exact (ih hfirst h).imp (List.mem_cons_of_mem e) (List.mem_cons_of_mem e)
    have hdoes := e.does c
    generalize e.after c = c', e.applied c = xs at hdoes hrest
    cases hdoes with
    | nothing => exact hrest hc
    | begins hx =>
      rcases hx with rfl | rfl
      · exact .inl List.mem_cons_self
      · exact .inr List.mem_cons_self
    | ends => exact hrest rfl
    | byHand => exact hrest hc
    | goesOn hrunning => exact absurd (hc.symm.trans hrunning) Bool.false_ne_true
    | runsOut => exact hrest rfl

/-! ## Announcements -/

/-- What is done by hand is no announcement. -/
theorem ByHand.announced_act (m : Machine) (x : ByHand) (k : Nat) :
    (x.act m).announced k = m.announced k := by
  cases x with
  | step => exact (Machine.reaches_step (.inl rfl) (.inr rfl) m).tells.announced k
  | stepIn => exact (Machine.reaches_stepIn (.inl rfl) (.inr rfl) m).tells.announced k
  | reset => exact Machine.announced_reset m k
  | load e => exact Machine.announced_reset { m with image := e.image } k

/-- **An event announces that a run begins or ends if it does, and nothing else.** -/
theorem Does.announced {c c' : Computer} {e : Event} {xs : List ByHand} (h : Does c e xs c')
    (k : Nat) :
    c'.machine.announced k =
      (c.machine.announced k).map (· + if c'.running = c.running then 0 else 1) := by
  have hstepIn : c.machine.stepIn.2.announced k = c.machine.announced k :=
    ByHand.announced_act c.machine .stepIn k
  cases h with
  | nothing => simp
  | begins _ hc => simp [Machine.announced_notify, hc]
  | ends _ hc => simp [Machine.announced_notify, hc]
  | byHand => simp [ByHand.announced_act]
  | goesOn => simp [hstepIn]
  | runsOut hc => simp [Machine.announced_notify, hc, hstepIn]

/-- **Announcements tell whether there is a run.** Since any time, the subscribers were told an even
number of times exactly if there is a run now as there was then. -/
theorem announced_afterAll (c : Computer) (events : List Event) :
    ∃ n, (∀ k, (c.afterAll events).machine.announced k = (c.machine.announced k).map (· + n)) ∧
      (Even n ↔ (c.afterAll events).running = c.running) := by
  induction events generalizing c with
  | nil => exact ⟨0, by simp [afterAll], by simp [afterAll]⟩
  | cons e events ih =>
    obtain ⟨n, hn, heven⟩ := ih (e.after c)
    refine ⟨(if (e.after c).running = c.running then 0 else 1) + n, ?_, ?_⟩
    · intro k
      refine (hn k).trans ?_
      rw [(e.does c).announced k, Option.map_map]
      congr 1
      funext told
      exact Nat.add_assoc told _ n
    · change _ ↔ ((e.after c).afterAll events).running = c.running
      split
      next hsame => rw [Nat.zero_add, heven, hsame]
      next hchanged =>
        -- one more announcement, and one more change of a flag that has two values
        rw [Nat.even_add, heven]
        revert hchanged
        generalize ((e.after c).afterAll events).running = b
        generalize (e.after c).running = b'
        generalize c.running = b₀
        revert b b' b₀
        decide

/-- As long as there is a run, or there is none, nothing is announced. -/
theorem announced_of_unchanged {c : Computer} {events : List Event}
    (h : ∀ before, before <+: events → (c.afterAll before).running = c.running) (k : Nat) :
    (c.afterAll events).machine.announced k = c.machine.announced k := by
  induction events generalizing c with
  | nil => rfl
  | cons e events ih =>
    have hsame : (e.after c).running = c.running := h [e] (by simp)
    have hrest : ((e.after c).afterAll events).machine.announced k =
        (e.after c).machine.announced k := by
      apply ih
      intro before hbefore
      rw [hsame]
      exact h (e :: before) (by simpa using hbefore)
    have hfirst := (e.does c).announced k
    rw [if_pos hsame] at hfirst
    refine hrest.trans (hfirst.trans ?_)
    simp

/-! ## Runs -/

/-- A run from its beginning: the event `first` begins it, and it goes on all through `during`. -/
structure Begun (c : Computer) (first : Event) (during : List Event) : Prop where
  stopped : c.running = false
  running {before : List Event} : before <+: during → (c.afterAll (first :: before)).running = true

theorem begun_nil {c : Computer} {first : Event} (hc : c.running = false)
    (hfirst : (first.after c).running = true) : Begun c first [] := by
  refine ⟨hc, ?_⟩
  intro before hbefore
  rw [List.prefix_nil.mp hbefore]
  exact hfirst

/-- A run goes on if there is still a run after one more event. -/
theorem Begun.concat {c : Computer} {first e : Event} {during : List Event}
    (h : Begun c first during) (he : (c.afterAll (first :: during ++ [e])).running = true) :
    Begun c first (during ++ [e]) := by
  refine ⟨h.stopped, ?_⟩
  intro before hbefore
  rcases List.prefix_concat_iff.mp hbefore with rfl | hbefore
  · exact he
  · exact h.running hbefore

theorem Begun.running_first {c : Computer} {first : Event} {during : List Event}
    (h : Begun c first during) : (first.after c).running = true :=
  h.running List.nil_prefix

/-- A run is announced when it begins, and then no more as long as it goes on. -/
theorem Begun.announced {c : Computer} {first : Event} {during : List Event}
    (h : Begun c first during) (k : Nat) :
    (c.afterAll (first :: during)).machine.announced k =
      (c.machine.announced k).map (· + 1) := by
  have hrest : (c.afterAll (first :: during)).machine.announced k =
      (first.after c).machine.announced k := by
    refine announced_of_unchanged (c := first.after c) ?_ k
    intro before hbefore
    exact (h.running hbefore).trans h.running_first.symm
  have hchanged : (first.after c).running ≠ c.running := by
    simp [h.running_first, h.stopped]
  rw [hrest, (first.does c).announced k, if_neg hchanged]

/-- **A run is announced twice.** -/
theorem Begun.announced_of_ended {c : Computer} {first last : Event} {during : List Event}
    (h : Begun c first during)
    (hended : (c.afterAll (first :: during ++ [last])).running = false) (k : Nat) :
    (c.afterAll (first :: during ++ [last])).machine.announced k =
      (c.machine.announced k).map (· + 2) := by
  rw [afterAll_concat] at hended ⊢
  have hlast := (last.does (c.afterAll (first :: during))).announced k
  have hchanged : (last.after (c.afterAll (first :: during))).running ≠
      (c.afterAll (first :: during)).running := by
    rw [h.running List.prefix_rfl]
    exact Bool.eq_false_iff.mp hended
  rw [if_neg hchanged, h.announced k, Option.map_map] at hlast
  exact hlast

/-! ## The machine -/

theorem ByHand.unobserved_act {m n : Machine} (h : m.unobserved = n.unobserved) (x : ByHand) :
    (x.act m).unobserved = (x.act n).unobserved := by
  obtain ⟨hsnapshot, hkept⟩ := Machine.unobserved_eq_iff.mp h
  rw [Machine.unobserved_eq_iff]
  cases x with
  | step =>
    refine ⟨(Machine.step_congr hsnapshot).2, ?_⟩
    have hm := (Machine.reaches_step (.inl rfl) (.inr rfl) m).kept_eq
    have hn := (Machine.reaches_step (.inl rfl) (.inr rfl) n).kept_eq
    exact hm.trans (hkept.trans hn.symm)
  | stepIn =>
    refine ⟨(Machine.stepIn_congr hsnapshot).2, ?_⟩
    have hm := (Machine.reaches_stepIn (.inl rfl) (.inr rfl) m).kept_eq
    have hn := (Machine.reaches_stepIn (.inl rfl) (.inr rfl) n).kept_eq
    exact hm.trans (hkept.trans hn.symm)
  | reset =>
    refine ⟨Machine.snapshot_reset_congr (congrArg Prod.fst hkept), ?_⟩
    rw [act, act, Machine.kept_reset, Machine.kept_reset, hkept]
  | load e =>
    have hflags : m.flags = n.flags := congrArg Prod.snd hkept
    refine ⟨Machine.snapshot_reset_congr rfl, ?_⟩
    rw [act, act, Machine.load, Machine.load, Machine.kept_reset, Machine.kept_reset, Machine.kept,
      Machine.kept, hflags]

theorem unobserved_foldl {m n : Machine} (h : m.unobserved = n.unobserved) (xs : List ByHand) :
    (xs.foldl ByHand.act m).unobserved = (xs.foldl ByHand.act n).unobserved := by
  induction xs generalizing m n with
  | nil => exact h
  | cons x xs ih => exact ih (ByHand.unobserved_act h x)

theorem Does.unobserved {c c' : Computer} {e : Event} {xs : List ByHand} (h : Does c e xs c') :
    c'.machine.unobserved = (xs.foldl ByHand.act c.machine).unobserved := by
  cases h <;> rfl

/-- **Nothing else is done to the machine**, and everything in the order in which it happens. -/
theorem unobserved_afterAll (c : Computer) (events : List Event) :
    (c.afterAll events).machine.unobserved =
      ((c.applied events).foldl ByHand.act c.machine).unobserved := by
  induction events generalizing c with
  | nil => rfl
  | cons e events ih =>
    rw [applied, List.foldl_append]
    exact (ih (e.after c)).trans (unobserved_foldl (e.does c).unobserved _)

end Computer

end Nic
