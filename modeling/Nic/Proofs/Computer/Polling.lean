/-
What a user who polls learns about runs.

The user of a computer asks its observer from time to time for the changes, and wants to know from
the answer whether there is a run that was not there when it last asked, or no longer one. The
beginning and the end of a run are noted, but it is not only the user who takes notes away: starting
over forgets all of them, and then notes every part of the machine as changed. That there is a run
is no part of the machine, so this note is not made again (`Event.noted_after`).

A change is missed in this way and in no other. What one use of the computer does to a missed change
is said in `misses_after`; it follows how a change can come to be missed by the end of any sequence
of uses.
-/
import Nic.Proofs.Computer.Events
import Nic.Proofs.Machine.Noticed

set_option autoImplicit false

namespace Nic

namespace Machine

/-- Phases leave the note that the machine runs, or no longer runs. -/
theorem Tells.mem_pending {m m' : Machine} (h : Tells m m') :
    Change.running ∈ m'.observer.pending ↔ Change.running ∈ m.observer.pending := by
  obtain ⟨cs, hcs, hobserver⟩ := h
  rw [hobserver, Observer.mem_notifyAll]
  exact or_iff_right hcs

/-- Starting over forgets that note. -/
theorem running_not_mem_reset (m : Machine) : Change.running ∉ m.reset.observer.pending := by
  have hobserver : m.reset.observer = m.observer.clear.notifyAll resetChanges := by
    rw [reset]
  rw [hobserver, Observer.mem_notifyAll, not_or]
  exact ⟨not_mem_resetChanges, Std.ExtTreeSet.not_mem_empty⟩

end Machine

namespace Computer

/-! ## One event -/

/-- Whether this starts the machine over. -/
def ByHand.startsOver : ByHand → Bool
  | reset | load _ => true
  | step | stepIn => false

/-- The observer has a note that there is a run, or no longer one. -/
def Noted (c : Computer) : Prop := Change.running ∈ c.machine.observer.pending

instance (c : Computer) : Decidable c.Noted :=
  inferInstanceAs (Decidable (Change.running ∈ c.machine.observer.pending))

theorem ByHand.mem_pending_act (m : Machine) (x : ByHand) :
    Change.running ∈ (x.act m).observer.pending ↔
      Change.running ∈ m.observer.pending ∧ x.startsOver = false := by
  cases x with
  | step =>
    rw [act, (Machine.reaches_step (.inl rfl) (.inr rfl) m).tells.mem_pending]
    exact (and_iff_left rfl).symm
  | stepIn =>
    rw [act, (Machine.reaches_stepIn (.inl rfl) (.inr rfl) m).tells.mem_pending]
    exact (and_iff_left rfl).symm
  | reset => exact iff_of_false m.running_not_mem_reset (by simp [startsOver])
  | load e =>
    exact iff_of_false (Machine.running_not_mem_reset { m with image := e.image })
      (by simp [startsOver])

theorem Does.noted {c c' : Computer} {e : Event} {xs : List ByHand} (h : Does c e xs c') :
    c'.Noted ↔ c'.running ≠ c.running ∨ c.Noted ∧ ∀ x ∈ xs, x.startsOver = false := by
  have hnotify : ∀ m : Machine, Change.running ∈ (m.notify .running).observer.pending := by
    intro m
    exact Observer.mem_notify.mpr (.inl rfl)
  cases h with
  | nothing => simp
  | begins _ hc => exact iff_of_true (hnotify _) (.inl (by simp [hc]))
  | ends _ hc => exact iff_of_true (hnotify _) (.inl (by simp [hc]))
  | @byHand x => simpa [Noted] using ByHand.mem_pending_act c.machine x
  | goesOn => simpa [Noted, ByHand.act] using ByHand.mem_pending_act c.machine .stepIn
  | runsOut hc => exact iff_of_true (hnotify _) (.inl (by simp [hc]))

/-- The machine starts over: a call for that is accepted. -/
def Event.StartsOver (c : Computer) (e : Event) : Prop :=
  ∃ x ∈ e.applied c, x.startsOver = true

/-- **What one event does to the note**: it is made if a run begins or ends, and forgotten if the
machine starts over. -/
theorem Event.noted_after (c : Computer) (e : Event) :
    (e.after c).Noted ↔ (e.after c).running ≠ c.running ∨ c.Noted ∧ ¬ e.StartsOver c := by
  rw [(e.does c).noted, StartsOver]
  simp only [not_exists, not_and, Bool.not_eq_true]

/-- Only a call by hand starts the machine over, and only if there is no run. -/
theorem Event.StartsOver.eq_call {c : Computer} {e : Event} (h : e.StartsOver c) :
    c.running = false ∧ ∃ x : ByHand, e = .call (.byHand x) ∧ x.startsOver = true := by
  obtain ⟨x, hx, hover⟩ := h
  have hdoes := e.does c
  generalize e.after c = c', e.applied c = xs at hdoes hx
  cases hdoes with
  | nothing => cases hx
  | begins => cases hx
  | ends => cases hx
  | byHand hc =>
    rw [List.mem_singleton.mp hx] at hover
    exact ⟨hc, _, rfl, hover⟩
  | goesOn =>
    rw [List.mem_singleton.mp hx] at hover
    cases hover
  | runsOut =>
    rw [List.mem_singleton.mp hx] at hover
    cases hover

theorem Event.StartsOver.running_after {c : Computer} {e : Event} (h : e.StartsOver c) :
    (e.after c).running = false := by
  obtain ⟨hc, x, rfl, -⟩ := h.eq_call
  rw [after, byHand_of_not_running hc]
  exact hc

/-! ## Uses -/

/-- What happens to a computer whose observer is polled: an event, or the user takes the changes or
has them forgotten. -/
inductive Use where
  | event (e : Event)
  | takeChanges
  | clearChanges

namespace Use

/-- Whether the user knows all changes after this. -/
def polls : Use → Bool
  | event _ => false
  | takeChanges | clearChanges => true

/-- The computer after a use of it. -/
def after (c : Computer) : Use → Computer
  | event e => e.after c
  | takeChanges =>
    (c.withMachine fun m =>
      let (changes, observer) := m.observer.takeChanges
      (changes, { m with observer })).2
  | clearChanges => (c.withMachine fun m => ((), { m with observer := m.observer.clear })).2

end Use

/-- A computer in use: whether there was a run when its user last knew all changes, and how it is
now. -/
structure Watched where
  known : Bool
  computer : Computer

namespace Watched

/-- A computer that gets its machine. -/
def start (m : Machine) : Watched := ⟨(new m).running, new m⟩

/-- What has come of a use. -/
def after (w : Watched) (u : Use) : Watched :=
  ⟨if u.polls then (u.after w.computer).running else w.known, u.after w.computer⟩

/-- What has come of a sequence of uses. -/
def afterAll (w : Watched) (uses : List Use) : Watched :=
  uses.foldl after w

theorem afterAll_append (w : Watched) (us vs : List Use) :
    w.afterAll (us ++ vs) = (w.afterAll us).afterAll vs := by
  rw [afterAll, List.foldl_append]
  rfl

theorem afterAll_concat (w : Watched) (uses : List Use) (u : Use) :
    w.afterAll (uses ++ [u]) = (w.afterAll uses).after u :=
  afterAll_append w uses [u]

/-! ## Missed changes -/

/-- The user misses a change: there is a run and it knows of none, or the other way round, and the
observer has no note of it. -/
def Misses (w : Watched) : Prop := w.known ≠ w.computer.running ∧ ¬ w.computer.Noted

instance (w : Watched) : Decidable w.Misses :=
  inferInstanceAs (Decidable (w.known ≠ w.computer.running ∧ ¬ w.computer.Noted))

/-- **What one use does to a missed change.** The user misses one after it if the machine has just
started over while the user believed in a run; or if one was missed before, the user has not asked,
and neither has a run begun nor ended. -/
theorem misses_after (w : Watched) (u : Use) :
    (w.after u).Misses ↔ (w.known = true ∧ ∃ e, u = .event e ∧ e.StartsOver w.computer) ∨
      w.Misses ∧ u.polls = false ∧ (w.after u).computer.running = w.computer.running := by
  cases u with
  | takeChanges => simp [Misses, after, Use.polls]
  | clearChanges => simp [Misses, after, Use.polls]
  | event e =>
    have hafter : (w.after (.event e)).Misses ↔
        w.known ≠ (e.after w.computer).running ∧ ¬ (e.after w.computer).Noted := Iff.rfl
    have hcomputer : (w.after (.event e)).computer = e.after w.computer := rfl
    have hunasked : Use.polls (.event e) = false := rfl
    rw [hafter, hcomputer, e.noted_after]
    by_cases hover : e.StartsOver w.computer
    · -- there is no run, before and after, and the note is gone
      have hstopped := hover.eq_call.1
      have hstill := hover.running_after
      constructor
      · rintro ⟨hne, -⟩
        exact .inl ⟨by simpa [hstill] using hne, e, rfl, hover⟩
      · intro h
        have hknown : w.known = true := by
          rcases h with ⟨hknown, -⟩ | ⟨⟨hne, -⟩, -⟩
          · exact hknown
          · simpa [hstopped] using hne
        exact ⟨by simp [hknown, hstill], by simp [hover, hstopped, hstill]⟩
    · by_cases hsame : (e.after w.computer).running = w.computer.running
      · simp [Misses, hover, hsame, hunasked]
      · simp [hover, hsame]

/-- The change is missed since `e`: there the machine has started over while the user believed in
a run; after that, the user has not asked, and there has been no run. -/
structure MissedSince (w : Watched) (e : Event) (later : List Use) : Prop where
  known : w.known = true
  startsOver : e.StartsOver w.computer
  unasked : ∀ u ∈ later, u.polls = false
  stopped {early : List Use} : early <+: later →
    (w.afterAll (.event e :: early)).computer.running = false

theorem missedSince_nil {w : Watched} {e : Event} (hknown : w.known = true)
    (hover : e.StartsOver w.computer) : MissedSince w e [] := by
  refine ⟨hknown, hover, by simp, ?_⟩
  intro early hearly
  rw [List.prefix_nil.mp hearly]
  exact hover.running_after

theorem missedSince_concat {w : Watched} {e : Event} {later : List Use} {u : Use} :
    MissedSince w e (later ++ [u]) ↔ MissedSince w e later ∧ u.polls = false ∧
      (w.afterAll (.event e :: later ++ [u])).computer.running =
        (w.afterAll (.event e :: later)).computer.running := by
  constructor
  · intro h
    have hlater : MissedSince w e later := by
      refine ⟨h.known, h.startsOver, ?_, ?_⟩
      · intro u hu
        exact h.unasked u (List.mem_append_left _ hu)
      · intro early hearly
        exact h.stopped (hearly.trans (List.prefix_append later [u]))
    refine ⟨hlater, h.unasked u (by simp), ?_⟩
    exact (h.stopped List.prefix_rfl).trans (hlater.stopped List.prefix_rfl).symm
  · rintro ⟨h, hunasked, hsame⟩
    refine ⟨h.known, h.startsOver, ?_, ?_⟩
    · intro v hv
      rcases List.mem_append.mp hv with hv | hv
      · exact h.unasked v hv
      · rw [List.mem_singleton.mp hv]
        exact hunasked
    · intro early hearly
      rcases List.prefix_concat_iff.mp hearly with rfl | hearly
      · exact hsame.trans (h.stopped List.prefix_rfl)
      · exact h.stopped hearly

/-- **How a change comes to be missed**, if none was missed at the beginning. -/
theorem misses_afterAll {w : Watched} (hw : ¬ w.Misses) (uses : List Use) :
    (w.afterAll uses).Misses ↔ ∃ before e later, uses = before ++ .event e :: later ∧
      MissedSince (w.afterAll before) e later := by
  -- from the end, as the last use decides whether a change that was missed still is
  induction uses using List.reverseRecOn with
  | nil =>
    refine iff_of_false hw ?_
    rintro ⟨before, e, later, hsplit, -⟩
    simp at hsplit
  | append_singleton uses u ih =>
    rw [afterAll_concat, misses_after, ih]
    constructor
    · rintro (⟨hknown, e, rfl, hover⟩ | ⟨⟨before, e, later, rfl, hmissed⟩, hunasked, hsame⟩)
      · exact ⟨uses, e, [], rfl, missedSince_nil hknown hover⟩
      · rw [afterAll_append w before, ← afterAll_concat] at hsame
        exact ⟨before, e, later ++ [u], by simp,
          missedSince_concat.mpr ⟨hmissed, hunasked, hsame⟩⟩
    · rintro ⟨before, e, later, hsplit, hmissed⟩
      rcases List.eq_nil_or_concat' later with rfl | ⟨init, last, rfl⟩
      · -- the last use is the one with which the machine starts over
        obtain ⟨rfl, hlast⟩ := List.append_inj' hsplit rfl
        obtain rfl : u = .event e := by simpa using hlast
        exact .inl ⟨hmissed.known, e, rfl, hmissed.startsOver⟩
      · rw [← List.cons_append, ← List.append_assoc] at hsplit
        obtain ⟨rfl, hlast⟩ := List.append_inj' hsplit rfl
        obtain rfl : u = last := by simpa using hlast
        obtain ⟨hmissed, hunasked, hsame⟩ := missedSince_concat.mp hmissed
        refine .inr ⟨⟨before, e, init, rfl, hmissed⟩, hunasked, ?_⟩
        rw [afterAll_append w before, ← afterAll_concat]
        exact hsame

/-- The machine is stopped, and starts over before the user asks again: the end of the run is not
among the changes. -/
theorem not_forall_running_pending :
    ¬ ∀ (m : Machine) (uses : List Use),
      ((start m).afterAll uses).known ≠ ((start m).afterAll uses).computer.running →
        Change.running ∈ ((start m).afterAll uses).computer.machine.observer.pending := by
  intro hpending
  let uses : List Use :=
    [.event (.call .start), .takeChanges, .event (.call .stop), .event (.call (.byHand .reset))]
  have hmisses : ((start (Machine.new .default)).afterAll uses).Misses := by decide +kernel
  exact hmisses.2 (hpending (Machine.new .default) uses hmisses.1)

/-- **When the observer knows of a run that begins or ends.** A computer gets a machine; then there
are calls, with ticks between them, and its user takes the changes from time to time or has them
forgotten.

* Whether there is a run differs from what it was when the user last asked, and yet is not among the
  changes, exactly if the machine was reset or loaded by hand since then, after the end of a run
  that the user knew of, and no run has begun since.
* So without calls to reset or to load, a run that has begun or ended is among the changes. -/
theorem misses_running_iff (m : Machine) (uses : List Use) :
    (((start m).afterAll uses).Misses ↔
      ∃ before e later, uses = before ++ .event e :: later ∧
        MissedSince ((start m).afterAll before) e later) ∧
    ((∀ x : ByHand, x.startsOver = true → .event (.call (.byHand x)) ∉ uses) →
      ((start m).afterAll uses).known ≠ ((start m).afterAll uses).computer.running →
        Change.running ∈ ((start m).afterAll uses).computer.machine.observer.pending) := by
  have hiff := misses_afterAll (w := start m) (fun h => h.1 rfl) uses
  refine ⟨hiff, ?_⟩
  intro hcalls hne
  by_contra hnote
  obtain ⟨before, e, later, rfl, hmissed⟩ := hiff.mp ⟨hne, hnote⟩
  obtain ⟨-, x, rfl, hover⟩ := hmissed.startsOver.eq_call
  exact hcalls x hover (by simp)

/-- A run that the user knows of is stopped, and its end is among the changes. Then the machine is
loaded and stepped, and the user misses it. -/
theorem misses_running_iff_load_after_stop :
    let stopped : List Use := [.event (.call .start), .takeChanges, .event (.call .stop)]
    let load : Event := .call (.byHand (.load ⟨[0, 0, 0, 0], none⟩))
    let w := start (Machine.new .default)
    Change.running ∈ (w.afterAll stopped).computer.machine.observer.pending ∧
      (w.afterAll (stopped ++ [.event load, .event (.call (.byHand .step))])).Misses := by
  intro stopped load w
  have hknown : (w.afterAll stopped).known = true := by decide +kernel
  have hstopped : (w.afterAll stopped).computer.running = false := by decide +kernel
  have hcalls : ∀ x : ByHand, x.startsOver = true → .event (.call (.byHand x)) ∉ stopped := by
    intro x _
    simp [stopped]
  have hover : load.StartsOver (w.afterAll stopped).computer :=
    ⟨.load ⟨[0, 0, 0, 0], none⟩, by simp [load, Event.applied, hstopped], rfl⟩
  have hmissed : MissedSince (w.afterAll stopped) load ([] ++ [.event (.call (.byHand .step))]) :=
    missedSince_concat.mpr ⟨missedSince_nil hknown hover, rfl, by decide +kernel⟩
  refine ⟨(misses_running_iff _ stopped).2 hcalls ?_, (misses_running_iff _ _).1.mpr ?_⟩
  · simp [hknown, hstopped, w]
  · exact ⟨stopped, load, _, rfl, hmissed⟩

end Watched

end Computer

end Nic
