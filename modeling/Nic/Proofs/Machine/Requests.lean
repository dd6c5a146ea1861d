/-
Requests to a machine, one after the other.

A request is anything that the user of a machine can ask for, whether it is met or not: loading,
starting over, single phases, whole runs, setting a part by hand, and asking the observer for the
changes. All of them are made of a few actions (`Action`): taking an image, fetching, executing,
setting one part, forgetting the changes. `reaches_of_request` says so once, for every request, and
with it which requests start over, set the program counter or forget changes. What holds after every
sequence of requests then follows from what each action does (`reaches_of_requests`,
`Reaches.invariant`).
-/
import Mathlib.Logic.Relation
import Nic.Machine.Run

set_option autoImplicit false

namespace Nic.Machine

/-! ## Requests -/

/-- A request to a machine or to its observer. A run goes on as long as a condition on the machine
holds. If the condition depends on more, or makes requests of its own, then its run is a sequence of
requests: those of the condition, and a `stepIn` after each time that it held. -/
inductive Request where
  | load (e : Executable)
  | loadText (text : String)
  | reset
  | fetch
  | execute
  | step
  | stepIn
  | runWithLimit (limit : Nat)
  | runWhile (goOn : Machine → Bool) (fuel : Nat)
  | executeIo (input : String)
  | setReg (r : Reg) (b : Byte)
  | setPc (a : Byte)
  | writeCell (a b : Byte)
  | setFlags (flags : Flags)
  | takeChanges
  | clearChanges

namespace Request

/-- The machine after a request, whatever the answer is. There is no such machine if a run has not
ended after its `fuel`. -/
def after? (m : Machine) : Request → Option Machine
  | load e => some (m.load e)
  | loadText text => some (m.loadText text).2
  | reset => some m.reset
  | fetch => some m.fetch.2
  | execute => some m.execute.2
  | step => some m.step.2
  | stepIn => some m.stepIn.2
  | runWithLimit limit => some (m.runWithLimit limit).2
  | runWhile goOn fuel => (m.runWhile goOn fuel).map (·.2)
  | executeIo input => some (m.executeIo input).2
  | setReg r b => some (m.setReg r b)
  | setPc a => some (m.setPc a)
  | writeCell a b => some (m.writeCell a b)
  | setFlags flags => some (m.setFlags flags)
  | takeChanges => some { m with observer := m.observer.takeChanges.2 }
  | clearChanges => some { m with observer := m.observer.clear }

/-- Whether the user knows all changes after this request, as they were given or are to be
forgotten. -/
def polls : Request → Bool
  | takeChanges | clearChanges => true
  | _ => false

/-- Whether the machine starts over when it is asked for this. -/
def startsOver : Request → Bool
  | load _ | reset | executeIo _ => true
  | loadText text => (Executable.ofText text).isOk
  | _ => false

end Request

/-- The machine after a sequence of requests. -/
def afterAll? (m : Machine) (requests : List Request) : Option Machine :=
  requests.foldlM (fun m q => q.after? m) m

/-! ## Actions -/

/-- What requests are made of. -/
inductive Action where
  /-- Takes an image and starts over. -/
  | start (image : List Nibble)
  | fetch
  | execute
  | setReg (r : Reg) (b : Byte)
  | setPc (a : Byte)
  | setCell (a : Byte) (d : Nibble)
  | setFlags (flags : Flags)
  /-- Forgets the changes so far. -/
  | clear

/-- The machine after an action. -/
def act (m : Machine) : Action → Machine
  | .start image => { m with image }.reset
  | .fetch => m.fetch.2
  | .execute => m.execute.2
  | .setReg r b => m.setReg r b
  | .setPc a => m.setPc a
  | .setCell a d => m.setCell a d
  | .setFlags flags => m.setFlags flags
  | .clear => { m with observer := m.observer.clear }

/-- A machine becomes another one by actions of some kind. -/
def Reaches (kind : Action → Prop) : Machine → Machine → Prop :=
  Relation.ReflTransGen fun m m' => ∃ a, kind a ∧ m' = m.act a

/-- The actions that a request may be made of: only some requests start over, only one sets the
program counter from outside of the program, and only two forget changes. -/
def Request.Uses (q : Request) : Action → Prop
  | .start _ => q.startsOver = true
  | .setPc a => q = .setPc a
  | .clear => q.polls = true
  | _ => True

section Runs

variable {kind : Action → Prop}

theorem Reaches.act {a : Action} (h : kind a) (m : Machine) : Reaches kind m (m.act a) :=
  .single ⟨a, h, rfl⟩

/-- **What every action keeps is kept.** -/
theorem Reaches.invariant {P : Machine → Prop} {m m' : Machine}
    (hact : ∀ {m : Machine} {a : Action}, kind a → P m → P (m.act a)) (h : Reaches kind m m')
    (hm : P m) : P m' := by
  induction h with
  | refl => exact hm
  | tail _ hstep ih =>
    obtain ⟨a, ha, rfl⟩ := hstep
    exact hact ha ih

theorem reaches_setCells (hset : ∀ a d, kind (.setCell a d)) (cells : List (Byte × Nibble))
    (m : Machine) : Reaches kind m (m.setCells cells) := by
  induction cells generalizing m with
  | nil => exact .refl
  | cons cell cells ih => exact (Reaches.act (hset cell.1 cell.2) m).trans (ih _)

variable (hfetch : kind .fetch) (hexecute : kind .execute)

include hfetch hexecute

theorem reaches_step (m : Machine) : Reaches kind m m.step.2 := by
  rw [step]
  split
  · exact .act hfetch m
  · exact .act hexecute m

theorem reaches_stepIn (m : Machine) : Reaches kind m m.stepIn.2 := by
  rw [stepIn]
  split
  · exact .act hexecute m
  · have hm : Reaches kind m m.fetch.2 := .act hfetch m
    split
    next m₁ hok =>
      rw [hok] at hm
      exact hm.trans (Reaches.act hexecute m₁)
    next => exact hm

theorem reaches_runWithLimit (limit : Nat) (m : Machine) :
    Reaches kind m (m.runWithLimit limit).2 := by
  induction limit generalizing m with
  | zero => exact .refl
  | succ limit ih =>
    have hm := reaches_stepIn hfetch hexecute m
    rw [runWithLimit]
    split
    next m₁ hok =>
      rw [hok] at hm
      exact hm.trans (ih m₁)
    next => exact hm

theorem reaches_runWhile {goOn : Machine → Bool} {fuel : Nat} {m : Machine} {o : Outcome}
    (h : m.runWhile goOn fuel = some o) : Reaches kind m o.2 := by
  induction fuel generalizing m with
  | zero => cases h
  | succ fuel ih =>
    have hm := reaches_stepIn hfetch hexecute m
    rw [runWhile] at h
    split at h
    · split at h
      next m₁ hok =>
        rw [hok] at hm
        exact hm.trans (ih h)
      next =>
        cases h
        exact hm
    · cases h
      exact .refl

/-- A run on an input starts over with the image, sets the cells of the input, and runs. -/
theorem reaches_executeIo {m : Machine} (hstart : kind (.start m.image))
    (hset : ∀ a d, kind (.setCell a d)) (input : String) :
    Reaches kind m (m.executeIo input).2 := by
  have htake : Reaches kind m (m.takeInput input).2 := by
    have hreset : Reaches kind m m.reset := .act hstart m
    rw [takeInput]
    split
    · exact hreset
    · dsimp only
      split
      · exact hreset
      · exact hreset.trans (reaches_setCells hset _ _)
  rw [executeIo]
  split
  next fault m₁ heq =>
    rw [heq] at htake
    exact htake
  next m₁ heq =>
    rw [heq] at htake
    have hrun := reaches_runWithLimit hfetch hexecute m₁.flags.maxSteps m₁
    -- whatever the run ends with, the machine is left as it is
    split <;> next heq₂ =>
      rw [heq₂] at hrun
      exact htake.trans hrun

end Runs

/-- **Requests are made of actions.** -/
theorem reaches_of_request {m m' : Machine} {q : Request} (h : q.after? m = some m') :
    Reaches q.Uses m m' := by
  cases q with
  | load e =>
    obtain rfl : m.load e = m' := Option.some.inj h
    have huses : (Request.load e).Uses (.start e.image) := rfl
    exact .act huses m
  | loadText text =>
    obtain rfl : (m.loadText text).2 = m' := Option.some.inj h
    rw [loadText]
    split
    next e he =>
      have huses : (Request.loadText text).Uses (.start e.image) := by
        simp [Request.Uses, Request.startsOver, he, Except.isOk, Except.toBool]
      exact .act huses m
    next => exact .refl
  | reset =>
    obtain rfl : m.reset = m' := Option.some.inj h
    have huses : Request.reset.Uses (.start m.image) := rfl
    exact .act huses m
  | fetch =>
    cases h
    exact .act (a := .fetch) trivial m
  | execute =>
    cases h
    exact .act (a := .execute) trivial m
  | step =>
    cases h
    exact reaches_step trivial trivial m
  | stepIn =>
    cases h
    exact reaches_stepIn trivial trivial m
  | runWithLimit limit =>
    cases h
    exact reaches_runWithLimit trivial trivial limit m
  | runWhile goOn fuel =>
    obtain ⟨o, ho, rfl⟩ := Option.map_eq_some_iff.mp h
    exact reaches_runWhile trivial trivial ho
  | executeIo input =>
    cases h
    have huses : (Request.executeIo input).Uses (.start m.image) := rfl
    exact reaches_executeIo trivial trivial huses (fun _ _ => trivial) input
  | setReg r b =>
    cases h
    exact .act (a := .setReg r b) trivial m
  | setPc a =>
    cases h
    have huses : (Request.setPc a).Uses (.setPc a) := rfl
    exact .act huses m
  | writeCell a b =>
    cases h
    exact .act (a := .setCell a b.low) trivial m
  | setFlags flags =>
    cases h
    exact .act (a := .setFlags flags) trivial m
  | takeChanges =>
    cases h
    have huses : Request.takeChanges.Uses .clear := rfl
    exact .act huses m
  | clearChanges =>
    cases h
    have huses : Request.clearChanges.Uses .clear := rfl
    exact .act huses m

/-- **Sequences of requests are made of actions**, of the kinds that their requests use. -/
theorem reaches_of_requests {kind : Action → Prop} {requests : List Request} {m m' : Machine}
    (hkind : ∀ q ∈ requests, ∀ a, q.Uses a → kind a) (h : m.afterAll? requests = some m') :
    Reaches kind m m' := by
  induction requests generalizing m with
  | nil =>
    cases h
    exact .refl
  | cons q requests ih =>
    obtain ⟨m₁, hm₁, hrest⟩ := Option.bind_eq_some_iff.mp h
    have hfirst : Reaches kind m m₁ := by
      refine Relation.ReflTransGen.mono ?_ m m₁ (reaches_of_request hm₁)
      rintro m m' ⟨a, ha, rfl⟩
      exact ⟨a, hkind q List.mem_cons_self a ha, rfl⟩
    exact hfirst.trans (ih (fun q' hq' => hkind q' (List.mem_cons_of_mem q hq')) hrest)

end Nic.Machine
