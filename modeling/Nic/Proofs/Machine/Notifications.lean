/-
What the observer is told.

Whatever phases a machine carries out, its observer is told of changes one after the other and of
nothing else (`Tells`), and never that the machine is running, which only a computer announces.
Each subscriber has the changes that it was told at the end of its mailbox, in order
(`receive_notifyAll`), so the announcements among them can be counted (`announced`). Starting over
forgets the changes that the observer keeps, but takes nothing from the mailboxes.
-/
import Nic.Proofs.Machine.Requests
import Nic.Proofs.Machine.Told

set_option autoImplicit false

namespace Nic

namespace Observer

/-! ## Mailboxes -/

theorem receive_clear (o : Observer) (k : Nat) : (o.clear.receive k).1 = (o.receive k).1 := by
  simp only [receive, clear]
  split <;> rfl

end Observer

namespace Machine

/-- How often a subscriber was told that the machine runs or no longer runs, as far as it has not
received it yet. There is no such number if it has lost interest or does not exist. -/
def announced (m : Machine) (k : Nat) : Option Nat :=
  (m.observer.receive k).1.map (·.count .running)

theorem announced_notify (m : Machine) (k : Nat) :
    (m.notify .running).announced k = (m.announced k).map (· + 1) := by
  have hreceive : ((m.notify .running).observer.receive k).1 =
      (m.observer.receive k).1.map (· ++ [.running]) := Observer.receive_notify _ _ k
  rw [announced, announced, hreceive, Option.map_map, Option.map_map]
  congr 1
  funext sent
  simp

theorem announced_of_notifyAll {m m' : Machine} {cs : List Change} (hcs : Change.running ∉ cs)
    {o : Observer} (ho : ∀ k, (o.receive k).1 = (m.observer.receive k).1)
    (h : m'.observer = o.notifyAll cs) (k : Nat) : m'.announced k = m.announced k := by
  rw [announced, announced, h, Observer.receive_notifyAll, ho, Option.map_map]
  congr 1
  funext sent
  simp [List.count_eq_zero_of_not_mem hcs]

/-! ## What phases tell -/

/-- The observer of `m'` is that of `m` after some changes, none of which is about running. -/
def Tells (m m' : Machine) : Prop :=
  ∃ cs, Change.running ∉ cs ∧ m'.observer = m.observer.notifyAll cs

theorem Tells.of_observer_eq {m m' : Machine} (h : m'.observer = m.observer) : Tells m m' :=
  ⟨[], List.not_mem_nil, h⟩

theorem Tells.trans {m₁ m₂ m₃ : Machine} (h : Tells m₁ m₂) (h' : Tells m₂ m₃) : Tells m₁ m₃ := by
  obtain ⟨cs, hcs, ho⟩ := h
  obtain ⟨ds, hds, ho'⟩ := h'
  refine ⟨cs ++ ds, ?_, ?_⟩
  · simp [hcs, hds]
  · rw [ho', ho, Observer.notifyAll_append]

theorem Tells.announced {m m' : Machine} (h : Tells m m') (k : Nat) :
    m'.announced k = m.announced k := by
  obtain ⟨cs, hcs, ho⟩ := h
  exact announced_of_notifyAll hcs (fun _ => rfl) ho k

/-- Whether the machine is running is not seen in its state, so it is not among what changes. -/
theorem Told.tells {parts : List Change} {m m' : Machine} (h : Told parts m m') : Tells m m' := by
  obtain ⟨told, -, -, hmem, hobserver⟩ := h
  refine ⟨told, ?_, hobserver⟩
  rw [hmem]
  exact fun hne => hne rfl

theorem tells_execute (m : Machine) : Tells m m.execute.2 := by
  rcases told_execute m with ⟨r, hr⟩ | ⟨x, hx⟩
  · exact hr.tells
  · exact hx.tells

/-- **Phases tell nothing about running**, however many are carried out. -/
theorem Reaches.tells {m m' : Machine}
    (h : Reaches (fun a => a = .fetch ∨ a = .execute) m m') : Tells m m' := by
  refine h.invariant (P := Tells m) ?_ (.of_observer_eq rfl)
  rintro n a (rfl | rfl) hn
  · exact hn.trans (told_fetch n).tells
  · exact hn.trans (tells_execute n)

theorem not_mem_resetChanges : Change.running ∉ resetChanges := by
  simp [resetChanges]

/-- Starting over tells nothing about running either, and leaves the mailboxes as they are. -/
theorem announced_reset (m : Machine) (k : Nat) : m.reset.announced k = m.announced k := by
  have hobserver : m.reset.observer = m.observer.clear.notifyAll resetChanges := by
    rw [reset]
  exact announced_of_notifyAll not_mem_resetChanges (Observer.receive_clear m.observer) hobserver k

end Machine

end Nic
