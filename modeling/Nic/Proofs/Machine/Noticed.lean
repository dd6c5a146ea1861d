/-
No change goes unnoticed.

The user of a machine asks the observer from time to time what has changed. In between, the machine
may do anything. Each part that is then not as it was when the user last asked is among the changes
that the observer keeps (`mem_pending_of_value_ne`).

The relation that carries this is `Noticed m m'`: a part that is not among the changes of `m'` was
not among those of `m` either, and has the same value in both. In this form it can be composed, so
it is enough to look at single actions. What a step changes is what it tells (`Told.noticed`);
starting over notes every part (`mem_resetChanges`).

Whether the machine is running by itself is not a part of its state, and starting over forgets it,
so it is left out here.
-/
import Nic.Proofs.Machine.Requests
import Nic.Proofs.Machine.Told

set_option autoImplicit false

namespace Nic

/-! ## The observer -/

namespace Observer

theorem mem_notify {o : Observer} {c part : Change} :
    part ∈ (o.notify c).pending ↔ c = part ∨ part ∈ o.pending := by
  rw [notify, Std.ExtTreeSet.mem_insert, Std.LawfulEqOrd.compare_eq_iff_eq]

theorem mem_notifyAll {o : Observer} {cs : List Change} {part : Change} :
    part ∈ (o.notifyAll cs).pending ↔ part ∈ cs ∨ part ∈ o.pending := by
  induction cs generalizing o with
  | nil => simp [notifyAll]
  | cons c cs ih =>
    have hcons : o.notifyAll (c :: cs) = (o.notify c).notifyAll cs := rfl
    rw [hcons, ih, mem_notify, List.mem_cons, eq_comm, or_left_comm, or_assoc]

end Observer

namespace Machine

/-! ## What is noticed -/

/-- What `m'` has changed of `m` is among its changes, and so is what had been changed before. -/
def Noticed (m m' : Machine) : Prop :=
  ∀ part ≠ Change.running,
    part ∈ m'.observer.pending ∨ part ∉ m.observer.pending ∧ m.value part = m'.value part

theorem Noticed.refl (m : Machine) : Noticed m m := by
  intro part _
  by_cases h : part ∈ m.observer.pending
  · exact .inl h
  · exact .inr ⟨h, rfl⟩

theorem Noticed.trans {m₁ m₂ m₃ : Machine} (h : Noticed m₁ m₂) (h' : Noticed m₂ m₃) :
    Noticed m₁ m₃ := by
  intro part hpart
  rcases h' part hpart with hmem | ⟨hnot, hsame'⟩
  · exact .inl hmem
  · rcases h part hpart with hmem | ⟨hnot₁, hsame⟩
    · exact absurd hmem hnot
    · exact .inr ⟨hnot₁, hsame.trans hsame'⟩

/-- An update of what is no part. -/
theorem noticed_of_value_eq {m n : Machine} (hobserver : n.observer = m.observer)
    (h : ∀ part, m.value part = n.value part) : Noticed m n := by
  intro part _
  rw [hobserver]
  by_cases hmem : part ∈ m.observer.pending
  · exact .inl hmem
  · exact .inr ⟨hmem, h part⟩

theorem noticed_setFlags (m : Machine) (flags : Flags) : Noticed m (m.setFlags flags) :=
  noticed_of_value_eq rfl fun _ => rfl

/-- **Who is told of every change notices it.** -/
theorem Told.noticed {parts : List Change} {m m' : Machine} (h : Told parts m m') :
    Noticed m m' := by
  obtain ⟨told, -, -, hmem, hobserver⟩ := h
  intro part _
  rw [hobserver, Observer.mem_notifyAll, hmem]
  by_cases hpending : part ∈ m.observer.pending
  · exact .inl (.inr hpending)
  · by_cases hsame : m.value part = m'.value part
    · exact .inr ⟨hpending, hsame⟩
    · exact .inl (.inl hsame)

/-! ## Actions -/

theorem noticed_execute (m : Machine) : Noticed m m.execute.2 := by
  rcases told_execute m with ⟨r, hr⟩ | ⟨x, hx⟩
  · exact hr.noticed
  · exact hx.noticed

theorem mem_resetChanges {part : Change} (h : part ≠ .running) : part ∈ resetChanges := by
  rw [resetChanges, List.mem_append, List.mem_append]
  cases part with
  | reg r =>
    have hall : ∀ n : Nibble, Reg.mk n ∈ Reg.all := by decide
    exact .inl (.inl (List.mem_map_of_mem (hall r.number)))
  | mem a =>
    refine .inr (List.mem_map.mpr ⟨a.toNat, List.mem_range.mpr a.isLt, ?_⟩)
    rw [BitVec.ofNat_toNat, BitVec.setWidth_eq]
  | running => exact absurd rfl h
  | pc | ir | nr | sr => exact .inl (.inr (by simp))

/-- Starting over notes every part, whatever it was before. -/
theorem noticed_reset (m n : Machine) : Noticed m n.reset := by
  intro part hpart
  have hobserver : n.reset.observer = n.observer.clear.notifyAll resetChanges := by
    rw [reset]
  rw [hobserver, Observer.mem_notifyAll]
  exact .inl (.inl (mem_resetChanges hpart))

/-- **Every action but the one that forgets changes is noticed.** -/
theorem noticed_act {a : Action} (ha : a ≠ .clear) (m : Machine) : Noticed m (m.act a) := by
  cases a with
  | start image => exact noticed_reset m { m with image }
  | fetch => exact (told_fetch m).noticed
  | execute => exact noticed_execute m
  | setReg r b => exact (told_setReg m r b).noticed
  | setPc a => exact (told_setPc m a).noticed
  | setCell a d => exact (told_setCell m a d).noticed
  | setFlags flags => exact noticed_setFlags m flags
  | clear => exact absurd rfl ha

theorem noticed_of_reaches {kind : Action → Prop} (hclear : ¬ kind .clear) {m m' : Machine}
    (h : Reaches kind m m') : Noticed m m' := by
  refine h.invariant (P := Noticed m) ?_ (.refl m)
  intro n a ha hn
  refine hn.trans (noticed_act ?_ n)
  rintro rfl
  exact hclear ha

end Machine

/-! ## Sessions -/

/-- A machine in use: how it was when its user last knew all changes, and how it is now. -/
structure Session where
  known : Machine
  machine : Machine

namespace Session

open Machine

/-- A new machine, of which everything is known. -/
def start (flags : Flags) : Session := ⟨.new flags, .new flags⟩

/-- The session after a request, if the request comes back. -/
def after? (s : Session) (q : Request) : Option Session :=
  (q.after? s.machine).map fun m => ⟨if q.polls then m else s.known, m⟩

/-- The session after a sequence of requests. -/
def afterAll? (s : Session) (requests : List Request) : Option Session :=
  requests.foldlM after? s

theorem noticed_after {s s' : Session} {q : Request} (h : s.after? q = some s')
    (hs : Noticed s.known s.machine) : Noticed s'.known s'.machine := by
  obtain ⟨m, hm, rfl⟩ := Option.map_eq_some_iff.mp h
  cases hpolls : q.polls with
  | true => exact .refl m
  | false =>
    have hclear : ¬ q.Uses .clear := fun huses => Bool.false_ne_true (hpolls.symm.trans huses)
    exact hs.trans (noticed_of_reaches hclear (reaches_of_request hm))

theorem noticed_afterAll {s s' : Session} {requests : List Request}
    (h : s.afterAll? requests = some s') (hs : Noticed s.known s.machine) :
    Noticed s'.known s'.machine := by
  induction requests generalizing s with
  | nil =>
    cases h
    exact hs
  | cons q requests ih =>
    obtain ⟨s₁, hs₁, hrest⟩ := Option.bind_eq_some_iff.mp h
    exact ih hrest (noticed_after hs₁ hs)

/-- **No change goes unnoticed.** A new machine with any settings is used in any way. Every
register, the program counter, the instruction register, the address of the next instruction, the
status and every cell that differs now from what it was when the user last took the changes or had
them forgotten, or at the start if that never happened, is among the changes that the observer
keeps. -/
theorem mem_pending_of_value_ne {flags : Flags} {requests : List Request} {s : Session}
    (h : (start flags).afterAll? requests = some s) {part : Change}
    (hpart : s.known.value part ≠ s.machine.value part) : part ∈ s.machine.observer.pending := by
  have hrunning : part ≠ .running := by
    rintro rfl
    exact hpart rfl
  rcases noticed_afterAll h (.refl _) part hrunning with hmem | ⟨-, hsame⟩
  · exact hmem
  · exact absurd hsame hpart

/-- A program that stores register 1 at the last address, and so changes its own first cell. The
user takes the changes before it runs, and makes two requests that are not met. -/
theorem mem_pending_of_value_ne_store :
    ∃ s, (start .default).afterAll? [.load ⟨[4, 1, 15, 15], none⟩, .setReg ⟨1⟩ 0x35, .takeChanges,
        .execute, .loadText "1f", .stepIn] = some s ∧
      s.known.value (.mem 0) ≠ s.machine.value (.mem 0) ∧
      Change.mem 0 ∈ s.machine.observer.pending := by
  have hstored : ((start .default).afterAll? [.load ⟨[4, 1, 15, 15], none⟩, .setReg ⟨1⟩ 0x35,
      .takeChanges, .execute, .loadText "1f", .stepIn]).any (fun s =>
        decide (s.known.value (.mem 0) ≠ s.machine.value (.mem 0))) = true := by
    decide +kernel
  obtain ⟨s, hs, hdecide⟩ := (Option.any_eq_true _ _).mp hstored
  have hne := of_decide_eq_true hdecide
  exact ⟨s, hs, hne, mem_pending_of_value_ne hs hne⟩

end Session

end Nic
