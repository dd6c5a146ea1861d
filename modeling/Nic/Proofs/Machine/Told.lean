/-
What others are told of a single step.

A part that is set is announced if its value changes and not otherwise, so a setter on its own is
exact. A phase is several setters in a row, and there a part could be announced twice, or announced
and then put back to what it was. Neither happens, because no two of the setters of one phase are
about the same part. `Told parts m m'` keeps count of this: at most `parts` change, and the ones
that do are announced once each. Two such steps compose if their parts have nothing in common
(`Told.trans`), which leaves one line for each setter and for each instruction.

The parts of an instruction are also what it may change, so the same lemmas say what `execute`
leaves alone (`told_execute`).
-/
import Mathlib.Data.List.Nodup
import Nic.Proofs.Machine.Step

set_option autoImplicit false

namespace Nic

namespace Observer

/-! ## Mailboxes -/

theorem receive_notify (o : Observer) (c : Change) (k : Nat) :
    ((o.notify c).receive k).1 = (o.receive k).1.map (· ++ [c]) := by
  simp only [receive, notify, Array.getElem?_map]
  cases h : o.subscribers[k]? with
  | none => rfl
  | some s =>
    cases s with
    | active mailbox => simp [Subscriber.send]
    | dropped => rfl
    | forgotten => rfl

theorem receive_notifyAll (o : Observer) (cs : List Change) (k : Nat) :
    ((o.notifyAll cs).receive k).1 = (o.receive k).1.map (· ++ cs) := by
  induction cs generalizing o with
  | nil => simp [notifyAll]
  | cons c cs ih =>
    have hcons : o.notifyAll (c :: cs) = (o.notify c).notifyAll cs := rfl
    rw [hcons, ih, receive_notify, Option.map_map]
    congr 1
    funext sent
    simp

theorem notifyAll_append (o : Observer) (cs ds : List Change) :
    o.notifyAll (cs ++ ds) = (o.notifyAll cs).notifyAll ds := by
  rw [notifyAll, List.foldl_append]
  rfl

end Observer

/-! ## Parts -/

/-- The values of a part. Whether the machine is running is not seen in its state. -/
def Change.Value : Change → Type
  | .reg _ => Byte
  | .pc => Byte
  | .ir => Word
  | .nr => Byte
  | .sr => Status
  | .mem _ => Nibble
  | .running => Unit

instance : (part : Change) → DecidableEq part.Value
  | .reg _ | .pc | .nr => inferInstanceAs (DecidableEq Byte)
  | .ir => inferInstanceAs (DecidableEq Word)
  | .sr => inferInstanceAs (DecidableEq Status)
  | .mem _ => inferInstanceAs (DecidableEq Nibble)
  | .running => inferInstanceAs (DecidableEq Unit)

namespace Machine

/-- The value of a part. -/
def value (m : Machine) : (part : Change) → part.Value
  | .reg r => m.reg r
  | .pc => m.pc
  | .ir => m.ir
  | .nr => m.nr
  | .sr => m.status
  | .mem a => m.mem.get a
  | .running => ()

/-! ## What is told -/

/-- No part but `parts` changes from `m` to `m'`, and the observer is told of each part that does,
once, and of nothing else. -/
def Told (parts : List Change) (m m' : Machine) : Prop :=
  ∃ told : List Change, told.Nodup ∧ told ⊆ parts ∧
    (∀ part, part ∈ told ↔ m.value part ≠ m'.value part) ∧
    m'.observer = m.observer.notifyAll told

/-- An update of what is no part. -/
theorem told_of_value_eq {m n : Machine} (hobserver : n.observer = m.observer)
    (h : ∀ part, m.value part = n.value part) (parts : List Change) : Told parts m n := by
  refine ⟨[], List.nodup_nil, List.nil_subset _, ?_, hobserver⟩
  intro part
  simp [h part]

theorem Told.refl (parts : List Change) (m : Machine) : Told parts m m :=
  told_of_value_eq rfl (fun _ => rfl) parts

/-- What is not among the parts stays. -/
theorem Told.value_eq {parts : List Change} {m m' : Machine} (h : Told parts m m') (part : Change)
    (hpart : part ∉ parts) : m'.value part = m.value part := by
  obtain ⟨told, -, hsub, hmem, -⟩ := h
  by_contra hne
  apply hpart
  apply hsub
  rw [hmem]
  exact fun heq => hne heq.symm

theorem Told.mono {parts parts' : List Change} {m m' : Machine} (h : Told parts m m')
    (hsub : parts ⊆ parts') : Told parts' m m' := by
  obtain ⟨told, hnodup, hparts, hmem, hobserver⟩ := h
  exact ⟨told, hnodup, List.Subset.trans hparts hsub, hmem, hobserver⟩

/-- **One step after another**, if they are about different parts. A part that the first one changed
is left alone by the second, so it is neither announced again nor put back. -/
theorem Told.trans {parts parts' : List Change} {m₁ m₂ m₃ : Machine} (h : Told parts m₁ m₂)
    (h' : Told parts' m₂ m₃) (hdisjoint : parts.Disjoint parts') :
    Told (parts ++ parts') m₁ m₃ := by
  have hkeeps : ∀ part ∈ parts, m₃.value part = m₂.value part :=
    fun part hpart => h'.value_eq part (hdisjoint hpart)
  have hkept : ∀ part ∈ parts', m₂.value part = m₁.value part :=
    fun part hpart => h.value_eq part fun hfirst => hdisjoint hfirst hpart
  obtain ⟨told, hnodup, hsub, hmem, hobserver⟩ := h
  obtain ⟨told', hnodup', hsub', hmem', hobserver'⟩ := h'
  refine ⟨told ++ told', ?_, ?_, ?_, ?_⟩
  · apply List.Nodup.append hnodup hnodup'
    intro part hpart hpart'
    exact hdisjoint (hsub hpart) (hsub' hpart')
  · intro part hpart
    rw [List.mem_append] at hpart ⊢
    exact hpart.imp (fun hp => hsub hp) (fun hp => hsub' hp)
  · intro part
    rw [List.mem_append]
    by_cases hfirst : part ∈ parts
    · have hnot : part ∉ told' := fun hpart => hdisjoint hfirst (hsub' hpart)
      rw [hkeeps part hfirst, ← hmem]
      simp [hnot]
    · have hnot : part ∉ told := fun hpart => hfirst (hsub hpart)
      have hsame : m₁.value part = m₂.value part := by
        by_contra hne
        exact hnot ((hmem part).mpr hne)
      rw [hsame, ← hmem']
      simp [hnot]
  · rw [hobserver', hobserver, Observer.notifyAll_append]

/-! ## Setters -/

/-- What the setters have in common: if the branch that does nothing is not taken, the value of one
part changes, and that of no other. -/
theorem told_ite {p : Prop} [Decidable p] {m n : Machine} {c : Change}
    (hobserver : n.observer = m.observer) (hset : ¬ p → m.value c ≠ n.value c)
    (hframe : ∀ part ≠ c, m.value part = n.value part) :
    Told [c] m (if p then m else n.notify c) := by
  by_cases hp : p
  · rw [if_pos hp]
    exact .refl [c] m
  · rw [if_neg hp]
    refine ⟨[c], List.nodup_singleton c, List.Subset.refl _, ?_, ?_⟩
    · intro part
      rw [List.mem_singleton]
      by_cases hc : part = c
      · subst hc
        exact iff_of_true rfl (hset hp)
      · exact iff_of_false hc fun hne => hne (hframe part hc)
    · rw [← hobserver]
      rfl

theorem told_setReg (m : Machine) (r : Reg) (b : Byte) : Told [.reg r] m (m.setReg r b) := by
  refine told_ite rfl ?_ ?_
  · intro hne heq
    have hset : (m.regs.set r.number.toNat b r.number.isLt).get r.number.toFin = b :=
      Vector.getElem_set_self r.number.isLt
    exact hne (heq.trans hset)
  · intro part hpart
    cases part with
    | reg r' =>
      -- the other registers of the vector stay
      have hne : r.number.toNat ≠ r'.number.toNat := by
        intro heq
        have hnumber : r.number = r'.number := BitVec.eq_of_toNat_eq heq
        cases r
        cases r'
        exact hpart (congrArg Change.reg (congrArg Reg.mk hnumber.symm))
      exact (Vector.getElem_set_ne r.number.isLt r'.number.isLt hne).symm
    | _ => rfl

theorem told_setPc (m : Machine) (a : Byte) : Told [.pc] m (m.setPc a) := by
  refine told_ite rfl id ?_
  intro part hpart
  cases part with
  | pc => exact absurd rfl hpart
  | _ => rfl

theorem told_setIr (m : Machine) (w : Word) : Told [.ir] m (m.setIr w) := by
  refine told_ite rfl id ?_
  intro part hpart
  cases part with
  | ir => exact absurd rfl hpart
  | _ => rfl

theorem told_setNr (m : Machine) (a : Byte) : Told [.nr] m (m.setNr a) := by
  refine told_ite rfl id ?_
  intro part hpart
  cases part with
  | nr => exact absurd rfl hpart
  | _ => rfl

theorem told_setStatus (m : Machine) (s : Status) : Told [.sr] m (m.setStatus s) := by
  refine told_ite rfl id ?_
  intro part hpart
  cases part with
  | sr => exact absurd rfl hpart
  | _ => rfl

theorem told_setCell (m : Machine) (a : Byte) (d : Nibble) : Told [.mem a] m (m.setCell a d) := by
  refine told_ite rfl ?_ ?_
  · intro hne heq
    have hset : (m.mem.set a d).get a = d := (Memory.get_set m.mem a a d).trans (if_pos rfl)
    exact hne (heq.trans hset)
  · intro part hpart
    cases part with
    | mem a' =>
      have hne : a' ≠ a := fun heq => hpart (congrArg Change.mem heq)
      exact ((Memory.get_set m.mem a a' d).trans (if_neg hne)).symm
    | _ => rfl

/-- The two cells of a byte are different ones, also where addresses go round. -/
theorem told_writeByte (m : Machine) (a b : Byte) :
    Told [.mem a, .mem (a + 1)] m (m.writeByte a b) := by
  apply (told_setCell m a _).trans (told_setCell _ (a + 1) _)
  simp

/-! ## Phases -/

/-- What an instruction does, but for the program counter, is about one register and the status or
about the two cells of one byte. -/
theorem told_perform (m : Machine) (i : Instr) :
    (∃ r, Told [.reg r, .sr] m (m.perform i)) ∨
      ∃ x, Told [.mem x, .mem (x + 1)] m (m.perform i) := by
  cases i with
  | halt => exact .inl ⟨Reg.zero, (told_setStatus m _).mono (by simp)⟩
  | imm op a x =>
    cases op with
    | store => exact .inr ⟨_, told_writeByte m _ _⟩
    | _ => exact .inl ⟨a, (told_setReg m _ _).mono (by simp)⟩
  | pair op a b =>
    cases op with
    | storer => exact .inr ⟨_, told_writeByte m _ _⟩
    | _ => exact .inl ⟨a, (told_setReg m _ _).mono (by simp)⟩
  | alu op a b c => exact .inl ⟨a, (told_setReg m _ _).mono (by simp)⟩
  | jump a cond target => exact .inl ⟨Reg.zero, .refl _ m⟩

theorem told_readInstr (m : Machine) : Told [.ir, .nr, .sr] m m.readInstr := by
  have hset : Told [.ir, .nr, .sr] m
      (((m.setIr (m.mem.readWord m.pc)).setNr (m.pc + 4)).setStatus .ok) := by
    apply ((told_setIr m _).trans (told_setNr _ _) (by simp)).trans (told_setStatus _ _)
    simp
  exact hset.trans (told_of_value_eq rfl (fun _ => rfl) []) (List.disjoint_nil_right _)

/-- The program counter is set after everything else, and is the only part that every instruction
may change. -/
theorem told_carryOut {parts : List Change} {m : Machine} {i : Instr}
    (h : Told parts m (m.perform i)) (hpc : Change.pc ∉ parts) :
    Told (parts ++ [.pc]) m (m.carryOut i) := by
  have hset : Told (parts ++ [.pc]) m ((m.perform i).setPc (m.successor i)) := by
    apply h.trans (told_setPc _ _)
    rw [List.disjoint_singleton]
    exact hpc
  have hcount : Told [] ((m.perform i).setPc (m.successor i)) (m.carryOut i) :=
    told_of_value_eq rfl (fun _ => rfl) []
  have hall := hset.trans hcount (List.disjoint_nil_right _)
  rwa [List.append_nil] at hall

theorem told_fetch (m : Machine) : Told [.ir, .nr, .sr] m m.fetch.2 := by
  rw [fetch_eq]
  split
  · exact .refl _ m
  split
  · exact .refl _ m
  split
  · exact told_readInstr m
  · exact (told_setStatus m _).mono (by simp)

theorem told_execute (m : Machine) :
    (∃ r, Told [.reg r, .sr, .pc] m m.execute.2) ∨
      ∃ x, Told [.mem x, .mem (x + 1), .pc] m m.execute.2 := by
  have hphase : Told [] m m.toFetch := told_of_value_eq rfl (fun _ => rfl) []
  rw [execute_eq]
  split
  · exact .inl ⟨Reg.zero, .refl _ m⟩
  split
  · exact .inl ⟨Reg.zero, .refl _ m⟩
  split
  · have hset := hphase.trans (told_setStatus _ .badInstruction) (List.disjoint_nil_left _)
    exact .inl ⟨Reg.zero, hset.mono (by simp)⟩
  next i _ =>
    rcases told_perform m.toFetch i with ⟨r, hr⟩ | ⟨x, hx⟩
    · exact .inl ⟨r, hphase.trans (told_carryOut hr (by simp)) (List.disjoint_nil_left _)⟩
    · exact .inr ⟨x, hphase.trans (told_carryOut hx (by simp)) (List.disjoint_nil_left _)⟩

/-- A word that is no instruction stops the machine, and that is all. -/
theorem unobserved_execute_of_decode_eq_none {m : Machine} (h : Instr.decode m.ir = none) :
    m.execute.2.unobserved =
      { m.unobserved with status := m.execute.2.status, phase := m.execute.2.phase } := by
  rw [execute_eq, h]
  split
  · rfl
  split
  · rfl
  · have hstatus := unobserved_setStatus m.toFetch .badInstruction
    have hphase : (m.toFetch.setStatus .badInstruction).phase = .fetch :=
      congrArg Machine.phase hstatus
    have hbad : (m.toFetch.setStatus .badInstruction).status = .badInstruction :=
      congrArg Machine.status hstatus
    simp only [outcome, hphase, hbad]
    exact hstatus

/-! ## Steps of a machine -/

/-- Each subscriber is told of the parts that change from `m` to `m'`, of each of them once, and of
nothing else. -/
def TellsChanges (m m' : Machine) : Prop :=
  ∃ told : List Change, told.Nodup ∧ (∀ part, part ∈ told ↔ m.value part ≠ m'.value part) ∧
    ∀ k, (m'.observer.receive k).1 = (m.observer.receive k).1.map (· ++ told)

theorem Told.tellsChanges {parts : List Change} {m m' : Machine} (h : Told parts m m') :
    TellsChanges m m' := by
  obtain ⟨told, hnodup, -, hmem, hobserver⟩ := h
  refine ⟨told, hnodup, hmem, ?_⟩
  intro k
  rw [hobserver, Observer.receive_notifyAll]

/-- **What is told is what changes**, and what an execution changes. For every machine, a fetch, an
execution, and a register, the program counter or a cell that is set from outside tell each
subscriber exactly what has another value afterwards, once. Moreover an execution leaves all
registers but one and all cells alone, or all cells but the two of one byte and all registers; it
leaves the instruction register and the address of the next instruction alone; and if the word that
was fetched is no instruction, then it changes nothing but the status and the phase. -/
theorem tellsChanges_of_step (m : Machine) :
    TellsChanges m m.fetch.2 ∧ (∀ r b, TellsChanges m (m.setReg r b)) ∧
      (∀ a, TellsChanges m (m.setPc a)) ∧ (∀ a b, TellsChanges m (m.writeCell a b)) ∧
      TellsChanges m m.execute.2 ∧
      ((∃ r, (∀ r', r' ≠ r → m.execute.2.reg r' = m.reg r') ∧
          ∀ a, m.execute.2.mem.get a = m.mem.get a) ∨
        ∃ x, (∀ a, a ≠ x → a ≠ x + 1 → m.execute.2.mem.get a = m.mem.get a) ∧
          ∀ r, m.execute.2.reg r = m.reg r) ∧
      m.execute.2.ir = m.ir ∧ m.execute.2.nr = m.nr ∧
      (Instr.decode m.ir = none → m.execute.2.unobserved =
        { m.unobserved with status := m.execute.2.status, phase := m.execute.2.phase }) := by
  refine ⟨(told_fetch m).tellsChanges, fun r b => (told_setReg m r b).tellsChanges,
    fun a => (told_setPc m a).tellsChanges, fun a b => (told_setCell m a _).tellsChanges, ?_⟩
  rcases told_execute m with ⟨r, hr⟩ | ⟨x, hx⟩
  · refine ⟨hr.tellsChanges, .inl ⟨r, ?_, ?_⟩, hr.value_eq .ir (by simp), hr.value_eq .nr (by simp),
      unobserved_execute_of_decode_eq_none⟩
    · intro r' hne
      exact hr.value_eq (.reg r') (by simp [hne])
    · intro a
      exact hr.value_eq (.mem a) (by simp)
  · refine ⟨hx.tellsChanges, .inr ⟨x, ?_, ?_⟩, hx.value_eq .ir (by simp), hx.value_eq .nr (by simp),
      unobserved_execute_of_decode_eq_none⟩
    · intro a hne hne'
      apply hx.value_eq (.mem a)
      simp only [List.mem_cons, Change.mem.injEq, hne, hne', reduceCtorEq, List.not_mem_nil,
        or_self, not_false_eq_true]
    · intro r
      exact hx.value_eq (.reg r) (by simp)

/-- A machine with a subscriber that is about to execute a word that is no instruction. -/
theorem tellsChanges_of_step_badWord :
    let m : Machine := { Machine.new .default with
      ir := 0x0001, phase := .execute, observer := Observer.new.subscribe.2 }
    Instr.decode m.ir = none ∧ m.execute.2.status = .badInstruction ∧
      TellsChanges m m.execute.2 ∧
      m.execute.2.unobserved =
        { m.unobserved with status := .badInstruction, phase := .fetch } := by
  intro m
  have hnone : Instr.decode m.ir = none := by decide
  have hstatus : m.execute.2.status = .badInstruction := by decide
  have hphase : m.execute.2.phase = .fetch := by decide
  obtain ⟨-, -, -, -, htells, -, -, -, hbad⟩ := tellsChanges_of_step m
  refine ⟨hnone, hstatus, htells, (hbad hnone).trans ?_⟩
  rw [hstatus, hphase]

end Machine

end Nic
