/-
Programs that only go straight on.

Two instructions stand between the code of every program and its data: one that halts, and one that
jumps back to the start. A program without stores and jumps reaches them whatever it computes, so it
halts at the first; and when it is run again, the second is what it goes on with.

The code and these two instructions are one list here (`ended`), whose word number `k` is in the
image at address `4 * k` (`imageOf_ended`). A machine that is about to fetch one of them, with the
image still in its memory (`AtInstr`), completes it with the image still there (`AtInstr.step`). The
rest is an induction over the code, and counting.
-/
import Nic.Proofs.Machine.BoundedRuns
import Nic.Proofs.Machine.Loading
import Nic.Proofs.Machine.Meaning

set_option autoImplicit false

namespace Nic

open Statement

/-! ## Straight instructions -/

namespace SourceInstr

/-- The instructions that compute with registers and go on with the instruction after them. -/
def isStraight : SourceInstr → Bool
  | noop => true
  | imm .load _ _ | imm .loadc _ _ | imm .addc _ _ => true
  | pair .loadr _ _ | pair .move _ _ => true
  | alu .. => true
  | _ => false

/-- The instructions that change no cell. -/
def keepsCells : SourceInstr → Bool
  | imm .store _ _ | pair .storer _ _ => false
  | _ => true

theorem cell_change {i : SourceInstr} (h : i.keepsCells = true) (value : Operand → Byte)
    (v : View) : (i.change value v).cell = v.cell := by
  cases i with
  | imm op a x =>
    cases op with
    | store => cases h
    | _ => rfl
  | pair op a b =>
    cases op with
    | storer => cases h
    | _ => rfl
  | _ => rfl

theorem keepsCells_of_isStraight {i : SourceInstr} (h : i.isStraight = true) :
    i.keepsCells = true := by
  unfold isStraight at h
  split at h <;> first | rfl | cases h

theorem leaves_of_isStraight {i : SourceInstr} (h : i.isStraight = true) : i.leaves = .ok := by
  cases i with
  | halt => cases h
  | _ => rfl

theorem goesTo_of_isStraight {i : SourceInstr} (h : i.isStraight = true) (value : Operand → Byte)
    (next : Byte) (v : View) : i.goesTo value next v = next := by
  cases i with
  | jump x => cases h
  | jumpIf cond a x => cases h
  | _ => rfl

end SourceInstr

/-! ## Code and what ends it -/

/-- The code of a program with the two instructions that end it. -/
def Statement.ended (program : List Statement) : List SourceInstr :=
  instructions program ++ [.halt, .jump (.literal 0)]

theorem imageOf_ended {program : List Statement} {k : Nat} {instr : SourceInstr}
    (h : (ended program)[k]? = some instr) (symbols : Symbols) :
    ((imageOf symbols program).drop (4 * k)).take 4 =
      Word.digits (bitsOf (Instr.encode <$> instr.toInstr symbols)) := by
  have hcode : codeCells symbols program ++ tailCells = cellsOfWords
      ((ended program).map fun i => bitsOf (Instr.encode <$> i.toInstr symbols)) := by
    rw [codeCells_eq, ended, List.map_append]
    exact List.flatMap_append.symm
  rw [imageOf, hcode]
  apply take_drop_flatMap Word.length_digits
  rw [List.getElem?_map, h, Option.map_some]

namespace Statement.FaultFree

variable {program : List Statement}

theorem toInstr_ended (h : FaultFree program) {k : Nat} {instr : SourceInstr}
    (hk : (ended program)[k]? = some instr) :
    ∃ i, instr.toInstr (symbolsOf program).1 = .ok i := by
  have hmem := List.mem_of_getElem? hk
  rw [ended, List.mem_append, List.mem_pair] at hmem
  rcases hmem with hmem | rfl | rfl
  · exact h.toInstr_ok hmem
  · exact ⟨_, rfl⟩
  · exact ⟨_, rfl⟩

/-- The code and the two instructions fit into memory. -/
theorem length_ended_le (h : FaultFree program) :
    4 * (ended program).length ≤ 256 ∧
      4 * (ended program).length ≤ (imageOf (symbolsOf program).1 program).length := by
  have hlength : (ended program).length = instrCount program + 2 := by
    rw [ended, List.length_append, length_instructions]
    rfl
  have hsize := h.size
  rw [length_imageOf, hlength]
  rw [programSize, dataStart_eq] at hsize ⊢
  omega

/-- The word of an instruction in a memory that holds the image. -/
theorem readWord_ended (h : FaultFree program) {k : Nat} {instr : SourceInstr} {i : Instr}
    (hk : (ended program)[k]? = some instr)
    (hi : instr.toInstr (symbolsOf program).1 = .ok i) {mem : Memory}
    (hmem : mem.Holds (imageOf (symbolsOf program).1 program)) :
    mem.readWord (BitVec.ofNat 8 (4 * k)) = i.encode := by
  have himage := imageOf_ended hk (symbolsOf program).1
  rw [hi] at himage
  apply readWord_of_image himage
  intro j hj
  have hlt := (List.getElem?_eq_some_iff.mp hk).1
  obtain ⟨hmemory, hlength⟩ := h.length_ended_le
  have hindex : (BitVec.ofNat 8 (4 * k + j)).toNat = 4 * k + j := by
    rw [BitVec.toNat_ofNat]
    omega
  rw [hmem, hindex, List.getElem?_eq_getElem (by omega), Option.getD_some]

end Statement.FaultFree

/-! ## One instruction -/

namespace Machine

/-- A machine that is about to fetch instruction number `k`, with a memory, a number of instructions
that it has completed, and a status. -/
structure AtInstr (mem : Memory) (k done : Nat) (status : Status) (m : Machine) : Prop where
  phase : m.phase = .fetch
  pc : m.pc = BitVec.ofNat 8 (4 * k)
  mem : m.mem = mem
  executed : m.executed = done
  status : m.status = status

theorem atInstr_load (m : Machine) (e : Executable) :
    AtInstr (m.load e).mem 0 0 .ok (m.load e) :=
  ⟨rfl, rfl, rfl, rfl, rfl⟩

variable {program : List Statement} {mem : Memory} {k done : Nat} {status : Status} {m : Machine}

/-- **One instruction of the code, or one of the two after it**, if it changes no cell. -/
theorem AtInstr.step (h : AtInstr mem k done status m) (hfree : FaultFree program)
    (hmem : mem.Holds (imageOf (symbolsOf program).1 program)) {instr : SourceInstr}
    (hk : (ended program)[k]? = some instr) (hkeeps : instr.keepsCells = true)
    (hstatus : status.isTerminal = false) {k' : Nat}
    (hgoes : instr.goesTo (Operand.byte (symbolsOf program).1) (BitVec.ofNat 8 (4 * (k + 1)))
      m.view = BitVec.ofNat 8 (4 * k')) :
    ∃ m', m.stepIn = (.ok instr.leaves, m') ∧ AtInstr mem k' (done + 1) instr.leaves m' := by
  obtain ⟨i, hi⟩ := hfree.toInstr_ended hk
  have hword : m.mem.readWord m.pc = i.encode := by
    rw [h.pc, h.mem]
    exact hfree.readWord_ended hk hi hmem
  obtain ⟨m', hstep, hview, hframe⟩ :=
    stepIn_of_toInstr hi h.phase (h.status.symm ▸ hstatus) h.pc hword
  have hphase := congrArg Machine.phase hframe
  have hexecuted : m'.executed = m.executed + 1 := congrArg Machine.executed hframe
  refine ⟨m', hstep, hphase.trans h.phase, ?_, ?_, ?_, ?_⟩
  · rw [← hgoes]
    exact congrArg View.pc hview
  · rw [← h.mem]
    apply Memory.ext_get
    intro a
    have hcell : m'.mem.get = (instr.change (Operand.byte (symbolsOf program).1) m.view).cell :=
      congrArg View.cell hview
    rw [hcell, SourceInstr.cell_change hkeeps]
    rfl
  · rw [hexecuted, h.executed]
  · exact congrArg View.status hview

/-! ## Many instructions -/

/-- A run that has not ended within a limit goes on from there. -/
theorem runWhile_add {m' : Machine} (h : m.runWithLimit k = (.ok .ok, m')) (fuel : Nat) :
    m.runWhile (fun _ => true) (k + fuel) = m'.runWhile (fun _ => true) fuel := by
  induction k generalizing m with
  | zero =>
    have hsame : m = m' := congrArg Prod.snd h
    rw [Nat.zero_add, hsame]
  | succ k ih =>
    rw [runWithLimit_succ] at h
    rw [Nat.succ_add, runWhile_succ, if_pos rfl]
    by_cases hok : m.stepIn.1 = .ok .ok
    · rw [if_pos hok] at h ⊢
      exact ih h
    · rw [if_neg hok] at h
      exact absurd (congrArg Prod.fst h) hok

theorem lt_configurations (h : k < 256) : k < configurations := by
  apply Nat.lt_of_lt_of_le h
  unfold configurations
  apply Nat.pow_le_pow_right (i := 8) Nat.two_pos
  omega

/-- A run ends where it halts. -/
theorem run_of_halted {m₁ m₂ : Machine} (h : m.runWithLimit k = (.ok .ok, m₁))
    (hhalt : m₁.stepIn = (.ok .halted, m₂)) (hk : k < 256) :
    m.run = some (.ok .halted, m₂) := by
  have hlt := lt_configurations hk
  rw [run]
  -- the number itself is too large to be looked at
  generalize configurations = fuel at hlt ⊢
  obtain ⟨rest, rfl⟩ := Nat.exists_eq_add_of_lt hlt
  rw [Nat.add_assoc, runWhile_add h, runWhile_succ, if_pos rfl, hhalt, if_neg (by simp)]

/-- **A straight line**: from its start, each of its instructions is reached after those before
it. -/
theorem AtInstr.runWithLimit (h : AtInstr mem 0 done .ok m) (hfree : FaultFree program)
    (hmem : mem.Holds (imageOf (symbolsOf program).1 program))
    (hstraight : ∀ i ∈ instructions program, i.isStraight = true)
    (hk : k ≤ (instructions program).length) :
    ∃ m', m.runWithLimit k = (.ok .ok, m') ∧ AtInstr mem k (done + k) .ok m' := by
  induction k with
  | zero =>
    refine ⟨m, ?_, h⟩
    rw [Machine.runWithLimit, outcome, h.status]
  | succ k ih =>
    obtain ⟨m₁, hrun, hm₁⟩ := ih (by omega)
    -- the instruction that comes next is one of the code
    obtain ⟨instr, hinstr⟩ : ∃ instr, (instructions program)[k]? = some instr :=
      ⟨_, List.getElem?_eq_getElem (by omega)⟩
    have hended : (ended program)[k]? = some instr := by
      rw [ended, List.getElem?_append_left (by omega), hinstr]
    have hline := hstraight instr (List.mem_of_getElem? hinstr)
    have hleaves := SourceInstr.leaves_of_isStraight hline
    obtain ⟨m₂, hstep, hm₂⟩ := hm₁.step hfree hmem hended
      (SourceInstr.keepsCells_of_isStraight hline) rfl
      (SourceInstr.goesTo_of_isStraight hline _ _ _)
    rw [hleaves] at hstep hm₂
    refine ⟨m₂, ?_, hm₂⟩
    have hone : m₁.runWithLimit 1 = (.ok .ok, m₂) := by
      rw [runWithLimit_succ, hstep, if_pos rfl, Machine.runWithLimit, outcome, hm₂.status]
    rw [← runWithLimit_add (congrArg Prod.fst hrun), hrun]
    exact hone

/-- The two instructions after the code. -/
theorem getElem?_ended (program : List Statement) :
    (ended program)[(instructions program).length]? = some .halt ∧
      (ended program)[(instructions program).length + 1]? = some (.jump (.literal 0)) := by
  constructor
  · rw [ended, List.getElem?_append_right (Nat.le_refl _), Nat.sub_self]
    rfl
  · rw [ended, List.getElem?_append_right (Nat.le_add_right _ 1),
      Nat.add_sub_cancel_left]
    rfl

/-- From the start of a straight line to the instruction after the one that halts. -/
theorem AtInstr.run (h : AtInstr mem 0 done .ok m) (hfree : FaultFree program)
    (hmem : mem.Holds (imageOf (symbolsOf program).1 program))
    (hstraight : ∀ i ∈ instructions program, i.isStraight = true) :
    ∃ m₁ m₂, m.runWithLimit (instructions program).length = (.ok .ok, m₁) ∧
      m₁.stepIn = (.ok .halted, m₂) ∧
      AtInstr mem ((instructions program).length + 1) (done + (instructions program).length + 1)
        .halted m₂ := by
  obtain ⟨m₁, hrun, hm₁⟩ := h.runWithLimit hfree hmem hstraight (Nat.le_refl _)
  obtain ⟨m₂, hhalt, hm₂⟩ := hm₁.step hfree hmem (getElem?_ended program).1 rfl rfl rfl
  exact ⟨m₁, m₂, hrun, hhalt, hm₂⟩

/-- From there on, one jump leads back to the start. -/
theorem AtInstr.jumpBack (h : AtInstr mem ((instructions program).length + 1) done .halted m)
    (hfree : FaultFree program) (hmem : mem.Holds (imageOf (symbolsOf program).1 program)) :
    ∃ m', m.stepIn = (.ok .ok, m') ∧ AtInstr mem 0 (done + 1) .ok m' := by
  have hjump : (SourceInstr.jump (.literal 0)).JumpsTo (.literal 0) m.view := rfl
  exact h.step hfree hmem (getElem?_ended program).2 rfl rfl
    (SourceInstr.goesTo_of_jumpsTo (j := 0) rfl hjump _)

end Machine

open Machine

/-- **Every program that goes straight on halts, and starts again when it is run again.** Let a
source be assembled whose instructions are all among those that compute with registers, with any
labels and data. A machine that loads it and runs halts after its instructions and the one that
halts, at the address after this one, with nothing but the image in its memory; each instruction is
reached in its turn.

Run again, it first jumps back to the start, then reaches each instruction once more, and halts at
the same address with the same memory. -/
theorem run_straight_line (source : String) (maxErrors : Nat) (e : Executable)
    (h : assemble source maxErrors = .ok e)
    (hstraight : ∀ i ∈ instructions (parse source).statements, i.isStraight = true) (m : Machine) :
    let n := (instructions (parse source).statements).length
    ∃ m₁ m₂, (m.load e).run = some (.ok .halted, m₁) ∧ m₁.executed = n + 1 ∧
      m₁.pc.toNat = 4 * (n + 1) ∧ m₁.mem.Holds e.image ∧
      (∀ k ≤ n, ∃ m', (m.load e).runWithLimit k = (.ok .ok, m') ∧ m'.pc.toNat = 4 * k) ∧
      m₁.run = some (.ok .halted, m₂) ∧ m₂.executed = 2 * n + 3 ∧
      m₂.pc = m₁.pc ∧ m₂.mem.Holds e.image ∧
      (∀ k ≤ n, ∃ m', m₁.runWithLimit (k + 1) = (.ok .ok, m') ∧ m'.pc.toNat = 4 * k) := by
  intro n
  obtain ⟨hfree, he⟩ := assemble_ok h
  have hholds := holds_load m e
  have himage : (m.load e).mem.Holds
      (imageOf (symbolsOf (parse source).statements).1 (parse source).statements) := by
    rw [he] at hholds ⊢
    exact hholds
  have hfits : 4 * (n + 2) ≤ 256 := by
    have hlength := hfree.length_ended_le.1
    rw [ended, List.length_append] at hlength
    exact hlength
  have hpc : ∀ k ≤ n + 1, (BitVec.ofNat 8 (4 * k)).toNat = 4 * k := by
    intro k hk
    rw [BitVec.toNat_ofNat]
    omega
  have hstart := atInstr_load m e
  obtain ⟨mₙ, m₁, hline, hhalt, hm₁⟩ := hstart.run hfree himage hstraight
  obtain ⟨m₀, hjump, hm₀⟩ := hm₁.jumpBack hfree himage
  obtain ⟨mₙ', m₂, hline', hhalt', hm₂⟩ := hm₀.run hfree himage hstraight
  -- the jump is one instruction more, in front of the line
  have hagain : ∀ k m', m₀.runWithLimit k = (.ok .ok, m') →
      m₁.runWithLimit (k + 1) = (.ok .ok, m') := by
    intro k m' hm'
    rw [runWithLimit_succ, hjump, if_pos rfl, hm']
  refine ⟨m₁, m₂, run_of_halted hline hhalt (by omega), ?_, ?_, ?_, ?_,
    run_of_halted (hagain _ _ hline') hhalt' (by omega), ?_, ?_, ?_, ?_⟩
  · rw [hm₁.executed, Nat.zero_add]
  · rw [hm₁.pc, hpc _ (Nat.le_refl _)]
  · rw [hm₁.mem]
    exact hholds
  · intro k hk
    obtain ⟨m', hrun, hm'⟩ := hstart.runWithLimit hfree himage hstraight hk
    refine ⟨m', hrun, ?_⟩
    rw [hm'.pc, hpc k (by omega)]
  · rw [hm₂.executed]
    omega
  · rw [hm₂.pc, hm₁.pc]
  · rw [hm₂.mem]
    exact hholds
  · intro k hk
    obtain ⟨m', hrun, hm'⟩ := hm₀.runWithLimit hfree himage hstraight hk
    refine ⟨m', hagain k m' hrun, ?_⟩
    rw [hm'.pc, hpc k (by omega)]

/-- A program with a label and with data that would be instructions. -/
theorem run_straight_line_data :
    let source := "start: load r1 x\nloadr r2 r1\nadd r1 r1 r2\nword x start x 0xff"
    let e := (build (parse source).statements).1
    assemble source 1 = .ok e ∧
      ∃ m₁ m₂, ((Machine.new Flags.default).load e).run = some (.ok .halted, m₁) ∧
        m₁.executed = 4 ∧ m₁.pc.toNat = 16 ∧ m₁.mem.Holds e.image ∧
        m₁.run = some (.ok .halted, m₂) ∧ m₂.executed = 9 ∧ m₂.pc = m₁.pc := by
  intro source e
  have he : assemble source 1 = .ok e :=
    assemble_eq_ok_iff.mpr ⟨by decide +kernel, by decide +kernel, rfl⟩
  have hline : ∀ i ∈ instructions (parse source).statements, i.isStraight = true := by
    decide +kernel
  have hlength : (instructions (parse source).statements).length = 3 := by decide +kernel
  obtain ⟨m₁, m₂, hrun, hcount, hpc, hmem, -, hrun', hcount', hpc', -⟩ :=
    run_straight_line source 1 e he hline (Machine.new Flags.default)
  rw [hlength] at hcount hpc hcount'
  exact ⟨he, m₁, m₂, hrun, hcount, hpc, hmem, hrun', hcount', hpc'⟩

end Nic
