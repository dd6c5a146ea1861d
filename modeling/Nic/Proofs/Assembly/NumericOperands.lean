/-
Numbers in operands, from the text to the image.

A number goes through three limits on its way into the image: that of the reader of digits, which is
a word of sixteen bits with or without a sign, that of a displacement, and that of a byte. None of
them cuts anything off: a number that passes all of them is in the image modulo 256, and one that
does not is refused (`assemble_numeric_operands`).

Which programs to look at is settled by a zero. If a source with a zero somewhere is assembled, all
of it is right but for what stands in place of the zero, and any operand can stand there. What the
program is then depends on the value of this operand alone: the first pass does not look at it
(`symbolsOf_fill`), the second pass only at its value (`build_fill`).
-/
import Nic.Proofs.Assembly.Places
import Nic.Proofs.Statement.Slot
import Nic.Proofs.Token.Replace

set_option autoImplicit false

namespace Nic

open Token

/-! ## Programs with an operand left open -/

/-- The program with this operand in the slot. -/
def Slot.program (slot : Slot) (earlier later : List Statement) (x : Operand) : List Statement :=
  earlier ++ ⟨slot.fill x, ⟨0, 0⟩⟩ :: later

section Slot

variable (slot : Slot) (earlier later : List Statement)

theorem Layout.place_fill (d : Nat) (l : Layout) (x y : Operand) :
    l.place d ⟨slot.fill x, ⟨0, 0⟩⟩ = l.place d ⟨slot.fill y, ⟨0, 0⟩⟩ := by
  cases slot with
  | value name before after =>
    simp only [Slot.fill, Layout.place, Statement.valueCount, List.length_append, List.length_cons]
  | _ => rfl

/-- **The first pass does not look at operands.** -/
theorem symbolsOf_fill (x y : Operand) :
    symbolsOf (slot.program earlier later x) = symbolsOf (slot.program earlier later y) := by
  have hcount : Statement.instrCount (slot.program earlier later x) =
      Statement.instrCount (slot.program earlier later y) := by
    have hkind : (slot.fill x).isInstr = (slot.fill y).isInstr := by cases slot <;> rfl
    simp only [Slot.program, Statement.instrCount, List.countP_append, List.countP_cons, hkind]
  have hlayout : Layout.ofStatements (slot.program earlier later x) =
      Layout.ofStatements (slot.program earlier later y) := by
    rw [Layout.ofStatements, Layout.ofStatements, hcount]
    simp only [Slot.program, List.foldl_append, List.foldl_cons]
    rw [Layout.place_fill slot _ _ x y]
  rw [symbolsOf, symbolsOf, hlayout, hcount]

theorem mem_byteOperands_fill :
    ∃ others : List Operand, ∀ x z, z ∈ (slot.program earlier later x).flatMap (·.byteOperands) ↔
      z = x ∨ z ∈ others := by
  obtain ⟨before, after, hoperands⟩ : ∃ before after, ∀ x,
      Statement.byteOperands ⟨slot.fill x, ⟨0, 0⟩⟩ = before ++ x :: after := by
    cases slot with
    | value name before after => exact ⟨before, after, fun x => rfl⟩
    | _ => exact ⟨[], [], fun x => rfl⟩
  refine ⟨earlier.flatMap (·.byteOperands) ++ before ++ after ++ later.flatMap (·.byteOperands),
    fun x z => ?_⟩
  rw [Slot.program, List.flatMap_append, List.flatMap_cons, hoperands]
  simp only [List.mem_append, List.mem_cons]
  tauto

/-- There is no error in the operands exactly if each of them has a value. -/
theorem operandErrors_eq_nil_iff {symbols : Symbols} {program : List Statement} :
    operandErrors symbols program = [] ↔
      ∀ x ∈ program.flatMap (·.byteOperands), ∃ b, symbols.resolve x = .ok b := by
  have hvalue : ∀ x, errorOf? (symbols.resolve x) = none ↔ ∃ b, symbols.resolve x = .ok b := by
    intro x
    cases symbols.resolve x <;> simp [errorOf?]
  simp only [operandErrors, Statement.errors_eq, List.flatMap_eq_nil_iff, List.filterMap_eq_nil_iff,
    hvalue, List.mem_flatMap, forall_exists_index, and_imp]
  exact ⟨fun h x s hs hx => h s hs x hx, fun h s hs x hx => h x s hs hx⟩

/-- If there is no error with one operand, there is none with another that has a value, and there is
one with any other. -/
theorem build_errors_fill {x : Operand} (h : (build (slot.program earlier later x)).2 = [])
    (y : Operand) :
    (build (slot.program earlier later y)).2 = [] ↔
      ∃ b, (symbolsOf (slot.program earlier later x)).1.resolve y = .ok b := by
  obtain ⟨others, hmem⟩ := mem_byteOperands_fill slot earlier later
  have herrors : ∀ z, (build (slot.program earlier later z)).2 = [] ↔
      (symbolsOf (slot.program earlier later x)).2 = [] ∧ ∀ o, o = z ∨ o ∈ others →
        ∃ b, (symbolsOf (slot.program earlier later x)).1.resolve o = .ok b := by
    intro z
    simp only [symbolsOf_fill slot earlier later x z, ← hmem, ← operandErrors_eq_nil_iff]
    exact List.append_eq_nil_iff
  obtain ⟨hsymbols, hoperands⟩ := (herrors x).mp h
  rw [herrors]
  constructor
  · intro hy
    exact hy.2 y (.inl rfl)
  · rintro hy
    refine ⟨hsymbols, ?_⟩
    rintro o (rfl | ho)
    · exact hy
    · exact hoperands o (.inr ho)

/-- **The second pass looks at the value of an operand only.** -/
theorem build_fill {x : Operand} {b : Byte}
    (h : (symbolsOf (slot.program earlier later x)).1.resolve x = .ok b) :
    (build (slot.program earlier later x)).1 =
      (build (slot.program earlier later (.literal b))).1 := by
  have hbuild : ∀ p, (build p).1 = ⟨imageOf (symbolsOf p).1 p, some (symbolsOf p).1⟩ := fun _ => rfl
  rw [hbuild, hbuild, symbolsOf_fill slot earlier later (.literal b) x]
  generalize (symbolsOf (slot.program earlier later x)).1 = symbols at h
  have hliteral : symbols.resolve (.literal b) = .ok b := rfl
  have hwords : Statement.words symbols ⟨slot.fill x, ⟨0, 0⟩⟩ =
      Statement.words symbols ⟨slot.fill (.literal b), ⟨0, 0⟩⟩ := by
    cases slot <;> simp only [Slot.fill, Statement.words, SourceInstr.toInstr, h, hliteral]
  have hbytes : Statement.bytes symbols ⟨slot.fill x, ⟨0, 0⟩⟩ =
      Statement.bytes symbols ⟨slot.fill (.literal b), ⟨0, 0⟩⟩ := by
    cases slot with
    | value name before after =>
      cases before <;> simp only [Slot.fill, Statement.bytes, List.nil_append, List.cons_append,
        List.map_append, List.map_cons, h, hliteral]
    | _ => rfl
  simp only [Slot.program, imageOf, codeCells, dataCells, List.flatMap_append, List.flatMap_cons,
    hwords, hbytes]

end Slot

/-! ## Sources with an operand left open -/

/-- A source is assembled exactly if the program that it is read as, without places, has no error,
and then to the executable of this program, but for places. -/
theorem assemble_unplaced {source : String} {program : List Statement}
    (h : (parse source).moved (fun _ => 0) = ⟨program, []⟩) (maxErrors : Nat) :
    ((∃ e, assemble source maxErrors = .ok e) ↔ (build program).2 = []) ∧
      ∀ e, assemble source maxErrors = .ok e → e.moved (fun _ => 0) = (build program).1 := by
  have herrors : (parse source).errors = [] :=
    List.map_eq_nil_iff.mp (congrArg Parsed.errors h)
  have hprogram : (parse source).statements.map (Statement.moved fun _ => 0) = program :=
    congrArg Parsed.statements h
  simp only [assemble_eq_ok_iff, ← hprogram, build_errors_moved, build_moved]
  refine ⟨?_, ?_⟩
  · constructor
    · rintro ⟨e, -, hbuild, -⟩
      exact hbuild
    · intro hbuild
      exact ⟨_, herrors, hbuild, rfl⟩
  · rintro e ⟨-, -, rfl⟩
    rfl

/-- Between `x` and `y` an operand is left open: what is read there as an operand fills the slot,
and with anything else in its place the source has an error. -/
structure OpenAt (x y : String) (slot : Slot) (earlier later : List Statement) : Prop where
  fills : ∀ {w : String} {t : Token} {o : Operand}, t.isOperand = true →
    ReadAs x w y (.ok t) → o.Written ⟨t, ⟨0, 0⟩⟩ →
    (parse (x ++ w ++ y)).moved (fun _ => 0) = ⟨slot.program earlier later o, []⟩
  only : ∀ {w : String} {value : Except LexicalFault Token}, OperandOrFault value →
    ReadAs x w y value → (parse (x ++ w ++ y)).errors = [] →
    ∃ t o, value = .ok t ∧ Operand.Written o ⟨t, ⟨0, 0⟩⟩

theorem readAs_zero {x y : String} (h : IsToken x "0" y) : ReadAs x "0" y (.ok (.unsigned 0)) :=
  readAs_unsigned h (by decide)

theorem written_zero : (Operand.literal 0).Written ⟨.unsigned 0, ⟨0, 0⟩⟩ := .byte 0 ⟨0, 0⟩

/-- **A zero stands for any operand.** -/
theorem exists_openAt {x y : String} (h : IsToken x "0" y)
    (herrors : (parse (x ++ "0" ++ y)).errors = []) :
    ∃ slot earlier later, OpenAt x y slot earlier later := by
  have hparse : ∀ {w : String} {value : Except LexicalFault Token}, ReadAs x w y value →
      (parse (x ++ w ++ y)).moved (fun _ => 0) =
        parseLexemes (unplaced (values x.toList ++ value :: values y.toList)) := by
    intro w value hread
    rw [parse_unplaced, hread]
  have herrors_iff : ∀ {w : String} {value : Except LexicalFault Token}, ReadAs x w y value →
      ((parse (x ++ w ++ y)).errors = [] ↔
        (parseLexemes (unplaced (values x.toList ++ value :: values y.toList))).errors = []) := by
    intro w value hread
    rw [← hparse hread]
    exact List.map_eq_nil_iff.symm
  obtain ⟨earlier, slot, later, hfills, honly⟩ :=
    @parseLexemes_slot _ _ (.unsigned 0) rfl ((herrors_iff (readAs_zero h)).mp herrors)
  refine ⟨slot, earlier, later, ?_, ?_⟩
  · intro w t o ht hread ho
    rw [hparse hread, hfills t o ht ho]
    rfl
  · intro w value hvalue hread hw
    exact honly value hvalue ((herrors_iff hread).mp hw)

section OpenAt

variable {x y : String} {slot : Slot} {earlier later : List Statement}

/-- An operand that has a value gives the program with this byte, if the rest of it is right. -/
theorem OpenAt.assembles (h : OpenAt x y slot earlier later)
    (hrest : (build (slot.program earlier later (.literal 0))).2 = []) {w : String} {t : Token}
    {o : Operand} {b : Byte} (ht : t.isOperand = true) (hread : ReadAs x w y (.ok t))
    (ho : o.Written ⟨t, ⟨0, 0⟩⟩)
    (hb : (symbolsOf (slot.program earlier later (.literal 0))).1.resolve o = .ok b)
    (maxErrors : Nat) :
    ∃ e, assemble (x ++ w ++ y) maxErrors = .ok e ∧
      e.moved (fun _ => 0) = (build (slot.program earlier later (.literal b))).1 := by
  obtain ⟨hok, hmoved⟩ := assemble_unplaced (h.fills ht hread ho) maxErrors
  obtain ⟨e, he⟩ := hok.mpr ((build_errors_fill slot earlier later hrest o).mpr ⟨b, hb⟩)
  rw [symbolsOf_fill slot earlier later _ o] at hb
  exact ⟨e, he, (hmoved e he).trans (build_fill slot earlier later hb)⟩

/-- **Only an operand that has a value can stand there**, if the rest of the program is right. -/
theorem OpenAt.assembles_iff (h : OpenAt x y slot earlier later)
    (hrest : (build (slot.program earlier later (.literal 0))).2 = []) {w : String}
    {value : Except LexicalFault Token} (hvalue : OperandOrFault value)
    (hread : ReadAs x w y value) (maxErrors : Nat) :
    (∃ e, assemble (x ++ w ++ y) maxErrors = .ok e) ↔
      ∃ o b, (∃ t, value = .ok t ∧ Operand.Written o ⟨t, ⟨0, 0⟩⟩) ∧
        (symbolsOf (slot.program earlier later (.literal 0))).1.resolve o = .ok b := by
  constructor
  · rintro ⟨e, he⟩
    obtain ⟨t, o, rfl, ho⟩ := h.only hvalue hread (assemble_eq_ok_iff.mp he).1
    have hok := (assemble_unplaced (h.fills (hvalue t rfl) hread ho) maxErrors).1.mp ⟨e, he⟩
    obtain ⟨b, hb⟩ := (build_errors_fill slot earlier later hrest o).mp hok
    exact ⟨o, b, ⟨t, rfl, ho⟩, hb⟩
  · rintro ⟨o, b, ⟨t, rfl, ho⟩, hb⟩
    obtain ⟨e, he, -⟩ := h.assembles hrest (hvalue t rfl) hread ho hb maxErrors
    exact ⟨e, he⟩

end OpenAt

/-! ## The values of numbers -/

theorem toNat_ofInt_byte (v : Int) : ((BitVec.ofInt 8 v).toNat : Int) = v % 256 := by
  rw [BitVec.toNat_ofInt]
  omega

/-- **A text is a byte operand as a number exactly if it is a numeral from -128 to 255.** -/
theorem written_number_iff {cs : List Char} {o : Operand} :
    (∃ t, readNumber cs = .ok t ∧ o.Written ⟨t, ⟨0, 0⟩⟩) ↔
      ∃ v, Numeral cs v ∧ (-128 ≤ v ∧ v ≤ 255) ∧ o = .literal (BitVec.ofInt 8 v) := by
  by_cases hminus : cs.head? = some '-'
  · obtain ⟨ds, rfl⟩ := List.head?_eq_some_iff.mp hminus
    constructor
    · rintro ⟨t, hread, ho⟩
      obtain ⟨n, hn, -, rfl⟩ := readNegative_eq_ok_iff.mp hread
      cases ho with
      | signed hrange => exact ⟨-n, .negative hn, hrange, rfl⟩
    · rintro ⟨v, hv, hrange, rfl⟩
      obtain ⟨n, hn, rfl⟩ := numeral_minus_iff.mp hv
      exact ⟨.signed (-n), readNegative_eq_ok_iff.mpr ⟨n, hn, by omega, rfl⟩, .signed hrange⟩
  · rw [readNumber_of_ne hminus]
    constructor
    · rintro ⟨t, hread, ho⟩
      obtain ⟨n, hn, -, rfl⟩ := readUnsigned_eq_ok_iff.mp hread
      cases ho with
      | unsigned hle => exact ⟨n, .unsigned hn, by omega, rfl⟩
    · rintro ⟨v, hv, hrange, rfl⟩
      obtain ⟨n, hn, rfl⟩ := (numeral_of_ne_iff hminus).mp hv
      exact ⟨.unsigned n, readUnsigned_eq_ok_iff.mpr ⟨n, hn, by omega, rfl⟩, .unsigned (by omega)⟩

theorem operandOrFault_number (cs : List Char) : OperandOrFault (readNumber cs) := by
  intro t h
  unfold readNumber at h
  split at h
  · obtain ⟨n, rfl⟩ := readNegative_eq_ok h
    rfl
  · obtain ⟨n, rfl⟩ := readUnsigned_eq_ok h
    rfl

/-- **A name with a displacement is an operand exactly if the displacement is a number of sixteen
bits with a sign.** -/
theorem written_displaced_iff {name cs : List Char} {negative : Bool} {o : Operand} :
    (∃ t, readDisplaced name negative cs = .ok t ∧ o.Written ⟨t, ⟨0, 0⟩⟩) ↔
      ∃ n, Magnitude cs n ∧ (-32768 ≤ withSign negative n ∧ withSign negative n ≤ 32767) ∧
        o = .address ⟨String.ofList name, 0⟩ (withSign negative n) := by
  constructor
  · rintro ⟨t, hread, ho⟩
    obtain ⟨n, hn, hrange, rfl⟩ := readDisplaced_eq_ok_iff.mp hread
    cases ho with
    | displaced => exact ⟨n, hn, hrange, rfl⟩
  · rintro ⟨n, hn, hrange, rfl⟩
    exact ⟨_, readDisplaced_eq_ok_iff.mpr ⟨n, hn, hrange, rfl⟩,
      @Operand.Written.displaced _ _ ⟨0, 0⟩⟩

theorem operandOrFault_displaced (name cs : List Char) (negative : Bool) :
    OperandOrFault (readDisplaced name negative cs) := by
  intro t h
  obtain ⟨offset, rfl, -⟩ := readDisplaced_eq_ok h
  rfl

/-- A defined name with a displacement has a value exactly if the sum is that of a byte. -/
theorem Symbols.resolve_eq_ok_iff {symbols : Symbols} {label : Label} {a : Word}
    (ha : symbols.address? label.name = some a) {d : Int} {b : Byte} :
    symbols.resolve (.address label d) = .ok b ↔
      (-128 ≤ a.toNat + d ∧ a.toNat + d ≤ 255) ∧ b = BitVec.ofInt 8 (a.toNat + d) := by
  rw [Symbols.resolve, ha]
  by_cases hrange : -128 ≤ (a.toNat : Int) + d ∧ (a.toNat : Int) + d ≤ 255
  · simp only [Byte.fit?_of_mem hrange, hrange, and_self, true_and, Except.ok.injEq]
    exact eq_comm
  · simp only [Byte.fit?_of_not_mem hrange, hrange, false_and, reduceCtorEq]

/-! ## A number to load -/

/-- In `loadc r1 ` the operand is left open. -/
theorem openAt_loadc : OpenAt "loadc r1 " "" (.imm .loadc ⟨1⟩) [] [] := by
  have hzero : IsToken "loadc r1 " "0" "" := by decide +kernel
  have hparse : (parse ("loadc r1 " ++ "0" ++ "")).errors = [] ∧
      (parse ("loadc r1 " ++ "0" ++ "")).statements.map (Statement.moved fun _ => 0) =
        [⟨.instr (.imm .loadc ⟨1⟩ (.literal 0)), ⟨0, 0⟩⟩] := by
    decide +kernel
  obtain ⟨slot, earlier, later, h⟩ := exists_openAt hzero hparse.1
  -- the slot is found by filling it with the zero that is there
  have hfilled := congrArg Parsed.statements
    (h.fills rfl (readAs_zero hzero) written_zero)
  have hprogram := hfilled.symm.trans hparse.2
  rw [Slot.program, List.append_eq_singleton_iff] at hprogram
  rcases hprogram with ⟨rfl, hlast⟩ | ⟨-, hnil⟩
  · obtain ⟨hstatement, rfl⟩ := List.cons.inj hlast
    have hbody := congrArg Statement.body hstatement
    cases slot <;> simp only [Slot.fill, reduceCtorEq, Statement.Body.instr.injEq,
      SourceInstr.imm.injEq] at hbody
    obtain ⟨rfl, rfl, -⟩ := hbody
    exact h
  · cases hnil

theorem image_loadc : ∀ b : Byte,
    (build (Slot.program (.imm .loadc ⟨1⟩) [] [] (.literal b))).1.image =
      [2, 1, b.high, b.low] ++ [0, 0, 0, 0, 15, 0, 0, 0] := by
  decide +kernel

/-- **A number is loaded modulo 256 or refused.** -/
theorem assemble_loadc {t : String} (ht : isUnsigned t.toList = true ∨ isNegative t.toList = true)
    (maxErrors : Nat) :
    ((∃ e, assemble ("loadc r1 " ++ t) maxErrors = .ok e) ↔
      ∃ v, Numeral t.toList v ∧ -128 ≤ v ∧ v ≤ 255) ∧
    ∀ e v, assemble ("loadc r1 " ++ t) maxErrors = .ok e → Numeral t.toList v →
      ∃ b : Byte, (b.toNat : Int) = v % 256 ∧
        e.image = [2, 1, b.high, b.low] ++ [0, 0, 0, 0, 15, 0, 0, 0] := by
  have hread : ReadAs "loadc r1 " t "" (readNumber t.toList) := readAs_number (by decide +kernel) ht
  have hrest : (build (Slot.program (.imm .loadc ⟨1⟩) [] [] (.literal 0))).2 = [] := by
    decide +kernel
  have hsource : "loadc r1 " ++ t ++ "" = "loadc r1 " ++ t := String.append_empty
  have hiff := openAt_loadc.assembles_iff hrest (operandOrFault_number _) hread maxErrors
  simp only [written_number_iff, hsource] at hiff
  have hassembles : (∃ e, assemble ("loadc r1 " ++ t) maxErrors = .ok e) ↔
      ∃ v, Numeral t.toList v ∧ -128 ≤ v ∧ v ≤ 255 := by
    rw [hiff]
    constructor
    · rintro ⟨o, b, ⟨v, hv, hrange, -⟩, -⟩
      exact ⟨v, hv, hrange⟩
    · rintro ⟨v, hv, hrange⟩
      exact ⟨_, _, ⟨v, hv, hrange, rfl⟩, rfl⟩
  refine ⟨hassembles, fun e v he hv => ?_⟩
  obtain ⟨v', hv', hrange⟩ := hassembles.mp ⟨e, he⟩
  obtain rfl := hv.unique hv'
  obtain ⟨token, htoken, ho⟩ := written_number_iff.mpr ⟨v, hv, hrange, rfl⟩
  obtain ⟨e', he', hmoved⟩ := openAt_loadc.assembles hrest (operandOrFault_number _ token htoken)
    (htoken ▸ hread) ho rfl maxErrors
  rw [hsource, he] at he'
  obtain rfl := Except.ok.inj he'
  refine ⟨BitVec.ofInt 8 v, toNat_ofInt_byte v, ?_⟩
  rw [← image_loadc, ← hmoved]
  rfl

/-! ## A name with a displacement -/

/-- The address of a label in an executable. -/
def Executable.address? (e : Executable) (name : String) : Option Word :=
  e.symbols.bind (·.address? name)

theorem Executable.address?_moved (f : Nat → Nat) (e : Executable) (name : String) :
    (e.moved f).address? name = e.address? name := by
  rw [address?, address?, moved]
  cases e.symbols with
  | none => rfl
  | some symbols => exact Symbols.address?_moved f symbols name

/-- In a source that is assembled with a zero, an operand is left open where the zero is. The rest
of the program is right, and each label keeps its address whatever the operand is. -/
theorem openAt_of_assemble {x y : String} {e₀ : Executable} {maxErrors : Nat}
    (h : assemble (x ++ "0" ++ y) maxErrors = .ok e₀) (hzero : IsToken x "0" y) :
    ∃ slot earlier later, OpenAt x y slot earlier later ∧
      (build (slot.program earlier later (.literal 0))).2 = [] ∧
      ∀ o name, (build (slot.program earlier later o)).1.address? name = e₀.address? name := by
  obtain ⟨slot, earlier, later, hopen⟩ := exists_openAt hzero (assemble_eq_ok_iff.mp h).1
  obtain ⟨hok, hmoved⟩ :=
    assemble_unplaced (hopen.fills rfl (readAs_zero hzero) written_zero) maxErrors
  refine ⟨slot, earlier, later, hopen, hok.mp ⟨e₀, h⟩, fun o name => ?_⟩
  have htable : ∀ o', (build (slot.program earlier later o')).1.address? name =
      (symbolsOf (slot.program earlier later o')).1.address? name := fun _ => rfl
  rw [htable, symbolsOf_fill slot earlier later o (.literal 0), ← htable, ← hmoved e₀ h,
    Executable.address?_moved]

/-- A byte can stand there as a literal. -/
theorem OpenAt.assembles_literal {x y : String} {slot : Slot} {earlier later : List Statement}
    (h : OpenAt x y slot earlier later)
    (hrest : (build (slot.program earlier later (.literal 0))).2 = []) (hzero : IsToken x "0" y)
    (b : Byte) (maxErrors : Nat) :
    ∃ e, assemble (x ++ ("0x" ++ Text.hexByte b) ++ y) maxErrors = .ok e ∧
      e.moved (fun _ => 0) = (build (slot.program earlier later (.literal b))).1 := by
  have hread : ReadAs x ("0x" ++ Text.hexByte b) y (.ok (.unsigned b.toNat)) := by
    rw [← (read_literal b).2, ← toList_literal]
    apply readAs_unsigned hzero
    rw [toList_literal, isUnsigned, (read_literal b).1]
    rfl
  exact h.assembles hrest rfl hread (.byte b ⟨0, 0⟩) rfl maxErrors

/-- **A displacement leads to a value modulo 256 or is refused.** -/
theorem assemble_displaced {x y : String} {e₀ : Executable} {maxErrors : Nat}
    (h : assemble (x ++ "0" ++ y) maxErrors = .ok e₀) (hzero : IsToken x "0" y)
    {name digits : String} (hname : isWord name.toList = true)
    (hdigits : isUnsigned digits.toList = true) {a : Word} (ha : e₀.address? name = some a)
    (negative : Bool) :
    ((∃ e, assemble (x ++ displacedText name negative digits ++ y) maxErrors = .ok e) ↔
      ∃ n, Magnitude digits.toList n ∧
        (-32768 ≤ withSign negative n ∧ withSign negative n ≤ 32767) ∧
        (-128 ≤ a.toNat + withSign negative n ∧ a.toNat + withSign negative n ≤ 255)) ∧
    ∀ e n, assemble (x ++ displacedText name negative digits ++ y) maxErrors = .ok e →
      Magnitude digits.toList n →
      e.address? name = some a ∧ ∃ (b : Byte) (e' : Executable),
        (b.toNat : Int) = (a.toNat + withSign negative n) % 256 ∧
        assemble (x ++ ("0x" ++ Text.hexByte b) ++ y) maxErrors = .ok e' ∧ e'.SameProgram e := by
  obtain ⟨slot, earlier, later, hopen, hrest, haddress⟩ := openAt_of_assemble h hzero
  -- the value of the name with a displacement, by the table of the program
  have hresolve : ∀ {d b}, (symbolsOf (slot.program earlier later (.literal 0))).1.resolve
      (.address ⟨String.ofList name.toList, 0⟩ d) = .ok b ↔
        (-128 ≤ a.toNat + d ∧ a.toNat + d ≤ 255) ∧ b = BitVec.ofInt 8 (a.toNat + d) :=
    Symbols.resolve_eq_ok_iff (by
      rw [String.ofList_toList, ← ha]
      exact haddress (.literal 0) name)
  have hread : ReadAs x (displacedText name negative digits) y _ :=
    readAs_displaced hzero hname hdigits
  have hiff := hopen.assembles_iff hrest (operandOrFault_displaced _ _ negative) hread maxErrors
  simp only [written_displaced_iff] at hiff
  have hassembles : (∃ e, assemble (x ++ displacedText name negative digits ++ y) maxErrors =
      .ok e) ↔ ∃ n, Magnitude digits.toList n ∧
        (-32768 ≤ withSign negative n ∧ withSign negative n ≤ 32767) ∧
        (-128 ≤ a.toNat + withSign negative n ∧ a.toNat + withSign negative n ≤ 255) := by
    rw [hiff]
    constructor
    · rintro ⟨_, b, ⟨n, hn, hrange, rfl⟩, hb⟩
      exact ⟨n, hn, hrange, (hresolve.mp hb).1⟩
    · rintro ⟨n, hn, hrange, hfits⟩
      exact ⟨_, _, ⟨n, hn, hrange, rfl⟩, hresolve.mpr ⟨hfits, rfl⟩⟩
  refine ⟨hassembles, fun e n he hn => ?_⟩
  obtain ⟨n', hn', hrange, hfits⟩ := hassembles.mp ⟨e, he⟩
  obtain rfl := hn.unique hn'
  obtain ⟨t, ht, ho⟩ := written_displaced_iff.mpr ⟨n, hn, hrange, rfl⟩
  obtain ⟨e₁, he₁, hmoved⟩ := hopen.assembles hrest (operandOrFault_displaced _ _ _ t ht)
    (ht ▸ hread) ho (hresolve.mpr ⟨hfits, rfl⟩) maxErrors
  obtain rfl : e = e₁ := Except.ok.inj (he.symm.trans he₁)
  obtain ⟨e', he', hmoved'⟩ :=
    hopen.assembles_literal hrest hzero (BitVec.ofInt 8 (a.toNat + withSign negative n)) maxErrors
  refine ⟨?_, _, e', toNat_ofInt_byte _, he', .of_moved (hmoved.trans hmoved'.symm)⟩
  rw [← Executable.address?_moved (fun _ => 0), hmoved, haddress, ha]

/-- **No number in an operand is cut off.** Let a text be read as a number, be it right or wrong: a
decimal digit of any script or a minus sign, and word characters after it. The text can be loaded by
`loadc r1` exactly if it is a numeral and its value is from -128 to 255; the operand in the image is
then the value modulo 256.

Let a source be assembled with a zero in some place, as a token of its own, and let it define a name
at an address. In place of the zero, the name with a displacement can stand exactly if the
displacement is a number, with its sign from -32768 to 32767, and the sum of the address and the
displacement is from -128 to 255. The program is then that with the sum modulo 256 as its operand,
and the name keeps its address. -/
theorem assemble_numeric_operands (maxErrors : Nat) :
    (∀ t : String, isUnsigned t.toList = true ∨ isNegative t.toList = true →
      ((∃ e, assemble ("loadc r1 " ++ t) maxErrors = .ok e) ↔
        ∃ v, Numeral t.toList v ∧ -128 ≤ v ∧ v ≤ 255) ∧
      ∀ e v, assemble ("loadc r1 " ++ t) maxErrors = .ok e → Numeral t.toList v →
        ∃ b : Byte, (b.toNat : Int) = v % 256 ∧
          e.image = [2, 1, b.high, b.low] ++ [0, 0, 0, 0, 15, 0, 0, 0]) ∧
    ∀ (x y : String) (e₀ : Executable) (name digits : String) (negative : Bool) (a : Word),
      assemble (x ++ "0" ++ y) maxErrors = .ok e₀ → IsToken x "0" y →
      e₀.address? name = some a → isWord name.toList = true → isUnsigned digits.toList = true →
      ((∃ e, assemble (x ++ displacedText name negative digits ++ y) maxErrors = .ok e) ↔
        ∃ n, Magnitude digits.toList n ∧
          (-32768 ≤ withSign negative n ∧ withSign negative n ≤ 32767) ∧
          (-128 ≤ a.toNat + withSign negative n ∧ a.toNat + withSign negative n ≤ 255)) ∧
      ∀ e n, assemble (x ++ displacedText name negative digits ++ y) maxErrors = .ok e →
        Magnitude digits.toList n →
        e.address? name = some a ∧ ∃ (b : Byte) (e' : Executable),
          (b.toNat : Int) = (a.toNat + withSign negative n) % 256 ∧
          assemble (x ++ ("0x" ++ Text.hexByte b) ++ y) maxErrors = .ok e' ∧ e'.SameProgram e := by
  refine ⟨fun t ht => ?_, fun x y e₀ name digits negative a h hzero ha hname hdigits => ?_⟩
  · exact assemble_loadc ht maxErrors
  · exact assemble_displaced h hzero hname hdigits ha negative

/-- Leading zeros and both limits: the least byte as a number and as the target of a jump, the
displacement after it, and a digit of another script. -/
theorem assemble_numeric_operands_limits :
    (∃ e, assemble "loadc r1 -0x0080" 1 = .ok e ∧ e.image = [2, 1, 8, 0, 0, 0, 0, 0, 15, 0, 0, 0]) ∧
    (¬ ∃ e, assemble "loadc r1 ٣" 1 = .ok e) ∧
    (∃ e e', assemble "jump here-0x0084\nhere: halt" 1 = .ok e ∧
      assemble "jump 0x80\nhere: halt" 1 = .ok e' ∧ e'.SameProgram e) ∧
    ¬ ∃ e, assemble "jump here-133\nhere: halt" 1 = .ok e := by
  obtain ⟨hloadc, hdisplaced⟩ := assemble_numeric_operands 1
  have hleast : Numeral "-0x0080".toList (-128) :=
    .negative (@Magnitude.hexadecimal 'x' "0080".toList (.inl rfl) (by decide)
      (List.forall_iff_forall_mem.mp (by decide)))
  have hother : ∀ v, ¬ Numeral "٣".toList v := by
    intro v hv
    obtain ⟨n, hn, -⟩ := (numeral_of_ne_iff (by decide)).mp hv
    cases hn with
    | decimal _ hdigits => exact absurd (hdigits '٣' (by decide)) (by decide)
  -- the program with a zero as its target
  obtain ⟨e₀, he₀, ha⟩ : ∃ e₀, assemble ("jump " ++ "0" ++ "\nhere: halt") 1 = .ok e₀ ∧
      e₀.address? "here" = some 4 :=
    ⟨_, assemble_eq_ok_iff.mpr ⟨by decide +kernel, by decide +kernel, rfl⟩, by decide +kernel⟩
  have hjump := fun digits hdigits =>
    hdisplaced "jump " "\nhere: halt" e₀ "here" digits true 4 he₀ (by decide +kernel) ha (by decide)
      hdigits
  have htarget : Magnitude "0x0084".toList 132 :=
    @Magnitude.hexadecimal 'x' "0084".toList (.inl rfl) (by decide)
      (List.forall_iff_forall_mem.mp (by decide))
  have hpast : Magnitude "133".toList 133 :=
    .decimal (by decide) (List.forall_iff_forall_mem.mp (by decide))
  refine ⟨?_, ?_, ?_, ?_⟩
  · obtain ⟨hiff, himage⟩ := hloadc "-0x0080" (.inr (by decide))
    obtain ⟨e, he⟩ := hiff.mpr ⟨-128, hleast, by decide, by decide⟩
    obtain ⟨b, hb, hcells⟩ := himage e (-128) he hleast
    obtain rfl : b = 0x80#8 := BitVec.eq_of_toNat_eq (Int.ofNat_inj.mp (hb.trans (by decide)))
    exact ⟨e, he, hcells⟩
  · intro hassembled
    obtain ⟨v, hv, -⟩ := (hloadc "٣" (.inl (by decide +kernel))).1.mp hassembled
    exact hother v hv
  · obtain ⟨hiff, hprogram⟩ := hjump "0x0084" (by decide)
    obtain ⟨e, he⟩ := hiff.mpr ⟨132, htarget, by decide, by decide⟩
    obtain ⟨-, b, e', hb, he', hsame⟩ := hprogram e 132 he htarget
    obtain rfl : b = 0x80#8 := BitVec.eq_of_toNat_eq (Int.ofNat_inj.mp (hb.trans (by decide)))
    exact ⟨e, e', he, he', hsame⟩
  · intro hassembled
    obtain ⟨n, hn, -, hfits⟩ := (hjump "133" (by decide)).1.mp hassembled
    obtain rfl := hpast.unique hn
    exact absurd hfits.1 (by decide)

end Nic
