/-
The image of a program agrees with its layout.

The two passes never see each other's counters: the first one counts cells to give labels their
addresses, the second one appends digits. What ties them is that an instruction gives four digits
and a value of data two, whatever they are, so that the digits before a statement are as many as
the cells that were counted for the statements before it (`length_codeCells`,
`length_dataCells`). With that, each statement is found in the image at the address that its
label has in the table: the words of the code by `imageOf_word`, the bytes of the data by
`imageOf_byte`.
-/
import Nic.Proofs.Assembly.Faults
import Nic.Proofs.Instruction

set_option autoImplicit false

namespace Nic

open Statement

/-! ## Digits in groups -/

/-- In digits written group by group, a group is found by its number. -/
theorem take_drop_flatMap {α β : Type} {f : α → List β} {k : Nat} (hf : ∀ a, (f a).length = k)
    {xs : List α} {i : Nat} {a : α} (h : xs[i]? = some a) (rest : List β) :
    ((xs.flatMap f ++ rest).drop (k * i)).take k = f a := by
  induction xs generalizing i with
  | nil => simp at h
  | cons x xs ih =>
    rw [List.flatMap_cons, List.append_assoc]
    cases i with
    | zero =>
      obtain rfl : x = a := by simpa using h
      rw [Nat.mul_zero, List.drop_zero, List.take_left' (hf x)]
    | succ i =>
      -- one group is dropped as a whole, the others are left to the induction
      rw [Nat.mul_succ, Nat.add_comm, ← hf x, List.drop_length_add_append, hf x]
      exact ih (by simpa using h)

theorem length_flatMap_const {α β : Type} {f : α → List β} {k : Nat} (hf : ∀ a, (f a).length = k)
    (xs : List α) : (xs.flatMap f).length = k * xs.length := by
  induction xs with
  | nil => rfl
  | cons x xs ih =>
    rw [List.flatMap_cons, List.length_append, hf, ih, List.length_cons, Nat.mul_succ,
      Nat.add_comm]

theorem Byte.length_digits (b : Byte) : (Byte.digits b).length = 2 := rfl

theorem Word.length_digits (w : Word) : (Word.digits w).length = 4 := rfl

theorem length_cellsOfWords (words : List Word) : (cellsOfWords words).length = 4 * words.length :=
  length_flatMap_const Word.length_digits words

theorem length_cellsOfBytes (bytes : List Byte) : (cellsOfBytes bytes).length = 2 * bytes.length :=
  length_flatMap_const Byte.length_digits bytes

/-! ## Where the second pass puts things -/

/-- The instructions of a program, in order. -/
def Statement.instructions (program : List Statement) : List SourceInstr :=
  program.filterMap fun s => match s.body with
    | .instr i => some i
    | _ => none

theorem Statement.mem_instructions {program : List Statement} {i : SourceInstr} :
    i ∈ instructions program ↔ ∃ s ∈ program, s.body = .instr i := by
  rw [instructions, List.mem_filterMap]
  refine exists_congr fun s => and_congr_right fun _ => ?_
  cases s.body <;> simp

theorem Statement.length_instructions (program : List Statement) :
    (instructions program).length = instrCount program := by
  induction program with
  | nil => rfl
  | cons s program ih =>
    -- the count is by `countP`, which is taken apart at the first statement
    have hcount : instrCount (s :: program) = instrCount [s] + instrCount program :=
      instrCount_append [s] program
    rw [hcount, ← ih, instructions, List.filterMap_cons]
    cases hs : s.body <;> simp [instrCount, Statement.Body.isInstr, hs, instructions, Nat.add_comm]

/-- The code is the word of each instruction; one that cannot be made is zero. -/
theorem codeCells_eq (symbols : Symbols) (program : List Statement) :
    codeCells symbols program =
      cellsOfWords ((instructions program).map fun i =>
        bitsOf (Instr.encode <$> i.toInstr symbols)) := by
  rw [codeCells]
  congr 1
  induction program with
  | nil => rfl
  | cons s program ih =>
    rw [instructions] at ih ⊢
    rw [List.flatMap_cons, ih, List.filterMap_cons, Statement.words]
    cases hs : s.body <;> rfl

theorem length_codeCells (symbols : Symbols) (program : List Statement) :
    (codeCells symbols program).length = instrCells * instrCount program := by
  rw [codeCells_eq, length_cellsOfWords, List.length_map, length_instructions]
  rfl

theorem length_bytes (symbols : Symbols) (s : Statement) :
    valueCells * (s.bytes symbols).length = s.dataSize := by
  rw [Statement.bytes, dataSize]
  cases s.body with
  | instr i => rfl
  | label label => rfl
  | word label values =>
    -- both passes make one byte of a `word` without values, each in its own way
    cases values with
    | nil => rfl
    | cons x values =>
      have hmax : valueCount (x :: values) = (x :: values).length :=
        Nat.max_eq_left (Nat.succ_le_succ (Nat.zero_le _))
      simp only [hmax, List.length_map]

theorem dataCells_append (symbols : Symbols) (xs ys : List Statement) :
    dataCells symbols (xs ++ ys) = dataCells symbols xs ++ dataCells symbols ys := by
  simp only [dataCells, cellsOfBytes, List.flatMap_append]

theorem length_dataCells (symbols : Symbols) (program : List Statement) :
    (dataCells symbols program).length = dataSizes program := by
  induction program with
  | nil => rfl
  | cons s program ih =>
    have hs : (dataCells symbols [s]).length = s.dataSize := by
      rw [← length_bytes symbols s, dataCells, length_cellsOfBytes]
      simp [valueCells]
    have hsizes : dataSizes (s :: program) = s.dataSize + dataSizes program :=
      dataSizes_append [s] program
    have happend := dataCells_append symbols [s] program
    rw [List.singleton_append] at happend
    rw [happend, List.length_append, hs, ih, hsizes]

theorem length_imageOf (symbols : Symbols) (program : List Statement) :
    (imageOf symbols program).length = programSize program := by
  rw [imageOf, List.length_append, List.length_append, length_codeCells, length_dataCells,
    programSize, dataStart_eq]
  have htail : tailCells.length = 8 := rfl
  rw [htail, instrCells, Nat.mul_add]

/-- The word of an instruction is in the image at four times its number. -/
theorem imageOf_word {program : List Statement} {i : Nat} {instr : SourceInstr}
    (h : (instructions program)[i]? = some instr) (symbols : Symbols) :
    ((imageOf symbols program).drop (4 * i)).take 4 =
      Word.digits (bitsOf (Instr.encode <$> instr.toInstr symbols)) := by
  rw [imageOf, codeCells_eq, List.append_assoc]
  refine take_drop_flatMap Word.length_digits ?_ _
  rw [List.getElem?_map, h, Option.map_some]

/-- After the code come the two instructions that end every program. -/
theorem imageOf_tail (symbols : Symbols) (program : List Statement) :
    ((imageOf symbols program).drop (4 * instrCount program)).take 8 =
      [0, 0, 0, 0, 0xf, 0, 0, 0] := by
  have hcode : (codeCells symbols program).length = 4 * instrCount program :=
    length_codeCells symbols program
  rw [imageOf, List.append_assoc, ← hcode, List.drop_left]
  exact List.take_left' (rfl : tailCells.length = 8)

/-- A data byte of a statement is in the image after the code, the two instructions, the data of
the statements before, and two digits for each byte before it. -/
theorem imageOf_byte {symbols : Symbols} {program earlier later : List Statement} {s : Statement}
    (hp : program = earlier ++ s :: later) {j : Nat} {r : Except AssemblyError Byte}
    (h : (s.bytes symbols)[j]? = some r) :
    ((imageOf symbols program).drop
        ((codeCells symbols program ++ tailCells ++ dataCells symbols earlier).length +
          2 * j)).take 2 =
      Byte.digits (bitsOf r) := by
  -- the data of the program, split at the statement
  have hs : dataCells symbols program = dataCells symbols earlier ++
      (cellsOfBytes ((s.bytes symbols).map bitsOf) ++ dataCells symbols later) := by
    rw [hp, dataCells_append]
    congr 1
    simp only [dataCells, cellsOfBytes, List.flatMap_cons, List.flatMap_append]
  rw [imageOf, hs, ← List.append_assoc _ (dataCells symbols earlier),
    List.drop_length_add_append]
  refine take_drop_flatMap Byte.length_digits ?_ _
  rw [List.getElem?_map, h, Option.map_some]

theorem getElem?_bytes_word {values : List Operand} {j : Nat} {x : Operand}
    (h : values[j]? = some x) (symbols : Symbols) (label : Label) (span : Span) :
    (Statement.bytes symbols ⟨.word label values, span⟩)[j]? = some (symbols.resolve x) := by
  cases values with
  | nil => simp at h
  | cons y values => simp only [Statement.bytes, List.getElem?_map, h, Option.map_some]

/-! ## Programs without faults -/

/-- Nothing is wrong with a program. -/
structure Statement.FaultFree (program : List Statement) : Prop where
  names : (program.filterMap key?).Nodup
  operands : operandFaults program = []
  size : programSize program ≤ 256

/-- What an assembled source was made from. -/
theorem assemble_ok {source : String} {maxErrors : Nat} {e : Executable}
    (h : assemble source maxErrors = .ok e) :
    FaultFree (parse source).statements ∧
      e = ⟨imageOf (symbolsOf (parse source).statements).1 (parse source).statements,
        some (symbolsOf (parse source).statements).1⟩ := by
  obtain ⟨-, hbuild, he⟩ := assemble_eq_ok_iff.mp h
  obtain ⟨hnames, hoperands, hsize⟩ := (build_errors_eq_nil_iff _).mp hbuild
  exact ⟨⟨hnames, hoperands, hsize⟩, he.symm⟩

namespace Statement.FaultFree

variable {program : List Statement}

/-- Every operand has a value. -/
theorem resolve_ok (h : FaultFree program) {s : Statement} (hs : s ∈ program) {x : Operand}
    (hx : x ∈ s.byteOperands) : ∃ b, (symbolsOf program).1.resolve x = .ok b := by
  have hnone : operandFault? program x = none := by
    have hall := h.operands
    simp only [operandFaults, List.flatMap_eq_nil_iff, List.filterMap_eq_nil_iff] at hall
    exact hall s hs x hx
  rw [← errorOf?_resolve] at hnone
  cases hr : (symbolsOf program).1.resolve x with
  | ok b => exact ⟨b, rfl⟩
  | error e =>
    rw [hr] at hnone
    cases hnone

/-- Every instruction has a machine instruction. -/
theorem toInstr_ok (h : FaultFree program) {i : SourceInstr} (hi : i ∈ instructions program) :
    ∃ instr, i.toInstr (symbolsOf program).1 = .ok instr := by
  obtain ⟨s, hs, hbody⟩ := mem_instructions.mp hi
  have hnone : errorOf? (i.toInstr (symbolsOf program).1) = none := by
    rw [errorOf?_toInstr]
    cases hx : i.operand? with
    | none => rfl
    | some x =>
      have hmem : x ∈ s.byteOperands := by
        rw [byteOperands, hbody]
        exact Option.mem_toList.mpr hx
      obtain ⟨b, hb⟩ := h.resolve_ok hs hmem
      rw [Option.bind_some, hb]
      rfl
  cases hr : i.toInstr (symbolsOf program).1 with
  | ok instr => exact ⟨instr, rfl⟩
  | error e =>
    rw [hr] at hnone
    cases hnone

/-- A statement that defines a name is the first one that does. -/
theorem firstDefinition?_eq (h : FaultFree program) {earlier later : List Statement}
    {s : Statement} {label : Label} (hp : program = earlier ++ s :: later)
    (hs : s.defined? = some label) (d : Nat) :
    firstDefinition? d program (Text.uppercase label.name) =
      some (label, s.addressAfter d earlier) := by
  have hkey : s.key? = some (Text.uppercase label.name) := key?_eq_some.mpr ⟨label, hs, rfl⟩
  subst hp
  refine firstDefinition?_of_split hs fun t ht hk => ?_
  -- an earlier statement with the name would make it occur twice
  have hnodup := h.names
  rw [List.filterMap_append, List.filterMap_cons_some hkey] at hnodup
  exact (List.nodup_append.mp hnodup).2.2 _ (List.mem_filterMap.mpr ⟨t, ht, hk⟩) _
    List.mem_cons_self rfl

/-- The table has each label at its address, which is within memory. -/
theorem address?_eq (h : FaultFree program) {earlier later : List Statement}
    {s : Statement} {label : Label} (hp : program = earlier ++ s :: later)
    (hs : s.defined? = some label) :
    ∃ address, (symbolsOf program).1.address? label.name = some address ∧
      address.toNat = s.addressAfter (dataStart (instrCount program)) earlier := by
  -- no address is past the end of the program, so none is cut off at 65535
  have hle : s.addressAfter (dataStart (instrCount program)) earlier ≤ programSize program := by
    have hcount : instrCount earlier ≤ instrCount program := by
      rw [hp, instrCount_append]
      exact Nat.le_add_right _ _
    have hsizes : dataSizes earlier ≤ dataSizes program := by
      rw [hp, dataSizes_append]
      exact Nat.le_add_right _ _
    rw [addressAfter, programSize, dataStart_eq, instrCells]
    cases s.body <;> dsimp only <;> omega
  have hsize := h.size
  have hfind := symbolsOf_address? program label.name
  rw [nameAddress?, h.firstDefinition?_eq hp hs, Option.map_some, Option.map_some] at hfind
  refine ⟨_, hfind, ?_⟩
  rw [toNat_capped]
  omega

end Statement.FaultFree

/-! ## Both passes -/

/-- **The passes agree.** Let a source with `n` instructions be assembled.

  - The image is as long as the table says: four cells for each instruction and for the two that
    follow the code, two for each value of a `word`, and two for a `word` without values.
  - The cells of the instruction with number `i` start at `4 * i`; they are the digits of a word
    that is read back as the machine instruction of this instruction.
  - The cells after the code are those of `halt` and of a jump to address 0.
  - A label has the address of the instruction after it: four times the instructions before.
  - A `word` has the address at which the second pass puts its first digit. Its value with number
    `j` is a byte, whose digits are `2 * j` cells further on; without values there is a zero byte.
-/
theorem assemble_layout (source : String) (maxErrors : Nat) (e : Executable)
    (h : assemble source maxErrors = .ok e) :
    let program := (parse source).statements
    let n := instrCount program
    ∃ symbols, e.symbols = some symbols ∧
      e.image.length = symbols.imageSize ∧
      symbols.imageSize = 4 * (n + 2) + (program.map dataSize).sum ∧
      (instructions program).length = n ∧
      (∀ i instr, (instructions program)[i]? = some instr →
        ∃ word machineInstr, (e.image.drop (4 * i)).take 4 = Word.digits word ∧
          instr.toInstr symbols = .ok machineInstr ∧ Instr.decode word = some machineInstr) ∧
      (e.image.drop (4 * n)).take 8 = [0, 0, 0, 0, 0xf, 0, 0, 0] ∧
      (∀ earlier label span later, program = earlier ++ ⟨.label label, span⟩ :: later →
        ∃ address, symbols.address? label.name = some address ∧
          address.toNat = 4 * instrCount earlier) ∧
      ∀ earlier label values span later,
        program = earlier ++ ⟨.word label values, span⟩ :: later →
        ∃ address, symbols.address? label.name = some address ∧
          address.toNat = (codeCells symbols program ++ tailCells ++
            dataCells symbols earlier).length ∧
          (values = [] → (e.image.drop address.toNat).take 2 = [0, 0]) ∧
          ∀ j x, values[j]? = some x → ∃ b : Byte, symbols.resolve x = .ok b ∧
            (e.image.drop (address.toNat + 2 * j)).take 2 = [Byte.high b, Byte.low b] := by
  intro program n
  obtain ⟨hfree, rfl⟩ := assemble_ok h
  have hlength : (symbolsOf program).1.imageSize = programSize program := Layout.upTo_data _ _
  refine ⟨_, rfl, ?_, hlength, length_instructions program, ?_, imageOf_tail _ program, ?_, ?_⟩
  · rw [hlength]
    exact length_imageOf _ program
  · intro i instr hi
    obtain ⟨machineInstr, hm⟩ := hfree.toInstr_ok (List.mem_of_getElem? hi)
    refine ⟨machineInstr.encode, machineInstr, ?_, hm, ?_⟩
    · have hword := imageOf_word hi (symbolsOf program).1
      rwa [hm] at hword
    · exact Instr.decode_encode (SourceInstr.toInstr_isAligned hm)
  · intro earlier label span later hp
    exact hfree.address?_eq hp rfl
  · intro earlier label values span later hp
    obtain ⟨address, hfind, haddress⟩ := hfree.address?_eq hp rfl
    -- the cells that were counted are the digits that were written
    have hplace : address.toNat = (codeCells (symbolsOf program).1 program ++ tailCells ++
        dataCells (symbolsOf program).1 earlier).length := by
      rw [haddress, List.length_append, List.length_append, length_codeCells, length_dataCells]
      rfl
    refine ⟨address, hfind, hplace, ?_, ?_⟩
    · rintro rfl
      rw [hplace]
      exact imageOf_byte hp (j := 0) rfl
    · intro j x hx
      have hmem : ⟨.word label values, span⟩ ∈ program := by
        rw [hp]
        exact List.mem_append_right _ List.mem_cons_self
      obtain ⟨b, hb⟩ := hfree.resolve_ok hmem (List.mem_of_getElem? hx)
      refine ⟨b, hb, ?_⟩
      rw [hplace, imageOf_byte hp (getElem?_bytes_word hx _ label span), hb]
      rfl

/-- Data that comes first in the source stands last in the image, and its name is known to the
code before it. -/
theorem assemble_layout_data_first :
    ∃ e, assemble "word d 1 d\nx: jumpn r1 x+1" 1 = .ok e ∧
      e.image.length = 16 ∧ ∃ symbols, e.symbols = some symbols ∧
        ∃ address, symbols.address? "d" = some address ∧
          (e.image.drop (address.toNat + 2 * 0)).take 2 = [0, 1] := by
  have hok : (assemble "word d 1 d\nx: jumpn r1 x+1" 1).isOk = true := by decide +kernel
  cases he : assemble "word d 1 d\nx: jumpn r1 x+1" 1 with
  | error diagnostics =>
    rw [he] at hok
    cases hok
  | ok e =>
    obtain ⟨symbols, hsymbols, hlength, hsize, -, -, -, -, hdata⟩ := assemble_layout _ _ _ he
    have hsum : 4 * (instrCount (parse "word d 1 d\nx: jumpn r1 x+1").statements + 2) +
        ((parse "word d 1 d\nx: jumpn r1 x+1").statements.map dataSize).sum = 16 := by
      decide +kernel
    have hp : (parse "word d 1 d\nx: jumpn r1 x+1").statements =
        [] ++ ⟨.word ⟨"d", 5⟩ [.literal 1, .address ⟨"d", 9⟩ 0], ⟨0, 10⟩⟩ ::
          (parse "word d 1 d\nx: jumpn r1 x+1").statements.tail := by
      decide +kernel
    obtain ⟨address, haddress, -, -, hvalues⟩ := hdata _ _ _ _ _ hp
    obtain ⟨b, hb, hcells⟩ := hvalues 0 (.literal 1) rfl
    obtain rfl : 1 = b := Except.ok.inj hb
    exact ⟨e, rfl, by rw [hlength, hsize, hsum], symbols, hsymbols, address, haddress, hcells⟩

end Nic
