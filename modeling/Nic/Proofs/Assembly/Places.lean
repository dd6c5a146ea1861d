/-
Where a program stands in its source does not matter.

Both passes carry places along: the first one keeps where a label is defined, both put places into
errors. Nothing else is made from them, so the executable of a program whose places are all moved is
the executable of the program, with the places in its table moved (`build_moved`), and it has errors
exactly if the program has some (`build_errors_moved`).

Two sources that give the same statements up to their places are therefore assembled to the same
image, with the same addresses (`assemble_of_unplaced`).
-/
import Nic.Proofs.Assembly.Image
import Nic.Proofs.Statement.Lines

set_option autoImplicit false

namespace Nic

/-! ## Tables without places -/

namespace Symbols

/-- A table with the places of its labels moved. -/
def moved (f : Nat → Nat) (s : Symbols) : Symbols :=
  { s with labels := s.labels.map fun _ symbol => ⟨symbol.address, f symbol.start⟩ }

/-- The address of each label. -/
def addresses (s : Symbols) : Std.ExtTreeMap String Word :=
  s.labels.map fun _ symbol => symbol.address

theorem addresses_moved (f : Nat → Nat) (s : Symbols) : (s.moved f).addresses = s.addresses :=
  Std.ExtTreeMap.map_map

theorem address?_moved (f : Nat → Nat) (s : Symbols) (name : String) :
    (s.moved f).address? name = s.address? name := by
  rw [address?, find?, moved, Std.ExtTreeMap.getElem?_map, Option.map_map]
  rfl

end Symbols

namespace Executable

/-- An executable with the places of its labels moved. -/
def moved (f : Nat → Nat) (e : Executable) : Executable :=
  ⟨e.image, e.symbols.map (Symbols.moved f)⟩

/-- Two executables are the same program: they have the same image, the same number of
instructions, and each label has the same address. The labels may be defined at different places of
their sources. -/
structure SameProgram (e e' : Executable) : Prop where
  image : e'.image = e.image
  instrCount : e'.symbols.map (·.instrCount) = e.symbols.map (·.instrCount)
  addresses : e'.symbols.map Symbols.addresses = e.symbols.map Symbols.addresses

theorem SameProgram.of_moved {f : Nat → Nat} {e e' : Executable} (h : e'.moved f = e.moved f) :
    SameProgram e e' := by
  have hsymbols : ∀ {α : Type} (g : Symbols → α), (∀ s, g (s.moved f) = g s) →
      e'.symbols.map g = e.symbols.map g := by
    intro α g hg
    have hmap := congrArg (fun e => e.symbols.map g) h
    simp only [moved, Option.map_map, Function.comp_def, hg] at hmap
    exact hmap
  have himage := congrArg Executable.image h
  exact ⟨himage, hsymbols _ fun _ => rfl, hsymbols _ (Symbols.addresses_moved f)⟩

end Executable

variable (f : Nat → Nat)

/-! ## The first pass -/

namespace Statement

theorem defined?_moved (s : Statement) : (s.moved f).defined? = s.defined?.map (Label.moved f) := by
  obtain ⟨body, span⟩ := s
  cases body <;> rfl

theorem key?_moved (s : Statement) : (s.moved f).key? = s.key? := by
  rw [key?, key?, defined?_moved, Option.map_map]
  rfl

theorem dataSize_moved (s : Statement) : (s.moved f).dataSize = s.dataSize := by
  obtain ⟨body, span⟩ := s
  cases body with
  | word label values => simp [moved, Body.moved, dataSize, valueCount]
  | _ => rfl

theorem isInstr_moved (b : Body) : (b.moved f).isInstr = b.isInstr := by
  cases b <;> rfl

variable (program : List Statement)

theorem filterMap_key?_moved :
    (program.map (moved f)).filterMap key? = program.filterMap key? := by
  rw [List.filterMap_map]
  exact List.filterMap_congr fun s _ => key?_moved f s

theorem instrCount_moved : instrCount (program.map (moved f)) = instrCount program := by
  rw [instrCount, List.countP_map]
  congr 1
  funext s
  exact isInstr_moved f s.body

theorem dataSizes_moved : dataSizes (program.map (moved f)) = dataSizes program := by
  rw [dataSizes, dataSizes, List.map_map]
  congr 2
  funext s
  exact dataSize_moved f s

theorem programSize_moved : programSize (program.map (moved f)) = programSize program := by
  rw [programSize, programSize, instrCount_moved, dataSizes_moved]

theorem addressAfter_moved (d : Nat) (s : Statement) :
    (s.moved f).addressAfter d (program.map (moved f)) = s.addressAfter d program := by
  obtain ⟨body, span⟩ := s
  cases body <;> simp only [addressAfter, moved, Body.moved, instrCount_moved, dataSizes_moved]

/-- The first definition of a name moves with its statement. -/
theorem firstDefinition?_moved (d : Nat) (key : String) :
    firstDefinition? d (program.map (moved f)) key =
      (firstDefinition? d program key).map fun (label, address) => (label.moved f, address) := by
  induction program using List.reverseRecOn with
  | nil => rfl
  | append_singleton xs s ih =>
    rw [List.map_append, List.map_singleton, firstDefinition?_concat, firstDefinition?_concat,
      Option.map_or, ih, defined?_moved, addressAfter_moved]
    congr 1
    cases s.defined? with
    | none => rfl
    | some label =>
      simp only [Option.map_some, Option.bind_some, Label.moved]
      split <;> rfl

theorem nameAddress?_moved (name : String) :
    nameAddress? (program.map (moved f)) name = nameAddress? program name := by
  rw [nameAddress?, instrCount_moved, firstDefinition?_moved, Option.map_map]
  rfl

end Statement

open Statement

/-- **The table of a moved program is its table, moved.** -/
theorem symbolsOf_moved (program : List Statement) :
    (symbolsOf (program.map (Statement.moved f))).1 = (symbolsOf program).1.moved f := by
  have hlabels : (Layout.ofStatements (program.map (Statement.moved f))).labels =
      (Layout.ofStatements program).labels.map fun _ symbol =>
        ⟨symbol.address, f symbol.start⟩ := by
    refine Std.ExtTreeMap.ext_getElem? fun key => ?_
    rw [Std.ExtTreeMap.getElem?_map, Layout.ofStatements_eq, Layout.ofStatements_eq,
      Layout.upTo_labels, Layout.upTo_labels, instrCount_moved, firstDefinition?_moved,
      Option.map_map, Option.map_map]
    rfl
  have hdata : (Layout.ofStatements (program.map (Statement.moved f))).data =
      (Layout.ofStatements program).data := by
    rw [Layout.ofStatements_eq, Layout.ofStatements_eq, Layout.upTo_data, Layout.upTo_data,
      instrCount_moved, dataSizes_moved]
  rw [symbolsOf, symbolsOf, Symbols.moved, hlabels, hdata, instrCount_moved]

/-! ## The second pass

A result is the same up to the place of its error, which `toOption` leaves out. -/

theorem resolve_moved (s : Symbols) (x : Operand) :
    ((s.moved f).resolve (x.moved f)).toOption = (s.resolve x).toOption := by
  cases x with
  | literal value => rfl
  | address label offset =>
    simp only [Symbols.resolve, Operand.moved, Label.moved, Symbols.address?_moved]
    cases s.address? label.name with
    | none => rfl
    | some address =>
      dsimp only
      cases Byte.fit? (address.toNat + offset) <;> rfl

theorem toOption_map {ε α β : Type} (g : α → β) (r : Except ε α) :
    (g <$> r).toOption = r.toOption.map g := by
  cases r <;> rfl

theorem toInstr_moved (s : Symbols) (i : SourceInstr) :
    ((i.moved f).toInstr (s.moved f)).toOption = (i.toInstr s).toOption := by
  cases i <;> simp only [SourceInstr.moved, SourceInstr.toInstr, toOption_map, resolve_moved]

theorem bitsOf_eq {ε : Type} {w : Nat} (r : Except ε (BitVec w)) :
    bitsOf r = r.toOption.getD 0 := by
  cases r <;> rfl

theorem words_moved (s : Symbols) (st : Statement) :
    ((st.moved f).words (s.moved f)).map bitsOf = (st.words s).map bitsOf := by
  obtain ⟨body, span⟩ := st
  cases body with
  | instr i =>
    simp only [Statement.words, Statement.moved, Statement.Body.moved, List.map_singleton,
      bitsOf_eq, toOption_map, toInstr_moved]
  | _ => rfl

theorem bytes_moved (s : Symbols) (st : Statement) :
    ((st.moved f).bytes (s.moved f)).map bitsOf = (st.bytes s).map bitsOf := by
  obtain ⟨body, span⟩ := st
  cases body with
  | word label values =>
    cases values with
    | nil => rfl
    | cons x values =>
      simp only [Statement.bytes, Statement.moved, Statement.Body.moved, List.map_cons,
        List.map_map, bitsOf_eq, resolve_moved, Function.comp_def]
  | _ => rfl

/-- The image of a moved program is its image. -/
theorem imageOf_moved (s : Symbols) (program : List Statement) :
    imageOf (s.moved f) (program.map (Statement.moved f)) = imageOf s program := by
  simp only [imageOf, codeCells, dataCells, List.flatMap_map, words_moved, bytes_moved]

/-! ## Both passes -/

/-- **The executable of a moved program is its executable**, with the places in the table moved. -/
theorem build_moved (program : List Statement) :
    (build (program.map (Statement.moved f))).1 = (build program).1.moved f := by
  have hbuild : ∀ p, (build p).1 = ⟨imageOf (symbolsOf p).1 p, some (symbolsOf p).1⟩ := fun _ => rfl
  rw [hbuild, hbuild, symbolsOf_moved, imageOf_moved]
  rfl

theorem operandFault?_moved (program : List Statement) (x : Operand) :
    operandFault? (program.map (Statement.moved f)) (x.moved f) = none ↔
      operandFault? program x = none := by
  cases x with
  | literal value => rfl
  | address label offset =>
    simp only [operandFault?, Operand.moved, Label.moved, nameAddress?_moved]
    cases nameAddress? program label.name with
    | none => simp
    | some address => simp

theorem byteOperands_moved (s : Statement) :
    (s.moved f).byteOperands = s.byteOperands.map (Operand.moved f) := by
  obtain ⟨body, span⟩ := s
  cases body with
  | instr i => cases i <;> rfl
  | _ => rfl

/-- A moved program has errors exactly if the program has. -/
theorem build_errors_moved (program : List Statement) :
    (build (program.map (Statement.moved f))).2 = [] ↔ (build program).2 = [] := by
  have hoperands : operandFaults (program.map (Statement.moved f)) = [] ↔
      operandFaults program = [] := by
    simp [operandFaults, byteOperands_moved, operandFault?_moved]
  rw [build_errors_eq_nil_iff, build_errors_eq_nil_iff, filterMap_key?_moved, programSize_moved,
    hoperands]

/-! ## Sources -/

theorem exists_of_isOk {ε α : Type} {r : Except ε α} (h : r.isOk = true) : ∃ a, r = .ok a := by
  cases r with
  | error e => cases h
  | ok a => exact ⟨a, rfl⟩

/-- A source is assembled to the executable of a program if it is read as this program, up to
places, and nothing is wrong with it. -/
theorem assemble_of_build {source : String} {maxErrors : Nat} {program : List Statement}
    {g : Nat → Nat} (hbuild : (build program).2 = []) (herrors : (parse source).errors = [])
    (hstatements : (parse source).statements.map (Statement.moved g) =
      program.map (Statement.moved g)) :
    ∃ e, assemble source maxErrors = .ok e ∧ (build program).1.SameProgram e := by
  refine ⟨_, assemble_eq_ok_iff.mpr ⟨herrors, ?_, rfl⟩, .of_moved (f := g) ?_⟩
  · rwa [← build_errors_moved g, hstatements, build_errors_moved]
  · rw [← build_moved, hstatements, build_moved]

/-- **Only the statements count, not their places.** -/
theorem assemble_of_unplaced {source source' : String} {maxErrors : Nat} {e : Executable}
    {g : Nat → Nat} (h : assemble source maxErrors = .ok e)
    (herrors : (parse source').errors = [])
    (hstatements : (parse source').statements.map (Statement.moved g) =
      (parse source).statements.map (Statement.moved g)) :
    ∃ e', assemble source' maxErrors = .ok e' ∧ e.SameProgram e' := by
  obtain ⟨-, hbuild, rfl⟩ := assemble_eq_ok_iff.mp h
  exact assemble_of_build hbuild herrors hstatements

end Nic
