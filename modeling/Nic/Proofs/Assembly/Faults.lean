/-
The errors of a program, said without the two passes that find them.

The passes find three kinds of faults: a name that an earlier statement defines already, a size
past the end of memory, and an operand that has no value. Each kind is a list of its own here,
made from the statements alone, and the errors of a source without errors in its lines are these
three lists together (`build_errors_perm`), each fault once. So a source is assembled exactly
if its names differ, every name it uses is defined and gives the value of a byte, and its image
fits into memory.

Errors are compared as lists up to order: they are sorted by place before they are reported, and
the two faults of one place may come from different passes.
-/
import Mathlib.Data.List.Nodup
import Mathlib.Data.List.Perm.Basic
import Nic.Assembly
import Nic.Proofs.Assembly.Layout

set_option autoImplicit false

namespace Nic

namespace Statement

/-! ## Operands without a value -/

/-- The byte operands of a statement, in order. -/
def byteOperands (s : Statement) : List Operand :=
  match s.body with
  | .instr i => i.operand?.toList
  | .label _ => []
  | .word _ values => values

theorem mem_labels_of_byteOperands {s : Statement} {label : Label} {offset : Int}
    (h : .address label offset ∈ s.byteOperands) : (label, offset) ∈ s.body.labels := by
  unfold byteOperands at h
  split at h
  next i hbody =>
    rw [hbody, Body.labels, Option.mem_toList.mp h]
    exact List.mem_cons_self
  · cases h
  next name values hbody =>
    rw [hbody, Body.labels]
    apply List.mem_cons_of_mem
    exact List.mem_filterMap.mpr ⟨_, h, rfl⟩

/-- The address of a name in a program: that of its first definition. -/
def nameAddress? (program : List Statement) (name : String) : Option Nat :=
  (firstDefinition? (dataStart (instrCount program)) program (Text.uppercase name)).map (·.2)

/-- The value of a label and its displacement, in a program that defines it. Addresses are kept
up to 65535. -/
def operandValue (address : Nat) (offset : Int) : Int :=
  (min address 65535 : Nat) + offset

/-- What is wrong with an operand: its label is not defined, or its value is not that of a byte.
-/
def operandFault? (program : List Statement) : Operand → Option AssemblyError
  | .literal _ => none
  | .address label offset =>
    match nameAddress? program label.name with
    | none => some (.ofSpan .undefinedLabel label.span)
    | some address =>
      if -128 ≤ operandValue address offset ∧ operandValue address offset ≤ 255 then none
      else some (.ofSpan (.exceedsByte (operandValue address offset)) label.span)

/-- What is wrong with the operands of a program, in order. -/
def operandFaults (program : List Statement) : List AssemblyError :=
  program.flatMap fun s => s.byteOperands.filterMap (operandFault? program)

end Statement

theorem Byte.fit?_of_mem {v : Int} (h : -128 ≤ v ∧ v ≤ 255) :
    Byte.fit? v = some (BitVec.ofInt 8 v) :=
  if_pos h

theorem Byte.fit?_of_not_mem {v : Int} (h : ¬ (-128 ≤ v ∧ v ≤ 255)) : Byte.fit? v = none :=
  if_neg h

open Statement

/-- The table of a program has, for each name, the address of its first definition. -/
theorem symbolsOf_address? (program : List Statement) (name : String) :
    (symbolsOf program).1.address? name =
      (nameAddress? program name).map fun address => BitVec.ofNat 16 (min address 65535) := by
  have hfind : (symbolsOf program).1.find? name =
      (Layout.upTo (dataStart (instrCount program)) program).labels[Text.uppercase name]? := rfl
  rw [Symbols.address?, hfind, Layout.upTo_labels, nameAddress?, Option.map_map, Option.map_map]
  rfl

/-- What is in the table of a program was defined by a statement. -/
theorem exists_of_symbolsOf_labels {program : List Statement} {name : String} {symbol : Symbol}
    (h : (symbolsOf program).1.labels[name]? = some symbol) :
    ∃ s ∈ program, ∃ label, s.defined? = some label ∧ Text.uppercase label.name = name ∧
      symbol.start = label.start := by
  have hfirst : (Layout.upTo (dataStart (instrCount program)) program).labels[name]? =
      some symbol := h
  rw [Layout.upTo_labels] at hfirst
  obtain ⟨⟨label, address⟩, hdefinition, rfl⟩ := Option.map_eq_some_iff.mp hfirst
  obtain ⟨s, hs, hlabel, hname⟩ := mem_of_firstDefinition? hdefinition
  exact ⟨s, hs, label, hlabel, hname, rfl⟩

theorem toNat_capped (address : Nat) :
    (BitVec.ofNat 16 (min address 65535)).toNat = min address 65535 := by
  rw [BitVec.toNat_ofNat]
  exact Nat.mod_eq_of_lt (by omega)

/-- An operand has no value exactly if there is something wrong with it. -/
theorem errorOf?_resolve (program : List Statement) (x : Operand) :
    errorOf? ((symbolsOf program).1.resolve x) = operandFault? program x := by
  cases x with
  | literal value => rfl
  | address label offset =>
    rw [Symbols.resolve, operandFault?, symbolsOf_address?]
    cases nameAddress? program label.name with
    | none => rfl
    | some address =>
      -- the table keeps an address up to 65535, and so does `operandValue`
      have hvalue : ((BitVec.ofNat 16 (min address 65535)).toNat : Int) + offset =
          operandValue address offset := by
        rw [toNat_capped, operandValue]
      simp only [Option.map_some, hvalue]
      by_cases h : -128 ≤ operandValue address offset ∧ operandValue address offset ≤ 255
      · rw [Byte.fit?_of_mem h, if_pos h]
        rfl
      · rw [Byte.fit?_of_not_mem h, if_neg h]
        rfl

/-- Making an instruction fails exactly if its operand has no value. -/
theorem errorOf?_toInstr (symbols : Symbols) (i : SourceInstr) :
    errorOf? (i.toInstr symbols) = i.operand?.bind fun x => errorOf? (symbols.resolve x) := by
  -- only three kinds of instructions have a byte operand
  cases i with
  | imm op a x =>
    rw [SourceInstr.toInstr, SourceInstr.operand?, Option.bind_some]
    cases symbols.resolve x <;> rfl
  | jump x =>
    rw [SourceInstr.toInstr, SourceInstr.operand?, Option.bind_some]
    cases symbols.resolve x <;> rfl
  | jumpIf cond a x =>
    rw [SourceInstr.toInstr, SourceInstr.operand?, Option.bind_some]
    cases symbols.resolve x <;> rfl
  | _ => rfl

theorem errorOf?_map {α β : Type} (f : α → β) (r : Except AssemblyError α) :
    errorOf? (f <$> r) = errorOf? r := by
  cases r <;> rfl

/-- The errors of a statement are those of its operands, one by one. -/
theorem Statement.errors_eq (symbols : Symbols) (s : Statement) :
    s.errors symbols = s.byteOperands.filterMap fun x => errorOf? (symbols.resolve x) := by
  rw [Statement.errors, Statement.words, Statement.bytes, byteOperands]
  cases s.body with
  | instr i =>
    simp only [List.filterMap_nil, List.append_nil]
    rw [List.filterMap_cons, errorOf?_map, errorOf?_toInstr]
    cases i.operand? with
    | none => rfl
    | some x => simp [List.filterMap_cons]
  | label label => rfl
  | word label values =>
    -- without values there is a zero byte, which is no operand and has no error
    cases values with
    | nil => rfl
    | cons x values => simp only [List.filterMap_nil, List.nil_append, List.filterMap_map]; rfl

theorem operandErrors_eq (program : List Statement) :
    operandErrors (symbolsOf program).1 program = operandFaults program := by
  rw [operandErrors, operandFaults]
  congr 1
  funext s
  rw [Statement.errors_eq]
  congr 1
  funext x
  exact errorOf?_resolve program x

/-! ## When there are no faults -/

namespace Statement

/-- No statement defines a name once more exactly if all names differ. -/
theorem duplicates_eq_nil_iff {d : Nat} {program : List Statement} :
    duplicates d program = [] ↔ (program.filterMap key?).Nodup := by
  induction program using List.reverseRecOn with
  | nil => simp [duplicates]
  | append_singleton xs s ih =>
    -- the last statement has no error exactly if its name is not among those before
    have hs : (duplicate? d xs s).toList = [] ↔ ∀ key ∈ s.key?, key ∉ xs.filterMap key? := by
      rw [duplicate?, key?]
      cases s.defined? with
      | none => simp
      | some label =>
        have hmem : Text.uppercase label.name ∈ xs.filterMap key? ↔
            (firstDefinition? d xs (Text.uppercase label.name)).isSome := by
          rw [firstDefinition?_isSome, List.mem_filterMap]
        simp only [Option.bind_some, Option.map_some, Option.mem_def, Option.some.injEq,
          forall_eq', hmem]
        cases firstDefinition? d xs (Text.uppercase label.name) <;> simp
    rw [duplicates_concat, List.append_eq_nil_iff, ih, hs, List.filterMap_append,
      List.nodup_append]
    cases hk : s.key? with
    | none => simp [hk]
    | some key =>
      simp only [List.filterMap_cons, hk, List.filterMap_nil, List.nodup_singleton,
        List.mem_singleton, Option.mem_def, Option.some.injEq, forall_eq', true_and]
      constructor
      · rintro ⟨hnodup, hnew⟩
        refine ⟨hnodup, ?_⟩
        rintro k hkeys _ rfl rfl
        exact hnew hkeys
      · rintro ⟨hnodup, hnew⟩
        exact ⟨hnodup, fun hkeys => hnew key hkeys key rfl rfl⟩

theorem nameAddress?_eq_none_iff {program : List Statement} {name : String} :
    nameAddress? program name = none ↔ ∀ s ∈ program, s.key? ≠ some (Text.uppercase name) := by
  rw [nameAddress?, Option.map_eq_none_iff, ← Option.not_isSome_iff_eq_none,
    firstDefinition?_isSome]
  simp only [not_exists, not_and]

/-- Nothing is wrong with an operand exactly if its label is defined and the value is that of a
byte. -/
theorem operandFault?_eq_none_iff {program : List Statement} {x : Operand} :
    operandFault? program x = none ↔
      ∀ label offset, x = .address label offset →
        ∃ address, nameAddress? program label.name = some address ∧
          -128 ≤ operandValue address offset ∧ operandValue address offset ≤ 255 := by
  cases x with
  | literal value => simp [operandFault?]
  | address label offset =>
    rw [operandFault?]
    cases ha : nameAddress? program label.name with
    | none => simp [ha]
    | some address =>
      constructor
      · intro h label' offset' heq
        obtain ⟨rfl, rfl⟩ := Operand.address.inj heq
        refine ⟨address, ha, ?_⟩
        by_contra hrange
        simp [hrange] at h
      · intro h
        obtain ⟨address', ha', hrange⟩ := h label offset rfl
        obtain rfl : address = address' := Option.some.inj (ha ▸ ha')
        simp [hrange]

/-- Nothing is wrong with the operands of a program exactly if every label in them is defined and
gives the value of a byte. -/
theorem operandFaults_eq_nil_iff {program : List Statement} :
    operandFaults program = [] ↔
      (∀ s ∈ program, ∀ label offset, .address label offset ∈ s.byteOperands →
        ∃ t ∈ program, t.key? = some (Text.uppercase label.name)) ∧
      (∀ s ∈ program, ∀ label offset, .address label offset ∈ s.byteOperands →
        ∀ address, nameAddress? program label.name = some address →
          -128 ≤ operandValue address offset ∧ operandValue address offset ≤ 255) := by
  simp only [operandFaults, List.flatMap_eq_nil_iff, List.filterMap_eq_nil_iff,
    operandFault?_eq_none_iff]
  constructor
  · intro h
    refine ⟨?_, ?_⟩
    · intro s hs label offset hx
      obtain ⟨address, ha, -⟩ := h s hs _ hx label offset rfl
      by_contra hnone
      have hundefined : nameAddress? program label.name = none :=
        nameAddress?_eq_none_iff.mpr fun t ht hk => hnone ⟨t, ht, hk⟩
      rw [hundefined] at ha
      cases ha
    · intro s hs label offset hx address ha
      obtain ⟨address', ha', hrange⟩ := h s hs _ hx label offset rfl
      rw [ha] at ha'
      cases ha'
      exact hrange
  · rintro ⟨hdefined, hrange⟩ s hs x hx label offset rfl
    -- the name is defined, so it has an address, and the range is known for that address
    obtain ⟨t, ht, hk⟩ := hdefined s hs label offset hx
    cases ha : nameAddress? program label.name with
    | none => exact absurd hk (nameAddress?_eq_none_iff.mp ha t ht)
    | some address => exact ⟨address, rfl, hrange s hs label offset hx address ha⟩

/-- The size is reported once if the program is too large, and not at all otherwise. -/
theorem sizeFault?_toList (program : List Statement) :
    if 256 < programSize program then
      ∃ cells span, (sizeFault? (dataStart (instrCount program)) program).toList =
        [.ofSpan (.programTooLarge cells) span]
    else (sizeFault? (dataStart (instrCount program)) program).toList = [] := by
  -- there is at most one such error, and it is there exactly if the program is too large
  have hiff := sizeFault?_isSome_iff program
  rw [memoryCells] at hiff
  cases hsize : sizeFault? (dataStart (instrCount program)) program with
  | none =>
    rw [hsize] at hiff
    rw [if_neg (fun hlt => Bool.false_ne_true (hiff.mpr hlt))]
    rfl
  | some e =>
    rw [hsize] at hiff
    obtain ⟨cells, s, -, rfl⟩ := sizeFault?_eq_some hsize
    rw [if_pos (hiff.mp rfl)]
    exact ⟨cells, s.span, rfl⟩

end Statement

/-! ## Sources -/

/-- The errors that an outcome reports. -/
def reportedBy : Except Diagnostics Executable → List AssemblyError
  | .ok _ => []
  | .error diagnostics => diagnostics.errors

theorem build_errors (program : List Statement) :
    (build program).2 = (Layout.ofStatements program).errors.toList ++
      operandErrors (symbolsOf program).1 program := rfl

/-- Both passes together find each fault once. -/
theorem build_errors_perm (program : List Statement) :
    (build program).2.Perm (duplicates (dataStart (instrCount program)) program ++
      (sizeFault? (dataStart (instrCount program)) program).toList ++ operandFaults program) := by
  rw [build_errors, operandErrors_eq, Layout.ofStatements_eq]
  exact (Layout.upTo_errors_perm _ _).append_right _

theorem build_errors_eq_nil_iff (program : List Statement) :
    (build program).2 = [] ↔ (program.filterMap key?).Nodup ∧
      operandFaults program = [] ∧ programSize program ≤ memoryCells := by
  rw [← List.length_eq_zero_iff, (build_errors_perm program).length_eq, List.length_eq_zero_iff,
    List.append_eq_nil_iff, List.append_eq_nil_iff, duplicates_eq_nil_iff, and_assoc,
    Option.toList_eq_nil_iff, ← Option.not_isSome_iff_eq_none, sizeFault?_isSome_iff, Nat.not_lt,
    and_comm (a := programSize program ≤ memoryCells)]

/-- Only a source whose lines have no error and whose program has none is assembled. -/
theorem assemble_eq_ok_iff {source : String} {maxErrors : Nat} {e : Executable} :
    assemble source maxErrors = .ok e ↔ (parse source).errors = [] ∧
      (build (parse source).statements).2 = [] ∧ (build (parse source).statements).1 = e := by
  rw [assemble, assembleAll]
  by_cases hp : (parse source).errors = []
  · by_cases hb : (build (parse source).statements).2 = [] <;> simp [hp, hb, Except.mapError]
  · simp [hp, Except.mapError]

theorem AssemblyError.sort_eq_nil_iff {errors : List AssemblyError} :
    sort errors = [] ↔ errors = [] := by
  rw [← List.length_eq_zero_iff, sort, List.length_mergeSort, List.length_eq_zero_iff]

/-- Statements are assembled if there is no error at all. -/
theorem assembleStatements_eq_ok_iff {program : List Statement} {e : Executable} :
    assembleStatements program = .ok e ↔ (build program).2 = [] ∧ (build program).1 = e := by
  rw [assembleStatements, ← AssemblyError.sort_eq_nil_iff]
  dsimp only
  cases AssemblyError.sort (build program).2 <;> simp

/-- What is reported of a source whose lines have no error. -/
theorem reportedBy_assemble {source : String} (h : (parse source).errors = []) (maxErrors : Nat) :
    reportedBy (assemble source maxErrors) =
      reportedErrors maxErrors (AssemblyError.sort (build (parse source).statements).2) := by
  rw [assemble, assembleAll]
  by_cases hb : (build (parse source).statements).2 = []
  · simp [h, hb, Except.mapError, reportedBy, reportedErrors, AssemblyError.sort]
  · simp [h, hb, Except.mapError, reportedBy]

/-- **Exactly the faults that are there are reported.** Take a source whose lines have no error,
and ask for at least as many errors as it has. Then the errors are, in some order, one for each
definition of a name that is defined before, one about the size if the program has more than 256
cells, and one for each operand whose label is not defined or whose value is not that of a byte.

So the source is assembled, whatever number of errors is asked for, exactly if its names differ,
each label that it uses is defined, each value fits into a byte, and the image into memory. -/
theorem assemble_reports_faults (source : String) (h : (parse source).errors = []) :
    let program := (parse source).statements
    let again := duplicates (dataStart (instrCount program)) program
    (∃ oversize : List AssemblyError,
      (if 256 < programSize program then
          ∃ cells span, oversize = [.ofSpan (.programTooLarge cells) span]
        else oversize = []) ∧
      ∀ maxErrors, (again ++ oversize ++ operandFaults program).length ≤ maxErrors →
        (reportedBy (assemble source maxErrors)).Perm
          (again ++ oversize ++ operandFaults program)) ∧
    ∀ maxErrors, (∃ e, assemble source maxErrors = .ok e) ↔
      (program.filterMap key?).Nodup ∧
      (∀ s ∈ program, ∀ label offset, .address label offset ∈ s.byteOperands →
        ∃ t ∈ program, t.key? = some (Text.uppercase label.name)) ∧
      (∀ s ∈ program, ∀ label offset, .address label offset ∈ s.byteOperands →
        ∀ address, nameAddress? program label.name = some address →
          -128 ≤ operandValue address offset ∧ operandValue address offset ≤ 255) ∧
      programSize program ≤ 256 := by
  intro program again
  refine ⟨⟨_, sizeFault?_toList program, ?_⟩, ?_⟩
  · intro maxErrors hmax
    -- sorting only changes the order, and nothing is cut off
    have hsort : (AssemblyError.sort (build program).2).Perm _ :=
      (List.mergeSort_perm _ _).trans (build_errors_perm program)
    rw [reportedBy_assemble h, reportedErrors, List.take_of_length_le]
    · exact hsort
    · rw [hsort.length_eq]
      exact Nat.le_trans hmax (Nat.le_max_left _ _)
  · intro maxErrors
    have hok : (∃ e, assemble source maxErrors = .ok e) ↔ (build program).2 = [] := by
      simp only [assemble_eq_ok_iff, h, true_and]
      exact ⟨fun ⟨_, hb, _⟩ => hb, fun hb => ⟨_, hb, rfl⟩⟩
    rw [hok, build_errors_eq_nil_iff, operandFaults_eq_nil_iff, and_assoc]
    rfl

/-- A name defined twice, an unknown name and a value out of range, in one source. -/
theorem assemble_reports_faults_of_each_operand :
    (parse "a: a: jump b\nload r1 a-200").errors = [] ∧
      (reportedBy (assemble "a: a: jump b\nload r1 a-200" 10)).Perm
        [⟨.duplicateLabel, ⟨0, 1⟩, some ⟨3, 4⟩⟩, .ofSpan .undefinedLabel ⟨11, 12⟩,
          .ofSpan (.exceedsByte (-200)) ⟨21, 22⟩] := by
  have h : (parse "a: a: jump b\nload r1 a-200").errors = [] := by decide +kernel
  refine ⟨h, ?_⟩
  obtain ⟨⟨oversize, hsize, hperm⟩, -⟩ := assemble_reports_faults _ h
  rw [if_neg (by decide +kernel)] at hsize
  subst hsize
  refine (hperm 10 (by decide +kernel)).trans (.of_eq ?_)
  decide +kernel

end Nic
