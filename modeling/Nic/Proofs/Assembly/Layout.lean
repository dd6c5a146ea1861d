/-
The layout of a program in closed form.

`Layout.place` walks over the statements with two counters, a table and a list of errors. Here
each of them is said without the walk, in terms of the statements that come before a place:

  - the counters are a number of instructions and a sum of data sizes (`upTo_code`, `upTo_data`);
  - the table has, for each name, what the first statement with that name defines
    (`upTo_labels`);
  - the errors are those of the statements that define a name once more, and at most one about
    the size of the program (`upTo_errors_perm`), which is there exactly when the program has more
    cells than the memory (`sizeFault?_isSome_iff`).

All inductions are on the program from its end, so that a step is one call of `place`: that is
the one place where a counter moves. The address where the data starts depends on statements
that are still to come, and is therefore a number `d` of its own until the program is complete.
-/
import Mathlib.Algebra.Ring.Nat
import Mathlib.Data.List.Basic
import Mathlib.Data.List.Induction
import Nic.Assembly.Layout

set_option autoImplicit false

namespace Nic

namespace Statement

/-! ## What one statement asks for -/

/-- The label that a statement defines. -/
def defined? (s : Statement) : Option Label :=
  match s.body with
  | .instr _ => none
  | .label label => some label
  | .word label _ => some label

/-- The name that a statement defines, as it is kept in the table. -/
def key? (s : Statement) : Option String :=
  s.defined?.map fun label => Text.uppercase label.name

/-- The cells of data of a statement. -/
def dataSize (s : Statement) : Nat :=
  match s.body with
  | .word _ values => valueCells * valueCount values
  | _ => 0

/-- The cells of data of statements that follow each other. -/
def dataSizes (statements : List Statement) : Nat :=
  (statements.map dataSize).sum

/-- The cells of a program. -/
def programSize (statements : List Statement) : Nat :=
  dataStart (instrCount statements) + dataSizes statements

/-- The address of what a statement defines, in a program whose data starts at `d`: the next
instruction for a label, the next data for a `word`. -/
def addressAfter (d : Nat) (earlier : List Statement) (s : Statement) : Nat :=
  match s.body with
  | .word _ _ => d + dataSizes earlier
  | _ => instrCells * instrCount earlier

@[simp] theorem instrCount_nil : instrCount [] = 0 := rfl

theorem instrCount_append (xs ys : List Statement) :
    instrCount (xs ++ ys) = instrCount xs + instrCount ys :=
  List.countP_append

theorem instrCount_concat (xs : List Statement) (s : Statement) :
    instrCount (xs ++ [s]) = instrCount xs + if s.body.isInstr then 1 else 0 := by
  rw [instrCount_append]
  congr 1
  exact List.countP_singleton

@[simp] theorem dataSizes_nil : dataSizes [] = 0 := rfl

theorem dataSizes_append (xs ys : List Statement) :
    dataSizes (xs ++ ys) = dataSizes xs + dataSizes ys := by
  rw [dataSizes, List.map_append, List.sum_append]
  rfl

theorem dataSizes_concat (xs : List Statement) (s : Statement) :
    dataSizes (xs ++ [s]) = dataSizes xs + s.dataSize := by
  rw [dataSizes_append]
  rfl

theorem dataStart_eq (n : Nat) : dataStart n = 4 * (n + 2) := rfl

/-! ## Statements and those before them -/

/-- Each statement of a program, after the statements before it. -/
def withEarlier (statements : List Statement) : List (List Statement × Statement) :=
  statements.zipIdx.map fun (s, i) => (statements.take i, s)

@[simp] theorem withEarlier_nil : withEarlier [] = [] := rfl

theorem withEarlier_concat (xs : List Statement) (s : Statement) :
    withEarlier (xs ++ [s]) = withEarlier xs ++ [(xs, s)] := by
  -- an index of `xs` never reaches the statement at the end
  have hxs : ∀ p ∈ xs.zipIdx, ((xs ++ [s]).take p.2, p.1) = (xs.take p.2, p.1) := by
    intro p hp
    have hlt : p.2 < xs.length := List.snd_lt_of_mem_zipIdx hp
    rw [List.take_append_of_le_length (Nat.le_of_lt hlt)]
  rw [withEarlier, List.zipIdx_append, List.map_append, List.map_congr_left hxs]
  simp [withEarlier]

theorem mem_withEarlier {statements earlier : List Statement} {s : Statement} :
    (earlier, s) ∈ withEarlier statements ↔ ∃ later, statements = earlier ++ s :: later := by
  induction statements using List.reverseRecOn with
  | nil => simp
  | append_singleton xs t ih =>
    rw [withEarlier_concat, List.mem_append, ih, List.mem_singleton, Prod.mk.injEq]
    constructor
    · rintro (⟨later, rfl⟩ | ⟨rfl, rfl⟩)
      · exact ⟨later ++ [t], by simp⟩
      · exact ⟨[], rfl⟩
    · rintro ⟨later, h⟩
      -- either `s` is the last statement, or the last one is the last of `later`
      rcases List.eq_nil_or_concat' later with rfl | ⟨init, last, rfl⟩
      · obtain ⟨rfl, h⟩ := List.append_inj' h rfl
        exact .inr ⟨rfl, by simpa using h.symm⟩
      · rw [← List.cons_append, ← List.append_assoc] at h
        exact .inl ⟨init, (List.append_inj' h rfl).1⟩

/-! ## The faults of definitions -/

/-- The first definition of a name: the label there, and its address. -/
def firstDefinition? (d : Nat) (statements : List Statement) (key : String) :
    Option (Label × Nat) :=
  (withEarlier statements).findSome? fun (earlier, s) =>
    s.defined?.bind fun label =>
      if Text.uppercase label.name = key then some (label, s.addressAfter d earlier) else none

/-- The error of a statement that defines a name once more. Its first place is that of the first
definition, taken to be as long as the name is in the table. -/
def duplicate? (d : Nat) (earlier : List Statement) (s : Statement) : Option AssemblyError :=
  s.defined?.bind fun label =>
    let key := Text.uppercase label.name
    (firstDefinition? d earlier key).map fun (first, _) =>
      ⟨.duplicateLabel, ⟨first.start, first.start + key.utf8ByteSize⟩, some label.span⟩

/-- The errors of all statements that define a name once more. -/
def duplicates (d : Nat) (statements : List Statement) : List AssemblyError :=
  (withEarlier statements).filterMap fun (earlier, s) => duplicate? d earlier s

/-- The error of a statement at which the program goes past the end of memory: an instruction if
the code so far does with the instructions after it, a `word` if the data so far does. -/
def exceeding? (d : Nat) (earlier : List Statement) (s : Statement) : Option AssemblyError :=
  match s.body with
  | .instr _ =>
    if memoryCells < dataStart (instrCount earlier + 1) then
      some (.ofSpan (.programTooLarge d) s.span)
    else none
  | .label _ => none
  | .word _ _ =>
    let reached := d + dataSizes earlier + s.dataSize
    if memoryCells < reached then some (.ofSpan (.programTooLarge reached) s.span) else none

/-- The error about the size of a program: that of the first statement that has one. -/
def sizeFault? (d : Nat) (statements : List Statement) : Option AssemblyError :=
  (withEarlier statements).findSome? fun (earlier, s) => exceeding? d earlier s

/-! One more statement, at the end: it defines a name only if none before it does, and it is
reported for the size only if none before it is. -/

theorem firstDefinition?_concat (d : Nat) (xs : List Statement) (s : Statement) (key : String) :
    firstDefinition? d (xs ++ [s]) key =
      (firstDefinition? d xs key).or (s.defined?.bind fun label =>
        if Text.uppercase label.name = key then some (label, s.addressAfter d xs) else none) := by
  rw [firstDefinition?, withEarlier_concat, List.findSome?_append, List.findSome?_singleton]
  rfl

theorem key?_eq_some {s : Statement} {key : String} :
    s.key? = some key ↔ ∃ label, s.defined? = some label ∧ Text.uppercase label.name = key :=
  Option.map_eq_some_iff

theorem defined?_eq_some_iff {s : Statement} {label : Label} :
    s.defined? = some label ↔ s.body = .label label ∨ ∃ values, s.body = .word label values := by
  rw [defined?]
  cases s.body <;> simp

/-- A name has a first definition exactly if a statement defines it. -/
theorem firstDefinition?_isSome {d : Nat} {statements : List Statement} {key : String} :
    (firstDefinition? d statements key).isSome ↔ ∃ s ∈ statements, s.key? = some key := by
  induction statements using List.reverseRecOn with
  | nil => simp [firstDefinition?]
  | append_singleton xs s ih =>
    rw [firstDefinition?_concat, Option.isSome_or, Bool.or_eq_true, ih]
    -- the new statement counts by its own name, wherever its address is
    have hs : (s.defined?.bind fun label =>
        if Text.uppercase label.name = key then some (label, s.addressAfter d xs)
        else none).isSome ↔ s.key? = some key := by
      rw [key?]
      cases s.defined? with
      | none => simp
      | some label => simp [Option.isSome_ite]
    rw [hs]
    constructor
    · rintro (⟨t, ht, hk⟩ | hk)
      · exact ⟨t, List.mem_append_left _ ht, hk⟩
      · exact ⟨s, List.mem_append_right _ List.mem_cons_self, hk⟩
    · rintro ⟨t, ht, hk⟩
      rcases List.mem_append.mp ht with ht | ht
      · exact .inl ⟨t, ht, hk⟩
      · rw [← List.mem_singleton.mp ht]
        exact .inr hk

/-- The first definition of a name that no earlier statement defines. -/
theorem firstDefinition?_of_split {d : Nat} {earlier later : List Statement} {s : Statement}
    {label : Label} (hs : s.defined? = some label)
    (hnew : ∀ t ∈ earlier, t.key? ≠ some (Text.uppercase label.name)) :
    firstDefinition? d (earlier ++ s :: later) (Text.uppercase label.name) =
      some (label, s.addressAfter d earlier) := by
  -- what comes later does not come first, so the definition is added last
  induction later using List.reverseRecOn with
  | nil =>
    have hnone : firstDefinition? d earlier (Text.uppercase label.name) = none := by
      rw [← Option.not_isSome_iff_eq_none, firstDefinition?_isSome]
      rintro ⟨t, ht, hk⟩
      exact hnew t ht hk
    rw [firstDefinition?_concat, hnone, Option.none_or, hs, Option.bind_some, if_pos rfl]
  | append_singleton later t ih =>
    rw [← List.cons_append, ← List.append_assoc, firstDefinition?_concat, ih, Option.some_or]

/-- Where the first definition of a name is: no statement before it defines the name. -/
theorem split_of_firstDefinition? {d : Nat} {statements : List Statement} {key : String}
    {label : Label} {address : Nat}
    (h : firstDefinition? d statements key = some (label, address)) :
    ∃ earlier s later, statements = earlier ++ s :: later ∧ s.defined? = some label ∧
      Text.uppercase label.name = key ∧ ∀ t ∈ earlier, t.key? ≠ some key := by
  induction statements using List.reverseRecOn with
  | nil => cases h
  | append_singleton xs s ih =>
    cases hxs : firstDefinition? d xs key with
    | some definition =>
      rw [firstDefinition?_concat, hxs, Option.some_or] at h
      obtain ⟨earlier, t, later, rfl, ht⟩ := ih (hxs.trans h)
      exact ⟨earlier, t, later ++ [s], by simp, ht⟩
    | none =>
      have hnew : ∀ t ∈ xs, t.key? ≠ some key := by
        intro t ht hk
        have hsome := (firstDefinition?_isSome (d := d)).mpr ⟨t, ht, hk⟩
        rw [hxs] at hsome
        cases hsome
      rw [firstDefinition?_concat, hxs, Option.none_or] at h
      obtain ⟨label', hlabel, hkey⟩ := Option.bind_eq_some_iff.mp h
      split at hkey
      · cases hkey
        exact ⟨xs, s, [], rfl, hlabel, ‹_›, hnew⟩
      · cases hkey

theorem mem_of_firstDefinition? {d : Nat} {statements : List Statement} {key : String}
    {label : Label} {address : Nat}
    (h : firstDefinition? d statements key = some (label, address)) :
    ∃ s ∈ statements, s.defined? = some label ∧ Text.uppercase label.name = key := by
  obtain ⟨earlier, s, later, rfl, hs, hkey, -⟩ := split_of_firstDefinition? h
  exact ⟨s, List.mem_append_right _ List.mem_cons_self, hs, hkey⟩

theorem duplicates_concat (d : Nat) (xs : List Statement) (s : Statement) :
    duplicates d (xs ++ [s]) = duplicates d xs ++ (duplicate? d xs s).toList := by
  rw [duplicates, withEarlier_concat, List.filterMap_append]
  cases h : duplicate? d xs s <;> simp [duplicates, h]

theorem sizeFault?_concat (d : Nat) (xs : List Statement) (s : Statement) :
    sizeFault? d (xs ++ [s]) = (sizeFault? d xs).or (exceeding? d xs s) := by
  rw [sizeFault?, withEarlier_concat, List.findSome?_append, List.findSome?_singleton]
  rfl

end Statement

namespace Layout

open Statement

/-! ## One step

`define` touches the table and the errors, `checkSize` the errors and the flag; the counters are
moved by `place` alone. -/

theorem define_of_some {l : Layout} {label : Label} {earlier : Symbol}
    (h : l.labels[Text.uppercase label.name]? = some earlier) (address : Nat) :
    l.define label address =
      { l with
        errors := l.errors.push
          ⟨.duplicateLabel, earlier.span (Text.uppercase label.name), some label.span⟩ } := by
  simp only [define, h]

theorem define_of_none {l : Layout} {label : Label}
    (h : l.labels[Text.uppercase label.name]? = none) (address : Nat) :
    l.define label address =
      { l with
        labels := l.labels.insert (Text.uppercase label.name)
          ⟨BitVec.ofNat 16 (min address 65535), label.start⟩ } := by
  simp only [define, h]

@[simp] theorem define_code (l : Layout) (label : Label) (address : Nat) :
    (l.define label address).code = l.code := by
  cases h : l.labels[Text.uppercase label.name]? with
  | some earlier => rw [define_of_some h]
  | none => rw [define_of_none h]

@[simp] theorem define_data (l : Layout) (label : Label) (address : Nat) :
    (l.define label address).data = l.data := by
  cases h : l.labels[Text.uppercase label.name]? with
  | some earlier => rw [define_of_some h]
  | none => rw [define_of_none h]

@[simp] theorem define_exceeded (l : Layout) (label : Label) (address : Nat) :
    (l.define label address).exceeded = l.exceeded := by
  cases h : l.labels[Text.uppercase label.name]? with
  | some earlier => rw [define_of_some h]
  | none => rw [define_of_none h]

/-- A name that has a symbol keeps it; a name without one gets the symbol of the label. -/
theorem define_labels (l : Layout) (label : Label) (address : Nat) (key : String) :
    (l.define label address).labels[key]? =
      l.labels[key]?.or (if Text.uppercase label.name = key then
        some ⟨BitVec.ofNat 16 (min address 65535), label.start⟩ else none) := by
  cases h : l.labels[Text.uppercase label.name]? with
  | some earlier =>
    -- the table is as before, and what it has comes first on the right
    rw [define_of_some h]
    by_cases hk : Text.uppercase label.name = key
    · rw [← hk, h, Option.some_or]
    · rw [if_neg hk, Option.or_none]
  | none =>
    rw [define_of_none h, Std.ExtTreeMap.getElem?_insert]
    by_cases hk : Text.uppercase label.name = key
    · rw [← hk, h, Option.none_or, if_pos rfl, if_pos Std.ReflCmp.compare_self]
    · rw [if_neg hk, Option.or_none, if_neg]
      rwa [Std.LawfulEqCmp.compare_eq_iff_eq]

theorem define_errors (l : Layout) (label : Label) (address : Nat) :
    (l.define label address).errors.toList =
      l.errors.toList ++ (l.labels[Text.uppercase label.name]?.map fun earlier =>
        (⟨.duplicateLabel, earlier.span (Text.uppercase label.name), some label.span⟩ :
          AssemblyError)).toList := by
  cases h : l.labels[Text.uppercase label.name]? with
  | some earlier =>
    rw [define_of_some h, Array.toList_push]
    rfl
  | none =>
    rw [define_of_none h]
    simp

@[simp] theorem checkSize_code (l : Layout) (reached needed : Nat) (span : Span) :
    (l.checkSize reached needed span).code = l.code := by
  unfold checkSize
  split <;> rfl

@[simp] theorem checkSize_data (l : Layout) (reached needed : Nat) (span : Span) :
    (l.checkSize reached needed span).data = l.data := by
  unfold checkSize
  split <;> rfl

@[simp] theorem checkSize_labels (l : Layout) (reached needed : Nat) (span : Span) :
    (l.checkSize reached needed span).labels = l.labels := by
  unfold checkSize
  split <;> rfl

/-- The flag is raised by the first number of cells that is too large, and stays. -/
theorem checkSize_exceeded (l : Layout) (reached needed : Nat) (span : Span) :
    (l.checkSize reached needed span).exceeded =
      (l.exceeded || decide (memoryCells < reached)) := by
  unfold checkSize
  cases h : l.exceeded <;> by_cases hr : memoryCells < reached <;> simp [h, hr]

theorem checkSize_errors (l : Layout) (reached needed : Nat) (span : Span) :
    (l.checkSize reached needed span).errors.toList =
      l.errors.toList ++ if !l.exceeded && memoryCells < reached then
        [.ofSpan (.programTooLarge needed) span] else [] := by
  unfold checkSize
  split
  · simp
  · simp

/-! ## The whole walk -/

/-- The layout after some statements of a program whose data starts at `d`. -/
def upTo (d : Nat) (statements : List Statement) : Layout :=
  statements.foldl (place d) (start d)

theorem ofStatements_eq (statements : List Statement) :
    ofStatements statements = upTo (dataStart (instrCount statements)) statements := rfl

theorem upTo_concat (d : Nat) (xs : List Statement) (s : Statement) :
    upTo d (xs ++ [s]) = place d (upTo d xs) s := by
  rw [upTo, List.foldl_append]
  rfl

theorem upTo_code (d : Nat) (statements : List Statement) :
    (upTo d statements).code = instrCells * instrCount statements := by
  induction statements using List.reverseRecOn with
  | nil => rfl
  | append_singleton xs s ih =>
    rw [upTo_concat, instrCount_concat, place]
    cases hs : s.body <;> simp [ih, Statement.Body.isInstr, Nat.mul_add]

theorem upTo_data (d : Nat) (statements : List Statement) :
    (upTo d statements).data = d + dataSizes statements := by
  induction statements using List.reverseRecOn with
  | nil => rfl
  | append_singleton xs s ih =>
    rw [upTo_concat, dataSizes_concat, place, dataSize]
    cases hs : s.body <;> simp [ih, Nat.add_assoc]

/-- **The table keeps first definitions.** A name has the address and the place of the first
statement that defines it. -/
theorem upTo_labels (d : Nat) (statements : List Statement) (key : String) :
    (upTo d statements).labels[key]? =
      (firstDefinition? d statements key).map fun (label, address) =>
        ⟨BitVec.ofNat 16 (min address 65535), label.start⟩ := by
  induction statements using List.reverseRecOn with
  | nil => exact Std.ExtTreeMap.getElem?_empty
  | append_singleton xs s ih =>
    rw [upTo_concat, firstDefinition?_concat, Option.map_or, ← ih, place, defined?, addressAfter]
    -- the address that `place` defines is a counter, which is known by now
    cases hs : s.body with
    | instr i => simp
    | label label =>
      simp only [define_labels, upTo_code, Option.bind_some]
      congr 1
      split <;> simp
    | word label values =>
      simp only [checkSize_labels, define_labels, upTo_data, Option.bind_some]
      congr 1
      split <;> simp

/-- The flag is raised exactly if some statement so far goes past the end of memory. -/
theorem upTo_exceeded (d : Nat) (statements : List Statement) :
    (upTo d statements).exceeded = (sizeFault? d statements).isSome := by
  induction statements using List.reverseRecOn with
  | nil => rfl
  | append_singleton xs s ih =>
    rw [upTo_concat, sizeFault?_concat, Option.isSome_or, ← ih, place, exceeding?]
    cases hs : s.body with
    | instr i =>
      simp only [checkSize_exceeded, upTo_code]
      congr 1
      split <;> simp_all [dataStart, Nat.mul_add]
    | label label => simp
    | word label values =>
      simp only [checkSize_exceeded, define_exceeded, upTo_data]
      congr 1
      split <;> simp_all [dataSize]

/-- The error of a definition, as the table so far decides it. -/
theorem labels_duplicate (d : Nat) (xs : List Statement) (label : Label) :
    ((upTo d xs).labels[Text.uppercase label.name]?.map fun earlier =>
        (⟨.duplicateLabel, earlier.span (Text.uppercase label.name), some label.span⟩ :
          AssemblyError)) =
      (firstDefinition? d xs (Text.uppercase label.name)).map fun (first, _) =>
        ⟨.duplicateLabel,
          ⟨first.start, first.start + (Text.uppercase label.name).utf8ByteSize⟩,
          some label.span⟩ := by
  rw [upTo_labels, Option.map_map]
  rfl

/-- The error about the size of the program, as the flag so far decides it. -/
theorem size_error_eq {d reached needed : Nat} {xs : List Statement} {s : Statement}
    (h : exceeding? d xs s =
      if memoryCells < reached then some (.ofSpan (.programTooLarge needed) s.span) else none) :
    (if !(upTo d xs).exceeded && memoryCells < reached then
        [AssemblyError.ofSpan (.programTooLarge needed) s.span] else []) =
      if (sizeFault? d xs).isSome then [] else (exceeding? d xs s).toList := by
  rw [h, upTo_exceeded]
  by_cases hr : memoryCells < reached <;> cases sizeFault? d xs <;> simp [hr]

/-- Of two errors that may be there, only the first counts. -/
theorem toList_or {α : Type} (a b : Option α) :
    (a.or b).toList = a.toList ++ if a.isSome then [] else b.toList := by
  cases a <;> simp

/-- **The errors of a layout**: one for each statement that defines a name once more, and one
about the size if there is one. The walk finds them mixed, in the order of the statements. -/
theorem upTo_errors_perm (d : Nat) (statements : List Statement) :
    (upTo d statements).errors.toList.Perm
      (duplicates d statements ++ (sizeFault? d statements).toList) := by
  induction statements using List.reverseRecOn with
  | nil => exact List.Perm.refl _
  | append_singleton xs s ih =>
    -- the errors of the step: that of the definition, then that of the size
    have hstep : (place d (upTo d xs) s).errors.toList =
        (upTo d xs).errors.toList ++ ((duplicate? d xs s).toList ++
          if (sizeFault? d xs).isSome then [] else (exceeding? d xs s).toList) := by
      rw [place, duplicate?, defined?]
      cases hs : s.body with
      | instr i =>
        have hx : exceeding? d xs s = if memoryCells < dataStart (instrCount xs + 1) then
            some (.ofSpan (.programTooLarge d) s.span) else none := by
          rw [exceeding?, hs]
        rw [← size_error_eq hx]
        simp [checkSize_errors, upTo_code, dataStart, Nat.mul_add]
      | label label =>
        have hx : exceeding? d xs s = none := by rw [exceeding?, hs]
        simp [define_errors, labels_duplicate, hx]
      | word label values =>
        have hx : exceeding? d xs s = if memoryCells < d + dataSizes xs + s.dataSize then
            some (.ofSpan (.programTooLarge (d + dataSizes xs + s.dataSize)) s.span)
            else none := by
          rw [exceeding?, hs]
        rw [← size_error_eq hx]
        simp [checkSize_errors, define_errors, labels_duplicate, upTo_data, dataSize, hs]
    rw [upTo_concat, hstep, duplicates_concat, sizeFault?_concat, toList_or]
    refine (ih.append_right _).trans ?_
    -- the new definition comes before the size in the sum, after it in the walk
    rw [List.append_assoc, List.append_assoc]
    exact (List.perm_append_comm_assoc _ _ _).append_left _

end Layout

/-! ## The size of a program -/

namespace Statement

/-- Statements so far go past the end of memory if their code does, or if there is data and the
data does. -/
theorem sizeFault?_isSome (d : Nat) (statements : List Statement) :
    (sizeFault? d statements).isSome ↔
      memoryCells < dataStart (instrCount statements) ∨
        (0 < dataSizes statements ∧ memoryCells < d + dataSizes statements) := by
  induction statements using List.reverseRecOn with
  | nil => simp [sizeFault?, dataStart_eq, memoryCells]
  | append_singleton xs s ih =>
    rw [sizeFault?_concat, Option.isSome_or, Bool.or_eq_true, ih, instrCount_concat,
      dataSizes_concat, exceeding?, dataSize]
    cases hs : s.body with
    | instr i =>
      -- code that was too large before this instruction is too large with it
      simp only [Statement.Body.isInstr, if_true, Nat.add_zero, Option.isSome_ite]
      simp only [dataStart_eq]
      omega
    | label label => simp [Statement.Body.isInstr]
    | word label values =>
      -- a `word` takes cells even without values, so from here on there is data
      have hpos : 0 < valueCells * valueCount values := by
        have : 1 ≤ valueCount values := Nat.le_max_right _ _
        unfold valueCells
        omega
      simp only [Statement.Body.isInstr, Bool.false_eq_true, if_false, Nat.add_zero,
        Option.isSome_ite]
      omega

/-- **The size is reported exactly when it is too large**: the code is checked at instructions
and the data at `word`s, and together they leave no program out. -/
theorem sizeFault?_isSome_iff (statements : List Statement) :
    (sizeFault? (dataStart (instrCount statements)) statements).isSome ↔
      memoryCells < programSize statements := by
  -- without data the size is that of the code, with data that of both
  rw [sizeFault?_isSome, programSize]
  omega

theorem sizeFault?_eq_some {d : Nat} {statements : List Statement} {e : AssemblyError}
    (h : sizeFault? d statements = some e) :
    ∃ cells, ∃ s ∈ statements, e = .ofSpan (.programTooLarge cells) s.span := by
  obtain ⟨⟨earlier, s⟩, hmem, hs⟩ := List.exists_of_findSome?_eq_some h
  obtain ⟨later, hsplit⟩ := mem_withEarlier.mp hmem
  have hmem : s ∈ statements := by
    rw [hsplit]
    exact List.mem_append_right earlier List.mem_cons_self
  dsimp only [exceeding?] at hs
  cases hb : s.body with
  | instr i =>
    rw [hb] at hs
    obtain ⟨-, h⟩ := Option.ite_none_right_eq_some.mp hs
    exact ⟨_, s, hmem, (Option.some.inj h).symm⟩
  | label label =>
    rw [hb] at hs
    cases hs
  | word label values =>
    rw [hb] at hs
    obtain ⟨-, h⟩ := Option.ite_none_right_eq_some.mp hs
    exact ⟨_, s, hmem, (Option.some.inj h).symm⟩

end Statement

end Nic
