/-
The table of an assembled program.

The addresses of its labels, and those of its `word`s, are two lists in the order of the source
(`addresses`). The first list stays within the code, the second one is strictly increasing in the
data, and the two cannot meet.

The name at an address is found the other way round, by going through all entries of the table and
taking the one that starts first in the source (`earliest?`). Definitions start one after the other,
so it does not matter in which order the entries come, and what is found is the first definition in
the program (`FaultFree.earliest?_eq`).
-/
import Nic.Proofs.Assembly.DefinitionOrder
import Nic.Proofs.Assembly.Image

set_option autoImplicit false

namespace Nic

namespace Statement

/-! ## Labels of code and of data -/

/-- The label that stands for the next instruction. -/
def codeLabel? (s : Statement) : Option Label :=
  match s.body with
  | .label label => some label
  | _ => none

/-- The label that stands for the data of a `word`. -/
def dataLabel? (s : Statement) : Option Label :=
  match s.body with
  | .word label _ => some label
  | _ => none

theorem codeLabel?_eq_some {s : Statement} {label : Label} :
    s.codeLabel? = some label ↔ s.body = .label label := by
  unfold codeLabel?
  cases s.body <;> simp

theorem dataLabel?_eq_some {s : Statement} {label : Label} :
    s.dataLabel? = some label ↔ ∃ values, s.body = .word label values := by
  unfold dataLabel?
  cases s.body <;> simp

theorem defined?_of_codeLabel? {s : Statement} {label : Label} (h : s.codeLabel? = some label) :
    s.defined? = some label :=
  defined?_eq_some_iff.mpr (.inl (codeLabel?_eq_some.mp h))

theorem defined?_of_dataLabel? {s : Statement} {label : Label} (h : s.dataLabel? = some label) :
    s.defined? = some label :=
  defined?_eq_some_iff.mpr (.inr (dataLabel?_eq_some.mp h))

/-- A name is defined for code or for data. -/
theorem mem_defined?_iff {program : List Statement} {label : Label} :
    label ∈ program.filterMap defined? ↔
      label ∈ program.filterMap codeLabel? ∨ label ∈ program.filterMap dataLabel? := by
  simp only [List.mem_filterMap, defined?_eq_some_iff, codeLabel?_eq_some, dataLabel?_eq_some,
    ← exists_or, ← and_or_left]

/-! ## Their addresses -/

/-- The addresses of the labels of one kind, in the order of the program. -/
def addresses (kind : Statement → Option Label) (program : List Statement) : List Nat :=
  (withEarlier program).filterMap fun (earlier, s) =>
    (kind s).map fun _ => s.addressAfter (dataStart (instrCount program)) earlier

theorem mem_addresses {kind : Statement → Option Label} {program : List Statement} {a : Nat} :
    a ∈ addresses kind program ↔ ∃ earlier s later label,
      program = earlier ++ s :: later ∧ kind s = some label ∧
        s.addressAfter (dataStart (instrCount program)) earlier = a := by
  unfold addresses
  rw [List.mem_filterMap]
  constructor
  · rintro ⟨⟨earlier, s⟩, hmem, haddress⟩
    obtain ⟨later, hsplit⟩ := mem_withEarlier.mp hmem
    obtain ⟨label, hlabel, ha⟩ := Option.map_eq_some_iff.mp haddress
    exact ⟨earlier, s, later, label, hsplit, hlabel, ha⟩
  · rintro ⟨earlier, s, later, label, hsplit, hlabel, ha⟩
    refine ⟨(earlier, s), mem_withEarlier.mpr ⟨later, hsplit⟩, ?_⟩
    show (kind s).map _ = some a
    rw [hlabel, Option.map_some, ha]

theorem map_snd_withEarlier (program : List Statement) :
    (withEarlier program).map (·.2) = program := by
  induction program using List.reverseRecOn with
  | nil => rfl
  | append_singleton xs s ih =>
    rw [withEarlier_concat, List.map_append, ih]
    rfl

theorem filterMap_withEarlier (kind : Statement → Option Label) (program : List Statement) :
    (withEarlier program).filterMap (fun p => kind p.2) = program.filterMap kind := by
  conv_rhs => rw [← map_snd_withEarlier program, List.filterMap_map]
  rfl

/-- Labels stand for instructions, or for what follows the last one. -/
theorem bounds_codeAddresses {program : List Statement} {a : Nat}
    (h : a ∈ addresses codeLabel? program) : 4 ∣ a ∧ a ≤ 4 * instrCount program := by
  obtain ⟨earlier, s, later, label, rfl, hlabel, rfl⟩ := mem_addresses.mp h
  unfold addressAfter
  rw [codeLabel?_eq_some.mp hlabel, instrCount_append]
  exact ⟨Nat.dvd_mul_right 4 _, Nat.mul_le_mul_left 4 (Nat.le_add_right _ _)⟩

theorem even_dataSizes (program : List Statement) : 2 ∣ dataSizes program := by
  induction program using List.reverseRecOn with
  | nil => exact Nat.dvd_zero 2
  | append_singleton xs s ih =>
    rw [dataSizes_concat, dataSize]
    refine Nat.dvd_add ih ?_
    cases s.body with
    | word label values => exact Nat.dvd_mul_right 2 _
    | _ => exact Nat.dvd_zero 2

/-- The data of a statement ends within that of the program. -/
theorem dataSizes_le (earlier later : List Statement) (s : Statement) :
    dataSizes earlier + s.dataSize ≤ dataSizes (earlier ++ s :: later) := by
  rw [List.append_cons, dataSizes_append, dataSizes_concat]
  exact Nat.le_add_right _ _

theorem dataSize_pos {s : Statement} {label : Label} (h : s.dataLabel? = some label) :
    0 < s.dataSize := by
  obtain ⟨values, hbody⟩ := dataLabel?_eq_some.mp h
  have hcount : 1 ≤ valueCount values := Nat.le_max_right _ _
  unfold dataSize
  rw [hbody]
  show 0 < 2 * valueCount values
  omega

theorem addressAfter_of_dataLabel? {s : Statement} {label : Label} (h : s.dataLabel? = some label)
    (d : Nat) (earlier : List Statement) : s.addressAfter d earlier = d + dataSizes earlier := by
  obtain ⟨values, hbody⟩ := dataLabel?_eq_some.mp h
  unfold addressAfter
  rw [hbody]

/-- Data stands behind the code and the two instructions after it. -/
theorem bounds_dataAddresses {program : List Statement} {a : Nat}
    (h : a ∈ addresses dataLabel? program) :
    2 ∣ a ∧ 4 * (instrCount program + 2) ≤ a ∧ a < programSize program := by
  obtain ⟨earlier, s, later, label, hprogram, hlabel, rfl⟩ := mem_addresses.mp h
  have hsizes : dataSizes earlier + s.dataSize ≤ dataSizes program := by
    rw [hprogram]
    exact dataSizes_le earlier later s
  have hpos := dataSize_pos hlabel
  have heven := even_dataSizes earlier
  rw [addressAfter_of_dataLabel? hlabel, programSize, dataStart_eq]
  omega

theorem pairwise_withEarlier (program : List Statement) :
    (withEarlier program).Pairwise fun p q => dataSizes p.1 + p.2.dataSize ≤ dataSizes q.1 := by
  induction program using List.reverseRecOn with
  | nil => exact .nil
  | append_singleton xs s ih =>
    rw [withEarlier_concat, List.pairwise_append]
    refine ⟨ih, List.pairwise_singleton _ _, ?_⟩
    rintro ⟨earlier, t⟩ ht q hq
    obtain ⟨later, rfl⟩ := mem_withEarlier.mp ht
    rw [List.mem_singleton.mp hq]
    exact dataSizes_le earlier later t

/-- **Data addresses increase**, since every `word` takes cells. -/
theorem dataAddresses_increasing (program : List Statement) :
    (addresses dataLabel? program).Pairwise (· < ·) := by
  unfold addresses
  rw [List.pairwise_filterMap]
  refine (pairwise_withEarlier program).imp ?_
  rintro ⟨earlier, s⟩ ⟨earlier', s'⟩ hsizes a ha a' ha'
  obtain ⟨label, hlabel, rfl⟩ := Option.map_eq_some_iff.mp ha
  obtain ⟨label', hlabel', rfl⟩ := Option.map_eq_some_iff.mp ha'
  have hpos := dataSize_pos hlabel
  rw [addressAfter_of_dataLabel? hlabel, addressAfter_of_dataLabel? hlabel']
  dsimp only at hsizes
  omega

/-- No label of code is at the address of data. -/
theorem disjoint_addresses (program : List Statement) :
    (addresses codeLabel? program).Disjoint (addresses dataLabel? program) := by
  intro a hcode hdata
  have hlow := bounds_codeAddresses hcode
  have hhigh := bounds_dataAddresses hdata
  omega

end Statement

open Statement

/-! ## The table -/

/-- A label without displacement at an address that is a byte is that byte. -/
theorem Symbols.resolve_label {s : Symbols} {label : Label} {a : Word}
    (h : s.address? label.name = some a) (ha : a.toNat < 256) :
    ∃ b, s.resolve (.address label 0) = .ok b ∧ b.toNat = a.toNat := by
  have hfit : Byte.fit? (a.toNat + 0) = some (BitVec.ofInt 8 (a.toNat + 0)) :=
    Byte.fit?_of_mem (by omega)
  refine ⟨BitVec.ofInt 8 (a.toNat + 0), ?_, ?_⟩
  · unfold Symbols.resolve
    simp only [h, hfit]
  · rw [BitVec.toNat_ofInt]
    omega

namespace Statement.FaultFree

variable {program : List Statement}

/-- **The table has each label at its address**, and the labels of one kind at the addresses of that
kind, in order. -/
theorem map_address? (h : FaultFree program) {kind : Statement → Option Label}
    (hkind : ∀ {s label}, kind s = some label → s.defined? = some label) :
    (program.filterMap kind).map (fun l => ((symbolsOf program).1.address? l.name).map (·.toNat)) =
      (addresses kind program).map some := by
  rw [← filterMap_withEarlier, addresses, List.map_filterMap, List.map_filterMap]
  apply List.filterMap_congr
  rintro ⟨earlier, s⟩ hmem
  obtain ⟨later, hsplit⟩ := mem_withEarlier.mp hmem
  show (kind s).map _ = ((kind s).map _).map some
  cases hlabel : kind s with
  | none => rfl
  | some label =>
    obtain ⟨a, ha, hvalue⟩ := h.address?_eq hsplit (hkind hlabel)
    rw [Option.map_some, Option.map_some, Option.map_some, ha, Option.map_some, hvalue]

theorem address?_mem (h : FaultFree program) {kind : Statement → Option Label}
    (hkind : ∀ {s label}, kind s = some label → s.defined? = some label) {label : Label}
    (hlabel : label ∈ program.filterMap kind) :
    ∃ a, (symbolsOf program).1.address? label.name = some a ∧ a.toNat ∈ addresses kind program := by
  have hmem := List.mem_map_of_mem
    (f := fun l : Label => ((symbolsOf program).1.address? l.name).map (·.toNat)) hlabel
  rw [h.map_address? hkind] at hmem
  obtain ⟨n, hn, heq⟩ := List.mem_map.mp hmem
  obtain ⟨a, ha, rfl⟩ := Option.map_eq_some_iff.mp heq.symm
  exact ⟨a, ha, hn⟩

/-- No two `word`s are at one address. -/
theorem eq_of_dataLabels (h : FaultFree program) {l l' : Label}
    (hl : l ∈ program.filterMap dataLabel?) (hl' : l' ∈ program.filterMap dataLabel?)
    (hsame : (symbolsOf program).1.address? l.name = (symbolsOf program).1.address? l'.name) :
    l = l' := by
  -- equal addresses of two labels would be one address twice in the list
  have hnodup : ((addresses dataLabel? program).map some).Nodup :=
    ((dataAddresses_increasing program).imp Nat.ne_of_lt).map _ fun _ _ hne heq =>
      hne (Option.some.inj heq)
  rw [← h.map_address? defined?_of_dataLabel?] at hnodup
  apply List.inj_on_of_nodup_map hnodup hl hl'
  rw [hsame]

/-- What is in the table: the labels that the program defines, with the places of their
definitions. -/
theorem labels_iff (h : FaultFree program) {key : String} {symbol : Symbol} :
    (symbolsOf program).1.labels[key]? = some symbol ↔
      ∃ label ∈ program.filterMap defined?, Text.uppercase label.name = key ∧
        (symbolsOf program).1.address? label.name = some symbol.address ∧
        symbol.start = label.start := by
  constructor
  · intro hsymbol
    obtain ⟨s, hs, label, hlabel, rfl, hstart⟩ := exists_of_symbolsOf_labels hsymbol
    refine ⟨label, List.mem_filterMap.mpr ⟨s, hs, hlabel⟩, rfl, ?_, hstart⟩
    unfold Symbols.address? Symbols.find?
    rw [hsymbol, Option.map_some]
  · -- the definition is the only one of its name, so the table keeps it
    rintro ⟨label, hlabel, rfl, haddress, hstart⟩
    obtain ⟨s, hs, hdefined⟩ := List.mem_filterMap.mp hlabel
    obtain ⟨earlier, later, hsplit⟩ := List.append_of_mem hs
    have hfind : (symbolsOf program).1.labels[Text.uppercase label.name]? = _ :=
      Layout.upTo_labels (dataStart (instrCount program)) program (Text.uppercase label.name)
    rw [h.firstDefinition?_eq hsplit hdefined, Option.map_some] at hfind
    unfold Symbols.address? Symbols.find? at haddress
    rw [hfind, Option.map_some] at haddress
    rw [hfind]
    obtain ⟨address, start⟩ := symbol
    obtain rfl : start = label.start := hstart
    exact congrArg some (congrArg (Symbol.mk · label.start) (Option.some.inj haddress))

/-- Every address in the table is within memory. -/
theorem address?_lt (h : FaultFree program) {name : String} {a : Word}
    (ha : (symbolsOf program).1.address? name = some a) : a.toNat < 256 := by
  obtain ⟨symbol, hsymbol, rfl⟩ := Option.map_eq_some_iff.mp ha
  obtain ⟨label, hlabel, -, haddress, -⟩ := h.labels_iff.mp hsymbol
  have hsize := h.size
  -- a label of code may stand behind the code, but there are two more instructions then
  rcases mem_defined?_iff.mp hlabel with hcode | hdata
  · obtain ⟨a, ha, hmem⟩ := h.address?_mem defined?_of_codeLabel? hcode
    have hbounds := bounds_codeAddresses hmem
    rw [programSize, dataStart_eq] at hsize
    rw [← Option.some.inj (ha.symm.trans haddress)]
    omega
  · obtain ⟨a, ha, hmem⟩ := h.address?_mem defined?_of_dataLabel? hdata
    have hbounds := bounds_dataAddresses hmem
    rw [← Option.some.inj (ha.symm.trans haddress)]
    omega

end Statement.FaultFree

/-! ## Names at an address -/

/-- Of entries of a table, the one that starts first in the source. -/
def earliest? (entries : List (String × Symbol)) : Option (String × Symbol) :=
  entries.foldr (fun entry first =>
    match first with
    | none => some entry
    | some other => if entry.2.start ≤ other.2.start then some entry else some other) none

theorem Symbols.labelAt?_eq (s : Symbols) (a : Word) :
    s.labelAt? a = (earliest? (s.labels.toList.filter (·.2.address == a))).map (·.1) := rfl

/-- What is found is one of the entries, and none starts before it. -/
theorem earliest?_least (entry : String × Symbol) (entries : List (String × Symbol)) :
    ∃ first, earliest? (entry :: entries) = some first ∧ first ∈ entry :: entries ∧
      ∀ other ∈ entry :: entries, first.2.start ≤ other.2.start := by
  induction entries generalizing entry with
  | nil =>
    refine ⟨entry, rfl, List.mem_singleton_self entry, ?_⟩
    intro other hother
    rw [List.mem_singleton.mp hother]
  | cons next entries ih =>
    obtain ⟨first, hfirst, hmem, hleast⟩ := ih next
    have hstep : earliest? (entry :: next :: entries) =
        if entry.2.start ≤ first.2.start then some entry else some first := by
      show (match earliest? (next :: entries) with
        | none => some entry
        | some other => if entry.2.start ≤ other.2.start then some entry else some other) = _
      rw [hfirst]
    by_cases hle : entry.2.start ≤ first.2.start
    · refine ⟨entry, by rw [hstep, if_pos hle], List.mem_cons_self, ?_⟩
      rw [List.forall_mem_cons]
      exact ⟨Nat.le_refl _, fun other hother => Nat.le_trans hle (hleast other hother)⟩
    · refine ⟨first, by rw [hstep, if_neg hle], List.mem_cons_of_mem _ hmem, ?_⟩
      rw [List.forall_mem_cons]
      exact ⟨by omega, hleast⟩

/-- An entry that starts before all others is found, in whatever order they come. -/
theorem earliest?_eq_some {entries : List (String × Symbol)} {first : String × Symbol}
    (hmem : first ∈ entries)
    (hleast : ∀ other ∈ entries, other = first ∨ first.2.start < other.2.start) :
    earliest? entries = some first := by
  cases entries with
  | nil => cases hmem
  | cons entry entries =>
    obtain ⟨found, hfound, hfoundMem, hfoundLeast⟩ := earliest?_least entry entries
    rcases hleast found hfoundMem with heq | hlt
    · rw [hfound, heq]
    · have hle := hfoundLeast first hmem
      omega

/-- Definitions in a program come after those that start before them. -/
theorem start_lt_of_split {labels before after : List Label} {first other : Label}
    (h : (labels.map (·.start)).Pairwise (· < ·)) (hsplit : labels = before ++ first :: after)
    (hother : other ∈ after) : first.start < other.start := by
  rw [hsplit, List.map_append, List.map_cons, List.pairwise_append, List.pairwise_cons] at h
  exact h.2.1.1 _ (List.mem_map_of_mem hother)

/-- **The first definition at an address is found**, if there is one, however the entries of the
table are ordered. -/
theorem Statement.FaultFree.earliest?_eq {program : List Statement} (h : FaultFree program)
    (hstarts : (definitionStarts program).Pairwise (· < ·)) {entries : List (String × Symbol)}
    (hentries : entries.Perm (symbolsOf program).1.labels.toList) (a : Word) :
    (earliest? (entries.filter (·.2.address == a))).map (·.1) =
      ((program.filterMap defined?).find? fun l =>
        (symbolsOf program).1.address? l.name = some a).map fun l => Text.uppercase l.name := by
  -- the entries at the address are the definitions with this address
  have hmem : ∀ key symbol, (key, symbol) ∈ entries.filter (·.2.address == a) ↔
      symbol.address = a ∧ ∃ label ∈ program.filterMap defined?, Text.uppercase label.name = key ∧
        (symbolsOf program).1.address? label.name = some a ∧ symbol.start = label.start := by
    intro key symbol
    rw [List.mem_filter, hentries.mem_iff, Std.ExtTreeMap.mem_toList_iff_getElem?_eq_some,
      h.labels_iff, beq_iff_eq, and_comm]
    apply and_congr_right
    intro haddress
    rw [haddress]
  cases hfind : (program.filterMap defined?).find? fun l =>
      (symbolsOf program).1.address? l.name = some a with
  | none =>
    have hnone : entries.filter (·.2.address == a) = [] := by
      rw [List.eq_nil_iff_forall_not_mem]
      rintro ⟨key, symbol⟩ hentry
      obtain ⟨-, label, hlabel, -, haddress, -⟩ := (hmem key symbol).mp hentry
      exact absurd (decide_eq_true haddress) (List.find?_eq_none.mp hfind label hlabel)
    rw [hnone]
    rfl
  | some first =>
    obtain ⟨haddress, before, after, hsplit, hbefore⟩ := List.find?_eq_some_iff_append.mp hfind
    have hfirst : earliest? (entries.filter (·.2.address == a)) =
        some (Text.uppercase first.name, ⟨a, first.start⟩) := by
      apply earliest?_eq_some
      · rw [hmem]
        exact ⟨rfl, first, List.mem_of_find?_eq_some hfind, rfl, of_decide_eq_true haddress, rfl⟩
      · rintro ⟨key, symbol⟩ hentry
        obtain ⟨rfl, label, hlabel, rfl, hlabelAddress, hstart⟩ := (hmem key symbol).mp hentry
        -- another label at the address is not defined before the first one
        rw [hsplit, List.mem_append, List.mem_cons] at hlabel
        rcases hlabel with hlabel | rfl | hlabel
        · simpa [hlabelAddress] using hbefore label hlabel
        · left
          rw [← hstart]
        · right
          show first.start < symbol.start
          rw [hstart]
          exact start_lt_of_split hstarts hsplit hlabel
    rw [hfirst]
    rfl

theorem Statement.FaultFree.labelAt?_eq {program : List Statement} (h : FaultFree program)
    (hstarts : (definitionStarts program).Pairwise (· < ·)) (a : Word) :
    (symbolsOf program).1.labelAt? a =
      ((program.filterMap defined?).find? fun l =>
        (symbolsOf program).1.address? l.name = some a).map fun l => Text.uppercase l.name := by
  rw [Symbols.labelAt?_eq]
  exact h.earliest?_eq hstarts (List.Perm.refl _) a

/-- At the address of a `word`, its name is found. -/
theorem Statement.FaultFree.find?_of_dataLabel {program : List Statement} (h : FaultFree program)
    {label : Label} (hlabel : label ∈ program.filterMap dataLabel?) {a : Word}
    (ha : (symbolsOf program).1.address? label.name = some a) :
    (program.filterMap defined?).find?
      (fun l => (symbolsOf program).1.address? l.name = some a) = some label := by
  have hsome : ((program.filterMap defined?).find? fun l =>
      (symbolsOf program).1.address? l.name = some a).isSome := by
    rw [List.find?_isSome]
    exact ⟨label, mem_defined?_iff.mpr (.inr hlabel), decide_eq_true ha⟩
  obtain ⟨first, hfirst⟩ := Option.isSome_iff_exists.mp hsome
  have haddress := List.find?_some hfirst
  rw [decide_eq_true_iff] at haddress
  rw [hfirst]
  -- whatever else is at the address is a `word` as well
  rcases mem_defined?_iff.mp (List.mem_of_find?_eq_some hfirst) with hcode | hdata
  · obtain ⟨c, hc, hcode⟩ := h.address?_mem defined?_of_codeLabel? hcode
    obtain ⟨d, hd, hdata⟩ := h.address?_mem defined?_of_dataLabel? hlabel
    obtain rfl := Option.some.inj (hc.symm.trans haddress)
    obtain rfl := Option.some.inj (hd.symm.trans ha)
    exact absurd hdata (disjoint_addresses program hcode)
  · rw [h.eq_of_dataLabels hdata hlabel (haddress.trans ha.symm)]

/-- **The shape of the table.** Let a source with `n` instructions be assembled.

* The labels of code are at multiples of four from 0 to `4 * n`. The `word`s are at even addresses
  from `4 * (n + 2)` up to the end of the image, which are strictly increasing in the order of the
  source. So no label of code has the address of a `word`, and no two `word`s have the same one.
* Every name in the table is one that the source defines, in some case. Its address is below 256,
  and without displacement it stands for exactly this address.
* At an address the table gives the capital form of the name that is defined first in the source
  among those with this address, and nothing if there is none. The order in which the entries of the
  table are gone through does not matter. For the address of a `word` this is its own name. -/
theorem assemble_symbols (source : String) (maxErrors : Nat) (e : Executable)
    (h : assemble source maxErrors = .ok e) :
    let program := (parse source).statements
    let n := instrCount program
    ∃ symbols, e.symbols = some symbols ∧
      (∃ code data : List Nat,
        (program.filterMap codeLabel?).map (fun l => (symbols.address? l.name).map (·.toNat)) =
          code.map some ∧
        (program.filterMap dataLabel?).map (fun l => (symbols.address? l.name).map (·.toNat)) =
          data.map some ∧
        (∀ a ∈ code, 4 ∣ a ∧ a ≤ 4 * n) ∧
        (∀ a ∈ data, 2 ∣ a ∧ 4 * (n + 2) ≤ a ∧ a < e.image.length) ∧
        data.Pairwise (· < ·) ∧ code.Disjoint data ∧ data.Nodup) ∧
      (∀ (label : Label) a, symbols.address? label.name = some a →
        (∃ l ∈ program.filterMap defined?, Text.uppercase l.name = Text.uppercase label.name) ∧
          a.toNat < 256 ∧ ∃ b, symbols.resolve (.address label 0) = .ok b ∧ b.toNat = a.toNat) ∧
      (∀ a, symbols.labelAt? a =
        ((program.filterMap defined?).find? fun l => symbols.address? l.name = some a).map
          fun l => Text.uppercase l.name) ∧
      (∀ entries : List (String × Symbol), entries.Perm symbols.labels.toList → ∀ a,
        (earliest? (entries.filter (·.2.address == a))).map (·.1) = symbols.labelAt? a) ∧
      ∀ label ∈ program.filterMap dataLabel?, ∀ a, symbols.address? label.name = some a →
        symbols.labelAt? a = some (Text.uppercase label.name) := by
  intro program n
  obtain ⟨hfree, rfl⟩ := assemble_ok h
  have hstarts := definitions_increasing source
  have hdata := dataAddresses_increasing program
  have hlabelAt := hfree.labelAt?_eq hstarts
  refine ⟨_, rfl, ⟨addresses codeLabel? program, addresses dataLabel? program,
    hfree.map_address? defined?_of_codeLabel?, hfree.map_address? defined?_of_dataLabel?,
    fun a ha => bounds_codeAddresses ha, ?_, hdata, disjoint_addresses program,
    hdata.imp Nat.ne_of_lt⟩, ?_, hlabelAt, ?_, ?_⟩
  · intro a ha
    obtain ⟨heven, hlow, hhigh⟩ := bounds_dataAddresses ha
    exact ⟨heven, hlow, hhigh.trans_eq (length_imageOf _ program).symm⟩
  · intro label a ha
    obtain ⟨symbol, hsymbol, -⟩ := Option.map_eq_some_iff.mp ha
    obtain ⟨l, hl, hname, -, -⟩ := hfree.labels_iff.mp hsymbol
    have hlt := hfree.address?_lt ha
    exact ⟨⟨l, hl, hname⟩, hlt, Symbols.resolve_label ha hlt⟩
  · intro entries hentries a
    rw [hlabelAt, hfree.earliest?_eq hstarts hentries]
  · intro label hlabel a ha
    rw [hlabelAt, hfree.find?_of_dataLabel hlabel ha, Option.map_some]

/-- Two labels at one address, and a `word`. -/
theorem assemble_symbols_two_labels :
    ∃ e, assemble "x: y: word d" 1 = .ok e ∧ e.image.length = 10 ∧
      ∃ symbols, e.symbols = some symbols ∧ symbols.address? "Y" = some 0 ∧
        symbols.labelAt? 0 = some "X" ∧ symbols.address? "d" = some 8 ∧
        symbols.labelAt? 8 = some "D" ∧ symbols.labelAt? 4 = none := by
  have hok : (assemble "x: y: word d" 1).isOk = true := by decide +kernel
  have hprogram : (parse "x: y: word d").statements =
      [⟨.label ⟨"x", 0⟩, ⟨0, 2⟩⟩, ⟨.label ⟨"y", 3⟩, ⟨3, 5⟩⟩, ⟨.word ⟨"d", 11⟩ [], ⟨6, 12⟩⟩] := by
    decide +kernel
  cases he : assemble "x: y: word d" 1 with
  | error diagnostics =>
    rw [he] at hok
    cases hok
  | ok e =>
    obtain ⟨symbols, hsymbols, -, -, hlabelAt, -, hdata⟩ := assemble_symbols _ _ _ he
    obtain ⟨-, rfl⟩ := assemble_ok he
    obtain rfl := Option.some.inj hsymbols
    rw [hprogram] at hlabelAt hdata ⊢
    have hd := hdata ⟨"d", 11⟩ (by decide +kernel) 8 (by decide +kernel)
    refine ⟨_, rfl, by decide +kernel, _, rfl, by decide +kernel, ?_, by decide +kernel, ?_, ?_⟩
    · rw [hlabelAt]
      decide +kernel
    · rw [hd]
      decide +kernel
    · rw [hlabelAt]
      decide +kernel

end Nic
