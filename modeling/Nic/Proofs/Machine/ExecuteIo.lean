/-
Running a program on an input.

The machine starts over before it takes an input, so what it did before is gone: the answer, and the
state that is left, depend on the image, the settings and the input only. Both are those of a run of
`started image flags digits`, a machine that is given outright (`executeIo_of_takes`).

When there is an output is then said without the machine's loop. `HaltsAfter m k final` goes from
one instruction to the next, `k` of them, of which the last and no other is `halt`; the output is
the cells of `final`. Runs and `HaltsAfter` agree at every limit (`Ready.runWithLimit_halted_iff`),
and what a run comes to does not change if it may go on for longer.
-/
import Mathlib.Data.List.Forall2
import Mathlib.Data.List.Induction
import Nic.Proofs.Machine.Snapshot
import Nic.Proofs.Memory

set_option autoImplicit false

namespace Nic

/-! ## Memory with an input -/

/-- The image at the start of an otherwise empty memory, and then digits from an address on. -/
def inputMemory (image : List Nibble) (start : Byte) (digits : List Nibble) : Memory :=
  ⟨Vector.ofFn fun i =>
    digits[(BitVec.ofNat 8 i.val - start).toNat]?.getD (image[i.val]?.getD 0)⟩

namespace Memory

/-- Digits that are set one after the other. -/
theorem get_setFrom (mem : Memory) (start : Byte) {digits : List Nibble}
    (h : digits.length ≤ 256) (a : Byte) :
    ((digits.mapIdx fun i d => (start + BitVec.ofNat 8 i, d)).foldl
      (fun mem (a, d) => mem.set a d) mem).get a =
        digits[(a - start).toNat]?.getD (mem.get a) := by
  induction digits using List.reverseRecOn with
  | nil => rfl
  | append_singleton digits d ih =>
    rw [List.length_append, List.length_singleton] at h
    have hindex : a = start + BitVec.ofNat 8 digits.length ↔ (a - start).toNat = digits.length := by
      bv_omega
    rw [List.mapIdx_concat, List.foldl_append, List.foldl_cons, List.foldl_nil, get_set,
      ih (by omega), List.getElem?_append]
    simp only [hindex]
    generalize (a - start).toNat = i
    -- the last digit, one of those before it, or none of them
    rcases Nat.lt_trichotomy i digits.length with hlt | heq | hgt
    · rw [if_neg (Nat.ne_of_lt hlt), if_pos hlt]
    · rw [if_pos heq, if_neg (by omega), heq, Nat.sub_self]
      rfl
    · rw [if_neg (by omega), if_neg (by omega), List.getElem?_eq_none (Nat.le_of_lt hgt),
        List.getElem?_eq_none (by rw [List.length_singleton]; omega)]

end Memory

/-- Each cell with an input: a digit if there is one for it, else what the image has there. -/
theorem get_inputMemory (image : List Nibble) (start : Byte) (digits : List Nibble) (a : Byte) :
    (inputMemory image start digits).get a =
      digits[(a - start).toNat]?.getD (image[a.toNat]?.getD 0) := by
  have ha : BitVec.ofNat 8 a.toFin.val = a := by
    change BitVec.ofNat 8 a.toNat = a
    rw [BitVec.ofNat_toNat, BitVec.setWidth_eq]
  rw [inputMemory, Memory.get_ofFn, ha]
  rfl

theorem IoRegion.length_addresses (r : IoRegion) : r.addresses.length = min r.cells 256 := by
  rw [addresses, List.length_map, List.length_range]

theorem IoRegion.zip_addresses {r : IoRegion} {digits : List Nibble}
    (h : digits.length ≤ min r.cells 256) :
    r.addresses.zip digits = digits.mapIdx fun i d => (r.start + BitVec.ofNat 8 i, d) := by
  refine List.ext_getElem ?_ fun i hi hi' => ?_
  · simp [addresses, h]
  · simp [addresses]

namespace Machine

theorem inputDigits?_eq_some_iff {input : String} {digits : List Nibble} :
    inputDigits? input = some digits ↔
      List.Forall₂ (fun c d => Text.hexValue? c = some d) (Text.trim input.toList) digits := by
  rw [inputDigits?]
  generalize Text.trim input.toList = cs
  induction cs generalizing digits with
  | nil => simp [eq_comm]
  | cons c cs ih =>
    rw [List.mapM_cons]
    constructor
    · intro h
      obtain ⟨d, hd, h⟩ := Option.bind_eq_some_iff.mp h
      obtain ⟨ds, hds, h⟩ := Option.bind_eq_some_iff.mp h
      cases h
      exact .cons hd (ih.mp hds)
    · intro h
      cases h with
      | cons hd hds =>
        rw [hd, ih.mpr hds]
        rfl

/-- The input has these digits, and there is room for them. -/
def Takes (flags : Flags) (input : String) (digits : List Nibble) : Prop :=
  inputDigits? input = some digits ∧ digits.length ≤ min flags.input.cells 256

/-! ## The machine with an input -/

/-- The machine at the start of a program with an input. -/
def started (image : List Nibble) (flags : Flags) (digits : List Nibble) : Machine :=
  { Machine.new flags with mem := inputMemory image flags.input.start digits, image }

theorem ready_started (image : List Nibble) (flags : Flags) (digits : List Nibble) :
    Ready (started image flags digits) := ⟨rfl, rfl⟩

theorem flags_started (image : List Nibble) (flags : Flags) (digits : List Nibble) :
    (started image flags digits).flags = flags := rfl

theorem flags_unobserved (m : Machine) : m.unobserved.flags = m.flags := rfl

theorem unobserved_setCells (m : Machine) (cells : List (Byte × Nibble)) :
    (m.setCells cells).unobserved =
      { m.unobserved with mem := cells.foldl (fun mem (a, d) => mem.set a d) m.mem } := by
  induction cells generalizing m with
  | nil => rfl
  | cons cell cells ih =>
    have hmem : (m.setCell cell.1 cell.2).mem = m.mem.set cell.1 cell.2 :=
      congrArg Snapshot.mem (snapshot_setCell m cell.1 cell.2)
    have hcons : m.setCells (cell :: cells) = (m.setCell cell.1 cell.2).setCells cells := rfl
    rw [hcons, ih, unobserved_setCell, hmem]
    rfl

theorem flags_reset (m : Machine) : m.reset.flags = m.flags := by
  rw [reset]

theorem unobserved_reset (m : Machine) :
    m.reset.unobserved =
      { Machine.new m.flags with mem := Memory.zero.copy m.image, image := m.image } := by
  simp only [unobserved, reset, Machine.new]

/-- Taking an input gives the machine that is started with it. -/
theorem takeInput_of_takes {m : Machine} {input : String} {digits : List Nibble}
    (h : Takes m.flags input digits) :
    ∃ m₁, m.takeInput input = (.ok (), m₁) ∧
      m₁.unobserved = started m.image m.flags digits := by
  obtain ⟨hdigits, hroom⟩ := h
  refine ⟨m.reset.setCells (m.flags.input.addresses.zip digits), ?_, ?_⟩
  · simp only [takeInput, hdigits, flags_reset, IoRegion.length_addresses]
    rw [if_neg (Nat.not_lt_of_le hroom)]
  · rw [unobserved_setCells, unobserved_reset, mem_reset, IoRegion.zip_addresses hroom, started]
    have hcells : (digits.mapIdx fun i d => (m.flags.input.start + BitVec.ofNat 8 i, d)).foldl
        (fun mem (a, d) => mem.set a d) (Memory.zero.copy m.image) =
          inputMemory m.image m.flags.input.start digits := by
      refine Memory.ext_get fun a => ?_
      rw [Memory.get_setFrom _ _ (by omega), Memory.get_zero_copy, get_inputMemory]
    rw [hcells]

/-! ## The answer -/

/-- The answer that the end of a run gives. -/
def verdict : Outcome → Except MachineFault String
  | (.ok .halted, m) => .ok m.output
  | (.ok .ok, _) => .error .stepLimit
  | (.ok status, _) => .error (.notHalted status)
  | (.error fault, _) => .error fault

theorem verdict_congr {o o' : Outcome} (h : Outcome.Same o o')
    (hregion : o.2.flags.output = o'.2.flags.output) : verdict o = verdict o' := by
  obtain ⟨result, m⟩ := o
  obtain ⟨result', m'⟩ := o'
  obtain ⟨hresult, hsnapshot⟩ := h
  obtain rfl : result = result' := hresult
  have hmem : m.mem = m'.mem := congrArg Snapshot.mem hsnapshot
  have houtput : m.output = m'.output := by
    rw [output, output, hmem, show m.flags.output = m'.flags.output from hregion]
  cases result with
  | error fault => rfl
  | ok status =>
    cases status with
    | halted => exact congrArg Except.ok houtput
    | _ => rfl

theorem verdict_of_ok {o : Outcome} (h : o.1 = .ok .ok) : verdict o = .error .stepLimit := by
  obtain ⟨result, m⟩ := o
  obtain rfl : result = .ok .ok := h
  rfl

theorem executeIo_of_takeInput {m m₁ : Machine} {input : String}
    (h : m.takeInput input = (.ok (), m₁)) :
    m.executeIo input = (verdict (m₁.runWithLimit m₁.flags.maxSteps),
      (m₁.runWithLimit m₁.flags.maxSteps).2) := by
  rw [executeIo, h]
  dsimp only
  rcases m₁.runWithLimit m₁.flags.maxSteps with ⟨result, m₂⟩
  cases result with
  | error fault => rfl
  | ok status => cases status <;> rfl

/-- **The answer to an input that can be taken is that of a run from the start.** -/
theorem executeIo_of_takes {m : Machine} {input : String} {digits : List Nibble}
    (h : Takes m.flags input digits) :
    (m.executeIo input).1 =
        verdict ((started m.image m.flags digits).runWithLimit m.flags.maxSteps) ∧
      (m.executeIo input).2.snapshot =
        ((started m.image m.flags digits).runWithLimit m.flags.maxSteps).2.snapshot := by
  obtain ⟨m₁, htake, hm₁⟩ := takeInput_of_takes h
  have hflags : m₁.flags = m.flags := by
    rw [← flags_unobserved, hm₁, flags_started]
  have hsnapshot : m₁.snapshot = (started m.image m.flags digits).snapshot := by
    rw [← snapshot_unobserved, hm₁]
  have hsame := runWithLimit_congr m.flags.maxSteps hsnapshot
  rw [executeIo_of_takeInput htake, hflags]
  refine ⟨verdict_congr hsame ?_, hsame.2⟩
  rw [flags_runWithLimit, flags_runWithLimit, hflags, flags_started]

/-- An input that is not made of digits, or of too many, is refused after the machine was reset. -/
theorem executeIo_of_not_takes {m : Machine} {input : String}
    (h : ¬ ∃ digits, Takes m.flags input digits) :
    m.executeIo input =
      (.error (if (inputDigits? input).isSome then .inputTooLarge else .badInput), m.reset) := by
  cases hdigits : inputDigits? input with
  | none =>
    simp only [executeIo, takeInput, hdigits]
    rfl
  | some digits =>
    have hlarge : min m.flags.input.cells 256 < digits.length :=
      Nat.lt_of_not_le fun hroom => h ⟨digits, hdigits, hroom⟩
    simp only [executeIo, takeInput, hdigits, flags_reset, IoRegion.length_addresses,
      if_pos hlarge]
    rfl

/-! ## Halting -/

/-- From this machine, `k` instructions are executed one after the other, the last of them and no
other is `halt`, and it leaves the machine `final`. -/
inductive HaltsAfter : Machine → Nat → Machine → Prop where
  | halt {m : Machine} (hi : m.instr? = some .halt) : HaltsAfter m 1 m.stepIn.2
  | step {m final : Machine} {i : Instr} {k : Nat} (hi : m.instr? = some i) (hne : i ≠ .halt)
    (h : HaltsAfter m.stepIn.2 k final) : HaltsAfter m (k + 1) final

theorem haltsAfter_of_next {m final : Machine} {i : Instr} {k : Nat} (hi : m.instr? = some i)
    (hne : i ≠ .halt) :
    HaltsAfter m k final ↔ ∃ j, k = j + 1 ∧ HaltsAfter m.stepIn.2 j final := by
  constructor
  · intro h
    cases h with
    | halt hi' => exact absurd (Option.some.inj (hi.symm.trans hi')) hne
    | step _ _ hrest => exact ⟨_, rfl, hrest⟩
  · rintro ⟨j, rfl, h⟩
    exact .step hi hne h

theorem haltsAfter_of_halt {m final : Machine} {k : Nat} (hi : m.instr? = some .halt) :
    HaltsAfter m k final ↔ k = 1 ∧ final = m.stepIn.2 := by
  constructor
  · intro h
    cases h with
    | halt => exact ⟨rfl, rfl⟩
    | step hi' hne => exact absurd (Option.some.inj (hi'.symm.trans hi)) hne
  · rintro ⟨rfl, rfl⟩
    exact .halt hi

theorem not_haltsAfter_of_none {m final : Machine} {k : Nat} (hi : m.instr? = none) :
    ¬ HaltsAfter m k final := by
  intro h
  cases h with
  | halt hi' | step hi' => cases hi.symm.trans hi'

/-- **A run halts within its limit exactly if the program does.** -/
theorem Ready.runWithLimit_halted_iff {m final : Machine} (h : Ready m) {limit : Nat} :
    m.runWithLimit limit = (.ok .halted, final) ↔ ∃ k ≤ limit, HaltsAfter m k final := by
  induction limit generalizing m with
  | zero =>
    have hnone : ∀ k ≤ 0, ¬ HaltsAfter m k final := by
      intro k hk hhalts
      cases hhalts <;> omega
    rw [runWithLimit, outcome, h.status]
    constructor
    · intro heq
      cases heq
    · rintro ⟨k, hk, hhalts⟩
      exact absurd hhalts (hnone k hk)
  | succ limit ih =>
    have hstepped := h.stepped
    rw [runWithLimit]
    rcases hm : m.stepIn with ⟨result, m₁⟩
    rw [hm] at hstepped
    cases hstepped with
    | next hi hne h₁ =>
      simp only [haltsAfter_of_next hi hne, hm]
      rw [ih h₁]
      constructor
      · rintro ⟨k, hk, hhalts⟩
        exact ⟨k + 1, Nat.succ_le_succ hk, k, rfl, hhalts⟩
      · rintro ⟨k, hk, j, rfl, hhalts⟩
        exact ⟨j, Nat.le_of_succ_le_succ hk, hhalts⟩
    | halt hi =>
      simp only [haltsAfter_of_halt hi, hm]
      constructor
      · rintro ⟨⟩
        exact ⟨1, Nat.le_add_left 1 limit, rfl, rfl⟩
      · rintro ⟨k, -, -, rfl⟩
        rfl
    | @stop s _ hi hs =>
      constructor
      · intro heq
        cases s with
        | ok | halted => cases hs
        | badInstruction | badAlignment => cases heq
      · rintro ⟨k, -, hhalts⟩
        exact absurd hhalts (not_haltsAfter_of_none hi)

/-- The program of an image halts on an input as its `k`-th instruction: the input is made of
hexadecimal digits, with white space around them at most, and there is room for them; and from the
start with these digits in place, `k` instructions lead to `final`. -/
def HaltsOn (image : List Nibble) (flags : Flags) (input : String) (k : Nat) (final : Machine) :
    Prop :=
  ∃ digits, List.Forall₂ (fun c d => Text.hexValue? c = some d) (Text.trim input.toList) digits ∧
    digits.length ≤ min flags.input.cells 256 ∧ HaltsAfter (started image flags digits) k final

theorem haltsOn_iff {image : List Nibble} {flags : Flags} {input : String} {limit : Nat}
    {final : Machine} :
    (∃ k ≤ limit, HaltsOn image flags input k final) ↔
      ∃ digits, Takes flags input digits ∧
        (started image flags digits).runWithLimit limit = (.ok .halted, final) := by
  simp only [HaltsOn, Takes, ← inputDigits?_eq_some_iff,
    (ready_started image flags _).runWithLimit_halted_iff]
  constructor
  · rintro ⟨k, hk, digits, hdigits, hroom, hhalts⟩
    exact ⟨digits, ⟨hdigits, hroom⟩, k, hk, hhalts⟩
  · rintro ⟨digits, ⟨hdigits, hroom⟩, k, hk, hhalts⟩
    exact ⟨k, hk, digits, hdigits, hroom, hhalts⟩

/-! ## The output -/

/-- The digits in the cells of a region, as text. -/
def regionText (mem : Memory) (r : IoRegion) : String :=
  String.ofList ((List.range (min r.cells 256)).map fun j =>
    Text.hexDigit (mem.get (r.start + BitVec.ofNat 8 j)))

theorem output_eq (m : Machine) : m.output = regionText m.mem m.flags.output := by
  rw [output, regionText, Text.hexDigits, IoRegion.addresses, List.map_map, List.map_map]
  rfl

theorem verdict_eq_ok_iff {o : Outcome} {out : String} :
    verdict o = .ok out ↔ ∃ final, o = (.ok .halted, final) ∧ out = final.output := by
  obtain ⟨result, m⟩ := o
  constructor
  · intro h
    cases result with
    | error fault => cases h
    | ok status =>
      cases status with
      | halted => exact ⟨m, rfl, (Except.ok.inj h).symm⟩
      | _ => cases h
  · rintro ⟨final, heq, rfl⟩
    rw [heq]
    rfl

theorem snapshot_reset_congr {m n : Machine} (h : m.image = n.image) :
    m.reset.snapshot = n.reset.snapshot := by
  rw [← snapshot_unobserved, ← snapshot_unobserved n.reset, unobserved_reset, unobserved_reset, h]
  rfl

/-- What was done before does not matter. -/
theorem executeIo_congr {m n : Machine} (himage : m.image = n.image) (hflags : m.flags = n.flags)
    (input : String) :
    (m.executeIo input).1 = (n.executeIo input).1 ∧
      (m.executeIo input).2.snapshot = (n.executeIo input).2.snapshot := by
  by_cases htakes : ∃ digits, Takes m.flags input digits
  · obtain ⟨digits, hm⟩ := htakes
    have hn : Takes n.flags input digits := hflags ▸ hm
    obtain ⟨hresult, hsnapshot⟩ := executeIo_of_takes hm
    obtain ⟨hresult', hsnapshot'⟩ := executeIo_of_takes hn
    rw [hresult, hsnapshot, hresult', hsnapshot', himage, hflags]
    exact ⟨rfl, rfl⟩
  · have htakes' : ¬ ∃ digits, Takes n.flags input digits := hflags ▸ htakes
    rw [executeIo_of_not_takes htakes, executeIo_of_not_takes htakes']
    exact ⟨rfl, snapshot_reset_congr himage⟩

theorem executeIo_eq_ok_iff {m : Machine} {input out : String} :
    (m.executeIo input).1 = .ok out ↔
      ∃ final, (∃ k ≤ m.flags.maxSteps, HaltsOn m.image m.flags input k final) ∧
        out = regionText final.mem m.flags.output := by
  simp only [haltsOn_iff]
  by_cases htakes : ∃ digits, Takes m.flags input digits
  · obtain ⟨digits, hm⟩ := htakes
    have hflags : ∀ final, (started m.image m.flags digits).runWithLimit m.flags.maxSteps =
        (.ok .halted, final) → final.flags = m.flags := by
      intro final heq
      have hrun := flags_runWithLimit (started m.image m.flags digits) m.flags.maxSteps
      rwa [heq, flags_started] at hrun
    rw [(executeIo_of_takes hm).1, verdict_eq_ok_iff]
    constructor
    · rintro ⟨final, heq, rfl⟩
      exact ⟨final, ⟨digits, hm, heq⟩, by rw [output_eq, hflags final heq]⟩
    · rintro ⟨final, ⟨digits', hm', heq⟩, rfl⟩
      obtain rfl : digits' = digits := Option.some.inj (hm'.1.symm.trans hm.1)
      exact ⟨final, heq, by rw [output_eq, hflags final heq]⟩
  · rw [executeIo_of_not_takes htakes]
    constructor
    · intro h
      cases h
    · rintro ⟨final, ⟨digits, hm, -⟩, -⟩
      exact absurd ⟨digits, hm⟩ htakes

/-- The machine that is left is the one that the program comes to. -/
theorem snapshot_executeIo {m final : Machine} {input : String} {k : Nat}
    (hk : k ≤ m.flags.maxSteps) (h : HaltsOn m.image m.flags input k final) :
    (m.executeIo input).2.snapshot = final.snapshot := by
  obtain ⟨digits, hm, heq⟩ := haltsOn_iff.mp ⟨k, hk, h⟩
  rw [(executeIo_of_takes hm).2, heq]

/-- A higher limit changes nothing once the limit was high enough. -/
theorem executeIo_of_maxSteps_le {m : Machine} {input : String} {maxSteps : Nat}
    (hle : m.flags.maxSteps ≤ maxSteps) (h : (m.executeIo input).1 ≠ .error .stepLimit) :
    ((m.setFlags { m.flags with maxSteps }).executeIo input).1 = (m.executeIo input).1 ∧
      ((m.setFlags { m.flags with maxSteps }).executeIo input).2.snapshot =
        (m.executeIo input).2.snapshot := by
  let n : Machine := m.setFlags { m.flags with maxSteps }
  by_cases htakes : ∃ digits, Takes m.flags input digits
  · obtain ⟨digits, hm⟩ := htakes
    have hn : Takes n.flags input digits := hm
    obtain ⟨hresult, hsnapshot⟩ := executeIo_of_takes hm
    obtain ⟨hresult', hsnapshot'⟩ := executeIo_of_takes hn
    have hend : ((started m.image m.flags digits).runWithLimit m.flags.maxSteps).1 ≠ .ok .ok := by
      intro hok
      rw [hresult, verdict_of_ok hok] at h
      exact h rfl
    have hsame : Outcome.Same ((started n.image n.flags digits).runWithLimit n.flags.maxSteps)
        ((started m.image m.flags digits).runWithLimit m.flags.maxSteps) := by
      rw [← (ready_started m.image m.flags digits).runWithLimit_of_le hle hend]
      exact runWithLimit_congr maxSteps rfl
    rw [hresult, hsnapshot, hresult', hsnapshot']
    refine ⟨verdict_congr hsame ?_, hsame.2⟩
    rw [flags_runWithLimit, flags_runWithLimit, flags_started, flags_started]
    rfl
  · have htakes' : ¬ ∃ digits, Takes n.flags input digits := htakes
    rw [executeIo_of_not_takes htakes, executeIo_of_not_takes htakes']
    exact ⟨rfl, snapshot_reset_congr rfl⟩

/-- **What comes of an input is determined by image, settings and input.** Two machines with the
same image and the same settings give the same answer, whatever they did before, and are left with
the same memory, registers, status, phase and number of instructions.

There is an output exactly if the program, started with the digits of the input in their cells,
halts as its `k`-th instruction for a `k` within the limit and does not stop before; the output is
then the digits in the cells for it, as the program leaves them. An answer other than that the limit
was reached stays the same with every higher limit. -/
theorem executeIo_determined :
    (∀ (m n : Machine) (input : String), m.image = n.image → m.flags = n.flags →
      (m.executeIo input).1 = (n.executeIo input).1 ∧
        (m.executeIo input).2.snapshot = (n.executeIo input).2.snapshot) ∧
    (∀ (m : Machine) (input out : String), (m.executeIo input).1 = .ok out ↔
      ∃ final, (∃ k ≤ m.flags.maxSteps, HaltsOn m.image m.flags input k final) ∧
        out = regionText final.mem m.flags.output) ∧
    (∀ (m final : Machine) (input : String) (k : Nat), k ≤ m.flags.maxSteps →
      HaltsOn m.image m.flags input k final →
        (m.executeIo input).2.snapshot = final.snapshot) ∧
    ∀ (m : Machine) (input : String) (maxSteps : Nat), m.flags.maxSteps ≤ maxSteps →
      (m.executeIo input).1 ≠ .error .stepLimit →
        ((m.setFlags { m.flags with maxSteps }).executeIo input).1 = (m.executeIo input).1 ∧
          ((m.setFlags { m.flags with maxSteps }).executeIo input).2.snapshot =
            (m.executeIo input).2.snapshot :=
  ⟨fun _ _ input himage hflags => executeIo_congr himage hflags input,
    fun _ _ _ => executeIo_eq_ok_iff,
    fun _ _ _ _ hk h => snapshot_executeIo hk h,
    fun _ _ _ hle h => executeIo_of_maxSteps_le hle h⟩

/-- The input goes round the end of memory, and its second digit makes the first word of the image
an instruction, which loads the input; the program then stores it as its output. One machine has
just taken the image, the other was stopped by a bad address. Three instructions are enough, and two
are not. -/
theorem executeIo_determined_wrapped :
    let flags : Flags := ⟨3, ⟨0xff, 300⟩, ⟨0xe0, 2⟩, ⟨0, 0⟩⟩
    let m := (Machine.new flags).load ⟨[0, 1, 15, 15, 4, 1, 14, 0], none⟩
    let n := (m.setPc 3).fetch.2
    n.status = .badAlignment ∧ (m.executeIo " A1\n").1 = (n.executeIo " A1\n").1 ∧
      (n.executeIo " A1\n").1 = .ok "a1" ∧
      ((m.setFlags { flags with maxSteps := 2 }).executeIo " A1\n").1 = .error .stepLimit ∧
      (∃ k ≤ 3, ∃ final, HaltsOn m.image flags " A1\n" k final) ∧
      ∀ maxSteps, 3 ≤ maxSteps →
        ((m.setFlags { flags with maxSteps }).executeIo " A1\n").1 = (m.executeIo " A1\n").1 := by
  intro flags m n
  obtain ⟨hcongr, hok, -, hlimit⟩ := executeIo_determined
  have himage : m.image = n.image := by decide +kernel
  have hflags : m.flags = n.flags := by decide +kernel
  have hout : (n.executeIo " A1\n").1 = .ok "a1" := by decide +kernel
  have hsame := (hcongr m n " A1\n" himage hflags).1
  refine ⟨by decide +kernel, hsame, hout, by decide +kernel, ?_, ?_⟩
  · obtain ⟨final, ⟨k, hk, hhalts⟩, -⟩ := (hok m " A1\n" "a1").mp (hsame.trans hout)
    exact ⟨k, hk, final, hhalts⟩
  · intro maxSteps hle
    refine (hlimit m " A1\n" maxSteps hle ?_).1
    rw [hsame, hout]
    exact fun h => nomatch h

end Machine

end Nic
