/-
Statements with an operand left open.

A number, or a name with a displacement, is on a line in the grammar only as a byte operand
(`LineWritten.operand`). So where such a token stands in a program, there is a statement with an
operand left open, its `Slot`, and whatever the token is replaced by decides this operand and
nothing else: if an operand is written there, it fills the slot; if not, the line has an error
(`parseLexemes_slot`).

Places are left out, since what stands behind the token moves with its length.
-/
import Nic.Proofs.Statement.LineGrammar

set_option autoImplicit false

namespace Nic

/-! ## Open operands -/

/-- Whether a token can be nothing but a byte operand: a number, or a name with a displacement. -/
def Token.isOperand : Token → Bool
  | unsigned _ | signed _ | displaced _ _ => true
  | _ => false

/-- A piece of the source is such a token, or a fault. -/
def OperandOrFault (value : Except LexicalFault Token) : Prop :=
  ∀ t, value = .ok t → t.isOperand = true

theorem OperandOrFault.ok {t : Token} (ht : t.isOperand = true) : OperandOrFault (.ok t) := by
  intro t' h
  rwa [← Except.ok.inj h]

/-- It means something on its line, and does not end it. -/
theorem OperandOrFault.significant {value : Except LexicalFault Token}
    (h : OperandOrFault value) :
    isSignificant ⟨value, ⟨0, 0⟩⟩ = true ∧ value ≠ .ok .newline := by
  cases value with
  | error fault => exact ⟨rfl, fun heq => by cases heq⟩
  | ok t =>
    have hmeaningful : t.isMeaningful = true := by
      have ht := h t rfl
      cases t <;> first | rfl | exact ht
    exact isSignificant_lexeme (t := ⟨t, ⟨0, 0⟩⟩) hmeaningful

/-- A statement with one byte operand left open. -/
inductive Slot where
  | imm (op : ImmOp) (a : Reg)
  | jump
  | jumpIf (cond : Cond) (a : Reg)
  | value (name : Label) (before after : List Operand)

/-- The statement with this operand. -/
def Slot.fill : Slot → Operand → Statement.Body
  | imm op a, x => .instr (.imm op a x)
  | jump, x => .instr (.jump x)
  | jumpIf cond a, x => .instr (.jumpIf cond a x)
  | value name before after, x => .word name (before ++ x :: after)

/-! ## Statements -/

section Written

variable {front back : List (Located Token)} {t₀ : Located Token}

/-- An operand is behind every token that is none. -/
theorem exists_front {m : Located Token} {tokens : List (Located Token)}
    (ht : t₀.value.isOperand = true) (hm : m.value.isOperand = false)
    (h : front ++ t₀ :: back = m :: tokens) :
    ∃ rest, front = m :: rest ∧ rest ++ t₀ :: back = tokens := by
  cases front with
  | nil =>
    rw [List.nil_append, List.cons.injEq] at h
    rw [h.1, hm] at ht
    cases ht
  | cons m' rest =>
    rw [List.cons_append, List.cons.injEq] at h
    exact ⟨rest, by rw [h.1], h.2⟩

theorem exists_split_of_forall₂ {values : List Operand}
    (h : List.Forall₂ Operand.Written values (front ++ t₀ :: back)) :
    ∃ before after, List.Forall₂ Operand.Written before front ∧
      List.Forall₂ Operand.Written after back := by
  induction front generalizing values with
  | nil =>
    cases h with
    | cons _ hafter => exact ⟨[], _, .nil, hafter⟩
  | cons t front ih =>
    cases h with
    | cons hx hrest =>
      obtain ⟨before, after, hbefore, hafter⟩ := ih hrest
      exact ⟨_ :: before, after, .cons hx hbefore, hafter⟩

/-- **Where an operand is written, another one may be.** -/
theorem Statement.Body.Written.exists_slot {b : Statement.Body}
    (h : b.Written (front ++ t₀ :: back)) (ht : t₀.value.isOperand = true) :
    ∃ slot : Slot, ∀ x t, Operand.Written x t → (slot.fill x).Written (front ++ t :: back) := by
  generalize htokens : front ++ t₀ :: back = tokens at h
  -- the tokens before the operand are peeled off one by one
  cases h with
  | halt =>
    obtain ⟨rest, rfl, h⟩ := exists_front ht rfl htokens
    simp at h
  | noop =>
    obtain ⟨rest, rfl, h⟩ := exists_front ht rfl htokens
    simp at h
  | @imm op a _ _ _ _ hx =>
    obtain ⟨rest₁, rfl, h₁⟩ := exists_front ht rfl htokens
    obtain ⟨rest₂, rfl, h₂⟩ := exists_front ht rfl h₁
    obtain ⟨rfl, -, rfl⟩ : rest₂ = [] ∧ _ ∧ back = [] := by simpa [List.append_eq_cons_iff] using h₂
    exact ⟨.imm op a, fun x t hx => .imm hx⟩
  | pair =>
    obtain ⟨rest₁, rfl, h₁⟩ := exists_front ht rfl htokens
    obtain ⟨rest₂, rfl, h₂⟩ := exists_front ht rfl h₁
    obtain ⟨rest₃, rfl, h₃⟩ := exists_front ht rfl h₂
    simp at h₃
  | alu =>
    obtain ⟨rest₁, rfl, h₁⟩ := exists_front ht rfl htokens
    obtain ⟨rest₂, rfl, h₂⟩ := exists_front ht rfl h₁
    obtain ⟨rest₃, rfl, h₃⟩ := exists_front ht rfl h₂
    obtain ⟨rest₄, rfl, h₄⟩ := exists_front ht rfl h₃
    simp at h₄
  | jump hx =>
    obtain ⟨rest, rfl, h⟩ := exists_front ht rfl htokens
    obtain ⟨rfl, -, rfl⟩ : rest = [] ∧ _ ∧ back = [] := by simpa [List.append_eq_cons_iff] using h
    exact ⟨.jump, fun x t hx => .jump hx⟩
  | @jumpIf cond a _ _ _ _ hx =>
    obtain ⟨rest₁, rfl, h₁⟩ := exists_front ht rfl htokens
    obtain ⟨rest₂, rfl, h₂⟩ := exists_front ht rfl h₁
    obtain ⟨rfl, -, rfl⟩ : rest₂ = [] ∧ _ ∧ back = [] := by simpa [List.append_eq_cons_iff] using h₂
    exact ⟨.jumpIf cond a, fun x t hx => .jumpIf hx⟩
  | @word name values s s₁ ts hvalues =>
    obtain ⟨rest₁, rfl, h₁⟩ := exists_front ht rfl htokens
    obtain ⟨rest₂, rfl, h₂⟩ := exists_front ht rfl h₁
    subst h₂
    obtain ⟨before, after, hbefore, hafter⟩ := exists_split_of_forall₂ hvalues
    exact ⟨.value ⟨name, s₁.start⟩ before after, fun x t hx =>
      .word (List.rel_append hbefore (.cons hx hafter))⟩

/-- What can only be an operand is one. -/
theorem Statement.Body.Written.operand_of_mem {b : Statement.Body} {tokens : List (Located Token)}
    (h : b.Written tokens) {t : Located Token} (ht : t ∈ tokens)
    (hoperand : t.value.isOperand = true) : ∃ x : Operand, x.Written t := by
  cases h with
  | imm hx =>
    simp only [List.mem_cons, List.not_mem_nil, or_false] at ht
    rcases ht with rfl | rfl | rfl
    · cases hoperand
    · cases hoperand
    · exact ⟨_, hx⟩
  | jump hx =>
    simp only [List.mem_cons, List.not_mem_nil, or_false] at ht
    rcases ht with rfl | rfl
    · cases hoperand
    · exact ⟨_, hx⟩
  | jumpIf hx =>
    simp only [List.mem_cons, List.not_mem_nil, or_false] at ht
    rcases ht with rfl | rfl | rfl
    · cases hoperand
    · cases hoperand
    · exact ⟨_, hx⟩
  | word hvalues =>
    simp only [List.mem_cons] at ht
    rcases ht with rfl | rfl | ht
    · cases hoperand
    · cases hoperand
    · obtain ⟨x, -, hx⟩ := exists_of_forall₂ hvalues.flip ht
      exact ⟨x, hx⟩
  | _ =>
    -- no other statement has such a token
    simp only [List.mem_cons, List.not_mem_nil, or_false] at ht
    rcases ht with rfl | rfl | rfl | rfl <;> cases hoperand

/-! ## Lines -/

theorem LineWritten.exists_slot {statements : List Statement}
    (h : LineWritten statements (front ++ t₀ :: back)) (ht : t₀.value.isOperand = true) :
    ∃ (labels : List Statement) (slot : Slot) (rest : List (Located Token)), rest <:+ front ∧
      ∀ x t, Operand.Written x t →
        LineWritten (labels ++ [⟨slot.fill x, spanOf (rest ++ t :: back)⟩])
          (front ++ t :: back) := by
  generalize htokens : front ++ t₀ :: back = tokens at h
  induction h generalizing front with
  | blank => simp at htokens
  | statement h =>
    subst htokens
    obtain ⟨slot, hslot⟩ := h.exists_slot ht
    exact ⟨[], slot, front, List.suffix_rfl, fun x t hx => .statement (hslot x t hx)⟩
  | label h ih =>
    obtain ⟨rest₁, rfl, h₁⟩ := exists_front ht rfl htokens
    obtain ⟨rest₂, rfl, h₂⟩ := exists_front ht rfl h₁
    obtain ⟨labels, slot, rest, hsuffix, hslot⟩ := ih h₂
    refine ⟨_ :: labels, slot, rest, ?_, fun x t hx => .label (hslot x t hx)⟩
    exact hsuffix.trans ((List.suffix_cons _ _).trans (List.suffix_cons _ _))

theorem LineWritten.operand {statements : List Statement} {tokens : List (Located Token)}
    (h : LineWritten statements tokens) {t : Located Token} (ht : t ∈ tokens)
    (hoperand : t.value.isOperand = true) : ∃ x : Operand, x.Written t := by
  induction h with
  | blank => cases ht
  | statement h => exact h.operand_of_mem ht hoperand
  | label _ ih =>
    simp only [List.mem_cons] at ht
    rcases ht with rfl | rfl | ht
    · cases hoperand
    · cases hoperand
    · exact ih ht

end Written

/-! ## Lines without places -/

theorem span_of_map_lexeme {values : List (Except LexicalFault Token)}
    {tokens : List (Located Token)} (h : tokens.map Located.lexeme = unplaced values)
    {t : Located Token} (ht : t ∈ tokens) : t.span = ⟨0, 0⟩ := by
  have hmem : t.lexeme ∈ unplaced values := h ▸ List.mem_map_of_mem ht
  obtain ⟨value, -, hvalue⟩ := List.mem_map.mp hmem
  exact (congrArg Located.span hvalue).symm

section Line

variable {front back : List (Except LexicalFault Token)}

/-- The tokens of a line in the grammar, before and after one of its pieces. -/
theorem LineMeans.split {value : Except LexicalFault Token} {statements : List Statement}
    (h : LineMeans (unplaced (front ++ value :: back)) statements) :
    ∃ F t B, F.map Located.lexeme = unplaced front ∧ value = .ok t ∧
      B.map Located.lexeme = unplaced back ∧ LineWritten statements (F ++ ⟨t, ⟨0, 0⟩⟩ :: B) := by
  obtain ⟨tokens, hline, hwritten⟩ := h
  rw [unplaced_append] at hline
  obtain ⟨F, rest, rfl, hF, hrest⟩ := List.map_eq_append_iff.mp hline.symm
  obtain ⟨⟨t, span⟩, B, rfl, ht, hB⟩ := List.map_eq_cons_iff.mp hrest
  obtain ⟨hvalue, hspan⟩ := Located.mk.inj ht
  obtain rfl : span = ⟨0, 0⟩ := hspan
  exact ⟨F, t, B, hF, hvalue.symm, hB, hwritten⟩

/-- **A line with an operand left open.** If a line has no error and there is a token on it that can
only be an operand, then another operand may stand there, and nothing else. -/
theorem parseLine_slot {t₀ : Token} (ht₀ : t₀.isOperand = true)
    (h : (parseLine (unplaced (front ++ .ok t₀ :: back))).error = none) :
    ∃ (labels : List Statement) (slot : Slot),
      (∀ t x, Operand.Written x ⟨t, ⟨0, 0⟩⟩ →
        parseLine (unplaced (front ++ .ok t :: back)) =
          ⟨labels ++ [⟨slot.fill x, ⟨0, 0⟩⟩], none⟩) ∧
      ∀ value, OperandOrFault value →
        (parseLine (unplaced (front ++ value :: back))).error = none →
        ∃ t x, value = .ok t ∧ Operand.Written x ⟨t, ⟨0, 0⟩⟩ := by
  obtain ⟨statements, hmeans⟩ := parseLine_error_eq_none_iff.mp h
  obtain ⟨F, t, B, hF, ht, hB, hwritten⟩ := hmeans.split
  obtain rfl := Except.ok.inj ht
  obtain ⟨labels, slot, rest, hsuffix, hslot⟩ := hwritten.exists_slot ht₀
  refine ⟨labels, slot, ?_, ?_⟩
  · intro t x hx
    have hspan : spanOf (rest ++ ⟨t, ⟨0, 0⟩⟩ :: B) = ⟨0, 0⟩ := by
      refine spanOf_eq_zero fun u hu => ?_
      rcases List.mem_append.mp hu with hu | hu
      · exact span_of_map_lexeme hF (hsuffix.mem hu)
      · rcases List.mem_cons.mp hu with rfl | hu
        · rfl
        · exact span_of_map_lexeme hB hu
    have hline := hslot x ⟨t, ⟨0, 0⟩⟩ hx
    rw [hspan] at hline
    refine parseLine_eq_iff.mpr ⟨_, ?_, hline⟩
    rw [List.map_append, hF, List.map_cons, hB, unplaced_append]
    rfl
  · intro value hvalue herror
    obtain ⟨statements', hmeans'⟩ := parseLine_error_eq_none_iff.mp herror
    obtain ⟨F', t, B', -, rfl, -, hwritten'⟩ := hmeans'.split
    obtain ⟨x, hx⟩ := hwritten'.operand (List.mem_append_right _ List.mem_cons_self)
      (hvalue t rfl)
    exact ⟨t, x, rfl, hx⟩

end Line

/-! ## Programs without places -/

/-- Pieces in front of lines: their last line goes on with the first of these. -/
theorem foldr_consLexeme_cons (xs : List Lexeme) :
    ∃ (lines : List (List Lexeme)) (front : List Lexeme), ∀ line rest,
      xs.foldr consLexeme (line :: rest) = lines ++ (front ++ line) :: rest := by
  induction xs with
  | nil => exact ⟨[], [], fun line rest => rfl⟩
  | cons l xs ih =>
    obtain ⟨lines, front, hfold⟩ := ih
    by_cases hl : l.value = .ok .newline
    · obtain ⟨value, span⟩ := l
      obtain rfl : value = .ok .newline := hl
      refine ⟨[] :: lines, front, fun line rest => ?_⟩
      rw [List.foldr_cons, hfold, consLexeme_newline]
      rfl
    · cases lines with
      | nil =>
        refine ⟨[], [l].filter isSignificant ++ front, fun line rest => ?_⟩
        rw [List.foldr_cons, hfold, List.nil_append, consLexeme_cons hl, List.append_assoc]
        rfl
      | cons first lines =>
        refine ⟨([l].filter isSignificant ++ first) :: lines, front, fun line rest => ?_⟩
        rw [List.foldr_cons, hfold, List.cons_append, consLexeme_cons hl]
        rfl

/-- The lines around a piece do not depend on it. -/
theorem tokenLines_around (before after : List Lexeme) :
    ∃ (earlier later : List (List Lexeme)) (front back : List Lexeme), ∀ l : Lexeme,
      isSignificant l = true → l.value ≠ .ok .newline →
        tokenLines (before ++ l :: after) = earlier ++ (front ++ l :: back) :: later := by
  obtain ⟨lines, front, hbefore⟩ := foldr_consLexeme_cons before
  obtain ⟨back, later, hafter⟩ : ∃ back later, after.foldr consLexeme [[]] = back :: later := by
    obtain ⟨back, later, h, -⟩ := foldr_consLexeme_append after [] [] []
    exact ⟨back, later, h⟩
  refine ⟨lines.filter (!·.isEmpty), later.filter (!·.isEmpty), front, back, ?_⟩
  intro l hsignificant hnewline
  have hline : consLexeme l (back :: later) = (l :: back) :: later := by
    rw [consLexeme_cons hnewline, List.filter_cons_of_pos hsignificant]
    rfl
  rw [tokenLines, List.foldr_append, List.foldr_cons, hafter, hline, hbefore, List.filter_append,
    List.filter_cons_of_pos (by simp)]

/-- Without places, they are lines without places. -/
theorem tokenLines_unplaced_around (before after : List (Except LexicalFault Token)) :
    ∃ (earlier later : List (List Lexeme)) (front back : List (Except LexicalFault Token)),
      ∀ value, isSignificant ⟨value, ⟨0, 0⟩⟩ = true → value ≠ .ok .newline →
        tokenLines (unplaced (before ++ value :: after)) =
          earlier ++ unplaced (front ++ value :: back) :: later := by
  obtain ⟨earlier, later, F, B, hlines⟩ := tokenLines_around (unplaced before) (unplaced after)
  -- with any piece between them, the two parts of the line are from the program
  have hzero : ∀ l ∈ F ++ (⟨.ok .colon, ⟨0, 0⟩⟩ :: B), l.span = ⟨0, 0⟩ := by
    intro l hl
    have hmem := hlines ⟨.ok .colon, ⟨0, 0⟩⟩ rfl (fun h => by cases h) ▸
      List.mem_append_right earlier List.mem_cons_self
    have hprogram := mem_of_tokenLines hmem hl
    rw [List.mem_append, List.mem_cons] at hprogram
    rcases hprogram with h | rfl | h
    · obtain ⟨value, -, rfl⟩ := List.mem_map.mp h
      rfl
    · rfl
    · obtain ⟨value, -, rfl⟩ := List.mem_map.mp h
      rfl
  have hunplaced : ∀ lexemes : List Lexeme, (∀ l ∈ lexemes, l.span = ⟨0, 0⟩) →
      lexemes = unplaced (lexemes.map (·.value)) := by
    intro lexemes h
    rw [unplaced, List.map_map]
    refine (List.map_id _).symm.trans (List.map_congr_left fun l hl => ?_)
    rw [Function.comp_apply, ← h l hl, id]
  refine ⟨earlier, later, F.map (·.value), B.map (·.value), ?_⟩
  intro value hsignificant hnewline
  rw [unplaced_append, unplaced_append,
    ← hunplaced F fun l hl => hzero l (List.mem_append_left _ hl)]
  refine (hlines ⟨value, ⟨0, 0⟩⟩ hsignificant hnewline).trans ?_
  have hB := hunplaced B fun l hl => hzero l (List.mem_append_right _ (List.mem_cons_of_mem _ hl))
  nth_rewrite 1 [hB]
  rfl

/-- **A program with an operand left open.** If a program has no error in its lines and there is a
token in it that can only be an operand, then another operand may stand there, and nothing else. The
program is the same but for this operand. -/
theorem parseLexemes_slot {before after : List (Except LexicalFault Token)} {t₀ : Token}
    (ht₀ : t₀.isOperand = true)
    (h : (parseLexemes (unplaced (before ++ .ok t₀ :: after))).errors = []) :
    ∃ (earlier : List Statement) (slot : Slot) (later : List Statement),
      (∀ t x, t.isOperand = true → Operand.Written x ⟨t, ⟨0, 0⟩⟩ →
        parseLexemes (unplaced (before ++ .ok t :: after)) =
          ⟨earlier ++ ⟨slot.fill x, ⟨0, 0⟩⟩ :: later, []⟩) ∧
      ∀ value, OperandOrFault value →
        (parseLexemes (unplaced (before ++ value :: after))).errors = [] →
        ∃ t x, value = .ok t ∧ Operand.Written x ⟨t, ⟨0, 0⟩⟩ := by
  obtain ⟨earlier, later, front, back, hlines⟩ := tokenLines_unplaced_around before after
  have hparse : ∀ value, OperandOrFault value →
      parseLexemes (unplaced (before ++ value :: after)) =
        ⟨(earlier.map parseLine).flatMap (·.statements) ++
            ((parseLine (unplaced (front ++ value :: back))).statements ++
              (later.map parseLine).flatMap (·.statements)),
          (earlier.map parseLine).filterMap (·.error) ++
            ((parseLine (unplaced (front ++ value :: back))).error.toList ++
              (later.map parseLine).filterMap (·.error))⟩ := by
    intro value hvalue
    obtain ⟨hsignificant, hnewline⟩ := hvalue.significant
    rw [parseLexemes, hlines value hsignificant hnewline, List.map_append, List.map_cons,
      List.flatMap_append, List.flatMap_cons, List.filterMap_append, List.filterMap_cons]
    cases (parseLine (unplaced (front ++ value :: back))).error <;> rfl
  rw [hparse _ (.ok ht₀)] at h
  simp only [List.append_eq_nil_iff, Option.toList_eq_nil_iff] at h
  obtain ⟨hearlier, hline, hlater⟩ := h
  obtain ⟨labels, slot, hfill, honly⟩ := parseLine_slot ht₀ hline
  refine ⟨(earlier.map parseLine).flatMap (·.statements) ++ labels, slot,
    (later.map parseLine).flatMap (·.statements), ?_, ?_⟩
  · intro t x ht hx
    rw [hparse _ (.ok ht), hfill t x hx, hearlier, hlater]
    simp
  · intro value hvalue herrors
    rw [hparse _ hvalue] at herrors
    simp only [List.append_eq_nil_iff, Option.toList_eq_nil_iff] at herrors
    exact honly value hvalue herrors.2.1

end Nic
