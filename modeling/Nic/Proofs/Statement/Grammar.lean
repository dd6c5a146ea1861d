/-
The grammar of statements, and what the reader makes of a line.

`Operand.Written` and `Statement.Body.Written` say how operands and statements are written, as
tokens; they know nothing of cursors and errors. A statement that the reader gives is written on
a line of the source, behind the labels of that line: `written_of_mem_parse`. Its labels are those
that its tokens name (`Statement.Body.Written.labels_eq`).
-/
import Mathlib.Data.List.Forall2
import Nic.Statement.Parse

set_option autoImplicit false

namespace Nic

/-! ## How statements are written -/

/-- A byte operand is written as a number from -128 to 255, which is taken modulo 256, as a name,
or as a name with a displacement. -/
inductive Operand.Written : Operand → Located Token → Prop where
  | unsigned {value : Nat} {span : Span} (h : value ≤ 255) :
    Written (.literal (BitVec.ofInt 8 value)) ⟨.unsigned value, span⟩
  | signed {value : Int} {span : Span} (h : -128 ≤ value ∧ value ≤ 255) :
    Written (.literal (BitVec.ofInt 8 value)) ⟨.signed value, span⟩
  | name {name : String} {span : Span} :
    Written (.address ⟨name, span.start⟩ 0) ⟨.name name, span⟩
  | displaced {name : String} {offset : Int} {span : Span} :
    Written (.address ⟨name, span.start⟩ offset) ⟨.displaced name offset, span⟩

/-- A byte is written as its value. -/
theorem Operand.Written.byte (b : Byte) (span : Span) :
    (Operand.literal b).Written ⟨.unsigned b.toNat, span⟩ := by
  have hb : BitVec.ofInt 8 (b.toNat : Int) = b := by simp
  have hwritten := @Operand.Written.unsigned b.toNat span (Nat.le_of_lt_succ b.isLt)
  rwa [hb] at hwritten

/-- A statement is written as a mnemonic and one token for each operand. -/
inductive Statement.Body.Written : Statement.Body → List (Located Token) → Prop where
  | halt {s : Span} : Written (.instr .halt) [⟨.mnemonic .halt, s⟩]
  | noop {s : Span} : Written (.instr .noop) [⟨.mnemonic .noop, s⟩]
  | imm {op : ImmOp} {a : Reg} {x : Operand} {s s₁ : Span} {t : Located Token}
    (h : x.Written t) :
    Written (.instr (.imm op a x)) [⟨.mnemonic (.imm op), s⟩, ⟨.register a, s₁⟩, t]
  | pair {op : PairOp} {a b : Reg} {s s₁ s₂ : Span} :
    Written (.instr (.pair op a b))
      [⟨.mnemonic (.pair op), s⟩, ⟨.register a, s₁⟩, ⟨.register b, s₂⟩]
  | alu {op : AluOp} {a b c : Reg} {s s₁ s₂ s₃ : Span} :
    Written (.instr (.alu op a b c))
      [⟨.mnemonic (.alu op), s⟩, ⟨.register a, s₁⟩, ⟨.register b, s₂⟩, ⟨.register c, s₃⟩]
  | jump {x : Operand} {s : Span} {t : Located Token} (h : x.Written t) :
    Written (.instr (.jump x)) [⟨.mnemonic .jump, s⟩, t]
  | jumpIf {cond : Cond} {a : Reg} {x : Operand} {s s₁ : Span} {t : Located Token}
    (h : x.Written t) :
    Written (.instr (.jumpIf cond a x)) [⟨.mnemonic (.jumpIf cond), s⟩, ⟨.register a, s₁⟩, t]
  | word {name : String} {values : List Operand} {s s₁ : Span} {ts : List (Located Token)}
    (h : List.Forall₂ Operand.Written values ts) :
    Written (.word ⟨name, s₁.start⟩ values) (⟨.mnemonic .word, s⟩ :: ⟨.name name, s₁⟩ :: ts)

namespace Reader

/-! ## One token -/

/-- A number that fits is read as the byte that it is modulo 256. -/
theorem literalOf_eq_ok {value : Int} {x : Operand} (h : literalOf value = .ok x) :
    (-128 ≤ value ∧ value ≤ 255) ∧ x = .literal (BitVec.ofInt 8 value) := by
  unfold literalOf Byte.fit? at h
  by_cases hv : Byte.minValue ≤ value ∧ value ≤ Byte.maxValue
  · rw [if_pos hv] at h
    exact ⟨hv, (Except.ok.inj h).symm⟩
  · rw [if_neg hv] at h
    cases h

theorem operandOf_eq_ok {t : Located Token} {x : Operand} (h : operandOf t = .ok x) :
    x.Written t := by
  obtain ⟨value, span⟩ := t
  cases value with
  | unsigned v =>
    obtain ⟨hv, rfl⟩ := literalOf_eq_ok h
    exact .unsigned (by omega)
  | signed v =>
    obtain ⟨hv, rfl⟩ := literalOf_eq_ok h
    exact .signed hv
  | name name =>
    cases h
    exact .name
  | displaced name offset =>
    cases h
    exact .displaced
  | _ => cases h

theorem registerOf_eq_ok {t : Located Token} {r : Reg} (h : registerOf t = .ok r) :
    t.value = .register r := by
  obtain ⟨value, span⟩ := t
  cases value with
  | register r' =>
    cases h
    rfl
  | _ => cases h

theorem nameOf_eq_ok {t : Located Token} {label : Label} (h : nameOf t = .ok label) :
    t.value = .name label.name ∧ label.start = t.span.start := by
  obtain ⟨value, span⟩ := t
  cases value with
  | name name =>
    cases h
    exact ⟨rfl, rfl⟩
  | _ => cases h

theorem mnemonicOf_eq_ok {t : Located Token} {m : Mnemonic} (h : mnemonicOf t = .ok m) :
    t.value = .mnemonic m := by
  obtain ⟨value, span⟩ := t
  cases value with
  | mnemonic m' =>
    cases h
    rfl
  | _ => cases h

/-! ## Tokens one after the other -/

theorem bind_eq_ok {α β : Type} {x : Reader α} {f : α → Reader β} {c c' : Cursor} {b : β}
    (h : (x >>= f) c = .ok b c') : ∃ a c₁, x c = .ok a c₁ ∧ f a c₁ = .ok b c' := by
  change EStateM.bind x f c = .ok b c' at h
  unfold EStateM.bind at h
  cases hx : x c with
  | ok a c₁ =>
    rw [hx] at h
    exact ⟨a, c₁, rfl, h⟩
  | error e c₁ =>
    rw [hx] at h
    cases h

theorem take_eq_ok {α : Type} {missing : SyntaxFault}
    {accept : Located Token → Except SyntaxFault α} {c c' : Cursor} {a : α}
    (h : take missing accept c = .ok a c') :
    ∃ t, c.rest = t :: c'.rest ∧ accept t = .ok a := by
  unfold take at h
  cases hc : c.rest with
  | nil =>
    rw [hc] at h
    cases h
  | cons t rest =>
    rw [hc] at h
    dsimp only at h
    cases ha : accept t with
    | ok a' =>
      rw [ha] at h
      cases h
      exact ⟨t, rfl, ha⟩
    | error fault =>
      rw [ha] at h
      cases h

theorem takeAllInto_eq_ok {α : Type} {accept : Located Token → Except SyntaxFault α} {stop : Nat}
    {ts : List (Located Token)} {found : Array α} {as : List α} {c' : Cursor}
    (h : takeAllInto accept stop found ts = .ok as c') :
    ∃ bs, as = found.toList ++ bs ∧ List.Forall₂ (fun b t => accept t = .ok b) bs ts := by
  induction ts generalizing found with
  | nil =>
    rw [takeAllInto] at h
    cases h
    exact ⟨[], by simp, .nil⟩
  | cons t ts ih =>
    rw [takeAllInto] at h
    cases ha : accept t with
    | ok a =>
      rw [ha] at h
      obtain ⟨bs, has, hbs⟩ := ih h
      exact ⟨a :: bs, by rw [has, Array.toList_push, List.append_assoc]; rfl, .cons ha hbs⟩
    | error fault =>
      rw [ha] at h
      cases h

theorem register_eq_ok {c c' : Cursor} {r : Reg} (h : register c = .ok r c') :
    ∃ span, c.rest = ⟨.register r, span⟩ :: c'.rest := by
  obtain ⟨t, hc, ht⟩ := take_eq_ok h
  exact ⟨t.span, by rw [hc, ← registerOf_eq_ok ht]⟩

theorem operand_eq_ok {c c' : Cursor} {x : Operand} (h : operand c = .ok x c') :
    ∃ t, c.rest = t :: c'.rest ∧ x.Written t := by
  obtain ⟨t, hc, ht⟩ := take_eq_ok h
  exact ⟨t, hc, operandOf_eq_ok ht⟩

theorem name_eq_ok {c c' : Cursor} {label : Label} (h : name c = .ok label c') :
    ∃ span, c.rest = ⟨.name label.name, span⟩ :: c'.rest ∧ label.start = span.start := by
  obtain ⟨t, hc, ht⟩ := take_eq_ok h
  obtain ⟨hvalue, hstart⟩ := nameOf_eq_ok ht
  exact ⟨t.span, by rw [hc, ← hvalue], hstart⟩

theorem takeAll_operandOf_eq_ok {c c' : Cursor} {values : List Operand}
    (h : takeAll operandOf c = .ok values c') : List.Forall₂ Operand.Written values c.rest := by
  obtain ⟨bs, rfl, hbs⟩ := takeAllInto_eq_ok h
  exact hbs.imp fun _ _ => operandOf_eq_ok

/-! ## Statements -/

/-- **What is read is written there**: a statement that takes all tokens of a cursor is written as
these tokens. -/
theorem body_eq_ok {c c' : Cursor} {b : Statement.Body} (h : body c = .ok b c')
    (hend : c'.rest = []) : b.Written c.rest := by
  -- the mnemonic decides which tokens follow; each of them is the first of what is left
  obtain ⟨m, c₁, hm, h⟩ := bind_eq_ok h
  obtain ⟨t, hc, ht⟩ := take_eq_ok hm
  have ht : t = ⟨.mnemonic m, t.span⟩ := by rw [← mnemonicOf_eq_ok ht]
  rw [hc, ht]
  cases m with
  | halt =>
    cases h
    rw [hend]
    exact .halt
  | noop =>
    cases h
    rw [hend]
    exact .noop
  | imm op =>
    obtain ⟨a, c₂, ha, h⟩ := bind_eq_ok h
    obtain ⟨x, c₃, hx, h⟩ := bind_eq_ok h
    cases h
    obtain ⟨s₁, hc₁⟩ := register_eq_ok ha
    obtain ⟨t₂, hc₂, hw⟩ := operand_eq_ok hx
    rw [hc₁, hc₂, hend]
    exact .imm hw
  | pair op =>
    obtain ⟨a, c₂, ha, h⟩ := bind_eq_ok h
    obtain ⟨b, c₃, hb, h⟩ := bind_eq_ok h
    cases h
    obtain ⟨s₁, hc₁⟩ := register_eq_ok ha
    obtain ⟨s₂, hc₂⟩ := register_eq_ok hb
    rw [hc₁, hc₂, hend]
    exact .pair
  | alu op =>
    obtain ⟨a, c₂, ha, h⟩ := bind_eq_ok h
    obtain ⟨b, c₃, hb, h⟩ := bind_eq_ok h
    obtain ⟨d, c₄, hd, h⟩ := bind_eq_ok h
    cases h
    obtain ⟨s₁, hc₁⟩ := register_eq_ok ha
    obtain ⟨s₂, hc₂⟩ := register_eq_ok hb
    obtain ⟨s₃, hc₃⟩ := register_eq_ok hd
    rw [hc₁, hc₂, hc₃, hend]
    exact .alu
  | jump =>
    obtain ⟨x, c₂, hx, h⟩ := bind_eq_ok h
    cases h
    obtain ⟨t₁, hc₁, hw⟩ := operand_eq_ok hx
    rw [hc₁, hend]
    exact .jump hw
  | jumpIf cond =>
    obtain ⟨a, c₂, ha, h⟩ := bind_eq_ok h
    obtain ⟨x, c₃, hx, h⟩ := bind_eq_ok h
    cases h
    obtain ⟨s₁, hc₁⟩ := register_eq_ok ha
    obtain ⟨t₂, hc₂, hw⟩ := operand_eq_ok hx
    rw [hc₁, hc₂, hend]
    exact .jumpIf hw
  | word =>
    obtain ⟨label, c₂, hlabel, h⟩ := bind_eq_ok h
    obtain ⟨values, c₃, hvalues, h⟩ := bind_eq_ok h
    cases h
    obtain ⟨s₁, hc₁, hstart⟩ := name_eq_ok hlabel
    obtain ⟨name, start⟩ := label
    obtain rfl : start = s₁.start := hstart
    rw [hc₁]
    exact .word (takeAll_operandOf_eq_ok hvalues)

end Reader

/-! ## Lines -/

/-- The labels of a line are label statements with names that stand there, and what is left is the
end of the line. -/
theorem takeLabels_spec (found : Array Statement) (tokens : List (Located Token)) :
    (takeLabels found tokens).2 <:+ tokens ∧
      ∀ s ∈ (takeLabels found tokens).1.toList, s ∈ found.toList ∨
        ∃ name span, ⟨.name name, span⟩ ∈ tokens ∧ s.body = .label ⟨name, span.start⟩ := by
  fun_induction takeLabels found tokens with
  | case1 found name span colon rest ih =>
    obtain ⟨hrest, hfound⟩ := ih
    refine ⟨hrest.trans ?_, ?_⟩
    · exact (List.suffix_cons _ _).trans (List.suffix_cons _ _)
    · intro s hs
      -- a label found further on is in the rest of the line, which is on the line
      rcases hfound s hs with h | ⟨name', span', hmem, hbody⟩
      · rw [Array.toList_push, List.mem_append, List.mem_singleton] at h
        rcases h with h | rfl
        · exact .inl h
        · exact .inr ⟨name, span, List.mem_cons_self, rfl⟩
      · exact .inr ⟨name', span', List.mem_cons_of_mem _ (List.mem_cons_of_mem _ hmem), hbody⟩
  | case2 found rest hnone =>
    exact ⟨List.suffix_rfl, fun s hs => .inl hs⟩

/-- What is left of a line after its labels, if it is a statement, is written there. -/
theorem parseRest_eq_ok {tokens : List (Located Token)} {s : Statement}
    (h : parseRest tokens = .ok (some s)) : s.body.Written tokens := by
  -- neither a register with a colon nor the end of the line gives a statement
  have hbody : parseBody tokens = .ok s := by
    unfold parseRest at h
    split at h
    · cases h
    · cases h
    · cases hb : parseBody tokens with
      | ok s' =>
        rw [hb] at h
        cases h
        rfl
      | error e =>
        rw [hb] at h
        cases h
  unfold parseBody at hbody
  dsimp only at hbody
  cases hr : Reader.body (Cursor.ofTokens tokens) with
  | error e c =>
    rw [hr] at hbody
    cases hbody
  | ok body left =>
    rw [hr] at hbody
    dsimp only at hbody
    -- a statement counts only if no token is left after it
    by_cases hend : left.atEnd = true
    · rw [if_pos hend] at hbody
      cases hbody
      exact Reader.body_eq_ok hr (List.isEmpty_iff.mp hend)
    · rw [if_neg hend] at hbody
      cases hbody

/-- A statement of a source comes from one of its lines: it is one of the labels there, or what is
left after these. -/
theorem mem_parse {source : String} {s : Statement} (hs : s ∈ (parse source).statements) :
    ∃ line ∈ tokenLines (Token.scan source), ∃ tokens, tokensOf line = .ok tokens ∧
      (s ∈ (takeLabels #[] tokens).1.toList ∨
        parseRest (takeLabels #[] tokens).2 = .ok (some s)) := by
  obtain ⟨parsed, hparsed, hs⟩ := List.mem_flatMap.mp hs
  obtain ⟨line, hline, rfl⟩ := List.mem_map.mp hparsed
  unfold parseLine at hs
  cases ht : tokensOf line with
  | error fault =>
    rw [ht] at hs
    cases hs
  | ok tokens =>
    rw [ht] at hs
    dsimp only at hs
    refine ⟨line, hline, tokens, ht, ?_⟩
    cases hr : parseRest (takeLabels #[] tokens).2 with
    | error e =>
      rw [hr] at hs
      exact .inl hs
    | ok statement =>
      rw [hr] at hs
      rcases List.mem_append.mp hs with h | h
      · exact .inl h
      · exact .inr (congrArg Except.ok (Option.mem_toList.mp h))

/-- **Statements are written in the source**: a statement of a source that is no label is written
at the end of one of its lines. -/
theorem written_of_mem_parse {source : String} {s : Statement}
    (hs : s ∈ (parse source).statements) (hbody : ∀ label, s.body ≠ .label label) :
    ∃ line ∈ tokenLines (Token.scan source), ∃ tokens, tokensOf line = .ok tokens ∧
      ∃ written, written <:+ tokens ∧ s.body.Written written := by
  obtain ⟨line, hline, tokens, ht, hlabel | hrest⟩ := mem_parse hs
  · rcases (takeLabels_spec #[] tokens).2 s hlabel with h | ⟨name, span, -, h⟩
    · cases h
    · exact absurd h (hbody _)
  · exact ⟨line, hline, tokens, ht, _, (takeLabels_spec #[] tokens).1, parseRest_eq_ok hrest⟩

/-! ## Names -/

/-- The tokens of a line are those of its pieces. -/
theorem mem_of_tokensOf {line : List Lexeme} {tokens : List (Located Token)}
    (h : tokensOf line = .ok tokens) {t : Located Token} (ht : t ∈ tokens) :
    ⟨.ok t.value, t.span⟩ ∈ line := by
  induction line generalizing tokens with
  | nil =>
    cases h
    cases ht
  | cons l line ih =>
    rw [tokensOf, List.mapM_cons] at h
    obtain ⟨value, span⟩ := l
    cases value with
    | error fault => cases h
    | ok token =>
      cases hrest : tokensOf line with
      | error fault =>
        rw [tokensOf] at hrest
        simp only [hrest] at h
        cases h
      | ok rest =>
        have hrest' := hrest
        rw [tokensOf] at hrest'
        simp only [hrest'] at h
        cases h
        rcases List.mem_cons.mp ht with rfl | ht
        · exact List.mem_cons_self
        · exact List.mem_cons_of_mem _ (ih hrest ht)

/-- A piece that is put in front of lines is on a line, or left out; nothing else is new. -/
theorem mem_of_consLexeme {k l : Lexeme} {line : List Lexeme} {lines : List (List Lexeme)}
    (h : line ∈ consLexeme k lines) (hl : l ∈ line) : l = k ∨ ∃ other ∈ lines, l ∈ other := by
  unfold consLexeme at h
  split at h
  · rcases List.mem_cons.mp h with rfl | h
    · cases hl
    · exact .inr ⟨line, h, hl⟩
  · exact .inr ⟨line, h, hl⟩
  · exact .inr ⟨line, h, hl⟩
  · cases lines with
    | nil =>
      rw [List.mem_singleton.mp h] at hl
      exact .inl (List.mem_singleton.mp hl)
    | cons first rest =>
      rcases List.mem_cons.mp h with rfl | h
      · rcases List.mem_cons.mp hl with hl | hl
        · exact .inl hl
        · exact .inr ⟨first, List.mem_cons_self, hl⟩
      · exact .inr ⟨line, List.mem_cons_of_mem _ h, hl⟩

/-- Nothing is on a line that is not in the source. -/
theorem mem_of_tokenLines {lexemes line : List Lexeme} (h : line ∈ tokenLines lexemes) {l : Lexeme}
    (hl : l ∈ line) : l ∈ lexemes := by
  -- leaving out empty lines adds nothing
  replace h := List.mem_of_mem_filter h
  induction lexemes generalizing line with
  | nil =>
    rw [List.foldr_nil, List.mem_singleton] at h
    subst h
    cases hl
  | cons k lexemes ih =>
    rcases mem_of_consLexeme h hl with rfl | ⟨other, hother, hl⟩
    · exact List.mem_cons_self
    · exact List.mem_cons_of_mem _ (ih hl hother)

/-- **Names are written in the source**: what a statement defines is the name of a token, and
starts where the token does. -/
theorem name_of_mem_parse {source : String} {s : Statement} {label : Label}
    (hs : s ∈ (parse source).statements)
    (hbody : s.body = .label label ∨ ∃ values, s.body = .word label values) :
    ∃ span, ⟨.ok (.name label.name), span⟩ ∈ Token.scan source ∧ label.start = span.start := by
  have htoken : ∃ line ∈ tokenLines (Token.scan source), ∃ tokens, tokensOf line = .ok tokens ∧
      ∃ span, ⟨.name label.name, span⟩ ∈ tokens ∧ label.start = span.start := by
    rcases hbody with hbody | ⟨values, hbody⟩
    · obtain ⟨line, hline, tokens, ht, hlabel | hrest⟩ := mem_parse hs
      · rcases (takeLabels_spec #[] tokens).2 s hlabel with h | ⟨name, span, hmem, h⟩
        · cases h
        · obtain rfl := Statement.Body.label.inj (hbody.symm.trans h)
          exact ⟨line, hline, tokens, ht, span, hmem, rfl⟩
      · -- no statement of the grammar is a label
        have hwritten := parseRest_eq_ok hrest
        rw [hbody] at hwritten
        cases hwritten
    · obtain ⟨line, hline, tokens, ht, written, hsuffix, hwritten⟩ :=
        written_of_mem_parse hs fun label' h => by rw [hbody] at h; cases h
      rw [hbody] at hwritten
      cases hwritten with
      | word h =>
        exact ⟨line, hline, tokens, ht, _,
          hsuffix.mem (List.mem_cons_of_mem _ List.mem_cons_self), rfl⟩
  obtain ⟨line, hline, tokens, ht, span, hmem, hstart⟩ := htoken
  exact ⟨span, mem_of_tokenLines hline (mem_of_tokensOf ht hmem), hstart⟩

/-! ## Labels -/

/-- The label that a token names, where the token starts, and its displacement. -/
def Located.label? : Located Token → Option (Label × Int)
  | ⟨.name name, span⟩ => some (⟨name, span.start⟩, 0)
  | ⟨.displaced name offset, span⟩ => some (⟨name, span.start⟩, offset)
  | _ => none

theorem Operand.Written.label?_eq {x : Operand} {t : Located Token} (h : x.Written t) :
    x.label? = t.label? := by
  cases h <;> rfl

theorem Operand.Written.filterMap_label?_eq {values : List Operand} {tokens : List (Located Token)}
    (h : List.Forall₂ Operand.Written values tokens) :
    values.filterMap Operand.label? = tokens.filterMap Located.label? := by
  induction h with
  | nil => rfl
  | cons hx h ih => rw [List.filterMap_cons, List.filterMap_cons, hx.label?_eq, ih]

/-- **The labels of a statement are those that its tokens name.** -/
theorem Statement.Body.Written.labels_eq {b : Statement.Body} {tokens : List (Located Token)}
    (h : b.Written tokens) : b.labels = tokens.filterMap Located.label? := by
  cases h with
  | halt => rfl
  | noop => rfl
  | imm hx => exact Operand.Written.filterMap_label?_eq (.cons hx .nil)
  | pair => rfl
  | alu => rfl
  | jump hx => exact Operand.Written.filterMap_label?_eq (.cons hx .nil)
  | jumpIf hx => exact Operand.Written.filterMap_label?_eq (.cons hx .nil)
  | word hvalues => exact congrArg _ (Operand.Written.filterMap_label?_eq hvalues)

theorem Located.label?_eq_some {t : Located Token} {label : Label} {offset : Int}
    (h : t.label? = some (label, offset)) :
    label.start = t.span.start ∧
      (offset = 0 ∧ t.value = .name label.name ∨ t.value = .displaced label.name offset) := by
  unfold Located.label? at h
  split at h
  · cases h
    exact ⟨rfl, .inl ⟨rfl, rfl⟩⟩
  · cases h
    exact ⟨rfl, .inr rfl⟩
  · cases h

/-- **Labels are written in the source**: a label of a statement, defined or used, is the name of a
token, alone or with its displacement, and starts where the token does. -/
theorem token_of_mem_labels {source : String} {s : Statement}
    (hs : s ∈ (parse source).statements) {label : Label} {offset : Int}
    (h : (label, offset) ∈ s.body.labels) :
    ∃ span, label.start = span.start ∧
      (offset = 0 ∧ ⟨.ok (.name label.name), span⟩ ∈ Token.scan source ∨
        ⟨.ok (.displaced label.name offset), span⟩ ∈ Token.scan source) := by
  obtain ⟨line, hline, tokens, htokens, hlabel | hrest⟩ := mem_parse hs
  · rcases (takeLabels_spec #[] tokens).2 s hlabel with hnil | ⟨name, span, hmem, hbody⟩
    · cases hnil
    · rw [hbody] at h
      cases List.mem_singleton.mp h
      exact ⟨span, rfl, .inl ⟨rfl, mem_of_tokenLines hline (mem_of_tokensOf htokens hmem)⟩⟩
  · rw [(parseRest_eq_ok hrest).labels_eq] at h
    obtain ⟨t, ht, hlabel⟩ := List.mem_filterMap.mp h
    have hmem := mem_of_tokenLines hline
      (mem_of_tokensOf htokens ((takeLabels_spec #[] tokens).1.mem ht))
    obtain ⟨hstart, htoken⟩ := Located.label?_eq_some hlabel
    refine ⟨t.span, hstart, htoken.imp (And.imp_right ?_) ?_⟩
    · intro hname
      rwa [← hname]
    · intro hdisplaced
      rwa [← hdisplaced]

end Nic
