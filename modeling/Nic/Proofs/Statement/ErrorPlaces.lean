/-
The places of errors on their lines.

An error of a line stands at one of the pieces of the line, or, if the line ends too early, at the
empty place after the last of them (`span_of_error`). The reader gets there by taking tokens from
the front: what it leaves of a line is always the end of it, and it never forgets where the line
ends (`Local`). Both are kept when readers follow each other, so it is enough to look at the two
that take tokens.

Labels are places too, as errors about them are found later. All of them stand on the line of their
statement (`place_of_label`).
-/
import Nic.Proofs.Statement.FaultyLines

set_option autoImplicit false

namespace Nic

/-! ## Errors at the cursor -/

/-- The place of one of the tokens that are left, or the empty place at the end of the line. -/
def Cursor.Has (c : Cursor) (span : Span) : Prop :=
  (∃ t ∈ c.rest, t.span = span) ∨ span = .empty c.stop

/-- What is left of a line is an end of it. -/
structure Cursor.Follows (c c' : Cursor) : Prop where
  rest : c'.rest <:+ c.rest
  stop : c'.stop = c.stop

theorem Cursor.Follows.refl (c : Cursor) : c.Follows c := ⟨List.suffix_rfl, rfl⟩

theorem Cursor.Follows.has {c c' : Cursor} (h : c.Follows c') {span : Span} (hspan : c'.Has span) :
    c.Has span := by
  rcases hspan with ⟨t, ht, rfl⟩ | hspan
  · exact .inl ⟨t, h.rest.mem ht, rfl⟩
  · exact .inr (h.stop ▸ hspan)

namespace Reader

/-- A result that leaves an end of the line, or an error at a place that was left. -/
def Stays {α : Type} (c : Cursor) : EStateM.Result SyntaxError Cursor α → Prop
  | .ok _ c' => c.Follows c'
  | .error e _ => c.Has e.span

theorem Stays.of_follows {α : Type} {c c' : Cursor} {r : EStateM.Result SyntaxError Cursor α}
    (h : c.Follows c') (hr : Stays c' r) : Stays c r := by
  cases r with
  | ok a c'' => exact ⟨hr.rest.trans h.rest, hr.stop.trans h.stop⟩
  | error e c'' => exact h.has hr

/-- A reader takes its tokens from the front. -/
def Local {α : Type} (x : Reader α) : Prop := ∀ c, Stays c (x c)

theorem Local.pure {α : Type} (a : α) : Local (Pure.pure a : Reader α) := fun c => .refl c

theorem Local.bind {α β : Type} {x : Reader α} {f : α → Reader β} (hx : Local x)
    (hf : ∀ a, Local (f a)) : Local (x >>= f) := by
  intro c
  have hfirst := hx c
  change Stays c (EStateM.bind x f c)
  unfold EStateM.bind
  cases hxc : x c with
  | error e c₁ =>
    rw [hxc] at hfirst
    exact hfirst
  | ok a c₁ =>
    rw [hxc] at hfirst
    exact .of_follows hfirst (hf a c₁)

theorem local_take {α : Type} (missing : SyntaxFault)
    (accept : Located Token → Except SyntaxFault α) : Local (take missing accept) := by
  intro c
  obtain ⟨rest, stop⟩ := c
  cases rest with
  | nil => exact .inr rfl
  | cons t rest =>
    simp only [take]
    cases accept t with
    | ok a => exact ⟨List.suffix_cons t rest, rfl⟩
    | error fault => exact .inl ⟨t, List.mem_cons_self, rfl⟩

theorem stays_takeAllInto {α : Type} (accept : Located Token → Except SyntaxFault α) (stop : Nat)
    (found : Array α) (tokens : List (Located Token)) :
    Stays ⟨tokens, stop⟩ (takeAllInto accept stop found tokens) := by
  induction tokens generalizing found with
  | nil => exact Cursor.Follows.refl _
  | cons t tokens ih =>
    rw [takeAllInto]
    cases accept t with
    | error fault => exact .inl ⟨t, List.mem_cons_self, rfl⟩
    | ok a =>
      have hnext : (⟨t :: tokens, stop⟩ : Cursor).Follows ⟨tokens, stop⟩ :=
        ⟨List.suffix_cons t tokens, rfl⟩
      exact Stays.of_follows hnext (ih (found.push a))

theorem local_takeAll {α : Type} (accept : Located Token → Except SyntaxFault α) :
    Local (takeAll accept) := fun c => stays_takeAllInto accept c.stop #[] c.rest

theorem local_register : Local register := local_take _ _

theorem local_operand : Local operand := local_take _ _

theorem local_name : Local name := local_take _ _

/-- **Statements are read from the front of a line.** -/
theorem local_body : Local body := by
  refine (local_take _ _).bind fun m => ?_
  cases m with
  | halt => exact .pure _
  | noop => exact .pure _
  | imm op => exact local_register.bind fun a => local_operand.bind fun x => .pure _
  | pair op => exact local_register.bind fun a => local_register.bind fun b => .pure _
  | alu op =>
    exact local_register.bind fun a => local_register.bind fun b =>
      local_register.bind fun c => .pure _
  | jump => exact local_operand.bind fun x => .pure _
  | jumpIf cond => exact local_register.bind fun a => local_operand.bind fun x => .pure _
  | word =>
    exact local_name.bind fun label => (local_takeAll operandOf).bind fun values => .pure _

end Reader

/-! ## Errors on their lines -/

/-- The place of a token, or the empty place after the last one. -/
def SpanOn (tokens : List (Located Token)) (span : Span) : Prop :=
  (∃ t ∈ tokens, t.span = span) ∨
    ∃ last, tokens.getLast? = some last ∧ span = .empty last.span.stop

theorem SpanOn.of_suffix {rest tokens : List (Located Token)} {span : Span} (h : SpanOn rest span)
    (hsuffix : rest <:+ tokens) : SpanOn tokens span := by
  obtain ⟨front, rfl⟩ := hsuffix
  rcases h with ⟨t, ht, rfl⟩ | ⟨last, hlast, rfl⟩
  · exact .inl ⟨t, List.mem_append_right front ht, rfl⟩
  · refine .inr ⟨last, ?_, rfl⟩
    rw [List.getLast?_append, hlast]
    rfl

theorem Cursor.Has.spanOn {tokens : List (Located Token)} (hne : tokens ≠ []) {span : Span}
    (h : (Cursor.ofTokens tokens).Has span) : SpanOn tokens span := by
  have hlast := List.getLast?_eq_some_getLast hne
  rcases h with htoken | hstop
  · exact .inl htoken
  · refine .inr ⟨_, hlast, ?_⟩
    rw [hstop, ofTokens, hlast]

theorem spanOn_of_parseBody {tokens : List (Located Token)} (hne : tokens ≠ []) {e : SyntaxError}
    (h : parseBody tokens = .error e) : SpanOn tokens e.span := by
  have hlocal := Reader.local_body (Cursor.ofTokens tokens)
  unfold parseBody at h
  dsimp only at h
  cases hbody : Reader.body (Cursor.ofTokens tokens) with
  | error e' c =>
    rw [hbody] at h hlocal
    cases h
    exact Cursor.Has.spanOn hne hlocal
  | ok body left =>
    rw [hbody] at h hlocal
    dsimp only at h
    by_cases hend : left.atEnd = true
    · rw [if_pos hend] at h
      cases h
    · -- the line goes on, and the error stands at the token that is next
      rw [if_neg hend] at h
      cases h
      obtain ⟨t, rest, hleft⟩ := List.exists_cons_of_ne_nil (mt List.isEmpty_iff.mpr hend)
      refine .inl ⟨t, hlocal.rest.mem (hleft ▸ List.mem_cons_self), ?_⟩
      rw [Cursor.here, hleft]

theorem spanOn_of_parseRest {tokens : List (Located Token)} {e : SyntaxError}
    (h : parseRest tokens = .error e) : SpanOn tokens e.span := by
  unfold parseRest at h
  split at h
  · cases h
    exact .inl ⟨_, List.mem_cons_self, rfl⟩
  · cases h
  next hne =>
    cases hbody : parseBody tokens with
    | error e' =>
      rw [hbody] at h
      cases h
      exact spanOn_of_parseBody hne hbody
    | ok s =>
      rw [hbody] at h
      cases h

/-- **An error stands at a piece of its line, or behind the last one.** -/
theorem span_of_error {line : List Lexeme} {e : SyntaxError}
    (h : (parseLine line).error = some e) :
    (∃ l ∈ line, l.span = e.span) ∨
      ∃ last, line.getLast? = some last ∧ e.span = .empty last.span.stop := by
  unfold parseLine at h
  cases ht : tokensOf line with
  | error fault =>
    rw [ht] at h
    cases h
    exact .inl ⟨_, mem_of_tokensOf_error ht, rfl⟩
  | ok tokens =>
    rw [ht] at h
    dsimp only at h
    cases hr : parseRest (takeLabels #[] tokens).2 with
    | ok statement =>
      rw [hr] at h
      cases h
    | error e' =>
      rw [hr] at h
      cases h
      obtain rfl := tokensOf_eq_ok_iff.mp ht
      rcases (spanOn_of_parseRest hr).of_suffix (takeLabels_spec #[] tokens).1 with
        ⟨t, hmem, hspan⟩ | ⟨last, hlast, hspan⟩
      · exact .inl ⟨t.lexeme, List.mem_map_of_mem hmem, hspan⟩
      · refine .inr ⟨last.lexeme, ?_, hspan⟩
        rw [List.getLast?_map, hlast]
        rfl

/-! ## Labels on their lines -/

theorem Operand.label?_moved (f : Nat → Nat) (x : Operand) :
    (x.moved f).label? = x.label?.map (Prod.map (Label.moved f) id) := by
  cases x <;> rfl

theorem SourceInstr.operand?_moved (f : Nat → Nat) (i : SourceInstr) :
    (i.moved f).operand? = i.operand?.map (Operand.moved f) := by
  cases i <;> rfl

theorem Statement.Body.labels_moved (f : Nat → Nat) (b : Statement.Body) :
    (b.moved f).labels = b.labels.map (Prod.map (Label.moved f) id) := by
  cases b with
  | instr i =>
    rw [moved, labels, labels, SourceInstr.operand?_moved]
    cases i.operand? with
    | none => rfl
    | some x => cases x <;> rfl
  | label name => rfl
  | word name values =>
    rw [moved, labels, labels, List.filterMap_map, List.map_cons, List.map_filterMap]
    congr 2
    funext x
    exact Operand.label?_moved f x

/-- **A label of a statement stands on the line of the statement**, defined or used. -/
theorem place_of_label {line : List Lexeme} {s : Statement} (h : s ∈ (parseLine line).statements)
    {label : Label} {offset : Int} (hlabel : (label, offset) ∈ s.body.labels) :
    OnLine line label.start := by
  have hlabels : s.body.labels.map (Prod.map (Label.moved (moveOthers line)) id) =
      s.body.labels := by
    rw [← Statement.Body.labels_moved]
    exact congrArg (fun s : Statement => s.body.labels) (moved_of_mem_parseLine h)
  have hfixed := List.map_inj_left.mp (hlabels.trans (List.map_id _).symm) _ hlabel
  exact moveOthers_eq_self_iff.mp (congrArg (fun p => p.1.start) hfixed)

end Nic
