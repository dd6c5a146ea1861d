/-
Definitions in the order of the source.

The pieces of a text start one after the other, as they tile it (`Tiling.ordered`). Lines leave
pieces out but change no order, and the names that the statements of a line define are tokens of it,
in their order. So of two definitions the one that comes first in the program starts first in the
source, and no two start at one place (`definitions_increasing`). This holds of sources with errors
as well.
-/
import Nic.Proofs.Assembly.Layout
import Nic.Proofs.Statement.FaultyLines
import Nic.Proofs.Token.Tiling

set_option autoImplicit false

namespace Nic

open Statement

/-! ## Lines -/

/-- A piece that is put in front of lines is their first piece, or is left out. -/
theorem flatten_consLexeme (l : Lexeme) (lines : List (List Lexeme)) :
    ((consLexeme l lines).flatten).Sublist (l :: lines.flatten) := by
  unfold consLexeme
  -- a newline starts a line, a comma and a comment are left out, and anything else stays
  split
  · exact List.sublist_cons_self l lines.flatten
  · exact List.sublist_cons_self l lines.flatten
  · exact List.sublist_cons_self l lines.flatten
  · split <;> exact List.Sublist.refl _

/-- Lines have their pieces in the order of the source. -/
theorem flatten_tokenLines (lexemes : List Lexeme) :
    ((tokenLines lexemes).flatten).Sublist lexemes := by
  have hlines : ((lexemes.foldr consLexeme [[]]).flatten).Sublist lexemes := by
    induction lexemes with
    | nil => exact List.Sublist.refl _
    | cons l lexemes ih =>
      rw [List.foldr_cons]
      exact (flatten_consLexeme l _).trans (ih.cons_cons l)
  unfold tokenLines
  rw [List.flatten_filter_not_isEmpty]
  exact hlines

/-- The places where the names that statements define start. -/
def Statement.definitionStarts (statements : List Statement) : List Nat :=
  (statements.filterMap defined?).map (·.start)

theorem definitionStarts_append (xs ys : List Statement) :
    definitionStarts (xs ++ ys) = definitionStarts xs ++ definitionStarts ys := by
  unfold definitionStarts
  rw [List.filterMap_append, List.map_append]

/-- A statement defines a name of its own at most. -/
theorem Statement.Body.Written.definitionStarts {body : Body} {tokens : List (Located Token)}
    (h : body.Written tokens) (span : Span) :
    (definitionStarts [⟨body, span⟩]).Sublist (tokens.map (·.span.start)) := by
  cases h with
  | word hvalues =>
    -- the name is the token after the mnemonic
    refine (List.Sublist.cons_cons _ ?_).cons _
    exact List.nil_sublist _
  | _ => exact List.nil_sublist _

theorem LineWritten.definitionStarts {statements : List Statement} {tokens : List (Located Token)}
    (h : LineWritten statements tokens) :
    (definitionStarts statements).Sublist (tokens.map (·.span.start)) := by
  induction h with
  | blank => exact List.Sublist.refl _
  | statement h => exact h.definitionStarts _
  | label _ ih => exact (ih.cons _).cons_cons _

theorem LabelsInFront.definitionStarts {labels : List Statement} {tokens : List (Located Token)}
    (h : LabelsInFront labels tokens) :
    (definitionStarts labels).Sublist (tokens.map (·.span.start)) := by
  induction h with
  | none _ => exact List.nil_sublist _
  | label _ ih => exact (ih.cons _).cons_cons _

/-- The names that a line defines are written on it, in their order. -/
theorem definitionStarts_parseLine (line : List Lexeme) :
    (definitionStarts (parseLine line).statements).Sublist (line.map (·.span.start)) := by
  have hstarts : ∀ tokens : List (Located Token),
      (tokens.map Located.lexeme).map (·.span.start) = tokens.map (·.span.start) := by
    intro tokens
    rw [List.map_map]
    rfl
  rcases lineGives_parseLine line with ⟨tokens, hline, hwritten⟩ | ⟨-, hleaves⟩
  · rw [hline, hstarts, ← hline]
    exact hwritten.definitionStarts
  · generalize (parseLine line).statements = statements at hleaves
    cases hleaves with
    | fault _ => exact List.nil_sublist _
    | labels hlabels =>
      rw [hstarts]
      exact hlabels.definitionStarts

/-- **Definitions start one after the other**, in the order of the program. -/
theorem definitions_increasing (source : String) :
    (definitionStarts (parse source).statements).Pairwise (· < ·) := by
  have hlines : ∀ lines : List (List Lexeme),
      (definitionStarts (lines.flatMap fun line => (parseLine line).statements)).Sublist
        (lines.flatten.map (·.span.start)) := by
    intro lines
    induction lines with
    | nil => exact List.Sublist.refl _
    | cons line lines ih =>
      rw [List.flatMap_cons, definitionStarts_append, List.flatten_cons, List.map_append]
      exact (definitionStarts_parseLine line).append ih
  -- from definitions to the pieces on lines, and from these to all pieces
  rw [parse_statements_eq, ← tokenLines_scan]
  apply List.Pairwise.sublist (hlines _)
  apply List.Pairwise.sublist ((flatten_tokenLines _).map _)
  rw [List.pairwise_map]
  exact (Token.tiling_scan source).ordered.imp And.left

end Nic
