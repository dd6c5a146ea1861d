/-
The tokens of a text in small letters.

The case of a letter from `A` to `Z` enters a program in many ways: as the `R` of a register, the
mark and the digits of a hexadecimal number, in reserved words and in names. Each has a reader of
its own, and each reader folds case in its own way. Here the letters of a whole text are made small,
and what is read then is what was read before, with the names in small letters and everything at
its place (`scanFrom_lower`).

Two facts carry this. Nothing that is asked about characters tells a letter from its small form
(`traits_toLower`), so the text is cut into the same pieces, of the same number of bytes. And within
a piece, all that is kept of the letters themselves is a name.
-/
import Nic.Proofs.Statement.Places
import Nic.Proofs.Text.Uppercase
import Nic.Proofs.Token.Kinds

set_option autoImplicit false

namespace Nic

/-! ## Characters -/

namespace Text

/-- A text with its letters from `A` to `Z` made small. -/
def lower (cs : List Char) : List Char := cs.map Char.toLower

/-- A name with its letters from `A` to `Z` made small. -/
def lowercase (s : String) : String := String.ofList (lower s.toList)

theorem toLower_of_not_ascii {c : Char} (h : ¬ c.toNat < 128) : c.toLower = c := by
  have hletter : ¬ (c.val ≥ 'A'.val ∧ c.val ≤ 'Z'.val) := by
    rintro ⟨-, hle⟩
    have hz : c.toNat ≤ 90 := hle
    omega
  exact dif_neg hletter

/-- The symbols that the scanner looks for behind the first character of a piece. -/
def symbols : List Char := ['/', '\n', '+', '-', '0']

/-- What is asked about a character. -/
structure Traits where
  symbol? : Option Char
  isWordChar : Bool
  isDecimalDigit : Bool
  isNameStart : Bool
  isHexMark : Bool
  isRegisterMark : Bool
  hexValue? : Option Nibble
  upperChar : List Char
  utf8Size : Nat
deriving DecidableEq

/-- The traits of a character. -/
def traits (c : Char) : Traits where
  symbol? := if c ∈ symbols then some c else none
  isWordChar := isWordChar c
  isDecimalDigit := isDecimalDigit c
  isNameStart := Token.isNameStart c
  isHexMark := c == 'x' || c == 'X'
  isRegisterMark := c == 'r' || c == 'R'
  hexValue? := hexValue? c
  upperChar := upperChar c
  utf8Size := c.utf8Size

/-- **A letter and its small form have the same traits.** Only letters below 128 change, so these
are tried. -/
theorem traits_toLower (c : Char) : traits c.toLower = traits c := by
  by_cases hc : c.toNat < 128
  · apply of_ascii hc
    decide +kernel
  · rw [toLower_of_not_ascii hc]

theorem isWordChar_toLower (c : Char) : isWordChar c.toLower = isWordChar c :=
  congrArg Traits.isWordChar (traits_toLower c)

theorem isDecimalDigit_toLower (c : Char) : isDecimalDigit c.toLower = isDecimalDigit c :=
  congrArg Traits.isDecimalDigit (traits_toLower c)

theorem hexValue?_toLower (c : Char) : hexValue? c.toLower = hexValue? c :=
  congrArg Traits.hexValue? (traits_toLower c)

theorem upperChar_toLower (c : Char) : upperChar c.toLower = upperChar c :=
  congrArg Traits.upperChar (traits_toLower c)

theorem utf8Size_toLower (c : Char) : c.toLower.utf8Size = c.utf8Size :=
  congrArg Traits.utf8Size (traits_toLower c)

/-- A symbol is only the small form of itself. -/
theorem toLower_eq_iff {d : Char} (hd : d ∈ symbols) (c : Char) : c.toLower = d ↔ c = d := by
  have hsymbol : ∀ c, c = d ↔ (traits c).symbol? = some d := by
    intro c
    constructor
    · rintro rfl
      exact if_pos hd
    · intro h
      dsimp only [traits] at h
      split at h
      · exact Option.some.inj h
      · cases h
  rw [hsymbol, hsymbol, traits_toLower]

theorem lower_cons (c : Char) (cs : List Char) : lower (c :: cs) = c.toLower :: lower cs := rfl

theorem lower_append (cs ds : List Char) : lower (cs ++ ds) = lower cs ++ lower ds :=
  List.map_append

theorem length_lower (cs : List Char) : (lower cs).length = cs.length := List.length_map _

theorem byteLength_lower (cs : List Char) : byteLength (lower cs) = byteLength cs := by
  induction cs with
  | nil => rfl
  | cons c cs ih => rw [lower_cons, byteLength_cons, byteLength_cons, ih, utf8Size_toLower]

/-- Small letters have the same capitals. -/
theorem uppercase_lowercase (s : String) : uppercase (lowercase s) = uppercase s := by
  rw [uppercase, uppercase, lowercase, String.toList_ofList, lower, List.flatMap_map]
  simp only [upperChar_toLower]

theorem utf8ByteSize_lowercase (s : String) : (lowercase s).utf8ByteSize = s.utf8ByteSize := by
  rw [← byteLength_toList, ← byteLength_toList, lowercase, String.toList_ofList, byteLength_lower]

end Text

namespace Token

open Text

theorem isNameStart_toLower (c : Char) : isNameStart c.toLower = isNameStart c :=
  congrArg Traits.isNameStart (traits_toLower c)

/-- A letter can start a name, so what cannot is no letter. -/
theorem toLower_of_not_isNameStart {c : Char} (h : isNameStart c = false) : c.toLower = c := by
  by_cases hc : c.toNat < 128
  · have hall : ∀ n < 128, isNameStart (Char.ofNat n) = true ∨
        (Char.ofNat n).toLower = Char.ofNat n := by
      decide +kernel
    have hn := hall c.toNat hc
    rw [Char.ofNat_toNat, h] at hn
    exact hn.resolve_left Bool.false_ne_true
  · exact toLower_of_not_ascii hc

theorem wordRun_lower (cs : List Char) : wordRun (lower cs) = lower (wordRun cs) := by
  rw [wordRun, wordRun, lower, lower, List.takeWhile_map]
  congr 2
  funext c
  exact isWordChar_toLower c

/-! ## Numbers -/

theorem readDigits_lower (radix limit : Nat) (cs : List Char) :
    readDigits radix limit (lower cs) = readDigits radix limit cs := by
  have hdigit : ∀ value c, addDigit radix limit value c.toLower = addDigit radix limit value c := by
    intro value c
    rw [addDigit, addDigit, digitValue?, digitValue?, hexValue?_toLower]
  rw [readDigits, readDigits, lower, List.isEmpty_map, List.foldlM_map]
  simp only [hdigit]

theorem afterHexMark?_cons_cons (c d : Char) (cs : List Char) :
    afterHexMark? (c :: d :: cs) =
      if c = '0' ∧ (d = 'x' ∨ d = 'X') then some cs else none := by
  unfold afterHexMark?
  split <;> simp_all

theorem afterHexMark?_lower (cs : List Char) :
    afterHexMark? (lower cs) = (afterHexMark? cs).map lower := by
  match cs with
  | [] => rfl
  | [c] =>
    have hone : ∀ c, afterHexMark? [c] = none := by
      intro c
      unfold afterHexMark?
      split <;> simp_all
    rw [lower, List.map_singleton, hone, hone]
    rfl
  | c :: d :: cs =>
    have hmark : (d.toLower == 'x' || d.toLower == 'X') = (d == 'x' || d == 'X') :=
      congrArg Traits.isHexMark (traits_toLower d)
    rw [Bool.eq_iff_iff] at hmark
    simp only [Bool.or_eq_true, beq_iff_eq] at hmark
    simp only [lower_cons, afterHexMark?_cons_cons, toLower_eq_iff (d := '0') (by decide), hmark]
    split <;> rfl

theorem readMagnitude_lower (limit : Nat) (large : LexicalFault) (cs : List Char) :
    readMagnitude limit large (lower cs) = readMagnitude limit large cs := by
  rw [readMagnitude, afterHexMark?_lower, readMagnitude]
  cases afterHexMark? cs with
  | none => exact congrArg (Except.mapError _) (readDigits_lower 10 limit cs)
  | some digits => exact congrArg (Except.mapError _) (readDigits_lower 16 65535 digits)

theorem readUnsigned_lower (cs : List Char) : readUnsigned (lower cs) = readUnsigned cs := by
  rw [readUnsigned, readUnsigned, readMagnitude_lower]

theorem readNegative_lower (cs : List Char) : readNegative (lower cs) = readNegative cs := by
  rw [readNegative, readNegative, readMagnitude_lower]

theorem readRegister_lower (cs : List Char) : readRegister (lower cs) = readRegister cs := by
  rw [readRegister, readRegister, readDigits_lower]

/-! ## Names -/

theorem readDisplaced_lower (name : List Char) (negative : Bool) (cs : List Char) :
    readDisplaced (lower name) negative (lower cs) =
      (readDisplaced name negative cs).map (respelled lowercase) := by
  have hname : String.ofList (lower name) = lowercase (String.ofList name) := by
    rw [lowercase, String.toList_ofList]
  rw [readDisplaced, readDisplaced, readMagnitude_lower, hname]
  cases readMagnitude 65535 .exceedsSigned cs with
  | error fault => rfl
  | ok magnitude =>
    simp only [bind, Except.bind]
    split <;> split <;> rfl

theorem displacement?_lower (cs : List Char) :
    displacement? (lower cs) =
      (displacement? cs).map fun (negative, digits) => (negative, lower digits) := by
  match cs with
  | [] => rfl
  | [a] =>
    rw [lower, List.map_singleton, displacement?_singleton, displacement?_singleton]
    rfl
  | a :: d :: cs =>
    have hplus : a.toLower = '+' ↔ a = '+' := toLower_eq_iff (by decide) a
    have hminus : a.toLower = '-' ↔ a = '-' := toLower_eq_iff (by decide) a
    have hsign : (a.toLower == '-') = (a == '-') := by
      rw [Bool.eq_iff_iff, beq_iff_eq, beq_iff_eq, hminus]
    simp only [lower_cons, displacement?_cons_cons, hplus, hminus, hsign, isDecimalDigit_toLower,
      wordRun_lower]
    split <;> rfl

theorem registerDigits?_lower (cs : List Char) :
    registerDigits? (lower cs) = (registerDigits? cs).map lower := by
  cases cs with
  | nil => rfl
  | cons c cs =>
    have hr : (c.toLower == 'r' || c.toLower == 'R') = (c == 'r' || c == 'R') :=
      congrArg Traits.isRegisterMark (traits_toLower c)
    have hdigits : (lower cs).all isDecimalDigit = cs.all isDecimalDigit := by
      rw [lower, List.all_map]
      congr 1
      funext d
      exact isDecimalDigit_toLower d
    rw [lower_cons, registerDigits?, registerDigits?, hr, hdigits, lower, List.isEmpty_map]
    split <;> rfl

/-- A name in small letters is read as the name, in small letters. -/
theorem ofName_lower (cs : List Char) :
    ofName (lower cs) = (ofName cs).map (respelled lowercase) := by
  rw [ofName, ofName, registerDigits?_lower]
  cases registerDigits? cs with
  | some digits =>
    have hregister : (readRegister digits).map (respelled lowercase) = readRegister digits := by
      cases hread : readRegister digits with
      | error fault => rfl
      | ok t =>
        obtain ⟨r, rfl⟩ := readRegister_eq_ok hread
        rfl
    exact (readRegister_lower digits).trans hregister.symm
  | none =>
    have hname : String.ofList (lower cs) = lowercase (String.ofList cs) := by
      rw [lowercase, String.toList_ofList]
    have hmnemonic : Mnemonic.ofName? (lowercase (String.ofList cs)) =
        Mnemonic.ofName? (String.ofList cs) := by
      rw [Mnemonic.ofName?, Mnemonic.ofName?, uppercase_lowercase]
    simp only [Option.map_none, hname, hmnemonic]
    cases Mnemonic.ofName? (String.ofList cs) <;> rfl

/-! ## Pieces -/

/-- A piece with its name spelt otherwise. -/
def Piece.respelled (g : String → String) (piece : Piece) : Piece :=
  ⟨piece.content.map (Except.map (Token.respelled g)), piece.more⟩

theorem Piece.lexemes_respelled (g : String → String) (piece : Piece) (span : Span) :
    (piece.respelled g).lexemes span = (piece.lexemes span).map (Lexeme.respelled id g) := by
  rw [Piece.lexemes, Piece.lexemes, Piece.respelled]
  cases piece.content <;> rfl

/-- There is no name in a piece that no letter starts. -/
theorem respelled_pieceAt {c : Char} (hc : isNameStart c = false) (g : String → String)
    (cs : List Char) : (pieceAt c cs).respelled g = pieceAt c cs := by
  have hcontent : (pieceAt c cs).content.map (Except.map (Token.respelled g)) =
      (pieceAt c cs).content := by
    cases hpiece : (pieceAt c cs).content with
    | none => rfl
    | some value =>
      cases value with
      | error fault => rfl
      | ok t =>
        cases readFrom_of_content hpiece with
        | name hname | displaced hname =>
          rw [hc] at hname
          cases hname
        | _ => rfl
  rw [Piece.respelled, hcontent]

theorem pieceAt_lower_of_name {c : Char} (hc : isNameStart c = true) (cs : List Char) :
    pieceAt c.toLower (lower cs) = (pieceAt c cs).respelled lowercase := by
  have hdrop : (lower cs).drop (wordRun cs).length = lower (cs.drop (wordRun cs).length) :=
    List.map_drop.symm
  rw [pieceAt_name ((isNameStart_toLower c).trans hc), pieceAt_name hc, wordRun_lower, length_lower,
    hdrop, displacement?_lower, ← lower_cons]
  cases displacement? (cs.drop (wordRun cs).length) with
  | none =>
    rw [Option.map_none, ofName_lower]
    rfl
  | some found =>
    obtain ⟨negative, digits⟩ := found
    simp only [Option.map_some, readDisplaced_lower, length_lower]
    rfl

theorem pieceAt_lower_of_not_name {c : Char} (hc : isNameStart c = false) (cs : List Char) :
    pieceAt c (lower cs) = pieceAt c cs := by
  by_cases hslash : c = '/'
  · have hhead : (lower cs).head? = some '/' ↔ cs.head? = some '/' := by
      cases cs with
      | nil => rfl
      | cons d cs =>
        rw [lower_cons, List.head?_cons, List.head?_cons, Option.some_inj, Option.some_inj]
        exact toLower_eq_iff (by decide) d
    have hline : (lower cs).takeWhile (· != '\n') = lower (cs.takeWhile (· != '\n')) := by
      rw [lower, lower, List.takeWhile_map]
      congr 2
      funext d
      rw [Function.comp_apply, Bool.eq_iff_iff, bne_iff_ne, bne_iff_ne, Ne,
        toLower_eq_iff (by decide)]
    simp only [hslash, pieceAt_slash, hhead, hline, length_lower]
  by_cases hdigit : isDecimalDigit c = true
  · have hcons : c :: lower (wordRun cs) = lower (c :: wordRun cs) :=
      congrArg (· :: lower (wordRun cs)) (toLower_of_not_isNameStart hc).symm
    rw [pieceAt_digit hdigit, pieceAt_digit hdigit, wordRun_lower, length_lower, hcons,
      readUnsigned_lower]
  by_cases hminus : c = '-'
  · rw [hminus, pieceAt_minus, pieceAt_minus, wordRun_lower, length_lower, readNegative_lower]
  -- what is left is decided by the character alone
  simp only [pieceAt, beq_iff_eq, hslash, hdigit, hminus, hc, if_false, Bool.false_eq_true]

/-- **A text in small letters is cut as the text**, and a piece of it is the piece in small
letters. -/
theorem pieceAt_lower (c : Char) (cs : List Char) :
    pieceAt c.toLower (lower cs) = (pieceAt c cs).respelled lowercase := by
  cases hc : isNameStart c with
  | true => exact pieceAt_lower_of_name hc cs
  | false =>
    rw [toLower_of_not_isNameStart hc, pieceAt_lower_of_not_name hc, respelled_pieceAt hc]

/-- **The tokens of a text in small letters** are its tokens, with the names in small letters. -/
theorem scanFrom_lower (offset : Nat) (cs : List Char) :
    scanFrom offset (lower cs) = (scanFrom offset cs).map (Lexeme.respelled id lowercase) := by
  induction cs using pieces_induction generalizing offset with
  | nil => rw [lower, List.map_nil, scanFrom_nil, List.map_nil]
  | piece c cs ih =>
    have hmore : (pieceAt c.toLower (lower cs)).more = (pieceAt c cs).more := by
      rw [pieceAt_lower, Piece.respelled]
    have htake : c.toLower :: (lower cs).take (pieceAt c cs).more =
        lower (c :: cs.take (pieceAt c cs).more) :=
      congrArg (c.toLower :: ·) List.map_take.symm
    have hdrop : (lower cs).drop (pieceAt c cs).more = lower (cs.drop (pieceAt c cs).more) :=
      List.map_drop.symm
    rw [lower_cons, scanFrom_cons, hmore, htake, hdrop, byteLength_lower, ih, pieceAt_lower,
      Piece.lexemes_respelled, scanFrom_cons offset c cs, List.map_append]

end Token
end Nic
