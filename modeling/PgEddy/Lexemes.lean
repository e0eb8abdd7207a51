import Mathlib.Logic.Relation
import PgEddy.Lexer

/-!
# The lexical structure of a query

Where the lexemes of a query end, by characters: what the lexer finds on its walk over the bytes. A quoted literal is a sequence
of pieces between two quotes; where any other lexeme ends is a function of the text.
-/

namespace PgEddy

open Text

/-! ## Quoted literals -/

/-- A piece of a quoted literal. -/
inductive LiteralPiece where
  /-- A character that stands for itself. -/
  | plain (c : Char)
  /-- Two single quotes, which stand for one. -/
  | doubled
  /-- An escape of one letter and the character it stands for. -/
  | escape (c v : Char)
  /-- `\u`, the characters behind it and the character they stand for. -/
  | unicode (hs : List Char) (v : Char)
  /-- A backslash before a character of one byte with which it is no escape. -/
  | odd (c : Char)

/-- The quote around a literal. -/
def quoteOf (single : Bool) : Char := if single then '\'' else Char.ofNat 34

/-- A hexadecimal digit. -/
def isHexChar (c : Char) : Bool := isAscii c && isAsciiHexdigit c.toUInt8

namespace LiteralPiece

/-- A piece as it is written. -/
def text : LiteralPiece → List Char
  | plain c => [c]
  | doubled => ['\'', '\'']
  | escape c _ => ['\\', c]
  | unicode hs _ => '\\' :: 'u' :: hs
  | odd c => ['\\', c]

/-- What a piece stands for. -/
def value : LiteralPiece → List Char
  | plain c => [c]
  | doubled => ['\'']
  | escape _ v => [v]
  | unicode _ v => [v]
  | odd c => ['\\', c]

/-- A piece the lexer reads as such. -/
def Valid (single : Bool) : LiteralPiece → Prop
  | plain c => c ≠ quoteOf single ∧ c ≠ '\\'
  | doubled => single = true
  | escape c v => isAscii c = true ∧ simpleEscape single c.toUInt8 = some v
  | unicode hs v => hs.length = 4 ∧ (fromStrRadix 32 16 hs).bind charFromU32 = some v
  | odd c => isAscii c = true ∧ simpleEscape single c.toUInt8 = none ∧ c ≠ 'u'

/-- An escape by code has four hexadecimal digits. -/
def Exact : LiteralPiece → Prop
  | unicode hs _ => hs.length = 4 ∧ hs.all isHexChar = true
  | _ => True

/-- A piece that is not a stray backslash. -/
def Escaped : LiteralPiece → Prop
  | odd _ => False
  | _ => True

end LiteralPiece

/-- The text of the pieces of a literal. -/
def pieceText (ps : List LiteralPiece) : List Char := ps.flatMap LiteralPiece.text

/-- What the pieces of a literal stand for. -/
def pieceValue (ps : List LiteralPiece) : List Char := ps.flatMap LiteralPiece.value

/-- What follows the pieces of a literal where they end. -/
inductive Ending (single : Bool) : List Char → Prop where
  /-- The closing quote. -/
  | closed (rest : List Char) : (single = true → rest.head? ≠ some '\'') → Ending single (quoteOf single :: rest)
  /-- The end of the query. -/
  | open_ : Ending single []
  /-- A backslash and the end of the query. -/
  | lone : Ending single ['\\']
  /-- A code that is none. -/
  | refused (hs : List Char) : (∀ v, ¬(LiteralPiece.unicode (hs.take 4) v).Valid single) → Ending single ('\\' :: 'u' :: hs)
  /-- A backslash before a character of several bytes. -/
  | split (c : Char) (rest : List Char) : isAscii c = false → Ending single ('\\' :: c :: rest)

/-! ## Other lexemes -/

/-- The characters at the start of a text whose first bytes meet a condition. -/
def takeBytes (p : UInt8 → Bool) (cs : List Char) : List Char := cs.takeWhile (fun c => p (lead c))

/-- The text behind them. -/
def afterBytes (p : UInt8 → Bool) (cs : List Char) : List Char := cs.dropWhile (fun c => p (lead c))

/-- The text behind a block comment, from the text behind its first two characters. -/
def afterComment : List Char → Option (List Char)
  | c :: d :: cs => if c = '*' ∧ d = '/' then some cs else afterComment (d :: cs)
  | _ => none

/-- The text behind a hexadecimal or octal literal. -/
def afterRadix (radix : Nat) (isDigit : UInt8 → Bool) (incomplete : String) (cs : List Char) : Option (List Char) :=
  (radixToken radix (takeBytes isDigit cs) incomplete).toOption.map (fun _ => afterBytes isDigit cs)

/-- A decimal literal: the text behind it, its own, and whether it has a point or an exponent. -/
def scanNumber : List Char → List Char → Bool → Bool → List Char × List Char × Bool
  | [], numStr, hasDot, _ => ([], numStr, hasDot)
  | c :: cs, numStr, hasDot, hasE =>
    if isAsciiDigit (lead c) then scanNumber cs (numStr ++ [c]) hasDot hasE
    else if c = '.' ∧ hasDot = false ∧ hasE = false then
      if cs.head? = some '.' then (c :: cs, numStr, hasDot) else scanNumber cs (numStr ++ ['.']) true hasE
    else if (c = 'e' ∨ c = 'E') ∧ hasE = false then
      match cs with
      | d :: ds =>
        if d = '+' ∨ d = '-' then scanNumber ds (numStr ++ ['e', d]) true true
        else scanNumber (d :: ds) (numStr ++ ['e']) true true
      | [] => ([], numStr ++ ['e'], true)
    else (c :: cs, numStr, hasDot)

/-- The text behind a number that starts with `c`. -/
def afterNumeric (c : Char) (cs : List Char) : Option (List Char) :=
  if c = '0' ∧ (cs.head? = some 'x' ∨ cs.head? = some 'X') then
    afterRadix 16 isAsciiHexdigit "incomplete hexadecimal integer" cs.tail
  else if c = '0' ∧ (cs.head? = some 'o' ∨ cs.head? = some 'O') then
    afterRadix 8 isOctalDigit "incomplete octal integer" cs.tail
  else
    let (rest, numStr, hasDot) := scanNumber (c :: cs) [] false false
    (numberToken numStr hasDot).toOption.map (fun _ => rest)

/-- The text behind a word. -/
def afterWord (cs : List Char) : List Char :=
  let rest := afterBytes isWordByte cs
  match secondWord (takeBytes isWordByte cs) with
  | some (second, _) =>
    let kw := afterBytes isAsciiWhitespace rest
    if String.ofList ((takeBytes isAsciiAlphabetic kw).map Char.toUpper) = second then afterBytes isAsciiAlphabetic kw else rest
  | none => rest

/-- The text behind an operator that starts with `c`. -/
def afterOperator (c : Char) (cs : List Char) : Option (List Char) :=
  match pairToken (lead c) (cs.head?.map lead) with
  | some _ => some cs.tail
  | none => (punctuation (lead c)).map (fun _ => cs)

/-- The text behind the lexeme that starts with `c`, which is no quoted one; none if it is refused. -/
def afterLexeme (c : Char) (cs : List Char) : Option (List Char) :=
  if isAsciiWhitespace (lead c) then some cs
  else if c = '/' ∧ cs.head? = some '/' then some (afterBytes (· ≠ '\n'.toUInt8) (c :: cs))
  else if c = '/' ∧ cs.head? = some '*' then afterComment cs.tail
  else if isAsciiDigit (lead c) ∨ (c = '.' ∧ (cs.head?.map lead).any isAsciiDigit) then afterNumeric c cs
  else if c = '$' then some (afterBytes isWordByte cs)
  else if isAsciiAlphabetic (lead c) ∨ c = '_' then some (afterWord (c :: cs))
  else afterOperator c cs

/-- A character that starts a quoted lexeme. -/
def isQuote (c : Char) : Bool := lead c = '\''.toUInt8 || lead c = doubleQuote || lead c = backtick

/-- The backtick around a name. -/
def backtickChar : Char := Char.ofNat 96

/-- A quoted lexeme and the text behind it. The end of the query ends it, too. -/
inductive Quoted : List Char → List Char → Prop where
  | literal {single : Bool} {ps : List LiteralPiece} {rest : List Char} : (∀ p ∈ ps, p.Valid single) →
      (single = true → rest.head? ≠ some '\'') → Quoted (quoteOf single :: (pieceText ps ++ quoteOf single :: rest)) rest
  | openLiteral {single : Bool} {ps : List LiteralPiece} : (∀ p ∈ ps, p.Valid single) → Quoted (quoteOf single :: pieceText ps) []
  | loneLiteral {single : Bool} {ps : List LiteralPiece} : (∀ p ∈ ps, p.Valid single) →
      Quoted (quoteOf single :: (pieceText ps ++ ['\\'])) []
  | name {name rest : List Char} : backtickChar ∉ name → Quoted (backtickChar :: (name ++ backtickChar :: rest)) rest
  | openName {name : List Char} : backtickChar ∉ name → Quoted (backtickChar :: name) []

/-- A lexeme at the start of a text and the text behind it. -/
inductive Lexeme : List Char → List Char → Prop where
  | plain {c : Char} {cs rest : List Char} : isQuote c = false → afterLexeme c cs = some rest → Lexeme (c :: cs) rest
  | quoted {cs rest : List Char} : Quoted cs rest → Lexeme cs rest

/-- The texts before which the lexemes of a query start, and its end. -/
def LexemesReach : List Char → List Char → Prop := Relation.ReflTransGen Lexeme

end PgEddy
