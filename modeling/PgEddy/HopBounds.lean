import PgEddy.Lexemes
import PgEddy.Parser

/-!
# The bounds of a relationship as they are written

The integers behind the star of a relationship, read from the text of the query, whatever the lexer and the parser make of them.
-/

namespace PgEddy

open Text

/-! ## Integer literals -/

/-- The value of a digit, up to that of a hexadecimal one. -/
def digitValue (c : Char) : Nat :=
  if c.toNat ≤ 57 then c.toNat - 48 else if c.toNat ≤ 90 then c.toNat - 55 else c.toNat - 87

/-- The number that digits of a base stand for. -/
def digitsValue (radix : Nat) (ds : List Char) : Nat := ds.foldl (fun n c => n * radix + digitValue c) 0

/-- The number of the decimal, hexadecimal or octal literal that a text starts with. -/
def literalValue (cs : List Char) : Nat :=
  if cs.head? = some '0' ∧ (cs.tail.head? = some 'x' ∨ cs.tail.head? = some 'X') then
    digitsValue 16 (takeBytes isAsciiHexdigit cs.tail.tail)
  else if cs.head? = some '0' ∧ (cs.tail.head? = some 'o' ∨ cs.tail.head? = some 'O') then
    digitsValue 8 (takeBytes isOctalDigit cs.tail.tail)
  else digitsValue 10 (takeBytes isAsciiDigit cs)

/-- The text from an offset on. -/
def textAt (input : List Char) (offset : Nat) : List Char := (dropTo offset input).getD []

/-- The token of an integer literal. -/
def Token.isIntLiteral : Token → Bool
  | .intLit _ | .intLitBig => true
  | _ => false

/-! ## From the lexer to the parser -/

/-- A token for the parser, with the word that the source has where it starts. -/
def spanned (input : List Char) (t : LexedToken) : SpannedToken :=
  ⟨t.token, String.ofList ((textAt input t.offset).takeWhile fun c => c.isAlphanum || c = '_')⟩

/-! ## The length of a relationship -/

/-- The tokens behind the first star. -/
def afterStar (ts : List LexedToken) : List LexedToken := (ts.dropWhile fun t => t.token ≠ .star).tail

/-- The number that is written as the next token. -/
def writtenBound (input : List Char) (ts : List LexedToken) : Option Nat :=
  match ts with
  | t :: _ => if t.token.isIntLiteral then some (literalValue (textAt input t.offset)) else none
  | [] => none

/-- The bounds that are written behind a star: `n` and `m` of `*n..m`, and `n` for both in `*n`. -/
def writtenBounds (input : List Char) (ts : List LexedToken) : Option Nat × Option Nat :=
  let min := writtenBound input ts
  let rest := if min.isSome then ts.tail else ts
  if rest.head?.map LexedToken.token = some .dotDot then (min, writtenBound input rest.tail) else (min, min)

end PgEddy
