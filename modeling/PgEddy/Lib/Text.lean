import Mathlib.Algebra.Order.Ring.Int
import Mathlib.Data.List.Basic

/-!
# Text: searching, cutting and reading numbers

A text is its characters; an offset into it counts the bytes of its encoding, and a cut at an offset that falls inside a
character has no result.
-/

namespace Text

/-- The count of bytes of a text. -/
def byteLen (cs : List Char) : Nat := (cs.map Char.utf8Size).sum

/-- The text before and after the first occurrence of a character. -/
def splitFirst (c : Char) : List Char → Option (List Char × List Char)
  | [] => none
  | d :: cs => if d = c then some ([], cs) else (splitFirst c cs).map fun (before, after) => (d :: before, after)

/-- The text before and after the last occurrence of a character. -/
def splitLast (c : Char) : List Char → Option (List Char × List Char)
  | [] => none
  | d :: cs =>
    match splitLast c cs with
    | some (before, after) => some (d :: before, after)
    | none => if d = c then some ([], cs) else none

/-- The offset of the first occurrence of a character. -/
def find (c : Char) (cs : List Char) : Option Nat := (splitFirst c cs).map fun (before, _) => byteLen before

/-- The text up to an offset. -/
def prefixTo : Nat → List Char → Option (List Char)
  | 0, _ => some []
  | _ + 1, [] => none
  | n + 1, c :: cs => if c.utf8Size ≤ n + 1 then (prefixTo (n + 1 - c.utf8Size) cs).map (c :: ·) else none

/-- The character that starts at an offset. -/
def charAt : Nat → List Char → Option Char
  | _, [] => none
  | 0, c :: _ => some c
  | n + 1, c :: cs => if c.utf8Size ≤ n + 1 then charAt (n + 1 - c.utf8Size) cs else none

/-- The text filled up with zeros to a count of characters. -/
def padZeros (n : Nat) (cs : List Char) : List Char := cs ++ List.replicate (n - cs.length) '0'

/-- The text without what it ends with of one character. -/
def trimEndMatches (c : Char) (cs : List Char) : List Char := (cs.reverse.dropWhile (· = c)).reverse

/-- The text without one character at its end, if it ends with it. -/
def stripSuffix (c : Char) (cs : List Char) : Option (List Char) :=
  if cs.getLast? = some c then some cs.dropLast else none

/-- A character that counts as white space. -/
def isWhitespace (c : Char) : Bool :=
  let n := c.toNat
  (0x09 ≤ n && n ≤ 0x0D) || n = 0x20 || n = 0x85 || n = 0xA0 || n = 0x1680 || (0x2000 ≤ n && n ≤ 0x200A) || n = 0x2028 ||
    n = 0x2029 || n = 0x202F || n = 0x205F || n = 0x3000

/-- The text without white space at both ends. -/
def trim (cs : List Char) : List Char := ((cs.dropWhile isWhitespace).reverse.dropWhile isWhitespace).reverse

/-- A number of decimal digits only, at least one. -/
def parseDigits (cs : List Char) : Option Nat :=
  if cs ≠ [] ∧ cs.all Char.isDigit then some (cs.foldl (fun n c => n * 10 + (c.toNat - 48)) 0) else none

/-- An unsigned number below a bound, with an optional plus. -/
def parseUnsigned (bound : Nat) (cs : List Char) : Option Nat :=
  (parseDigits (match cs with | '+' :: rest => rest | _ => cs)).filter (· < bound)

/-- A signed number of a width, with an optional sign. -/
def parseSigned (width : Nat) (cs : List Char) : Option Int :=
  (match cs with
    | '-' :: rest => (parseDigits rest).map fun n => -(n : Int)
    | '+' :: rest => (parseDigits rest).map fun n => (n : Int)
    | _ => (parseDigits cs).map fun n => (n : Int)).filter fun i => -2 ^ (width - 1) ≤ i ∧ i < 2 ^ (width - 1)

/-- A number filled up with zeros on the left to a count of digits. -/
def padNumber (width n : Nat) : List Char :=
  let digits := Nat.toDigits 10 n
  List.replicate (width - digits.length) '0' ++ digits

end Text
