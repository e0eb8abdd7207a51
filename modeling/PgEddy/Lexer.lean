import PgEddy.Lib.TextBytes
import PgEddy.Lib.Utf8
import PgEddy.Token

/-!
# The lexer

`cypher/lexer.rs`: a query is read byte by byte. The text and its bytes are both at hand: a byte is read by its index, and a
character or a word is cut out of the text at offsets in bytes. An index behind the last byte, and a cut inside a character,
is a panic.
-/

namespace PgEddy

open Binary64 Text

/-- `LexError`. -/
structure LexError where
  message : String
  offset : Nat
  deriving DecidableEq

/-- What a run of the lexer stops with: an error of its own, or a panic. `exhausted` is a run of more rounds than the model
was given. -/
inductive LexFault where
  | error (e : LexError)
  | panic
  | exhausted
  deriving DecidableEq

/-- A token with the offset of its first byte. -/
structure LexedToken where
  token : Token
  offset : Nat
  deriving DecidableEq

abbrev LexM := Except LexFault

def lexError {α : Type} (message : String) (offset : Nat) : LexM α := .error (.error ⟨message, offset⟩)

/-! ## Bytes -/

def isAsciiWhitespace (b : UInt8) : Bool := b = 32 || b = 9 || b = 10 || b = 12 || b = 13

def isAsciiDigit (b : UInt8) : Bool := 48 ≤ b && b ≤ 57

def isAsciiAlphabetic (b : UInt8) : Bool := (65 ≤ b && b ≤ 90) || (97 ≤ b && b ≤ 122)

def isAsciiAlphanumeric (b : UInt8) : Bool := isAsciiAlphabetic b || isAsciiDigit b

def isAsciiHexdigit (b : UInt8) : Bool := isAsciiDigit b || (65 ≤ b && b ≤ 70) || (97 ≤ b && b ≤ 102)

def isWordByte (b : UInt8) : Bool := isAsciiAlphanumeric b || b = '_'.toUInt8

/-- The byte of the double quote. -/
def doubleQuote : UInt8 := 34

/-- The byte of the backtick. -/
def backtick : UInt8 := 96

/-- A byte as a character. -/
def byteChar (b : UInt8) : Char := Char.ofNat b.toNat

/-! ## Reading the text -/

section

variable (input : List Char) (bytes : List UInt8)

/-- `bytes[pos]`. -/
def byteAt (pos : Nat) : LexM UInt8 := (bytes[pos]?).elim (.error .panic) .ok

/-- `input[pos..].chars().next().unwrap()`. -/
def charFrom (pos : Nat) : LexM Char := (charAt pos input).elim (.error .panic) .ok

/-- `&input[a..b]`. -/
def sliceText (a b : Nat) : LexM (List Char) := (cut a b input).elim (.error .panic) .ok

/-- `while pos < len && p(bytes[pos]) { pos += 1; }`. -/
def skipWhile (p : UInt8 → Bool) : Nat → Nat → LexM Nat
  | fuel, pos =>
    match bytes[pos]? with
    | none => .ok pos
    | some b =>
      if p b then
        match fuel with
        | 0 => .error .exhausted
        | fuel + 1 => skipWhile p fuel (pos + 1)
      else .ok pos

/-! ## Comments -/

/-- The loop of a block comment. -/
def skipComment : Nat → Nat → LexM Nat
  | fuel, pos =>
    if pos + 1 < bytes.length ∧ ¬(bytes[pos]? = some '*'.toUInt8 ∧ bytes[pos + 1]? = some '/'.toUInt8) then
      match fuel with
      | 0 => .error .exhausted
      | fuel + 1 => skipComment fuel (pos + 1)
    else .ok pos

/-- A block comment whose first two bytes are at `pos`: the position behind it. -/
def lexComment (fuel pos : Nat) : LexM Nat := do
  let start := pos + 2
  let pos ← skipComment bytes fuel start
  if bytes.length ≤ pos + 1 then lexError "unterminated block comment" (start - 2) else return pos + 2

/-! ## Quoted literals -/

/-- A digit of a base. -/
def toDigit (radix : Nat) (c : Char) : Option Nat :=
  let n := c.toNat
  let value :=
    if 48 ≤ n ∧ n ≤ 57 then some (n - 48)
    else if 65 ≤ n ∧ n ≤ 90 then some (n - 55)
    else if 97 ≤ n ∧ n ≤ 122 then some (n - 87)
    else none
  value.filter (· < radix)

/-- `from_str_radix` of an unsigned number of a width: a plus may come first. -/
def fromStrRadix (width radix : Nat) (text : List Char) : Option Nat :=
  let digits :=
    match text with
    | '+' :: (c :: cs) => c :: cs
    | _ => text
  if digits = [] then none
  else (digits.foldl (fun n c => n.bind fun n => (toDigit radix c).map fun d => n * radix + d) (some 0)).filter (· < 2 ^ width)

/-- `char::from_u32`. -/
def charFromU32 (n : Nat) : Option Char := if n.isValidChar then some (Char.ofNat n) else none

/-- The escapes of one letter. A single quote is escaped in a single-quoted literal only. -/
def simpleEscape (single : Bool) (b : UInt8) : Option Char :=
  if b = 'n'.toUInt8 then some '\n'
  else if b = 't'.toUInt8 then some '\t'
  else if b = 'r'.toUInt8 then some '\r'
  else if b = '\\'.toUInt8 then some '\\'
  else if b = '\''.toUInt8 then (if single then some '\'' else none)
  else if b = doubleQuote then some (Char.ofNat 34)
  else if b = '/'.toUInt8 then some '/'
  else if b = 'b'.toUInt8 then some (Char.ofNat 0x08)
  else if b = 'f'.toUInt8 then some (Char.ofNat 0x0C)
  else none

/-- The part of an escape behind `\u`: the position of its last digit, and the character. -/
def lexUnicodeEscape (start pos : Nat) : LexM (Nat × Char) :=
  if bytes.length < pos + 4 then
    lexError "SyntaxError: InvalidUnicodeLiteral — \\u escape requires 4 hex digits" start
  else
    let hexStr := ((Utf8.ofUtf8? ((bytes.drop pos).take 4)).getD "").toList
    match fromStrRadix 32 16 hexStr with
    | none => lexError "SyntaxError: InvalidUnicodeLiteral — invalid hex digits in \\u escape" start
    | some codepoint =>
      match charFromU32 codepoint with
      | none => lexError "SyntaxError: InvalidUnicodeLiteral — invalid Unicode codepoint" start
      | some ch => .ok (pos + 3, ch)

/-- An escape, behind its backslash: the position of its last byte, and the text so far. -/
def lexEscape (single : Bool) (start pos : Nat) (s : List Char) : LexM (Nat × List Char) := do
  let b ← byteAt bytes pos
  match simpleEscape single b with
  | some ch => return (pos, s ++ [ch])
  | none =>
    if b = 'u'.toUInt8 then do
      let (pos, ch) ← lexUnicodeEscape bytes start (pos + 1)
      return (pos, s ++ [ch])
    else return (pos, s ++ ['\\', byteChar b])

/-- The loop of a single-quoted literal, behind its first quote: the position behind it, and its text. -/
def lexSingleQuoted (start : Nat) : Nat → Nat → List Char → LexM (Nat × List Char)
  | fuel, pos, s =>
    match bytes[pos]? with
    | none => .ok (pos, s)
    | some b =>
      match fuel with
      | 0 => .error .exhausted
      | fuel + 1 =>
        if b = '\''.toUInt8 then
          -- two quotes are one quote of the text
          if bytes[pos + 1]? = some '\''.toUInt8 then lexSingleQuoted start fuel (pos + 2) (s ++ ['\''])
          else .ok (pos + 1, s)
        else if b = '\\'.toUInt8 ∧ pos + 1 < bytes.length then
          match lexEscape bytes true start (pos + 1) s with
          | .error e => .error e
          | .ok (pos, s) => lexSingleQuoted start fuel (pos + 1) s
        else
          match charFrom input pos with
          | .error e => .error e
          | .ok ch => lexSingleQuoted start fuel (pos + ch.utf8Size) (s ++ [ch])

/-- The loop of a double-quoted literal, behind its first quote: the position of the last quote, or the end, and its text. -/
def lexDoubleQuoted (start : Nat) : Nat → Nat → List Char → LexM (Nat × List Char)
  | fuel, pos, s =>
    match bytes[pos]? with
    | none => .ok (pos, s)
    | some b =>
      if b = doubleQuote then .ok (pos, s)
      else
        match fuel with
        | 0 => .error .exhausted
        | fuel + 1 =>
          if b = '\\'.toUInt8 ∧ pos + 1 < bytes.length then
            match lexEscape bytes false start (pos + 1) s with
            | .error e => .error e
            | .ok (pos, s) => lexDoubleQuoted start fuel (pos + 1) s
          else
            match charFrom input pos with
            | .error e => .error e
            | .ok ch => lexDoubleQuoted start fuel (pos + ch.utf8Size) (s ++ [ch])

/-- The loop of a name in backticks, behind its first one: the position of the last one, or the end, and the name. -/
def lexBackquoted : Nat → Nat → List Char → LexM (Nat × List Char)
  | fuel, pos, s =>
    match bytes[pos]? with
    | none => .ok (pos, s)
    | some b =>
      if b = backtick then .ok (pos, s)
      else
        match fuel with
        | 0 => .error .exhausted
        | fuel + 1 =>
          match charFrom input pos with
          | .error e => .error e
          | .ok ch => lexBackquoted fuel (pos + ch.utf8Size) (s ++ [ch])

/-- The closing quote, where there is one. -/
def skipClosing (pos : Nat) : Nat := if pos < bytes.length then pos + 1 else pos

/-! ## Numbers -/

def integerOverflow : String := "SyntaxError: IntegerOverflow — integer literal out of range for i64"

/-- The value of the digits of a hexadecimal or octal literal. -/
def radixToken (radix : Nat) (digits : List Char) (incomplete : String) : Except String Token :=
  if digits = [] then .error incomplete
  else
    match fromStrRadix 64 radix digits with
    | none => .error integerOverflow
    | some v =>
      if 0x8000000000000000 < v then .error integerOverflow
      else if v = 0x8000000000000000 then .ok .intLitBig
      else .ok (.intLit (Int64.ofNat v))

/-- The value of a decimal literal. -/
def numberToken (numStr : List Char) (hasDot : Bool) : Except String Token :=
  if hasDot then
    match F64.parse numStr with
    | none => .error ("invalid float literal: " ++ String.ofList numStr)
    | some val =>
      if val = F64.infinity ∨ val = F64.negInfinity then
        .error "SyntaxError: FloatingPointOverflow — float literal out of range"
      else .ok (.floatLit val)
  else
    match parseSigned 64 numStr with
    | some val => .ok (.intLit (Int64.ofInt val))
    | none => if numStr = "9223372036854775808".toList then .ok .intLitBig else .error integerOverflow

/-- The loop of a decimal literal: the position behind it, its text, and whether it has a point or an exponent. -/
def lexNumber : Nat → Nat → List Char → Bool → Bool → LexM (Nat × List Char × Bool)
  | fuel, pos, numStr, hasDot, hasE =>
    match bytes[pos]? with
    | none => .ok (pos, numStr, hasDot)
    | some b =>
      match fuel with
      | 0 => .error .exhausted
      | fuel + 1 =>
        if isAsciiDigit b then lexNumber fuel (pos + 1) (numStr ++ [byteChar b]) hasDot hasE
        else if b = '.'.toUInt8 ∧ hasDot = false ∧ hasE = false then
          -- two points are the operator of ranges
          if bytes[pos + 1]? = some '.'.toUInt8 then .ok (pos, numStr, hasDot)
          else lexNumber fuel (pos + 1) (numStr ++ ['.']) true hasE
        else if (b = 'e'.toUInt8 ∨ b = 'E'.toUInt8) ∧ hasE = false then
          match bytes[pos + 1]? with
          | some sign =>
            if sign = '+'.toUInt8 ∨ sign = '-'.toUInt8 then lexNumber fuel (pos + 2) (numStr ++ ['e', byteChar sign]) true true
            else lexNumber fuel (pos + 1) (numStr ++ ['e']) true true
          | none => lexNumber fuel (pos + 1) (numStr ++ ['e']) true true
        else .ok (pos, numStr, hasDot)

/-- A value whose error is one of the lexer. -/
def orLexError (offset : Nat) : Except String Token → LexM Token
  | .ok token => .ok token
  | .error message => lexError message offset

/-- A hexadecimal or octal literal, whose first two bytes are at `pos`. -/
def lexRadix (radix : Nat) (isDigit : UInt8 → Bool) (incomplete : String) (fuel pos : Nat) : LexM (Nat × Token) := do
  let digitsStart := pos + 2
  let stop ← skipWhile bytes isDigit fuel digitsStart
  let digits ← sliceText input digitsStart stop
  let token ← orLexError pos (radixToken radix digits incomplete)
  return (stop, token)

def isOctalDigit (b : UInt8) : Bool := 48 ≤ b && b ≤ 55

/-- A number. -/
def lexNumeric (fuel pos : Nat) (b : UInt8) (next : Option UInt8) : LexM (Nat × Token) :=
  if b = '0'.toUInt8 ∧ (next = some 'x'.toUInt8 ∨ next = some 'X'.toUInt8) then
    lexRadix input bytes 16 isAsciiHexdigit "incomplete hexadecimal integer" fuel pos
  else if b = '0'.toUInt8 ∧ (next = some 'o'.toUInt8 ∨ next = some 'O'.toUInt8) then
    lexRadix input bytes 8 isOctalDigit "incomplete octal integer" fuel pos
  else do
    let (stop, numStr, hasDot) ← lexNumber bytes fuel pos [] false false
    let token ← orLexError pos (numberToken numStr hasDot)
    return (stop, token)

/-! ## Words -/

/-- The token of a word, where no second word counts. -/
def wordToken (word : List Char) : Token :=
  match String.ofList (word.map Char.toUpper) with
  | "MATCH" => .match_
  | "WHERE" => .where_
  | "RETURN" => .return_
  | "AS" => .as_
  | "DISTINCT" => .distinct
  | "LIMIT" => .limit
  | "SKIP" => .skip
  | "AND" => .and
  | "OR" => .or
  | "XOR" => .xor
  | "NOT" => .not
  | "IN" => .in_
  | "IS" => .is
  | "NULL" => .null
  | "TRUE" => .true_
  | "FALSE" => .false_
  | "CREATE" => .create
  | "DELETE" => .delete
  | "DETACH" => .detach
  | "SET" => .set
  | "MERGE" => .merge
  | "REMOVE" => .remove
  | "FOREACH" => .foreach
  | "ON" => .on
  | "CALL" => .call
  | "YIELD" => .yield_
  | "WITH" => .with_
  | "UNWIND" => .unwind
  | "CASE" => .case_
  | "WHEN" => .when_
  | "THEN" => .then_
  | "ELSE" => .else_
  | "END" => .end_
  | "SHOW" => .show_
  | "INDEX" => .index
  | "INDEXES" => .indexes
  | "DROP" => .drop
  | "CONSTRAINT" => .constraint
  | "ASSERT" => .assert_
  | "UNIQUE" => .unique
  | "CONSTRAINTS" => .constraints
  | _ => .ident (String.ofList word)

/-- The second word that a word looks for, and the token of the two. -/
def secondWord (word : List Char) : Option (String × Token) :=
  match String.ofList (word.map Char.toUpper) with
  | "OPTIONAL" => some ("MATCH", .optionalMatch)
  | "ORDER" => some ("BY", .orderBy)
  | _ => none

/-- A word: an identifier, a keyword, or a keyword of two words. -/
def lexWord (fuel pos : Nat) : LexM (Nat × Token) := do
  let stop ← skipWhile bytes isWordByte fuel pos
  let word ← sliceText input pos stop
  match secondWord word with
  | some (second, token) => do
    let kwStart ← skipWhile bytes isAsciiWhitespace fuel stop
    let kwStop ← skipWhile bytes isAsciiAlphabetic fuel kwStart
    let kw ← sliceText input kwStart kwStop
    if String.ofList (kw.map Char.toUpper) = second then return (kwStop, token)
    else return (stop, .ident (String.ofList word))
  | none => return (stop, wordToken word)

/-- `$name`. -/
def lexParameter (fuel pos : Nat) : LexM (Nat × Token) := do
  let stop ← skipWhile bytes isWordByte fuel (pos + 1)
  let name ← sliceText input (pos + 1) stop
  return (stop, .parameter (String.ofList name))

/-! ## Operators -/

/-- The operators and punctuation of one byte. -/
def punctuation (b : UInt8) : Option Token :=
  if b = '('.toUInt8 then some .lParen
  else if b = ')'.toUInt8 then some .rParen
  else if b = '['.toUInt8 then some .lBracket
  else if b = ']'.toUInt8 then some .rBracket
  else if b = 123 then some .lBrace
  else if b = 125 then some .rBrace
  else if b = ':'.toUInt8 then some .colon
  else if b = ','.toUInt8 then some .comma
  else if b = '|'.toUInt8 then some .pipe
  else if b = '+'.toUInt8 then some .plus
  else if b = '*'.toUInt8 then some .star
  else if b = '%'.toUInt8 then some .percent
  else if b = '^'.toUInt8 then some .caret
  else if b = '-'.toUInt8 then some .dash
  else if b = '/'.toUInt8 then some .slash
  else if b = '.'.toUInt8 then some .dot
  else if b = '='.toUInt8 then some .eq
  else if b = '<'.toUInt8 then some .lArrow
  else if b = '>'.toUInt8 then some .rArrow
  else none

/-- The operators of two bytes. -/
def pairToken (b : UInt8) (next : Option UInt8) : Option Token :=
  if b = '+'.toUInt8 ∧ next = some '='.toUInt8 then some .plusEq
  else if b = '.'.toUInt8 ∧ next = some '.'.toUInt8 then some .dotDot
  else if b = '='.toUInt8 ∧ next = some '~'.toUInt8 then some .regexMatch
  else if b = '<'.toUInt8 ∧ next = some '>'.toUInt8 then some .neq
  else if b = '<'.toUInt8 ∧ next = some '='.toUInt8 then some .le
  else if b = '>'.toUInt8 ∧ next = some '='.toUInt8 then some .ge
  else none

/-- An operator. -/
def lexOperator (pos : Nat) (b : UInt8) (next : Option UInt8) : LexM (Nat × Token) :=
  match pairToken b next with
  | some token => .ok (pos + 2, token)
  | none =>
    match punctuation b with
    | some token => .ok (pos + 1, token)
    | none => lexError ("unexpected character: '" ++ String.ofList [byteChar b] ++ "'") pos

/-! ## The loop -/

/-- A token of some text. -/
def textToken (token : String → Token) (stop : Nat × List Char) : Nat × Token := (stop.1, token (String.ofList stop.2))

/-- A token, behind the white space and the comments. -/
def lexToken (fuel pos : Nat) (b : UInt8) (next : Option UInt8) : LexM (Nat × Token) :=
  if b = '\''.toUInt8 then (lexSingleQuoted input bytes pos fuel (pos + 1) []).map (textToken .stringLit)
  else if b = doubleQuote then
    (lexDoubleQuoted input bytes pos fuel (pos + 1) []).map
      (fun stop => textToken .stringLit (skipClosing bytes stop.1, stop.2))
  else if b = backtick then
    (lexBackquoted input bytes fuel (pos + 1) []).map (fun stop => textToken .ident (skipClosing bytes stop.1, stop.2))
  else if isAsciiDigit b ∨ (b = '.'.toUInt8 ∧ next.any isAsciiDigit) then lexNumeric input bytes fuel pos b next
  else if b = '$'.toUInt8 then lexParameter input bytes fuel pos
  else if isAsciiAlphabetic b ∨ b = '_'.toUInt8 then lexWord input bytes fuel pos
  else lexOperator pos b next

/-- One round of `lex` at a position before the end: the next position, and the token if it is one. -/
def lexRound (fuel pos : Nat) : LexM (Nat × Option LexedToken) := do
  let b ← byteAt bytes pos
  let next := bytes[pos + 1]?
  if isAsciiWhitespace b then return (pos + 1, none)
  else if b = '/'.toUInt8 ∧ next = some '/'.toUInt8 then
    let stop ← skipWhile bytes (· ≠ '\n'.toUInt8) fuel pos
    return (stop, none)
  else if b = '/'.toUInt8 ∧ next = some '*'.toUInt8 then
    let stop ← lexComment bytes fuel pos
    return (stop, none)
  else
    let (stop, token) ← lexToken input bytes fuel pos b next
    return (stop, some ⟨token, pos⟩)

/-- The loop of `lex`. -/
def lexLoop : Nat → Nat → List LexedToken → LexM (List LexedToken)
  | fuel, pos, tokens =>
    if pos < bytes.length then
      match fuel with
      | 0 => .error .exhausted
      | fuel + 1 =>
        match lexRound input bytes bytes.length pos with
        | .error e => .error e
        | .ok (stop, token) => lexLoop fuel stop (tokens ++ token.toList)
    else .ok (tokens ++ [⟨.eof, pos⟩])

end

/-- `lex`. -/
def lex (input : List Char) : LexM (List LexedToken) :=
  let bytes := utf8 input
  lexLoop input bytes bytes.length 0 []

end PgEddy
