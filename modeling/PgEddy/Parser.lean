import PgEddy.Ast
import PgEddy.Lib.Descent
import PgEddy.Token

/-!
# Parsing expressions

The part of the parser that reads expressions and the patterns inside them, from the tokens of the lexer. A clause of an
`exists` subquery is read by the parser of queries, which is a parameter here.
-/

namespace PgEddy

open Binary64 Descent

/-! ## Tokens -/

/-- A token, with the letters, digits and underscores that the source has where it starts. -/
structure SpannedToken where
  token : Token
  word : String
  deriving DecidableEq

inductive ParseError where
  | expected (token got : Token)
  | expectedIdent (got : Token)
  | unexpected (got : Token)
  /-- `SyntaxError: IntegerOverflow`. -/
  | integerOverflow
  /-- The rounds of the model are used up. -/
  | exhausted

/-- A parser: it takes tokens from the front, and past the last one it sees the end of the input. -/
abbrev P := Parser SpannedToken ParseError

/-! ## Single tokens -/

/-- The first of the tokens that are left. -/
def headToken (ts : List SpannedToken) : Token := (ts.head?.map SpannedToken.token).getD .eof

def peek : P Token := fun ts => .ok (headToken ts, ts)

/-- The token some places after the first one. -/
def peekAt (offset : Nat) : P Token := fun ts => .ok (headToken (ts.drop offset), ts)

def advance : P Unit := fun ts => .ok ((), ts.tail)

def expect (token : Token) : P Unit := fun ts =>
  if headToken ts = token then .ok ((), ts.tail) else .error (.expected token (headToken ts))

def eatIdent : P String := fun ts =>
  match headToken ts with
  | .ident name => .ok (name, ts.tail)
  | got => .error (.expectedIdent got)

def Token.isIdent : Token → Bool
  | .ident _ => true
  | _ => false

/-- The name that a token is where keywords may be names too. -/
def Token.flexibleName : Token → Option String
  | .ident name => some name
  | .end_ => some "end"
  | .yield_ => some "yield"
  | .call => some "call"
  | .on => some "on"
  | .remove => some "remove"
  | .merge => some "merge"
  | .null => some "null"
  | .true_ => some "true"
  | .false_ => some "false"
  | .not => some "not"
  | .and => some "and"
  | .or => some "or"
  | .xor => some "xor"
  | .in_ => some "in"
  | .is => some "is"
  | .as_ => some "as"
  | .with_ => some "with"
  | .return_ => some "return"
  | .match_ => some "match"
  | .where_ => some "where"
  | .create => some "create"
  | .delete => some "delete"
  | .detach => some "detach"
  | .set => some "set"
  | .distinct => some "distinct"
  | .skip => some "skip"
  | .limit => some "limit"
  | .unwind => some "unwind"
  | .case_ => some "case"
  | .when_ => some "when"
  | .then_ => some "then"
  | .else_ => some "else"
  | .show_ => some "show"
  | .index => some "index"
  | .indexes => some "indexes"
  | .drop => some "drop"
  | .constraint => some "constraint"
  | .assert_ => some "assert"
  | .unique => some "unique"
  | .constraints => some "constraints"
  | _ => none

def eatIdentFlexible : P String := fun ts =>
  match (headToken ts).flexibleName with
  | some name => .ok (name, ts.tail)
  | none => .error (.expectedIdent (headToken ts))

/-- The word starts like a name. -/
def isWord (word : String) : Bool := (word.toList.head?.map fun c => c.isAlpha || c = '_').getD false

/-- The key of a map literal, spelled as in the source. -/
def mapKey (t : SpannedToken) : Option String :=
  match t.token with
  | .ident name => some name
  | token => if isWord t.word then some t.word else token.flexibleName

def eatMapKey : P String := fun ts =>
  match ts.head?.bind mapKey with
  | some key => .ok (key, ts.tail)
  | none => .error (.expectedIdent (headToken ts))

/-! ## Loops -/

/-- `while starts(peek)`: one more item. -/
def manyRound {α : Type} (starts : List SpannedToken → Bool) (item : P α) (items : List α) (ts : List SpannedToken) :
    Option (P (List α)) :=
  if starts ts then some (do return items ++ [← item]) else none

def many {α : Type} (starts : List SpannedToken → Bool) (item : P α) (k : Nat) (items : List α) : P (List α) :=
  loop .exhausted (manyRound starts item) k items

/-- The first token is the given one. -/
def at_ (token : Token) (ts : List SpannedToken) : Bool := headToken ts = token

/-- One or more items with commas between them. -/
def commaSeparated {α : Type} (item : P α) (k : Nat) : P (List α) := do
  let first ← item
  many (at_ .comma) (do advance; item) k [first]

/-- Items with commas between them up to a closing token, which is left. -/
def itemsUpTo {α : Type} (close : Token) (item : P α) (k : Nat) : P (List α) := do
  if (← peek) = close then return [] else commaSeparated item k

/-- The item after a token, if the token is there. -/
def after? {α : Type} (token : Token) (item : P α) : P (Option α) := do
  if (← peek) = token then
    advance
    return some (← item)
  else return none

/-! ## Patterns -/

section

variable (parseQuery : P Query) (parseExpr : P Expr) (k : Nat)

def parsePropertyMap : P (List (String × Expr)) := do
  expect .lBrace
  let props ← itemsUpTo .rBrace (do
    let key ← eatMapKey
    expect .colon
    let val ← parseExpr
    return (key, val)) k
  expect .rBrace
  return props

/-- `(variable:Label {key: value})`. -/
def parseNodePattern : P NodePattern := do
  expect .lParen
  let var ← if (← peek).isIdent then some <$> eatIdent else pure none
  let labels ← many (at_ .colon) (do advance; eatIdentFlexible) k []
  let hasExplicitMap := (← peek) == .lBrace
  let properties ← if hasExplicitMap then parsePropertyMap parseExpr k else pure []
  expect .rParen
  return ⟨var, labels, properties, hasExplicitMap⟩

/-- An integer that stands next in `*min..max`, cut to 32 bits. -/
def hopCount? : P (Option Nat) := do
  match ← peek with
  | .intLit n => do
    advance
    return some (n.toUInt64.toNat % 2 ^ 32)
  | _ => return none

/-- `*min..max` after its star. -/
def parseLength : P VarLength := do
  let min ← hopCount?
  if (← peek) = .dotDot then
    advance
    return ⟨min.getD 1, ← hopCount?⟩
  else return ⟨min.getD 1, min⟩

/-- `[variable:TYPE *min..max {key: value}]`. -/
def parseRelDetail : P (RelDirection → RelPattern) := do
  advance
  let var ← if (← peek).isIdent then some <$> eatIdent else pure none
  let relTypes ← if (← peek) = .colon then do
      advance
      let first ← eatIdentFlexible
      many (at_ .pipe) (do
        advance
        if (← peek) = .colon then advance
        eatIdentFlexible) k [first]
    else pure []
  let length ← after? .star parseLength
  let properties ← if (← peek) = .lBrace then parsePropertyMap parseExpr k else pure []
  expect .rBracket
  return fun direction => ⟨var, relTypes, direction, properties, length⟩

/-- A relationship and the node after it. -/
def parseRelAndNode : P (RelPattern × NodePattern) := do
  let leftArrow := (← peek) == .lArrow
  if leftArrow then advance
  expect .dash
  let rel ← if (← peek) = .lBracket then parseRelDetail parseExpr k
    else pure fun direction => ⟨none, [], direction, [], none⟩
  expect .dash
  let rightArrow := (← peek) == .rArrow
  if rightArrow then advance
  let direction := match leftArrow, rightArrow with
    | false, true => RelDirection.out
    | true, false => .in_
    | _, _ => .both
  let node ← parseNodePattern parseExpr k
  return (rel direction, node)

def parsePattern : P Pattern := do
  let pathVar ← if (← peek).isIdent && (← peekAt 1) = .eq then do
      let name ← eatIdent
      advance
      pure (some name)
    else pure none
  let first ← parseNodePattern parseExpr k
  let elements ← loop .exhausted (fun elements ts =>
      if headToken ts = .dash || headToken ts = .lArrow then some (do
        let (rel, node) ← parseRelAndNode parseExpr k
        return elements ++ [.relationship rel, .node node])
      else none) k [.node first]
  return ⟨pathVar, elements⟩

/-- The pattern of `exists { (n)-->() }`, with no `MATCH` before it. -/
def parseExistsSubquery : P Query := do
  if (← peek) = .match_ then advance
  let patterns ← commaSeparated (parsePattern parseExpr k) k
  let whereClause ← after? .where_ parseExpr
  return .mk [.match_ false patterns whereClause] none

/-! ## Telling a pattern from parentheses -/

/-- The tokens after a run of labels, each a colon and maybe a name. -/
def skipLabels : List SpannedToken → List SpannedToken
  | ⟨.colon, _⟩ :: ⟨.ident _, _⟩ :: ts => skipLabels ts
  | ⟨.colon, _⟩ :: ts => skipLabels ts
  | ts => ts

/-- The tokens after the brace that closes the open ones, none if the input ends before it. -/
def skipMap : Nat → List SpannedToken → Option (List SpannedToken)
  | 0, ts => some ts
  | _ + 1, [] => none
  | depth + 1, ⟨.lBrace, _⟩ :: ts => skipMap (depth + 2) ts
  | depth + 1, ⟨.rBrace, _⟩ :: ts => skipMap depth ts
  | _ + 1, ⟨.eof, _⟩ :: _ => none
  | depth + 1, _ :: ts => skipMap (depth + 1) ts

/-- A node pattern and a connector seem to start at an opening parenthesis. -/
def looksLikePatternPredicate (ts : List SpannedToken) : Bool :=
  let ts := ts.tail
  let ts := if (headToken ts).isIdent then ts.tail else ts
  let ts := skipLabels ts
  match if headToken ts = .lBrace then skipMap 1 ts.tail else some ts with
  | none => false
  | some ts => headToken ts = .rParen && (headToken ts.tail = .dash || headToken ts.tail = .lArrow)

/-! ## What stands after an operand -/

/-- The token may be a label of a label test. -/
def Token.isLabel : Token → Bool
  | .ident _ | .end_ | .on | .yield_ | .call | .remove | .merge | .with_ => true
  | _ => false

/-- A label test goes on. -/
def atLabel (ts : List SpannedToken) : Bool := headToken ts = .colon && (headToken ts.tail).isLabel

/-- `[index]`, `[from..to]` and the like, after the bracket. -/
def parseSubscript (e : Expr) : P Expr := do
  let to_ : P (Option Expr) := do
    if (← peek) = .rBracket then return none else return some (← parseExpr)
  if (← peek) = .dotDot then
    advance
    let stop ← to_
    expect .rBracket
    return .listSlice e none stop
  else
    let inner ← parseExpr
    if (← peek) = .dotDot then
      advance
      let stop ← to_
      expect .rBracket
      return .listSlice e (some inner) stop
    else
      expect .rBracket
      return .subscript e inner

/-- One more of `.name`, `.name(args)`, `[index]` and `:Label`. -/
def chainRound (e : Expr) (ts : List SpannedToken) : Option (P Expr) :=
  match headToken ts with
  | .dot => some do
    advance
    let prop ← eatIdentFlexible
    if (← peek) = .lParen then
      advance
      let args ← itemsUpTo .rParen parseExpr k
      expect .rParen
      return .functionCall prop (e :: args)
    else return .property e prop
  | .lBracket => some do
    advance
    parseSubscript parseExpr e
  | .colon =>
    if atLabel ts then some do
      let labels ← many atLabel (do advance; eatIdentFlexible) k []
      return .hasLabel e labels
    else none
  | _ => none

def parsePropertyChain (e : Expr) : P Expr := loop .exhausted (chainRound parseExpr k) k e

/-! ## Operands -/

def isAggregateFnName (name : String) : Bool :=
  ["count", "sum", "avg", "min", "max", "collect", "stdev", "stdevp", "percentilecont", "percentiledisc"].contains name

def listPredKind : String → Option ListPredicateKind
  | "any" => some .any
  | "all" => some .all
  | "none" => some .none_
  | "single" => some .single
  | _ => none

/-- The arguments of a function after its parenthesis, with the name it is called by. -/
def parseArgs (name lc : String) : P (String × List Expr) := do
  match ← peek with
  | .rParen => return (name, [])
  | .star => do
    advance
    return (name, [.star])
  | .distinct =>
    if isAggregateFnName lc then do
      advance
      let args ← itemsUpTo .rParen parseExpr k
      return (lc ++ "_distinct", args)
    else do return (name, ← commaSeparated parseExpr k)
  | _ => return (name, ← commaSeparated parseExpr k)

/-- `x IN list`. -/
def parseIn : P (String × Expr) := do
  let var ← eatIdent
  expect .in_
  let listExpr ← parseExpr
  return (var, listExpr)

/-- A function call after the parenthesis of its name. -/
def parseCall (name : String) : P Expr := do
  let lc := name.toLower
  let bindsVar := (← peek).isIdent && (← peekAt 1) = .in_
  match listPredKind lc with
  | some kind =>
    let (var, listExpr) ← parseIn parseExpr
    let predicate ← after? .where_ parseExpr
    expect .rParen
    parsePropertyChain parseExpr k (.listPredicate kind var listExpr (predicate.getD (.boolLit true)))
  | none =>
    if lc = "filter" && bindsVar then
      let (var, listExpr) ← parseIn parseExpr
      let predicate ← after? .where_ parseExpr
      expect .rParen
      parsePropertyChain parseExpr k (.listComprehension var listExpr predicate none)
    else if lc = "extract" && bindsVar then
      let (var, listExpr) ← parseIn parseExpr
      let projection ← after? .pipe parseExpr
      expect .rParen
      parsePropertyChain parseExpr k (.listComprehension var listExpr none projection)
    else if lc = "shortestpath" || lc = "allshortestpaths" then
      let pattern ← parsePattern parseExpr k
      expect .rParen
      return .shortestPath (lc = "allshortestpaths") pattern
    else
      let (fnName, args) ← parseArgs parseExpr k name lc
      expect .rParen
      parsePropertyChain parseExpr k (.functionCall fnName args)

/-- A name, with what makes it a call or a subquery. -/
def parseNamed (name : String) : P Expr := do
  match ← peek with
  | .lBrace =>
    if name.toLower = "exists" then
      advance
      let subquery ← if (← peek) = .lParen then parseExistsSubquery parseExpr k else parseQuery
      expect .rBrace
      return .exists_ subquery false
    else parsePropertyChain parseExpr k (.var name)
  | .lParen => do
    advance
    parseCall parseExpr k name
  | _ => parsePropertyChain parseExpr k (.var name)

/-- A pattern, its condition and what it makes, inside brackets. -/
def parsePatternComprehension : P Expr := do
  let pattern ← parsePattern parseExpr k
  let predicate ← after? .where_ parseExpr
  expect .pipe
  let projection ← parseExpr
  expect .rBracket
  return .patternComprehension pattern.var pattern predicate projection

/-- What brackets hold, after the opening one: a list comprehension, a pattern comprehension or the items of a list. -/
def parseBracketed : P Expr := do
  let isName := (← peek).isIdent
  let next ← peekAt 1
  if isName && next = .in_ then
    let (var, listExpr) ← parseIn parseExpr
    let predicate ← after? .where_ parseExpr
    let projection ← after? .pipe parseExpr
    expect .rBracket
    return .listComprehension var listExpr predicate projection
  else if (← peek) = .lParen then parsePatternComprehension parseExpr k
  else if isName && next = .eq then parsePatternComprehension parseExpr k
  else
    let elems ← itemsUpTo .rBracket parseExpr k
    expect .rBracket
    return .list elems

/-- A `CASE` after its keyword. -/
def parseCaseExpr : P Expr := do
  let test ← if (← peek) = .when_ then pure none else some <$> parseExpr
  let branches ← many (at_ .when_) (do
    advance
    let whenExpr ← parseExpr
    expect .then_
    let thenExpr ← parseExpr
    return (whenExpr, thenExpr)) k []
  let else_ ← after? .else_ parseExpr
  expect .end_
  return match test with
    | some test => .caseSimple test branches else_
    | none => .caseSearched branches else_

/-- What an opening parenthesis starts: a pattern that is taken as a subquery, or an expression in parentheses. -/
def parseParenthesised : P Expr := fun ts =>
  if looksLikePatternPredicate ts then
    (do
      let pattern ← parsePattern parseExpr k
      let whereClause ← after? .where_ parseExpr
      return .exists_ (.mk [.match_ false [pattern] whereClause] none) true : P Expr) ts
  else
    (do
      advance
      let inner ← parseExpr
      expect .rParen
      return inner : P Expr) ts

/-- The expression of a literal token. -/
def Token.literal : Token → Option Expr
  | .intLit i => some (.intLit i)
  | .floatLit f => some (.floatLit f)
  | .stringLit s => some (.stringLit s)
  | .true_ => some (.boolLit true)
  | .false_ => some (.boolLit false)
  | .null => some .nullLit
  | .parameter name => some (.parameter name)
  | _ => none

def parsePrimary : P Expr := do
  match ← peek with
  | .intLitBig => throw .integerOverflow
  | .lParen => do
    let e ← parseParenthesised parseExpr k
    parsePropertyChain parseExpr k e
  | .lBracket => do
    advance
    let e ← parseBracketed parseExpr k
    parsePropertyChain parseExpr k e
  | .case_ => do
    advance
    let e ← parseCaseExpr parseExpr k
    parsePropertyChain parseExpr k e
  | .lBrace => do
    let entries ← parsePropertyMap parseExpr k
    parsePropertyChain parseExpr k (.mapLiteral entries)
  | .ident name => do
    advance
    parseNamed parseQuery parseExpr k name
  | token =>
    match token.literal with
    | some e => do
      advance
      parsePropertyChain parseExpr k e
    | none => throw (.unexpected token)

/-! ## Operators -/

/-- The round of a chain of operators that group to the left. -/
def opRound (op : Token → Option (Expr → Expr → Expr)) (operand : P Expr) (left : Expr) (ts : List SpannedToken) :
    Option (P Expr) :=
  (op (headToken ts)).map fun mk => do
    advance
    return mk left (← operand)

def opChain (op : Token → Option (Expr → Expr → Expr)) (operand : P Expr) (k : Nat) : P Expr := do
  let left ← operand
  loop .exhausted (opRound op operand) k left

/-- A minus is taken off the tokens before the parser calls itself. -/
def parseUnaryOn (primary : P Expr) : P Expr
  | [] => primary []
  | t :: ts =>
    if t.token = .dash then
      if headToken ts = .intLitBig then .ok (.intLit Int64.minValue, ts.tail)
      else do
        let (e, ts') ← parseUnaryOn primary ts
        return (.neg e, ts')
    else primary (t :: ts)

def parseUnary : P Expr := parseUnaryOn (parsePrimary parseQuery parseExpr k)

def powerOp : Token → Option (Expr → Expr → Expr)
  | .caret => some (.arith · .pow ·)
  | _ => none

def parsePower : P Expr := opChain powerOp (parseUnary parseQuery parseExpr k) k

def multiplicationOp : Token → Option (Expr → Expr → Expr)
  | .star => some (.arith · .mul ·)
  | .slash => some (.arith · .div ·)
  | .percent => some (.arith · .mod ·)
  | _ => none

def parseMultiplication : P Expr := opChain multiplicationOp (parsePower parseQuery parseExpr k) k

def additionOp : Token → Option (Expr → Expr → Expr)
  | .plus => some (.arith · .add ·)
  | .dash => some (.arith · .sub ·)
  | _ => none

def parseAddition : P Expr := opChain additionOp (parseMultiplication parseQuery parseExpr k) k

/-- `IS NULL` and `IS NOT NULL` after an operand. -/
def nullTest (e : Expr) : P Expr := do
  if (← peek) = .is then
    advance
    if (← peek) = .not then
      advance
      expect .null
      return .isNotNull e
    else
      expect .null
      return .isNull e
  else return e

def parseIsNull : P Expr := do
  let e ← parseAddition parseQuery parseExpr k
  nullTest e

/-- `IN list` after an operand. -/
def inTest (operand : P Expr) (left : Expr) : P Expr := do
  if (← peek) = .in_ then
    advance
    return .inList left (← operand)
  else return left

def parseInlist : P Expr := do
  let left ← parseIsNull parseQuery parseExpr k
  inTest (parseIsNull parseQuery parseExpr k) left

def cmpOp : Token → Option CmpOp
  | .eq => some .eq
  | .neq => some .neq
  | .lArrow => some .lt
  | .rArrow => some .gt
  | .le => some .le
  | .ge => some .ge
  | _ => none

/-- One more comparison of a chain, with what was compared last. -/
def compareRound (operand : P Expr) (acc : Expr × Expr) (ts : List SpannedToken) : Option (P (Expr × Expr)) :=
  (cmpOp (headToken ts)).map fun op => do
    advance
    let next ← operand
    return (.and acc.1 (.compare acc.2 op next), next)

/-- The word of an operator on strings, in any case. -/
def stringOp (name : String) : Option (Bool × (Expr → Expr → Expr)) :=
  if name.toUpper = "STARTS" then some (true, .startsWith)
  else if name.toUpper = "ENDS" then some (true, .endsWith)
  else if name.toUpper = "CONTAINS" then some (false, .contains)
  else none

/-- The comparisons after an operand. -/
def compareTests (operand : P Expr) (k : Nat) (left : Expr) : P Expr := do
  match ← peek with
  | .ident s =>
    match stringOp s with
    | some (takesWith, mk) => do
      advance
      if takesWith then expect .with_
      return mk left (← operand)
    | none => return left
  | .regexMatch => do
    advance
    return .regex left (← operand)
  | token =>
    match cmpOp token with
    | some op => do
      advance
      let right ← operand
      let acc ← loop .exhausted (compareRound operand) k (.compare left op right, right)
      return acc.1
    | none => return left

def parseComparison : P Expr := do
  let left ← parseInlist parseQuery parseExpr k
  compareTests (parseInlist parseQuery parseExpr k) k left

/-- A `NOT` is taken off the tokens before the parser calls itself. -/
def parseNotOn (comparison : P Expr) : P Expr
  | [] => comparison []
  | t :: ts =>
    if t.token = .not then do
      let (e, ts') ← parseNotOn comparison ts
      return (.not e, ts')
    else comparison (t :: ts)

def parseNot : P Expr := parseNotOn (parseComparison parseQuery parseExpr k)

def andOp : Token → Option (Expr → Expr → Expr)
  | .and => some .and
  | _ => none

def parseAnd : P Expr := opChain andOp (parseNot parseQuery parseExpr k) k

def xorOp : Token → Option (Expr → Expr → Expr)
  | .xor => some .xor
  | _ => none

def parseXor : P Expr := opChain xorOp (parseAnd parseQuery parseExpr k) k

def orOp : Token → Option (Expr → Expr → Expr)
  | .or => some .or
  | _ => none

def parseOr : P Expr := opChain orOp (parseXor parseQuery parseExpr k) k

end

/-- The parser of expressions with a number of levels and of rounds. -/
def parseExprWith (parseQuery : P Query) : Nat → P Expr
  | 0 => fun _ => .error .exhausted
  | k + 1 => parseOr parseQuery (parseExprWith parseQuery k) k

/-- An expression inside another one starts after at least one more token, and a round takes at least one. -/
def parseExpr (parseQuery : P Query) : P Expr := fun ts => parseExprWith parseQuery (ts.length + 1) ts

end PgEddy
