import PgEddy.Parser

/-!
# Expressions as they are written

An expression with its parentheses, the tokens it is written in and the `Expr` it stands for. What holds a pattern or a query
is left out.
-/

namespace PgEddy

/-- A written expression. -/
inductive Surface where
  | literal (t : SpannedToken)
  /-- The smallest integer, whose digits alone are no literal. -/
  | minInt
  | var (name : String)
  | paren (inner : Surface)
  | list (items : List Surface)
  | map (entries : List (SpannedToken × Surface))
  | call (name : String) (args : List Surface)
  | callStar (name : String)
  | callDistinct (name : String) (args : List Surface)
  | listPredicate (name var : String) (listExpr : Surface) (predicate : Option Surface)
  | filter (name var : String) (listExpr : Surface) (predicate : Option Surface)
  | extract (name var : String) (listExpr : Surface) (projection : Option Surface)
  | comprehension (var : String) (listExpr : Surface) (predicate projection : Option Surface)
  | caseSearched (branches : List (Surface × Surface)) (else_ : Option Surface)
  | caseSimple (test : Surface) (branches : List (Surface × Surface)) (else_ : Option Surface)
  | property (base : Surface) (key : SpannedToken)
  | method (base : Surface) (key : SpannedToken) (args : List Surface)
  | subscript (base index : Surface)
  | slice (base : Surface) (from_ to_ : Option Surface)
  | hasLabel (base : Surface) (labels : List SpannedToken)
  | neg (inner : Surface)
  | binary (level : Nat) (op : Token) (left right : Surface)
  | isNull (inner : Surface)
  | isNotNull (inner : Surface)
  | inList (left list : Surface)
  | stringTest (word : String) (left right : Surface)
  | regex (left right : Surface)
  | compare (left : Surface) (op : Token) (right : Surface) (more : List (Token × Surface))
  | not (inner : Surface)

namespace Surface

/-! ## Tokens -/

section

variable (spell : Token → String)

/-- A token as the source spells it. -/
def span (t : Token) : SpannedToken := ⟨t, spell t⟩

def spans (ts : List Token) : List SpannedToken := ts.map (span spell)

mutual

/-- The tokens of a written expression. -/
def tokens : Surface → List SpannedToken
  | literal t => [t]
  | minInt => spans spell [.dash, .intLitBig]
  | var name => [span spell (.ident name)]
  | paren inner => span spell .lParen :: (tokens inner ++ [span spell .rParen])
  | list items => span spell .lBracket :: (itemTokens items ++ [span spell .rBracket])
  | map entries => span spell .lBrace :: (entryTokens entries ++ [span spell .rBrace])
  | call name args => spans spell [.ident name, .lParen] ++ (itemTokens args ++ [span spell .rParen])
  | callStar name => spans spell [.ident name, .lParen, .star, .rParen]
  | callDistinct name args => spans spell [.ident name, .lParen, .distinct] ++ (itemTokens args ++ [span spell .rParen])
  | listPredicate name v listExpr predicate =>
    spans spell [.ident name, .lParen, .ident v, .in_] ++
      (tokens listExpr ++ (afterTokens .where_ predicate ++ [span spell .rParen]))
  | filter name v listExpr predicate =>
    spans spell [.ident name, .lParen, .ident v, .in_] ++
      (tokens listExpr ++ (afterTokens .where_ predicate ++ [span spell .rParen]))
  | extract name v listExpr projection =>
    spans spell [.ident name, .lParen, .ident v, .in_] ++
      (tokens listExpr ++ (afterTokens .pipe projection ++ [span spell .rParen]))
  | comprehension v listExpr predicate projection =>
    spans spell [.lBracket, .ident v, .in_] ++
      (tokens listExpr ++ (afterTokens .where_ predicate ++ (afterTokens .pipe projection ++ [span spell .rBracket])))
  | caseSearched branches else_ =>
    span spell .case_ :: (branchTokens branches ++ (afterTokens .else_ else_ ++ [span spell .end_]))
  | caseSimple test branches else_ =>
    span spell .case_ :: (tokens test ++ (branchTokens branches ++ (afterTokens .else_ else_ ++ [span spell .end_])))
  | property base key => tokens base ++ [span spell .dot, key]
  | method base key args =>
    tokens base ++ (span spell .dot :: key :: span spell .lParen :: (itemTokens args ++ [span spell .rParen]))
  | subscript base index => tokens base ++ (span spell .lBracket :: (tokens index ++ [span spell .rBracket]))
  | slice base from_ to_ =>
    tokens base ++ (span spell .lBracket :: (optTokens from_ ++ (span spell .dotDot :: (optTokens to_ ++ [span spell .rBracket]))))
  | hasLabel base labels => tokens base ++ labels.flatMap fun l => [span spell .colon, l]
  | neg inner => span spell .dash :: tokens inner
  | binary _ op left right => tokens left ++ (span spell op :: tokens right)
  | isNull inner => tokens inner ++ spans spell [.is, .null]
  | isNotNull inner => tokens inner ++ spans spell [.is, .not, .null]
  | inList left listExpr => tokens left ++ (span spell .in_ :: tokens listExpr)
  | stringTest word left right =>
    tokens left ++ (span spell (.ident word) ::
      ((if (stringOp word).any Prod.fst then [span spell .with_] else []) ++ tokens right))
  | regex left right => tokens left ++ (span spell .regexMatch :: tokens right)
  | compare left op right more => tokens left ++ (span spell op :: (tokens right ++ compareTokens more))
  | not inner => span spell .not :: tokens inner

/-- The items with commas between them. -/
def itemTokens : List Surface → List SpannedToken
  | [] => []
  | item :: items => tokens item ++ commaTokens items

def commaTokens : List Surface → List SpannedToken
  | [] => []
  | item :: items => span spell .comma :: (tokens item ++ commaTokens items)

def entryTokens : List (SpannedToken × Surface) → List SpannedToken
  | [] => []
  | (key, e) :: entries => key :: span spell .colon :: (tokens e ++ commaEntryTokens entries)

def commaEntryTokens : List (SpannedToken × Surface) → List SpannedToken
  | [] => []
  | (key, e) :: entries => span spell .comma :: key :: span spell .colon :: (tokens e ++ commaEntryTokens entries)

def branchTokens : List (Surface × Surface) → List SpannedToken
  | [] => []
  | (when_, then_) :: branches =>
    span spell .when_ :: (tokens when_ ++ (span spell .then_ :: (tokens then_ ++ branchTokens branches)))

def compareTokens : List (Token × Surface) → List SpannedToken
  | [] => []
  | (op, e) :: more => span spell op :: (tokens e ++ compareTokens more)

def afterTokens (t : Token) : Option Surface → List SpannedToken
  | none => []
  | some e => span spell t :: tokens e

def optTokens : Option Surface → List SpannedToken
  | none => []
  | some e => tokens e

end

end

/-! ## Expressions -/

/-- The name a token is, where it is one. -/
def nameOf (t : SpannedToken) : String := t.token.flexibleName.getD ""

/-- The operators that group to the left, level by level. -/
def opAt : Nat → Token → Option (Expr → Expr → Expr)
  | 3 => powerOp
  | 4 => multiplicationOp
  | 5 => additionOp
  | 10 => andOp
  | 11 => xorOp
  | 12 => orOp
  | _ => fun _ => none

mutual

/-- The expression that is written. Parentheses leave no trace. -/
def meaning : Surface → Expr
  | literal t => t.token.literal.getD .nullLit
  | minInt => .intLit Int64.minValue
  | var name => .var name
  | paren inner => meaning inner
  | list items => .list (meanings items)
  | map entries => .mapLiteral (entryMeanings entries)
  | call name args => .functionCall name (meanings args)
  | callStar name => .functionCall name [.star]
  | callDistinct name args => .functionCall (name.toLower ++ "_distinct") (meanings args)
  | listPredicate name v listExpr predicate =>
    .listPredicate ((listPredKind name.toLower).getD .any) v (meaning listExpr) ((optMeaning predicate).getD (.boolLit true))
  | filter _ v listExpr predicate => .listComprehension v (meaning listExpr) (optMeaning predicate) none
  | extract _ v listExpr projection => .listComprehension v (meaning listExpr) none (optMeaning projection)
  | comprehension v listExpr predicate projection =>
    .listComprehension v (meaning listExpr) (optMeaning predicate) (optMeaning projection)
  | caseSearched branches else_ => .caseSearched (branchMeanings branches) (optMeaning else_)
  | caseSimple test branches else_ => .caseSimple (meaning test) (branchMeanings branches) (optMeaning else_)
  | property base key => .property (meaning base) (nameOf key)
  | method base key args => .functionCall (nameOf key) (meaning base :: meanings args)
  | subscript base index => .subscript (meaning base) (meaning index)
  | slice base from_ to_ => .listSlice (meaning base) (optMeaning from_) (optMeaning to_)
  | hasLabel base labels => .hasLabel (meaning base) (labels.map nameOf)
  | neg inner => .neg (meaning inner)
  | binary level op left right => ((opAt level op).getD .and) (meaning left) (meaning right)
  | isNull inner => .isNull (meaning inner)
  | isNotNull inner => .isNotNull (meaning inner)
  | inList left listExpr => .inList (meaning left) (meaning listExpr)
  | stringTest word left right => (((stringOp word).map Prod.snd).getD .contains) (meaning left) (meaning right)
  | regex left right => .regex (meaning left) (meaning right)
  | compare left op right more =>
    (compareMeaning (.compare (meaning left) ((cmpOp op).getD .eq) (meaning right), meaning right) more).1
  | not inner => .not (meaning inner)

def meanings : List Surface → List Expr
  | [] => []
  | item :: items => meaning item :: meanings items

def entryMeanings : List (SpannedToken × Surface) → List (String × Expr)
  | [] => []
  | (key, e) :: entries => ((mapKey key).getD "", meaning e) :: entryMeanings entries

def branchMeanings : List (Surface × Surface) → List (Expr × Expr)
  | [] => []
  | (when_, then_) :: branches => (meaning when_, meaning then_) :: branchMeanings branches

/-- The comparisons of a chain hold together, each with what was compared before it. -/
def compareMeaning (acc : Expr × Expr) : List (Token × Surface) → Expr × Expr
  | [] => acc
  | (op, e) :: more => compareMeaning (.and acc.1 (.compare acc.2 ((cmpOp op).getD .eq) (meaning e)), meaning e) more

def optMeaning : Option Surface → Option Expr
  | none => none
  | some e => some (meaning e)

end

/-! ## Where an expression may stand -/

/-- How tightly a written expression holds together, from operands to `OR`. -/
def level : Surface → Nat
  | minInt | neg _ => 2
  | binary level .. => level
  | isNull _ | isNotNull _ => 6
  | inList .. => 7
  | stringTest .. | regex .. | compare .. => 8
  | not _ => 9
  | _ => 1

/-- The tokens start with a name and the given token. -/
def startsNamed (next : Token) (ts : List SpannedToken) : Bool := (headToken ts).isIdent && headToken ts.tail = next

/-- The names that `name(` reads in a way of its own. -/
def isPlainName (name : String) : Bool :=
  (listPredKind name.toLower).isNone && name.toLower ≠ "shortestpath" && name.toLower ≠ "allshortestpaths"

mutual

/-- Every part is one that the grammar takes where it stands. -/
def Legal : Surface → Prop
  | literal t => t.token.literal.isSome
  | minInt | var _ => True
  | paren inner => Legal inner
  | list items =>
    EachLegal items ∧ startsNamed .in_ (itemTokens (fun _ => "") items) = false ∧
      startsNamed .eq (itemTokens (fun _ => "") items) = false
  | map entries => EntriesLegal entries
  | call name args =>
    EachLegal args ∧ isPlainName name ∧
      (name.toLower = "filter" ∨ name.toLower = "extract" → startsNamed .in_ (itemTokens (fun _ => "") args) = false)
  | callStar name => isPlainName name
  | callDistinct name args => EachLegal args ∧ isAggregateFnName name.toLower
  | listPredicate name _ listExpr predicate => (listPredKind name.toLower).isSome ∧ Legal listExpr ∧ OptLegal predicate
  | filter name _ listExpr predicate => name.toLower = "filter" ∧ Legal listExpr ∧ OptLegal predicate
  | extract name _ listExpr projection => name.toLower = "extract" ∧ Legal listExpr ∧ OptLegal projection
  | comprehension _ listExpr predicate projection => Legal listExpr ∧ OptLegal predicate ∧ OptLegal projection
  | caseSearched branches else_ => branches ≠ [] ∧ BranchesLegal branches ∧ OptLegal else_
  | caseSimple test branches else_ => Legal test ∧ BranchesLegal branches ∧ OptLegal else_
  | property base key => Legal base ∧ level base ≤ 1 ∧ key.token.flexibleName.isSome
  | method base key args => Legal base ∧ level base ≤ 1 ∧ key.token.flexibleName.isSome ∧ EachLegal args
  | subscript base index => Legal base ∧ level base ≤ 1 ∧ Legal index
  | slice base from_ to_ => Legal base ∧ level base ≤ 1 ∧ OptLegal from_ ∧ OptLegal to_
  | hasLabel base labels => Legal base ∧ level base ≤ 1 ∧ labels ≠ [] ∧ ∀ l ∈ labels, l.token.isLabel
  | neg inner => Legal inner ∧ level inner ≤ 2
  | binary n op left right => (opAt n op).isSome ∧ Legal left ∧ level left ≤ n ∧ Legal right ∧ level right < n
  | isNull inner | isNotNull inner => Legal inner ∧ level inner ≤ 5
  | inList left listExpr => Legal left ∧ level left ≤ 6 ∧ Legal listExpr ∧ level listExpr ≤ 6
  | stringTest word left right => (stringOp word).isSome ∧ Legal left ∧ level left ≤ 7 ∧ Legal right ∧ level right ≤ 7
  | regex left right => Legal left ∧ level left ≤ 7 ∧ Legal right ∧ level right ≤ 7
  | compare left op right more =>
    (cmpOp op).isSome ∧ Legal left ∧ level left ≤ 7 ∧ Legal right ∧ level right ≤ 7 ∧ ComparesLegal more
  | not inner => Legal inner ∧ level inner ≤ 9

def EachLegal : List Surface → Prop
  | [] => True
  | item :: items => Legal item ∧ EachLegal items

def EntriesLegal : List (SpannedToken × Surface) → Prop
  | [] => True
  | (key, e) :: entries => (mapKey key).isSome ∧ Legal e ∧ EntriesLegal entries

def BranchesLegal : List (Surface × Surface) → Prop
  | [] => True
  | (when_, then_) :: branches => Legal when_ ∧ Legal then_ ∧ BranchesLegal branches

def ComparesLegal : List (Token × Surface) → Prop
  | [] => True
  | (op, e) :: more => (cmpOp op).isSome ∧ Legal e ∧ level e ≤ 7 ∧ ComparesLegal more

def OptLegal : Option Surface → Prop
  | none => True
  | some e => Legal e

end

/-! ## What the parser takes for a pattern -/

section

variable (spell : Token → String)

mutual

/-- No parenthesis in front of the given tokens is taken for the start of a pattern. -/
def Clear : Surface → List SpannedToken → Prop
  | literal _, _ | minInt, _ | var _, _ | callStar _, _ => True
  | paren inner, rest =>
    looksLikePatternPredicate (tokens spell (paren inner) ++ rest) = false ∧ Clear inner (span spell .rParen :: rest)
  | list items, rest =>
    headToken (itemTokens spell items ++ [span spell .rBracket]) ≠ .lParen ∧ EachClear items (span spell .rBracket :: rest)
  | map entries, rest => EntriesClear entries (span spell .rBrace :: rest)
  | call _ args, rest => EachClear args (span spell .rParen :: rest)
  | callDistinct _ args, rest => EachClear args (span spell .rParen :: rest)
  | listPredicate _ _ listExpr predicate, rest =>
    Clear listExpr (afterTokens spell .where_ predicate ++ span spell .rParen :: rest) ∧
      OptClear predicate (span spell .rParen :: rest)
  | filter _ _ listExpr predicate, rest =>
    Clear listExpr (afterTokens spell .where_ predicate ++ span spell .rParen :: rest) ∧
      OptClear predicate (span spell .rParen :: rest)
  | extract _ _ listExpr projection, rest =>
    Clear listExpr (afterTokens spell .pipe projection ++ span spell .rParen :: rest) ∧
      OptClear projection (span spell .rParen :: rest)
  | comprehension _ listExpr predicate projection, rest =>
    Clear listExpr
        (afterTokens spell .where_ predicate ++ (afterTokens spell .pipe projection ++ span spell .rBracket :: rest)) ∧
      OptClear predicate (afterTokens spell .pipe projection ++ span spell .rBracket :: rest) ∧
      OptClear projection (span spell .rBracket :: rest)
  | caseSearched branches else_, rest =>
    BranchesClear branches (afterTokens spell .else_ else_ ++ span spell .end_ :: rest) ∧
      OptClear else_ (span spell .end_ :: rest)
  | caseSimple test branches else_, rest =>
    Clear test (branchTokens spell branches ++ (afterTokens spell .else_ else_ ++ span spell .end_ :: rest)) ∧
      BranchesClear branches (afterTokens spell .else_ else_ ++ span spell .end_ :: rest) ∧
      OptClear else_ (span spell .end_ :: rest)
  | property base key, rest => Clear base (span spell .dot :: key :: rest)
  | method base key args, rest =>
    Clear base (span spell .dot :: key :: span spell .lParen :: (itemTokens spell args ++ span spell .rParen :: rest)) ∧
      EachClear args (span spell .rParen :: rest)
  | subscript base index, rest =>
    Clear base (span spell .lBracket :: (tokens spell index ++ span spell .rBracket :: rest)) ∧
      Clear index (span spell .rBracket :: rest)
  | slice base from_ to_, rest =>
    Clear base (span spell .lBracket ::
        (optTokens spell from_ ++ span spell .dotDot :: (optTokens spell to_ ++ span spell .rBracket :: rest))) ∧
      OptClear from_ (span spell .dotDot :: (optTokens spell to_ ++ span spell .rBracket :: rest)) ∧
      OptClear to_ (span spell .rBracket :: rest)
  | hasLabel base labels, rest => Clear base ((labels.flatMap fun l => [span spell .colon, l]) ++ rest)
  | neg inner, rest => Clear inner rest
  | binary _ op left right, rest => Clear left (span spell op :: (tokens spell right ++ rest)) ∧ Clear right rest
  | isNull inner, rest => Clear inner (spans spell [.is, .null] ++ rest)
  | isNotNull inner, rest => Clear inner (spans spell [.is, .not, .null] ++ rest)
  | inList left listExpr, rest =>
    Clear left (span spell .in_ :: (tokens spell listExpr ++ rest)) ∧ Clear listExpr rest
  | stringTest word left right, rest =>
    Clear left (span spell (.ident word) ::
        ((if (stringOp word).any Prod.fst then [span spell .with_] else []) ++ tokens spell right ++ rest)) ∧
      Clear right rest
  | regex left right, rest => Clear left (span spell .regexMatch :: (tokens spell right ++ rest)) ∧ Clear right rest
  | compare left op right more, rest =>
    Clear left (span spell op :: (tokens spell right ++ (compareTokens spell more ++ rest))) ∧
      Clear right (compareTokens spell more ++ rest) ∧ ComparesClear more rest
  | not inner, rest => Clear inner rest

def EachClear : List Surface → List SpannedToken → Prop
  | [], _ => True
  | item :: items, rest => Clear item (commaTokens spell items ++ rest) ∧ EachClear items rest

def EntriesClear : List (SpannedToken × Surface) → List SpannedToken → Prop
  | [], _ => True
  | (_, e) :: entries, rest => Clear e (commaEntryTokens spell entries ++ rest) ∧ EntriesClear entries rest

def BranchesClear : List (Surface × Surface) → List SpannedToken → Prop
  | [], _ => True
  | (when_, then_) :: branches, rest =>
    Clear when_ (span spell .then_ :: (tokens spell then_ ++ (branchTokens spell branches ++ rest))) ∧
      Clear then_ (branchTokens spell branches ++ rest) ∧ BranchesClear branches rest

def ComparesClear : List (Token × Surface) → List SpannedToken → Prop
  | [], _ => True
  | (_, e) :: more, rest => Clear e (compareTokens spell more ++ rest) ∧ ComparesClear more rest

def OptClear : Option Surface → List SpannedToken → Prop
  | none, _ => True
  | some e, rest => Clear e rest

end

end

end Surface

end PgEddy
