import PgEddy.Lib.Binary64

/-!
# Tokens

What `cypher/lexer.rs` cuts a query into and `cypher/parser.rs` reads.
-/

namespace PgEddy

open Binary64

inductive Token where
  | match_
  | optionalMatch
  | where_
  | return_
  | as_
  | distinct
  | orderBy
  | limit
  | skip
  | and
  | or
  | xor
  | not
  | in_
  | is
  | null
  | true_
  | false_
  | create
  | delete
  | detach
  | set
  | merge
  | remove
  | foreach
  | on
  | call
  | yield_
  | with_
  | unwind
  | case_
  | when_
  | then_
  | else_
  | end_
  | show_
  | index
  | indexes
  | drop
  | constraint
  | assert_
  | unique
  | constraints
  | ident (name : String)
  | stringLit (s : String)
  | intLit (i : Int64)
  /-- The literal one past the largest integer, which only a minus before it makes one. -/
  | intLitBig
  | floatLit (f : F64)
  | parameter (name : String)
  | lParen
  | rParen
  | lBracket
  | rBracket
  | lBrace
  | rBrace
  | colon
  | comma
  | dot
  | pipe
  | dotDot
  | dash
  | lArrow
  | rArrow
  | eq
  | neq
  | lt
  | gt
  | le
  | ge
  | regexMatch
  | plus
  | plusEq
  | star
  | slash
  | percent
  | caret
  | eof
  deriving DecidableEq

end PgEddy
