import Mathlib.Data.List.Chain

/-!
# Texts in SQL

A statement put together of fixed texts, string literals and quoted identifiers. In a literal a quote is doubled, and so it is in an
identifier. Read back, each of them is one lexeme with the value it was made of, whatever that value is, provided that the fixed
texts around it begin and end nothing else.
-/

namespace SqlText

/-! ## Writing -/

/-- A part of a statement. -/
inductive Fragment where
  | text (s : String)
  | literal (value : String)
  | ident (name : String)

def quoteChar (single : Bool) : Char := if single then '\'' else Char.ofNat 34

/-- The characters, with the quotes among them doubled. -/
def doubled (q : Char) (cs : List Char) : List Char := cs.flatMap fun c => if c = q then [q, q] else [c]

def quoted (single : Bool) (s : String) : List Char :=
  quoteChar single :: (doubled (quoteChar single) s.toList ++ [quoteChar single])

def Fragment.chars : Fragment → List Char
  | .text s => s.toList
  | .literal value => quoted true value
  | .ident name => quoted false name

/-- The statement. -/
def chars (ps : List Fragment) : List Char := ps.flatMap Fragment.chars

/-! ## Reading -/

/-- What a statement is read as: characters outside of quotes, string literals and quoted identifiers. -/
inductive Lexeme where
  | char (c : Char)
  | literal (value : List Char)
  | ident (name : List Char)
  deriving DecidableEq

/-- Where the reader is: outside of quotes behind a character, in quotes, or behind a quote in them. -/
inductive Mode where
  | plain (last : Option Char)
  | inside (single : Bool) (acc : List Char)
  | closing (single : Bool) (acc : List Char)

def lexeme (single : Bool) (acc : List Char) : Lexeme := if single then .literal acc else .ident acc

/-- A quote right behind a letter, a digit, `_`, `$` or `&` is read with it, as in `E'..'` and `U&'..'`. -/
def joins (c : Char) : Bool := c.isAlphanum || c = '_' || c = '$' || c = '&' || decide (127 < c.toNat)

/-- What would begin a dollar quote or a comment, or join two literals. -/
def begins (last : Option Char) (c : Char) : Bool :=
  c = '$' || c = '\n' || c = '\r' || (last = some '-' && c = '-') || (last = some '/' && c = '*')

/-- A character outside of quotes. -/
def plainStep (last : Option Char) (c : Char) : Option (List Lexeme × Mode) :=
  if c = quoteChar true then (if last.any joins then none else some ([], .inside true []))
  else if c = quoteChar false then (if last.any joins then none else some ([], .inside false []))
  else if begins last c then none
  else some ([.char c], .plain (some c))

/-- The lexemes of a statement, with standard conforming strings. What leaves a doubt is not read. -/
def scan : Mode → List Char → Option (List Lexeme)
  | .plain _, [] => some []
  | .inside _ _, [] => none
  | .closing single acc, [] => some [lexeme single acc]
  | .plain last, c :: cs => do
    let (out, mode) ← plainStep last c
    return out ++ (← scan mode cs)
  | .inside single acc, c :: cs =>
    if c = quoteChar single then scan (.closing single acc) cs else scan (.inside single (acc ++ [c])) cs
  | .closing single acc, c :: cs =>
    if c = quoteChar single then scan (.inside single (acc ++ [c])) cs
    else do
      let (out, mode) ← plainStep none c
      return lexeme single acc :: (out ++ (← scan mode cs))

def readSql (cs : List Char) : Option (List Lexeme) := scan (.plain none) cs

/-! ## Fixed texts -/

/-- Nothing begins in a text, or could begin at its end. -/
def cleanFrom : Option Char → List Char → Bool
  | last, [] => last != some '-' && last != some '/'
  | last, c :: cs => c != quoteChar true && c != quoteChar false && !begins last c && cleanFrom (some c) cs

def clean (s : String) : Bool := cleanFrom none s.toList

/-- A text behind which a quote opens. -/
def opens (s : String) : Bool := s.toList.getLast?.any fun c => !joins c

def Fragment.isQuoted : Fragment → Bool
  | .text _ => false
  | _ => true

/-- What may stand behind a piece. -/
def Follows (p q : Fragment) : Prop :=
  q.isQuoted = true → ∃ s, p = .text s ∧ opens s = true

/-- A statement whose fixed texts are from a vocabulary, with a quote only behind a text it may stand behind. -/
structure Readable (V : String → Prop) (ps : List Fragment) : Prop where
  words : ∀ s, .text s ∈ ps → V s
  follows : ps.IsChain Follows

variable {V : String → Prop}

/-- A fixed text is from the vocabulary. -/
def Fragment.IsWord (V : String → Prop) : Fragment → Prop
  | .text s => V s
  | _ => True

@[simp] theorem isWord_literal (value : String) : (Fragment.literal value).IsWord V := trivial

@[simp] theorem readable_nil : Readable V [] := ⟨by simp, List.isChain_nil⟩

@[simp] theorem readable_cons {p : Fragment} {ps : List Fragment} :
    Readable V (p :: ps) ↔ p.IsWord V ∧ (∀ q ∈ ps.head?, Follows p q) ∧ Readable V ps := by
  constructor
  · intro h
    refine ⟨?_, (List.isChain_cons.mp h.follows).1, fun s hs => h.words s (List.mem_cons_of_mem _ hs), h.follows.tail⟩
    cases p with
    | text s => exact h.words s List.mem_cons_self
    | literal => trivial
    | ident => trivial
  · rintro ⟨hp, hhead, hps⟩
    refine ⟨fun s hs => ?_, List.isChain_cons.mpr ⟨hhead, hps.follows⟩⟩
    obtain rfl | hs := List.mem_cons.mp hs
    · exact hp
    · exact hps.words s hs

@[simp] theorem follows_text (p : Fragment) (s : String) : Follows p (.text s) := nofun

theorem follows_quoted {s : String} {q : Fragment} (h : opens s = true) : Follows (.text s) q := fun _ => ⟨s, rfl, h⟩

/-- A statement that does not go on with a quote goes on readably. -/
theorem Readable.append {ps qs : List Fragment} (hps : Readable V ps) (hqs : Readable V qs)
    (hhead : ∀ q ∈ qs.head?, q.isQuoted = false) :
    Readable V (ps ++ qs) where
  words t ht := (List.mem_append.mp ht).elim (hps.words t) (hqs.words t)
  follows := List.isChain_append.mpr ⟨hps.follows, hqs.follows, fun p _ q hq hquoted => by
    rw [hhead q hq] at hquoted
    cases hquoted⟩

theorem Readable.append_text {ps : List Fragment} {s : String} {rest : List Fragment} (h : Readable V ps)
    (hrest : Readable V (.text s :: rest)) : Readable V (ps ++ .text s :: rest) :=
  h.append hrest fun q hq => by
    obtain rfl := Option.some.inj hq
    rfl

/-- Whatever is readable is so behind a text that a quote may follow. -/
theorem Readable.cons_text {ps : List Fragment} {s : String} (hword : V s) (hopens : opens s = true) (h : Readable V ps) :
    Readable V (.text s :: ps) :=
  readable_cons.mpr ⟨hword, fun _ _ => follows_quoted hopens, h⟩

/-- What a statement is made to be read as. -/
def Fragment.lexemes : Fragment → List Lexeme
  | .text s => s.toList.map .char
  | .literal value => [.literal value.toList]
  | .ident name => [.ident name.toList]

/-! ## Reading what was written -/

theorem begins_none {c : Char} {last : Option Char} (hdash : last ≠ some '-') (hslash : last ≠ some '/') :
    begins last c = begins none c := by
  have hd : (last = some '-') = False := eq_false hdash
  have hs : (last = some '/') = False := eq_false hslash
  simp only [begins, hd, hs, decide_false, Bool.false_and, Bool.or_false, reduceCtorEq]

theorem scan_doubled (single : Bool) (cs rest : List Char) : ∀ acc : List Char,
    scan (.inside single acc) (doubled (quoteChar single) cs ++ quoteChar single :: rest) =
      scan (.closing single (acc ++ cs)) rest := by
  induction cs with
  | nil =>
    intro acc
    rw [doubled, List.flatMap_nil, List.nil_append, scan, if_pos rfl, List.append_nil]
  | cons c cs ih =>
    intro acc
    rw [doubled, List.flatMap_cons]
    by_cases hc : c = quoteChar single
    · rw [if_pos hc, List.append_assoc, List.cons_append, List.cons_append, List.nil_append, scan, if_pos rfl, scan, if_pos rfl]
      refine (ih _).trans ?_
      rw [hc, List.append_assoc, List.singleton_append]
    · rw [if_neg hc, List.append_assoc, List.singleton_append, scan, if_neg hc]
      refine (ih _).trans ?_
      rw [List.append_assoc, List.singleton_append]

/-- Behind quotes the reader goes on outside of them. -/
theorem scan_closing (single : Bool) (acc rest : List Char) (h : rest.head? ≠ some (quoteChar single)) :
    scan (.closing single acc) rest = (scan (.plain none) rest).map (lexeme single acc :: ·) := by
  cases rest with
  | nil => rfl
  | cons c cs =>
    have hc : c ≠ quoteChar single := fun hc => h (congrArg some hc)
    simp only [scan, if_neg hc]
    cases plainStep none c with
    | none => rfl
    | some next =>
      obtain ⟨out, mode⟩ := next
      cases hscan : scan mode cs <;> simp [hscan]

/-- The last character of a text, or else the one before it. -/
def lastOf (last : Option Char) (cs : List Char) : Option Char := cs.getLast?.or last

theorem lastOf_cons (last : Option Char) (c : Char) (cs : List Char) : lastOf last (c :: cs) = lastOf (some c) cs := by
  cases cs with
  | nil => rfl
  | cons d cs =>
    rw [lastOf, lastOf, List.getLast?_cons_cons, List.getLast?_eq_some_getLast (List.cons_ne_nil d cs)]
    rfl

theorem scan_text {cs : List Char} (rest : List Char) : ∀ {last : Option Char}, cleanFrom last cs = true →
    scan (.plain last) (cs ++ rest) = (scan (.plain (lastOf last cs)) rest).map (cs.map .char ++ ·) := by
  induction cs with
  | nil =>
    intro last _
    simp [lastOf]
  | cons c cs ih =>
    intro last h
    simp only [cleanFrom, Bool.and_eq_true, bne_iff_ne, ne_eq, Bool.not_eq_true'] at h
    obtain ⟨⟨⟨hsingle, hdouble⟩, hbegins⟩, hcs⟩ := h
    have hstep : plainStep last c = some ([.char c], .plain (some c)) := by
      rw [plainStep, if_neg hsingle, if_neg hdouble, if_neg (by simp [hbegins])]
    rw [List.cons_append, scan, hstep, lastOf_cons]
    simp only [Option.bind_eq_bind, Option.bind_some, ih hcs]
    cases scan (.plain (lastOf (some c) cs)) rest <;> rfl

/-- Behind a clean text nothing is begun. -/
theorem lastOf_of_cleanFrom {cs : List Char} : ∀ {last : Option Char}, cleanFrom last cs = true →
    lastOf last cs ≠ some '-' ∧ lastOf last cs ≠ some '/' := by
  induction cs with
  | nil =>
    intro last h
    simpa [cleanFrom, lastOf] using h
  | cons c cs ih =>
    intro last h
    rw [cleanFrom, Bool.and_eq_true] at h
    rw [lastOf_cons]
    exact ih h.2

/-- A text that is clean at the start is clean behind whatever has begun nothing. -/
theorem cleanFrom_of_none {cs : List Char} {last : Option Char} (hdash : last ≠ some '-') (hslash : last ≠ some '/')
    (h : cleanFrom none cs = true) : cleanFrom last cs = true := by
  cases cs with
  | nil => simpa [cleanFrom] using And.intro hdash hslash
  | cons c cs =>
    rw [cleanFrom, begins_none hdash hslash]
    exact h

/-- Clean texts are clean together. -/
theorem cleanFrom_append {cs ds : List Char} {last : Option Char} (hcs : cleanFrom last cs = true)
    (hds : cleanFrom none ds = true) :
    cleanFrom last (cs ++ ds) = true := by
  induction cs generalizing last with
  | nil =>
    obtain ⟨hdash, hslash⟩ := lastOf_of_cleanFrom hcs
    exact cleanFrom_of_none hdash hslash hds
  | cons c cs ih =>
    rw [cleanFrom, Bool.and_eq_true] at hcs
    rw [List.cons_append, cleanFrom, hcs.1, ih hcs.2]
    rfl

/-- A statement that does not begin with a quoted piece does not begin with a quote. -/
theorem head_chars {ps : List Fragment} (hV : ∀ s, V s → clean s = true) (h : Readable V ps) (single : Bool)
    (hhead : ∀ q ∈ ps.head?, q.isQuoted = false) :
    (chars ps).head? ≠ some (quoteChar single) := by
  induction ps with
  | nil => simp [chars]
  | cons p ps ih =>
    have hp := hhead p rfl
    cases p with
    | literal => cases hp
    | ident => cases hp
    | text s =>
      have hclean := hV s (h.words s List.mem_cons_self)
      rw [chars, List.flatMap_cons, Fragment.chars]
      rw [clean] at hclean
      cases hs : s.toList with
      | cons c cs =>
        simp only [hs, cleanFrom, Bool.and_eq_true, bne_iff_ne, ne_eq] at hclean
        rw [List.cons_append, List.head?_cons]
        intro hc
        cases single
        · exact hclean.1.1.2 (Option.some.inj hc)
        · exact hclean.1.1.1 (Option.some.inj hc)
      | nil =>
        refine ih (readable_cons.mp h).2.2 fun q hq => ?_
        by_contra hquoted
        obtain ⟨t, ht, hopens⟩ := (readable_cons.mp h).2.1 q hq (by simpa using hquoted)
        rw [← Fragment.text.inj ht, opens, hs] at hopens
        cases hopens

theorem scan_chars {ps : List Fragment} (hV : ∀ s, V s → clean s = true) (h : Readable V ps) : ∀ {last : Option Char},
    last ≠ some '-' → last ≠ some '/' →
    ((∃ q ∈ ps.head?, q.isQuoted = true) → last.any joins = false) →
    scan (.plain last) (chars ps) = some (ps.flatMap Fragment.lexemes) := by
  induction ps with
  | nil => intro _ _ _ _; rfl
  | cons p ps ih =>
    intro last hdash hslash hopen
    have hquotedPiece : ∀ (single : Bool) (value : String), p.chars = quoted single value →
        p.lexemes = [lexeme single value.toList] → p.isQuoted = true →
        scan (.plain last) (chars (p :: ps)) = some ((p :: ps).flatMap Fragment.lexemes) := by
      intro single value hchars hlex hquoted
      have hjoins := hopen ⟨p, rfl, hquoted⟩
      have hstep : plainStep last (quoteChar single) = some ([], .inside single []) := by
        cases single
        · rw [plainStep, if_neg (by decide), if_pos rfl, hjoins]
          rfl
        · rw [plainStep, if_pos rfl, hjoins]
          rfl
      have hrest : (chars ps).head? ≠ some (quoteChar single) := by
        refine head_chars hV (readable_cons.mp h).2.2 single fun q hq => ?_
        by_contra hq'
        obtain ⟨t, rfl, -⟩ := (readable_cons.mp h).2.1 q hq (by simpa using hq')
        cases hquoted
      have hscan : scan (.inside single []) (doubled (quoteChar single) value.toList ++ quoteChar single :: chars ps) =
          some (lexeme single value.toList :: ps.flatMap Fragment.lexemes) := by
        rw [scan_doubled, scan_closing single _ _ hrest, ih (readable_cons.mp h).2.2 (by simp) (by simp) fun _ => rfl]
        rfl
      have happ : chars (p :: ps) =
          quoteChar single :: (doubled (quoteChar single) value.toList ++ quoteChar single :: chars ps) := by
        rw [chars, List.flatMap_cons, hchars, quoted]
        simp [chars]
      rw [happ, scan, hstep]
      simp only [Option.bind_eq_bind, Option.bind_some, hscan, List.flatMap_cons, hlex]
      rfl
    cases p with
    | literal value => exact hquotedPiece true value rfl rfl rfl
    | ident name => exact hquotedPiece false name rfl rfl rfl
    | text s =>
      have hclean := cleanFrom_of_none hdash hslash (hV s (h.words s List.mem_cons_self))
      obtain ⟨hdash', hslash'⟩ := lastOf_of_cleanFrom hclean
      rw [chars, List.flatMap_cons, Fragment.chars, scan_text _ hclean]
      refine (congrArg _ (ih (readable_cons.mp h).2.2 hdash' hslash' ?_)).trans rfl
      rintro ⟨q, hq, hquoted⟩
      obtain ⟨t, ht, hopens⟩ := (readable_cons.mp h).2.1 q hq hquoted
      rw [← Fragment.text.inj ht, opens] at hopens
      unfold lastOf
      cases hlast : s.toList.getLast? with
      | none => rw [hlast] at hopens; cases hopens
      | some c =>
        rw [hlast] at hopens
        simpa using hopens

/-- A readable statement is read as what it was made of: each literal and each identifier has its value. -/
theorem readSql_chars {ps : List Fragment} (hV : ∀ s, V s → clean s = true) (h : Readable V ps) :
    readSql (chars ps) = some (ps.flatMap Fragment.lexemes) :=
  scan_chars hV h (by simp) (by simp) fun _ => rfl

end SqlText
