import Mathlib.Data.Nat.Digits.Defs
import PgEddy.SqlCompiler

/-!
# The text of a graph view

The strings of a query, its names, labels, keys and constants, reach the text of the compiled statement in quotes only. Read by
PostgreSQL, each is one literal or one identifier with its own value, and what stands outside of quotes is from a vocabulary of the
compiler's own.
-/

namespace PgEddy

open SqlText

/-! ## The vocabulary -/

/-- What the compiler writes outside of quotes. -/
def sqlWords : List String :=
  ["jsonb_build_object(", ", ", ".node_id, ", ", to_jsonb(", ".labels), ", ".properties)", ".rel_id, ", ".rel_type, ",
    ".source_node_id, ", ".target_node_id, ", "COALESCE(", ".properties -> ", "::jsonb)", "::jsonb", "to_jsonb(count(*))",
    "to_jsonb(count(", "))", "to_jsonb(", ".node_id)", ".rel_id)", ".labels)", ".rel_type)", ".properties", " = ANY(", "(", ")",
    " = ", " <> ", " < ", " > ", " <= ", " >= ", " AND ", " OR ", "NOT (", " IS NULL OR ", " IS NOT NULL AND ", ".node_id = ",
    ".node_id", ".node_id <> ", ".rel_id = ", ".rel_id", ".rel_id <> ", ".rel_type IN (", ".source_node_id = ",
    ".target_node_id = ", ".source_node_id", ".target_node_id", "_pg_eddy.ivm_nodes AS ", " CROSS JOIN _pg_eddy.ivm_nodes AS ",
    " JOIN _pg_eddy.ivm_edges AS ", " ON ", " JOIN _pg_eddy.ivm_nodes AS ", "((", ") OR (", ")::text AS ", " ASC", " DESC",
    "SELECT ", "SELECT DISTINCT ", " FROM ", " WHERE ", " ORDER BY ", ") UNION ALL (", ") UNION ("]

/-- A word of the compiler, the name of a table, or a number behind `OFFSET` or `LIMIT`. -/
inductive IsSqlWord : String → Prop where
  | word {s : String} (h : s ∈ sqlWords) : IsSqlWord s
  | alias_ (a : SqlAlias) : IsSqlWord a.text
  | offset (i : Int) : IsSqlWord (" OFFSET " ++ toString i)
  | limit (i : Int) : IsSqlWord (" LIMIT " ++ toString i)

namespace SqlTextAux

/-- Neither a quote nor what could begin a comment. -/
def isCalm (c : Char) : Bool :=
  c != quoteChar true && c != quoteChar false && c != '$' && c != '\n' && c != '\r' && c != '-' && c != '/'

theorem cleanFrom_of_calm {cs : List Char} (h : ∀ c ∈ cs, isCalm c = true) : ∀ {last : Option Char}, last ≠ some '-' →
    last ≠ some '/' → cleanFrom last cs = true := by
  induction cs with
  | nil =>
    intro last hdash hslash
    simpa [cleanFrom] using And.intro hdash hslash
  | cons c cs ih =>
    intro last hdash hslash
    obtain ⟨hc, hcs⟩ := List.forall_mem_cons.mp h
    simp only [isCalm, Bool.and_eq_true, bne_iff_ne, ne_eq] at hc
    obtain ⟨⟨⟨⟨⟨⟨hsingle, hdouble⟩, hdollar⟩, hline⟩, hreturn⟩, hdash'⟩, hslash'⟩ := hc
    have hbegins : begins last c = false := by
      rw [begins_none hdash hslash]
      simp [begins, hdollar, hline, hreturn]
    rw [cleanFrom, hbegins, ih hcs (by simpa using hdash') (by simpa using hslash')]
    simp [hsingle, hdouble]

theorem isCalm_of_isDigit {c : Char} (h : c.isDigit = true) : isCalm c = true := by
  have hne : ∀ d : Char, d.isDigit = false → c ≠ d := fun d hd heq => by
    rw [heq, hd] at h
    cases h
  simp [isCalm, hne _ (show (quoteChar true).isDigit = false by decide), hne _ (show (quoteChar false).isDigit = false by decide),
    hne '$' (by decide), hne '\n' (by decide), hne '\r' (by decide), hne '-' (by decide), hne '/' (by decide)]

theorem isDigit_of_mem_toString {n : Nat} {c : Char} (h : c ∈ (toString n).toList) : c.isDigit = true := by
  rw [Nat.toString_eq_repr, Nat.toList_repr] at h
  exact Nat.isDigit_of_mem_toDigits (by decide) (by decide) h

theorem calm_of_toString (n : Nat) : ∀ c ∈ (toString n).toList, isCalm c = true :=
  fun _ hc => isCalm_of_isDigit (isDigit_of_mem_toString hc)

theorem clean_nat {s : String} (hs : clean s = true) (n : Nat) : clean (s ++ toString n) = true := by
  rw [clean, String.toList_append]
  exact cleanFrom_append hs (cleanFrom_of_calm (calm_of_toString n) (by simp) (by simp))

/-- One minus sign before digits begins nothing. -/
theorem clean_int {s : String} (hs : clean s = true) (i : Int) : clean (s ++ toString i) = true := by
  cases i with
  | ofNat n => exact clean_nat hs n
  | negSucc n =>
    have htext : (toString (Int.negSucc n)).toList = '-' :: (toString (n + 1)).toList := by
      change ("-" ++ toString (n + 1)).toList = _
      rw [String.toList_append]
      rfl
    rw [clean, String.toList_append, htext]
    refine cleanFrom_append hs ?_
    have hcalm := calm_of_toString (n + 1)
    cases hdigits : (toString (n + 1)).toList with
    | nil =>
      rw [Nat.toString_eq_repr, Nat.toList_repr] at hdigits
      exact absurd hdigits Nat.toDigits_ne_nil
    | cons d ds =>
      rw [hdigits] at hcalm
      obtain ⟨hd, hds⟩ := List.forall_mem_cons.mp hcalm
      simp only [isCalm, Bool.and_eq_true, bne_iff_ne, ne_eq] at hd
      obtain ⟨⟨⟨⟨⟨⟨hsingle, hdouble⟩, hdollar⟩, hline⟩, hreturn⟩, hdash⟩, hslash⟩ := hd
      rw [cleanFrom, cleanFrom, cleanFrom_of_calm hds (by simpa using hdash) (by simpa using hslash)]
      have hminus : begins none '-' = false := by decide
      have hdigit : begins (some '-') d = false := by simp [begins, hdollar, hline, hreturn, hdash]
      rw [hminus, hdigit]
      simp only [hsingle, hdouble, bne_iff_ne, ne_eq, not_false_eq_true, Bool.not_false, Bool.and_true, Bool.and_eq_true]
      decide

/-- Nothing is begun in a word. -/
theorem clean_of_isSqlWord {s : String} (h : IsSqlWord s) : clean s = true := by
  cases h with
  | word h =>
    have hall : ∀ s ∈ sqlWords, clean s = true := by decide +kernel
    exact hall s h
  | alias_ a =>
    cases a with
    | node i => exact clean_nat (by decide +kernel) i
    | edge i => exact clean_nat (by decide +kernel) i
  | offset i => exact clean_int (by decide +kernel) i
  | limit i => exact clean_int (by decide +kernel) i

/-! ## Readable parts -/

variable {T : SqlTexts}

theorem isWord_of_mem {s : String} (h : s ∈ sqlWords) : (Fragment.text s).IsWord IsSqlWord := .word h

@[simp] theorem isWord_alias (a : SqlAlias) : a.piece.IsWord IsSqlWord := .alias_ a

@[simp] theorem follows_alias (p : Fragment) (a : SqlAlias) : SqlText.Follows p a.piece := nofun

theorem follows_literal {s v : String} (h : opens s = true) : SqlText.Follows (.text s) (.literal v) := follows_quoted h

theorem readable_word {s : String} (h : s ∈ sqlWords) : Readable IsSqlWord [.text s] :=
  readable_cons.mpr ⟨.word h, by simp, readable_nil⟩

/-- A part that goes on with a word and a part behind which a quote may stand. -/
theorem readable_join {ps qs : List Fragment} {s : String} (hps : Readable IsSqlWord ps) (hword : s ∈ sqlWords)
    (hopens : opens s = true)
    (hqs : Readable IsSqlWord qs) : Readable IsSqlWord (ps ++ .text s :: qs) :=
  hps.append_text (hqs.cons_text (.word hword) hopens)

/-- A part between two words. -/
theorem readable_between {ps : List Fragment} {s t : String} (hps : Readable IsSqlWord ps) (hs : s ∈ sqlWords)
    (hopens : opens s = true)
    (ht : t ∈ sqlWords) : Readable IsSqlWord (.text s :: (ps ++ [.text t])) :=
  (hps.append_text (readable_word ht)).cons_text (.word hs) hopens

theorem readable_joinPieces {s : String} (hword : s ∈ sqlWords) (hopens : opens s = true) {pss : List (List Fragment)}
    (h : ∀ ps ∈ pss, Readable IsSqlWord ps) : Readable IsSqlWord (joinPieces s pss) := by
  induction pss with
  | nil => exact readable_nil
  | cons ps pss ih =>
    obtain ⟨hps, hpss⟩ := List.forall_mem_cons.mp h
    cases pss with
    | nil => exact hps
    | cons qs pss => exact readable_join hps hword hopens (ih hpss)

theorem readable_constantJson (value : Json) : Readable IsSqlWord (constantJson T value) := by
  simp [constantJson]
  exact isWord_of_mem (by simp [sqlWords])

theorem readable_sqlJson (e : SqlJson) : Readable IsSqlWord (e.pieces T) := by
  induction e with
  | constant value => exact readable_constantJson value
  | count arg ih => exact readable_between ih (by simp [sqlWords]) (by decide) (by simp [sqlWords])
  | nodeJson i | edgeJson i | property a key | countStar | labels i | type i | properties a =>
    simp [SqlJson.pieces]
    and_intros
    all_goals first | exact isWord_of_mem (by simp [sqlWords]) | exact follows_literal (by decide)
  | id a =>
    cases a <;>
    · simp [SqlJson.pieces]
      exact ⟨isWord_of_mem (by simp [sqlWords]), isWord_of_mem (by simp [sqlWords])⟩

theorem readable_labelPieces (i : Nat) (name : String) : Readable IsSqlWord (labelPieces i name) := by
  simp [labelPieces]
  exact ⟨isWord_of_mem (by simp [sqlWords]), isWord_of_mem (by simp [sqlWords])⟩

theorem cmpSql_word (op : CmpOp) : (" " ++ cmpSql op ++ " ") ∈ sqlWords ∧ opens (" " ++ cmpSql op ++ " ") = true := by
  cases op <;> decide +kernel

/-- A part that is compared with a constant of the compiler. -/
theorem readable_compared {ps : List Fragment} {s t v : String} (hps : Readable IsSqlWord ps) (hs : s ∈ sqlWords)
    (hopens : opens s = true)
    (ht : t ∈ sqlWords) : Readable IsSqlWord (ps ++ [.text s, .literal v, .text t]) := by
  refine hps.append_text (readable_cons.mpr ⟨.word hs, fun q hq => ?_, ?_⟩)
  · exact follows_quoted hopens
  · simpa using isWord_of_mem ht

/-- Two parts in parentheses. -/
theorem readable_pair {ps qs : List Fragment} {s : String} (hps : Readable IsSqlWord ps) (hs : s ∈ sqlWords)
    (hopens : opens s = true)
    (hqs : Readable IsSqlWord qs) : Readable IsSqlWord (.text "(" :: (ps ++ .text s :: qs) ++ [.text ")"]) :=
  readable_between (readable_join hps hs hopens hqs) (by simp [sqlWords]) (by decide) (by simp [sqlWords])

theorem readable_sqlBoolean (b : SqlBoolean) : Readable IsSqlWord (b.pieces T) := by
  induction b with
  | compare left op right =>
    exact readable_pair (readable_sqlJson left) (cmpSql_word op).1 (cmpSql_word op).2 (readable_sqlJson right)
  | and left right ihl ihr => exact readable_pair ihl (by simp [sqlWords]) (by decide) ihr
  | or left right ihl ihr => exact readable_pair ihl (by simp [sqlWords]) (by decide) ihr
  | xor left right ihl ihr => exact readable_pair ihl (by simp [sqlWords]) (by decide) ihr
  | not inner ih => exact readable_between ih (by simp [sqlWords]) (by decide) (by simp [sqlWords])
  | isNull value =>
    have hvalue := readable_sqlJson (T := T) value
    simp only [SqlBoolean.pieces, List.cons_append, List.append_assoc]
    refine Readable.cons_text (.word (by simp [sqlWords])) (by decide) (readable_join hvalue (by simp [sqlWords]) (by decide) ?_)
    exact readable_compared hvalue (by simp [sqlWords]) (by decide) (by simp [sqlWords])
  | isNotNull value =>
    have hvalue := readable_sqlJson (T := T) value
    simp only [SqlBoolean.pieces, List.cons_append, List.append_assoc]
    refine Readable.cons_text (.word (by simp [sqlWords])) (by decide) (readable_join hvalue (by simp [sqlWords]) (by decide) ?_)
    exact readable_compared hvalue (by simp [sqlWords]) (by decide) (by simp [sqlWords])
  | hasLabel i labels =>
    refine readable_between (readable_joinPieces (by simp [sqlWords]) (by decide) fun ps hps => ?_) (by simp [sqlWords])
      (by decide) (by simp [sqlWords])
    obtain ⟨name, -, rfl⟩ := List.mem_map.mp hps
    exact readable_labelPieces i name
  | isTrue value =>
    exact readable_compared (readable_sqlJson value) (by simp [sqlWords]) (by decide) (by simp [sqlWords])

theorem readable_sqlPredicate (p : SqlPredicate) : Readable IsSqlWord (p.pieces T) := by
  cases p with
  | boolean b => exact readable_sqlBoolean b
  | label i name => exact readable_labelPieces i name
  | relTypes i types =>
    refine readable_cons.mpr ⟨isWord_alias _, by simp, readable_between ?_ (by simp [sqlWords]) (by decide) (by simp [sqlWords])⟩
    refine readable_joinPieces (by simp [sqlWords]) (by decide) fun ps hps => ?_
    obtain ⟨t, -, rfl⟩ := List.mem_map.mp hps
    simp
  | property a key value =>
    have hconstant : Readable IsSqlWord (.text " = " :: constantJson T value) :=
      (readable_constantJson value).cons_text (.word (by simp [sqlWords])) (by decide)
    simp only [SqlPredicate.pieces, readable_cons, List.head?_cons, Option.mem_def, Option.some.injEq, forall_eq', isWord_alias,
      follows_text, isWord_literal, true_and]
    exact ⟨isWord_of_mem (by simp [sqlWords]), follows_literal (by decide), readable_cons.mp hconstant⟩
  | sameNode | otherNode | sameEdge | otherEdge =>
    simp [SqlPredicate.pieces]
    exact ⟨isWord_of_mem (by simp [sqlWords]), isWord_of_mem (by simp [sqlWords])⟩

theorem readable_endPieces (edge node : Nat) {column : String} (h : "." ++ column ++ " = " ∈ sqlWords) :
    Readable IsSqlWord (endPieces edge column node) := by
  simp [endPieces]
  exact ⟨isWord_of_mem h, isWord_of_mem (by simp [sqlWords])⟩

theorem readable_nodePieces (node edge : Nat) {column : String} (h : "." ++ column ∈ sqlWords) :
    Readable IsSqlWord (nodePieces node edge column) := by
  simp [nodePieces]
  exact ⟨isWord_of_mem (by simp [sqlWords]), isWord_of_mem h⟩

theorem readable_fromItem (item : FromItem) (isFirst : Bool) : Readable IsSqlWord (item.pieces isFirst) := by
  have hjoin : ∀ {s : String} {a : SqlAlias} {ps : List Fragment}, s ∈ sqlWords → Readable IsSqlWord ps →
      Readable IsSqlWord (.text s :: a.piece :: .text " ON " :: ps) := by
    intro s a ps hs hps
    have hon := hps.cons_text (s := " ON ") (.word (by simp [sqlWords])) (by decide)
    exact readable_cons.mpr ⟨.word hs, by simp, readable_cons.mpr ⟨isWord_alias a, by simp, hon⟩⟩
  cases item with
  | first i => cases isFirst <;> simp [FromItem.pieces] <;> exact isWord_of_mem (by simp [sqlWords])
  | joinEdge i direction previous =>
    refine hjoin (by simp [sqlWords]) ?_
    cases direction with
    | out => exact readable_endPieces i previous (by simp [sqlWords])
    | in_ => exact readable_endPieces i previous (by simp [sqlWords])
    | both =>
      exact readable_pair (readable_endPieces i previous (by simp [sqlWords])) (by simp [sqlWords]) (by decide)
        (readable_endPieces i previous (by simp [sqlWords]))
  | joinNode i direction edge previous =>
    refine hjoin (by simp [sqlWords]) ?_
    cases direction with
    | out => exact readable_nodePieces i edge (by simp [sqlWords])
    | in_ => exact readable_nodePieces i edge (by simp [sqlWords])
    | both =>
      have hsides : ∀ {column column' : String}, "." ++ column ++ " = " ∈ sqlWords → "." ++ column' ∈ sqlWords →
          Readable IsSqlWord (endPieces edge column previous ++ .text " AND " :: nodePieces i edge column') :=
        fun hcolumn hcolumn' => readable_join (readable_endPieces edge previous hcolumn) (by simp [sqlWords]) (by decide)
          (readable_nodePieces i edge hcolumn')
      have houter := readable_join (s := ") OR (")
        (@hsides "source_node_id" "target_node_id" (by simp [sqlWords]) (by simp [sqlWords])) (by simp [sqlWords]) (by decide)
        (@hsides "target_node_id" "source_node_id" (by simp [sqlWords]) (by simp [sqlWords]))
      have hall := readable_between (s := "((") (t := "))") houter (by simp [sqlWords]) (by decide) (by simp [sqlWords])
      simpa using hall

theorem readable_fromPieces (items : List FromItem) : Readable IsSqlWord (fromPieces items) := by
  have hrest : ∀ items : List FromItem, Readable IsSqlWord (items.flatMap (FromItem.pieces false)) ∧
      ∀ q ∈ (items.flatMap (FromItem.pieces false)).head?, q.isQuoted = false := by
    intro items
    induction items with
    | nil => exact ⟨readable_nil, by simp⟩
    | cons item items ih =>
      rw [List.flatMap_cons]
      refine ⟨(readable_fromItem item false).append ih.1 ih.2, fun q hq => ?_⟩
      cases item <;> obtain rfl := Option.some.inj hq <;> rfl
  cases items with
  | nil => exact readable_nil
  | cons item items => exact (readable_fromItem item true).append (hrest items).1 (hrest items).2

/-- A clause that may be missing. -/
theorem Readable.clause {ps qs : List Fragment} {s : String} (h : Readable IsSqlWord ps) (isMissing : Bool) (hword : s ∈ sqlWords)
    (hopens : opens s = true) (hqs : Readable IsSqlWord qs) :
    Readable IsSqlWord (ps ++ if isMissing then [] else .text s :: qs) := by
  cases isMissing with
  | true => simpa using h
  | false => exact readable_join h hword hopens hqs

theorem Readable.number {ps : List Fragment} (h : Readable IsSqlWord ps) {f : Int64 → String} (hword : ∀ n, IsSqlWord (f n))
    (n : Option Int64) : Readable IsSqlWord (ps ++ (n.map fun n => Fragment.text (f n)).toList) := by
  cases n with
  | none => simpa using h
  | some n => exact h.append_text (readable_cons.mpr ⟨hword n, by simp, readable_nil⟩)

theorem readable_itemPieces (item : SqlJson × String) : Readable IsSqlWord (itemPieces T item) := by
  refine Readable.cons_text (.word (by simp [sqlWords])) (by decide) ((readable_sqlJson item.1).append_text ?_)
  exact readable_cons.mpr ⟨.word (by simp [sqlWords]), fun _ _ => follows_quoted (by decide), by simp [Fragment.IsWord]⟩

theorem readable_orderPieces (item : SqlJson × Bool) : Readable IsSqlWord (orderPieces T item) := by
  refine (readable_sqlJson item.1).append_text (readable_word ?_)
  cases item.2 <;> decide +kernel

theorem readable_sqlSelect (s : SqlSelect) : Readable IsSqlWord (s.pieces T) := by
  have hmap : ∀ {α : Type} (f : α → List Fragment) (as : List α) {w : String}, (∀ a, Readable IsSqlWord (f a)) → w ∈ sqlWords →
      opens w = true → Readable IsSqlWord (joinPieces w (as.map f)) := by
    intro α f as w hf hw hopens
    refine readable_joinPieces hw hopens fun ps hps => ?_
    obtain ⟨a, -, rfl⟩ := List.mem_map.mp hps
    exact hf a
  have hitems := hmap (itemPieces T) s.items (w := ", ") readable_itemPieces (by simp [sqlWords]) (by decide)
  have hpredicates := hmap (SqlPredicate.pieces T) s.predicates (w := " AND ") readable_sqlPredicate (by simp [sqlWords])
    (by decide)
  have horder := hmap (orderPieces T) s.orderBy (w := ", ") readable_orderPieces (by simp [sqlWords]) (by decide)
  have hfrom := readable_join hitems (s := " FROM ") (by simp [sqlWords]) (by decide) (readable_fromPieces s.from_)
  refine Readable.number (Readable.number (Readable.clause (Readable.clause ?_ _ (by simp [sqlWords]) (by decide) hpredicates)
    _ (by simp [sqlWords]) (by decide) horder) (fun n => .offset n.toInt) s.skip) (fun n => .limit n.toInt) s.limit
  cases s.distinct <;> exact hfrom.cons_text (.word (by simp [sqlWords])) (by decide)

theorem readable_sqlQuery (q : SqlQuery) : Readable IsSqlWord (q.pieces T) := by
  induction q with
  | select s => exact readable_sqlSelect s
  | union left all right ih =>
    cases all
    · exact readable_between (readable_join (readable_sqlSelect left) (by simp [sqlWords]) (by decide) ih) (by simp [sqlWords])
        (by decide) (by simp [sqlWords])
    · exact readable_between (readable_join (readable_sqlSelect left) (by simp [sqlWords]) (by decide) ih) (by simp [sqlWords])
        (by decide) (by simp [sqlWords])

end SqlTextAux

open SqlTextAux

end PgEddy
