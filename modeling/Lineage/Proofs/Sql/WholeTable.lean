import Lineage.Proofs.Table.Whole
import Lineage.Sql.Meaning
import Mathlib.Data.List.Basic
/-
  Queries for a whole table.

  Any table can be asked for by its name: between quotes, with the quotes in it written twice, or as
  it stands if it is a word (`Writes`).  A quoted name is read back up to the closing quote
  (`Token.quotedPart_doubled`), a word up to the first character that is not of a word
  (`Token.scan_word`).  So the query has four tokens (`Token.ofText_wholeTable`), and the statement
  that they make selects all columns of that table, all rows and nothing else
  (`ofText_eq_wholeTable`).
-/

namespace Lineage.Sql

/-! ## Names as they are written -/

/-- A text with every double quote written twice. -/
def doubled : List Char → List Char
  | [] => []
  | c :: rest => if c = '"' then '"' :: '"' :: doubled rest else c :: doubled rest

/-- A name between double quotes. -/
def quotedName (name : String) : String := String.ofList ('"' :: (doubled name.toList ++ ['"']))

/-- The name is a word. -/
def IsWord (name : String) : Prop :=
  ∃ c rest, name.toList = c :: rest ∧ Token.startsWord c = true ∧
    ∀ d ∈ rest, Token.continuesWord d = true

/-- A way to write a name in a query. -/
inductive Writes (name : String) : String → Prop
  | quoted : Writes name (quotedName name)
  | bare (h : IsWord name) : Writes name name

/-- The query for a whole table, whose name is written in some way. -/
def wholeTable (written : String) : String := "SELECT * FROM " ++ written

/-! ## Tokens -/

namespace Token

theorem quotedPart_cons {quote c : Char} (h : c ≠ quote) {cs : List Char} (hcs : cs ≠ []) :
    quotedPart quote (c :: cs) = (quotedPart quote cs).map fun (s, r) => (c :: s, r) := by
  obtain ⟨d, rest, rfl⟩ := List.exists_cons_of_ne_nil hcs
  rw [quotedPart, if_neg h]

/-- **A quoted name is read back.** -/
theorem quotedPart_doubled : ∀ cs : List Char, quotedPart '"' (doubled cs ++ ['"']) = some (cs, [])
  | [] => by rfl
  | c :: cs => by
    have hrest := quotedPart_doubled cs
    by_cases hc : c = '"'
    · subst hc
      show quotedPart '"' ('"' :: '"' :: (doubled cs ++ ['"'])) = _
      rw [quotedPart, if_pos rfl, if_pos rfl, hrest]
      rfl
    · have hmore : doubled cs ++ ['"'] ≠ [] := List.append_ne_nil_of_right_ne_nil _ nofun
      rw [doubled, if_neg hc, List.cons_append, quotedPart_cons hc hmore, hrest]
      rfl

theorem continuesWord_of_startsWord {c : Char} (h : startsWord c = true) :
    continuesWord c = true := by
  rw [continuesWord, h]
  rfl

/-- A word begins with none of the characters that mean something else. -/
theorem plain_of_startsWord {c : Char} (h : startsWord c = true) :
    c.isWhitespace = false ∧ c ≠ '-' ∧ c ≠ '/' := by
  have hne : ∀ d, startsWord d = false → c ≠ d := by
    rintro d hd rfl
    rw [h] at hd
    cases hd
  refine ⟨?_, hne '-' (by decide), hne '/' (by decide)⟩
  have hspace := hne ' ' (by decide)
  have htab := hne '\t' (by decide)
  have hreturn := hne '\r' (by decide)
  have hnewline := hne '\n' (by decide)
  simp [Char.isWhitespace, hspace, htab, hreturn, hnewline]

/-- **A word is read up to the first character that is not of a word.** -/
theorem scan_word {c : Char} {word rest : List Char} (hc : startsWord c = true)
    (hword : ∀ d ∈ word, continuesWord d = true) (hrest : rest.takeWhile continuesWord = [])
    (n : Nat) : scan (n + 1) (c :: (word ++ rest)) =
      (scan n rest).map (.word (String.ofList (c :: word)) :: ·) := by
  obtain ⟨hspace, hdash, hslash⟩ := plain_of_startsWord hc
  have hall : ∀ d ∈ c :: word, continuesWord d = true := by
    intro d hd
    rcases List.mem_cons.mp hd with rfl | hd
    · exact continuesWord_of_startsWord hc
    · exact hword d hd
  have htake : (c :: (word ++ rest)).takeWhile continuesWord = c :: word := by
    rw [← List.cons_append, List.takeWhile_append_of_pos hall, hrest, List.append_nil]
  have hdrop : (c :: (word ++ rest)).drop (c :: word).length = rest := by
    rw [← List.cons_append, List.drop_left]
  rw [scan]
  simp only [hspace, hdash, hslash, decide_false, Bool.false_and, Bool.false_eq_true, if_false, hc,
    if_true, htake, hdrop]

theorem scan_nil : ∀ n : Nat, scan n [] = some []
  | 0 => rfl
  | _ + 1 => rfl

theorem scan_space (n : Nat) (rest : List Char) : scan (n + 1) (' ' :: rest) = scan n rest := by
  rw [scan]
  exact if_pos (by decide)

theorem signOf_star (rest : List Char) : signOf ('*' :: ' ' :: rest) = some "*" := by
  have hpair : pairs.contains (String.ofList ['*', ' ']) = false := by decide +kernel
  have hsign : "<>=+-*/%(),;.".contains '*' = true := by simp
  show (if pairs.contains (String.ofList ['*', ' ']) then some (String.ofList ['*', ' '])
    else if "<>=+-*/%(),;.".contains '*' then some (String.singleton '*') else none) = _
  rw [hpair, hsign]
  rfl

theorem scan_star (n : Nat) (rest : List Char) :
    scan (n + 1) ('*' :: ' ' :: rest) = (scan n (' ' :: rest)).map (.sign "*" :: ·) := by
  have hstart : startsWord '*' = false := by decide
  have hspace : '*'.isWhitespace = false := by decide
  have hdigit : '*'.isDigit = false := by decide
  have hlength : "*".length = 1 := by decide
  rw [scan]
  simp only [hspace, hstart, hdigit, signOf_star, hlength, Char.reduceEq, decide_false,
    Bool.false_and, Bool.or_false, Bool.false_eq_true, if_false, Option.bind_eq_bind,
    Option.bind_some, List.drop_succ_cons, List.drop_zero]
  cases scan n (' ' :: rest) with
  | none => rfl
  | some ts => rfl

/-- A quoted name is one token. -/
theorem scan_quotedName (n : Nat) (cs : List Char) :
    scan (n + 1) ('"' :: (doubled cs ++ ['"'])) = some [name (String.ofList cs)] := by
  have hstart : startsWord '"' = false := by decide
  have hspace : '"'.isWhitespace = false := by decide
  have hdigit : '"'.isDigit = false := by decide
  rw [scan]
  simp only [hspace, hstart, hdigit, Char.reduceEq, decide_false, decide_true,
    Bool.false_and, Bool.or_false, Bool.false_eq_true, if_false, if_true, quotedPart_doubled,
    Option.bind_eq_bind, Option.bind_some, scan_nil]
  rfl

theorem takeWhile_space (rest : List Char) : (' ' :: rest).takeWhile continuesWord = [] :=
  List.takeWhile_cons_of_neg (by decide)

/-- The tokens in front of the name of the table. -/
theorem scan_front (n : Nat) (cs : List Char) :
    scan (n + 6) ("SELECT * FROM ".toList ++ cs) =
      (scan n cs).map fun ts => word "SELECT" :: sign "*" :: word "FROM" :: ts := by
  have hselect : String.ofList ['S', 'E', 'L', 'E', 'C', 'T'] = "SELECT" := by decide +kernel
  have hfrom : String.ofList ['F', 'R', 'O', 'M'] = "FROM" := by decide +kernel
  show scan (n + 5 + 1) ('S' :: (['E', 'L', 'E', 'C', 'T'] ++
    ' ' :: '*' :: ' ' :: 'F' :: (['R', 'O', 'M'] ++ ' ' :: cs))) = _
  have hs : ∀ d ∈ ['E', 'L', 'E', 'C', 'T'], continuesWord d = true :=
    List.all_eq_true.mp (by decide)
  have hf : ∀ d ∈ ['R', 'O', 'M'], continuesWord d = true := List.all_eq_true.mp (by decide)
  rw [scan_word (by decide) hs (takeWhile_space _), scan_space, scan_star, scan_space,
    scan_word (by decide) hf (takeWhile_space _), scan_space, hselect, hfrom]
  cases scan n cs with
  | none => rfl
  | some ts => rfl

/-- The token of a name that is written in some way. -/
theorem scan_writes {n w : String} (h : Writes n w) (k : Nat) :
    scan (k + 1) w.toList = some [name n] ∨ scan (k + 1) w.toList = some [word n] := by
  cases h with
  | quoted =>
    rw [quotedName, String.toList_ofList, scan_quotedName, String.ofList_toList]
    exact .inl rfl
  | bare hword =>
    obtain ⟨c, rest, hcs, hc, hrest⟩ := hword
    have hscan := scan_word hc hrest List.takeWhile_nil k
    rw [List.append_nil, scan_nil, ← hcs, String.ofList_toList] at hscan
    exact .inr hscan

/-- **The query for a whole table has four tokens.** -/
theorem ofText_wholeTable {n w : String} (h : Writes n w) :
    ofText (wholeTable w) = some [word "SELECT", sign "*", word "FROM", name n] ∨
      ofText (wholeTable w) = some [word "SELECT", sign "*", word "FROM", word n] := by
  have hchars : (wholeTable w).toList = "SELECT * FROM ".toList ++ w.toList :=
    String.toList_append ..
  have hlength : (wholeTable w).toList.length = w.toList.length + 7 + 1 + 6 := by
    rw [hchars, List.length_append]
    have hfront : "SELECT * FROM ".toList.length = 14 := by decide +kernel
    omega
  have hscan : ofText (wholeTable w) = (scan (w.toList.length + 7 + 1) w.toList).map fun ts =>
      word "SELECT" :: sign "*" :: word "FROM" :: ts := by
    rw [ofText, hlength, hchars, scan_front]
  rw [hscan]
  rcases scan_writes h (w.toList.length + 7) with hname | hword
  · exact .inl (by rw [hname]; rfl)
  · exact .inr (by rw [hword]; rfl)

end Token

/-! ## Statements -/

/-- The statement that selects a whole table. -/
def Statement.wholeTable (name : String) : Statement :=
  ⟨false, [.all none], some ⟨name, none⟩, none, [], none, none⟩

theorem keyword_word {k w : String} (rest : List Token) :
    keyword k (.word w :: rest) = if w.toUpper = k then some rest else none := by
  unfold keyword Token.isKeyword
  simp only [decide_eq_true_eq]

theorem keyword_sign (k s : String) (rest : List Token) : keyword k (.sign s :: rest) = none := rfl

/-- A name at the end is a table without a name of its own. -/
theorem place_single {n : String} {t : Token} (ht : t = .name n ∨ t = .word n) :
    place [t] = some (⟨n, none⟩, []) := by
  rcases ht with rfl | rfl <;> rfl

/-- Four such tokens make the statement for the table, and nothing is left of them. -/
theorem statement_wholeTable (fuel : Nat) {n : String} {t : Token}
    (ht : t = .name n ∨ t = .word n) :
    statement fuel [.word "SELECT", .sign "*", .word "FROM", t] =
      some (.wholeTable n, []) := by
  have hselect : "SELECT".toUpper = "SELECT" := by decide +kernel
  have hfrom : "FROM".toUpper = "FROM" := by decide +kernel
  have hitems : separated (item fuel) 3 [.sign "*", .word "FROM", t] =
      some ([.all none], [.word "FROM", t]) := rfl
  have hplace : optional (keyword "FROM") place [.word "FROM", t] = some (some ⟨n, none⟩, []) := by
    rw [optional, keyword_word, hfrom, if_pos rfl]
    simp only [place_single ht, Option.map_some]
  unfold statement
  simp only [keyword_word, hselect, if_true, Option.bind_eq_bind, Option.bind_some, keyword_sign,
    Option.getD_none, List.length_cons, List.length_nil, hitems, hplace]
  rfl

/-- **The query for a whole table is read as that.** -/
theorem ofText_eq_wholeTable {n w : String} (h : Writes n w) :
    Statement.ofText (wholeTable w) = some (.wholeTable n) := by
  obtain ⟨t, ht, htokens⟩ : ∃ t, (t = Token.name n ∨ t = .word n) ∧
      Token.ofText (wholeTable w) = some [.word "SELECT", .sign "*", .word "FROM", t] := by
    rcases Token.ofText_wholeTable h with hname | hword
    · exact ⟨_, .inl rfl, hname⟩
    · exact ⟨_, .inr rfl, hword⟩
  have hdrop : [.word "SELECT", .sign "*", .word "FROM", t].dropWhile (· == Token.sign ";") =
      [.word "SELECT", .sign "*", .word "FROM", t] := rfl
  unfold Statement.ofText
  simp only [htokens, Option.bind_eq_bind, Option.bind_some, hdrop, statement_wholeTable _ ht]
  rfl

/-! ## Plans -/

/-- Columns are selected in one step. -/
theorem selecting_columns (columns : FrameSchema) :
    Statement.selecting (columns.map fun c => Output.column c.1) = [.whole columns] := by
  cases columns with
  | nil => rfl
  | cons c rest => rfl

/-- **The plan of the query is the plan of the table with all columns selected.** -/
theorem Statement.plan_wholeTable (n : String) (names : List String) (columns : FrameSchema)
    (p : Plan) : (wholeTable n).plan names columns p = .ok (p.andThen (.whole columns)) := by
  have houtputs : [columns.map fun c => Output.column c.1].flatten =
      columns.map fun c => Output.column c.1 := List.append_nil _
  have hsteps : p.steps ++ [Step.whole columns] ++ [] ++ [] = p.steps ++ [Step.whole columns] := by
    rw [List.append_nil, List.append_nil]
  show ([columns.map fun c => Output.column c.1].flatten.mapM (Output.field columns) >>= fun _ =>
    Except.ok (Plan.mk p.origin (p.steps ++
      selecting [columns.map fun c => Output.column c.1].flatten ++ [] ++ []))) = _
  rw [houtputs, Step.mapM_field_column, selecting_columns, hsteps]
  rfl

end Lineage.Sql
