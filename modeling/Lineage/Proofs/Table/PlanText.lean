import Lineage.Proofs.Decimal.Digits
import Lineage.Proofs.Text.Bytes
import Lineage.Table.Plan
/-
  The text of a plan over a table in memory.

  The text begins with the first name between quotes, and what comes behind that name depends on
  the other names alone (`toList_describe`).  Put the first name behind the whole text once more:
  then the two together tell the first name and what is behind it in the text, whatever the names
  are, as long as the other names make no great difference in length (`same_first`).  For all such
  texts have the same ending, and that cannot be shifted against itself by less than its length,
  because it begins with its only blank (`ending_not_shifted`).

  One more name makes no great difference, if it is short itself (`length_textBehind_concat`).  And
  the text tells how many names there are (`length_of_textBehind`).
-/

namespace Lineage.Plan

/-- A name as it stands in the text of a plan. -/
def quoted (name : String) : String := "\"" ++ name ++ "\""

/-- What the text of a plan shows of the names behind the first: three at most. -/
def shownOthers (others : List String) : List String :=
  if 3 < others.length then (others.map quoted).take 3 ++ ["..."] else others.map quoted

/-- The end of the text of a plan. -/
def ending : List Char := " COLUMNS".toList

/-- The text of a plan behind the first name. -/
def textBehind (others : List String) : List Char :=
  '"' :: ((shownOthers others).flatMap fun s => ", ".toList ++ s.toList) ++ "]; PROJECT *".toList ++
    '/' :: Nat.toDigits 10 (others.length + 1) ++ ending

theorem toList_intercalate_cons (s : String) : ∀ rest : List String,
    (String.intercalate ", " (s :: rest)).toList =
      s.toList ++ rest.flatMap fun r => ", ".toList ++ r.toList
  | [] => by rw [String.intercalate_singleton, List.flatMap_nil, List.append_nil]
  | r :: rest => by
    rw [String.intercalate_cons_cons, String.toList_append, String.toList_append,
      toList_intercalate_cons r rest, List.flatMap_cons, List.append_assoc, List.append_assoc]

/-- What is shown of all names: the first one, and what is shown of the others. -/
theorem shown_cons (first : String) (others : List String) :
    (if 4 < ((first :: others).map quoted).length then
      ((first :: others).map quoted).take 4 ++ ["..."] else (first :: others).map quoted) =
      quoted first :: shownOthers others := by
  rw [List.length_map, List.length_cons, shownOthers, List.map_cons]
  by_cases hmany : 3 < others.length
  · rw [if_pos hmany, if_pos (Nat.succ_lt_succ hmany)]
    rfl
  · rw [if_neg hmany, if_neg fun h => hmany (Nat.lt_of_succ_lt_succ h)]

theorem describe_cons {t : Table} {c : String × Dtype} {rest : FrameSchema}
    (h : t.columns = c :: rest) :
    Origin.describe (.ofTable t) (.memory t) =
      "DF " ++
        ("[" ++ String.intercalate ", " (quoted c.1 :: shownOthers (rest.map Prod.fst)) ++ "]") ++
        ("; PROJECT */" ++ toString (rest.length + 1) ++ " COLUMNS") := by
  have hnames : (t.columns.map fun c => quoted c.1) = (c.1 :: rest.map Prod.fst).map quoted := by
    rw [h, List.map_cons, List.map_cons, List.map_map]
    rfl
  have hlength : ((c.1 :: rest.map Prod.fst).map quoted).length = rest.length + 1 := by
    rw [List.length_map, List.length_cons, List.length_map]
  rw [← shown_cons, ← hlength, ← hnames]
  rfl

theorem toList_quoted (name : String) : (quoted name).toList = '"' :: (name.toList ++ ['"']) := by
  rw [quoted, String.toList_append, String.toList_append]
  rfl

theorem toList_count (n : Nat) : ("; PROJECT */" ++ toString n ++ " COLUMNS").toList =
    "; PROJECT *".toList ++ '/' :: Nat.toDigits 10 n ++ ending := by
  rw [String.toList_append, String.toList_append, Decimal.toList_toString]
  rfl

/-- The text of a plan over a table: the first name stands between quotes behind four characters. -/
theorem toList_describe {t : Table} {c : String × Dtype} {rest : FrameSchema}
    (h : t.columns = c :: rest) :
    (Origin.describe (.ofTable t) (.memory t)).toList =
      "DF [\"".toList ++ (c.1.toList ++ textBehind (rest.map Prod.fst)) := by
  rw [describe_cons h, String.toList_append, String.toList_append, String.toList_append,
    String.toList_append, toList_intercalate_cons, toList_quoted, toList_count, textBehind,
    List.length_map]
  generalize (shownOthers (rest.map Prod.fst)).flatMap _ = others
  simp only [List.append_assoc, List.cons_append]
  rfl

/-- There are no zeros in the text behind the first name, if there are none in the other names. -/
theorem zero_not_mem_textBehind {others : List String} (h : ∀ s ∈ others, '\x00' ∉ s.toList) :
    '\x00' ∉ textBehind others := by
  have hdigit : Char.isDigit '\x00' = false := by decide
  have hquoted : ∀ s ∈ others.map quoted, '\x00' ∉ s.toList := by
    intro s hs
    obtain ⟨name, hname, rfl⟩ := List.mem_map.mp hs
    rw [toList_quoted, List.mem_cons, List.mem_append, not_or, not_or]
    exact ⟨by decide, h name hname, by decide⟩
  have hshown : ∀ s ∈ shownOthers others, '\x00' ∉ s.toList := by
    intro s hs
    rw [shownOthers] at hs
    split at hs
    · rcases List.mem_append.mp hs with hs | hs
      · exact hquoted s (List.mem_of_mem_take hs)
      · obtain rfl := List.mem_singleton.mp hs
        decide
    · exact hquoted s hs
  have hlist : '\x00' ∉ (shownOthers others).flatMap fun s => ", ".toList ++ s.toList := by
    intro hmem
    obtain ⟨s, hs, hzero⟩ := List.mem_flatMap.mp hmem
    rcases List.mem_append.mp hzero with hzero | hzero
    · exact absurd hzero (by decide)
    · exact hshown s hs hzero
  simp only [textBehind, List.mem_append, List.mem_cons, not_or]
  exact ⟨⟨⟨⟨by decide, hlist⟩, by decide⟩, by decide, Decimal.not_mem_toDigits hdigit _⟩, by decide⟩

/-! ## What the text tells -/

/-- The text behind the first name has the ending. -/
theorem textBehind_ends (others : List String) : ∃ front, textBehind others = front ++ ending :=
  ⟨_, rfl⟩

/-- The text tells how many names there are. -/
theorem length_of_textBehind {others more : List String} (h : textBehind others = textBehind more) :
    others.length = more.length := by
  have hslash : Char.isDigit '/' = false := by decide
  obtain ⟨-, hdigits⟩ := Text.split_at_last (Decimal.not_mem_toDigits hslash _)
    (Decimal.not_mem_toDigits hslash _) (List.append_cancel_right h)
  exact Nat.succ.inj (Decimal.toDigits_injective hdigits)

/-- The ending is not found again a little further to the left. -/
theorem ending_not_shifted {front back z : List Char} (hz : z.length < ending.length)
    (h : front ++ ending ++ z = back ++ ending) : z = [] := by
  have hends : ending = ' ' :: "COLUMNS".toList := rfl
  have hblank : ' ' ∉ "COLUMNS".toList := by decide
  -- Both are ends of the whole, and `z` is not the longer one.
  have hsuffix : z <:+ "COLUMNS".toList := by
    refine List.suffix_of_suffix_length_le ⟨front ++ ending, rfl⟩ ?_ (Nat.le_of_lt_succ hz)
    rw [h, hends, ← List.singleton_append, ← List.append_assoc]
    exact ⟨back ++ [' '], rfl⟩
  have hblank' : ' ' ∉ "COLUMNS".toList ++ z := by
    rw [List.mem_append, not_or]
    exact ⟨hblank, fun hmem => hblank (hsuffix.subset hmem)⟩
  rw [hends, List.append_assoc, List.cons_append] at h
  obtain ⟨-, hsame⟩ := Text.split_at_last hblank' hblank h
  exact List.append_cancel_left (hsame.trans (List.append_nil _).symm)

/-- **The first name, put once more behind the text, is told by the two together.** -/
theorem same_first {name other : List Char} {rest more : List String}
    (hle : (textBehind rest).length ≤ (textBehind more).length)
    (hlt : (textBehind more).length < (textBehind rest).length + 16)
    (h : name ++ textBehind rest ++ name = other ++ textBehind more ++ other) :
    name = other ∧ textBehind rest = textBehind more := by
  have hlength := congrArg List.length h
  simp only [List.length_append] at hlength
  -- Both names end the whole; `other` is not the longer one, as no shorter text is in front of it.
  have hsuffix : other <:+ name := by
    refine List.suffix_of_suffix_length_le ⟨other ++ textBehind more, rfl⟩ ?_ (by omega)
    rw [← h]
    exact ⟨name ++ textBehind rest, rfl⟩
  obtain ⟨z, rfl⟩ := hsuffix
  rw [List.length_append] at hlength
  obtain ⟨front, hfront⟩ := textBehind_ends rest
  obtain ⟨back, hback⟩ := textBehind_ends more
  have hshift : z ++ other ++ front ++ ending ++ z = other ++ back ++ ending := by
    rw [← List.append_assoc] at h
    have hcancel := List.append_cancel_right h
    rw [hfront, hback] at hcancel
    simp only [List.append_assoc] at hcancel ⊢
    exact hcancel
  have hshort : z.length < ending.length := by
    show z.length < 8
    omega
  have hz : z = [] := ending_not_shifted hshort hshift
  rw [hz, List.nil_append] at h ⊢
  exact ⟨rfl, List.append_cancel_left (List.append_cancel_right h)⟩

/-! ## One more name -/

/-- The next number has no fewer digits, and at most one more. -/
theorem length_toDigits_succ (n : Nat) :
    (Nat.toDigits 10 n).length ≤ (Nat.toDigits 10 (n + 1)).length ∧
      (Nat.toDigits 10 (n + 1)).length ≤ (Nat.toDigits 10 n).length + 1 := by
  have hbase : 1 < 10 := by decide
  have hsmall := (Nat.length_toDigits_le_iff (n := n) hbase Nat.length_toDigits_pos).mp
    (Nat.le_refl _)
  have hgreat := (Nat.length_toDigits_le_iff (n := n + 1) hbase Nat.length_toDigits_pos).mp
    (Nat.le_refl _)
  constructor
  · exact (Nat.length_toDigits_le_iff hbase Nat.length_toDigits_pos).mpr (by omega)
  · refine (Nat.length_toDigits_le_iff hbase (Nat.succ_pos _)).mpr ?_
    rw [Nat.pow_succ]
    omega

/-- What is shown with one more name: the same, or a little more. -/
theorem shownOthers_concat (others : List String) (x : String) :
    shownOthers (others ++ [x]) = shownOthers others ∨
      ∃ s, shownOthers (others ++ [x]) = shownOthers others ++ [s] ∧
        s.toList.length ≤ x.toList.length + 3 := by
  have hlength : (others ++ [x]).length = others.length + 1 := List.length_append
  have hquoted : (quoted x).toList.length = x.toList.length + 2 := by
    rw [toList_quoted, List.length_cons, List.length_append]
    rfl
  simp only [shownOthers, hlength, List.map_append, List.map_singleton]
  rcases Nat.lt_trichotomy others.length 3 with hfew | hthree | hmany
  · right
    rw [if_neg (by omega), if_neg (by omega)]
    exact ⟨quoted x, rfl, by omega⟩
  · -- From here on the names are abridged.
    right
    have hmapped : (others.map quoted).length = 3 := by rw [List.length_map, hthree]
    rw [if_pos (by omega), if_neg (by omega), List.take_append_of_le_length (by omega),
      List.take_of_length_le (by omega)]
    exact ⟨"...", rfl, Nat.le_add_left 3 _⟩
  · left
    have hmapped : 3 ≤ (others.map quoted).length := by
      rw [List.length_map]
      omega
    rw [if_pos (by omega), if_pos hmany, List.take_append_of_le_length hmapped]

/-- One more name makes the text no shorter, and not much longer than by the name. -/
theorem length_textBehind_concat (others : List String) (x : String) :
    (textBehind others).length ≤ (textBehind (others ++ [x])).length ∧
      (textBehind (others ++ [x])).length ≤ (textBehind others).length + x.toList.length + 6 := by
  obtain ⟨hdigits, hdigits'⟩ := length_toDigits_succ (others.length + 1)
  have hlength : (others ++ [x]).length = others.length + 1 := List.length_append
  rcases shownOthers_concat others x with hshown | ⟨s, hshown, hs⟩
  · simp only [textBehind, hlength, hshown, List.length_append, List.length_cons]
    omega
  · have hcomma : ", ".toList.length = 2 := rfl
    simp only [textBehind, hlength, hshown, List.length_append, List.length_cons,
      List.flatMap_append, List.flatMap_singleton, hcomma]
    omega

end Lineage.Plan
