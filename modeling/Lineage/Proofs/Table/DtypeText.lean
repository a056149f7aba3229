import Lineage.Proofs.Decimal.Digits
import Lineage.Proofs.Text.Bytes
import Lineage.Table.Dtype
/-
  What the name of a type tells.

  The name of a type tells everything about it, but of a record only how many fields it has: two
  types have the same name exactly if they have the same outline, in which the fields of records
  have lost their names and types (`text_eq_iff`).

  The names of the simple types are found again in a list of them all.  Every other name begins
  with letters that none of those begins with, and goes on in brackets: a list and a record with
  what is in them, a decimal with two numbers, a moment with two letters for its unit and then its
  time zone, if it has one.  Only arrays take thought, because an array of arrays
  is named as one array of several widths; its name is taken apart from behind, where the widths end
  at the first blank or at the first opening bracket.
-/

namespace Lineage.Dtype

/-- The type without what its name does not tell: the names and types of the fields of records. -/
def outline : Dtype → Dtype
  | list item => .list item.outline
  | array item width => .array item.outline width
  | record fields => .record (fields.map fun _ => ("", .null))
  | d => d

theorem parts_outline (d : Dtype) : d.outline.parts = d.parts := by
  cases d with
  | list item =>
    show ("list[" ++ arrayText item.outline.parts.1 item.outline.parts.2 ++ "]", []) = _
    rw [parts_outline item]
    rfl
  | array item width =>
    show (item.outline.parts.1, width :: item.outline.parts.2) = _
    rw [parts_outline item]
    rfl
  | record fields =>
    have hcount : (fields.map fun _ => ("", Dtype.null)).length = fields.length := List.length_map _
    rw [outline, parts, parts, hcount]
  | _ => rfl

/-- The name of a type is that of its outline. -/
theorem text_outline (d : Dtype) : d.outline.text = d.text := by
  rw [text, parts_outline]
  rfl

/-! ## Widths of arrays -/

/-- The widths of an array as they stand in its name. -/
def widthsText : List Nat → List Char
  | [n] => Nat.toDigits 10 n
  | ns => '(' :: ([',', ' '].intercalate (ns.map (Nat.toDigits 10)) ++ [')'])

/-- The name of an array: what is inside, a comma and a blank, and the widths. -/
theorem toList_arrayText (inside : String) {widths : List Nat} (h : widths ≠ []) :
    (arrayText inside widths).toList =
      "array[".toList ++ (inside.toList ++ [',']) ++ ' ' :: (widthsText widths ++ [']']) := by
  match widths, h with
  | [n], _ =>
    show ("array[" ++ inside ++ (", " ++ toString n ++ "]")).toList = _
    simp only [String.toList_append, Decimal.toList_toString, widthsText, List.append_assoc]
    rfl
  | n :: m :: rest, _ =>
    have hdigits : (n :: m :: rest).map (String.toList ∘ toString) =
        (n :: m :: rest).map (Nat.toDigits 10) :=
      List.map_congr_left fun k _ => Decimal.toList_toString k
    show ("array[" ++ inside ++ ", (" ++
      String.intercalate ", " ((n :: m :: rest).map toString) ++ ")]").toList = _
    simp only [String.toList_append, String.toList_intercalate, List.map_map, hdigits, widthsText,
      List.cons_append, List.append_assoc]
    rfl

/-- Several widths, each with the comma behind it. -/
theorem intercalate_append : ∀ {widths : List Nat}, widths ≠ [] →
    [',', ' '].intercalate (widths.map (Nat.toDigits 10)) ++ [',', ' '] =
      widths.flatMap fun n => Nat.toDigits 10 n ++ [',', ' ']
  | [n], _ => by
    rw [List.map_singleton, List.intercalate_singleton, List.flatMap_singleton]
  | n :: m :: rest, _ => by
    have hrest := intercalate_append (List.cons_ne_nil m rest)
    rw [List.map_cons] at hrest
    rw [List.map_cons, List.map_cons, List.intercalate_cons_cons, List.flatMap_cons, ← hrest]
    simp only [List.append_assoc]

/-- Widths are told apart by the commas between them. -/
theorem widths_injective : ∀ {ns ms : List Nat},
    (ns.flatMap fun n => Nat.toDigits 10 n ++ [',', ' ']) =
      (ms.flatMap fun m => Nat.toDigits 10 m ++ [',', ' ']) → ns = ms
  | [], [], _ => rfl
  | [], m :: ms, h => by
    have hlength := congrArg List.length h
    simp only [List.flatMap_cons, List.length_append, List.flatMap_nil, List.length_nil,
      List.length_cons] at hlength
    omega
  | n :: ns, [], h => by
    have hlength := congrArg List.length h
    simp only [List.flatMap_cons, List.length_append, List.flatMap_nil, List.length_nil,
      List.length_cons] at hlength
    omega
  | n :: ns, m :: ms, h => by
    have hcomma : Char.isDigit ',' = false := by decide
    rw [List.flatMap_cons, List.flatMap_cons, List.append_assoc, List.append_assoc] at h
    obtain ⟨hdigits, hrest⟩ := Text.split_at (Decimal.not_mem_toDigits hcomma n)
      (Decimal.not_mem_toDigits hcomma m) h
    rw [Decimal.toDigits_injective hdigits, widths_injective (List.cons.inj hrest).2]

/-- In several widths there are only digits, commas and blanks. -/
theorem not_mem_widths {c : Char} (hdigit : c.isDigit = false) (hother : c ∉ [',', ' ']) :
    ∀ widths : List Nat, c ∉ [',', ' '].intercalate (widths.map (Nat.toDigits 10))
  | [], h => absurd h List.not_mem_nil
  | n :: rest, h => by
    have hmore := List.mem_append_left [',', ' '] h
    rw [intercalate_append (List.cons_ne_nil n rest)] at hmore
    obtain ⟨m, -, hm⟩ := List.mem_flatMap.mp hmore
    rcases List.mem_append.mp hm with hm | hm
    · exact Decimal.not_mem_toDigits hdigit m hm
    · exact hother hm

/-- In several widths and the bracket behind them there is none that opens. -/
theorem bracket_not_mem (widths : List Nat) :
    '(' ∉ [',', ' '].intercalate (widths.map (Nat.toDigits 10)) ++ [')'] := by
  rw [List.mem_append, not_or]
  exact ⟨not_mem_widths (by decide) (by decide) widths, by decide⟩

/-- Digits do not end with a bracket. -/
theorem toDigits_ne_bracket {front back : List Char} {n : Nat} :
    front ++ Nat.toDigits 10 n ≠ back ++ [')'] := by
  intro h
  have hbracket : Char.isDigit ')' = false := by decide
  have hlast := congrArg List.getLast? h
  rw [List.getLast?_concat, List.getLast?_append] at hlast
  cases hend : (Nat.toDigits 10 n).getLast? with
  | none => exact Nat.toDigits_ne_nil (List.getLast?_eq_none_iff.mp hend)
  | some c =>
    rw [hend] at hlast
    obtain rfl : c = ')' := Option.some.inj hlast
    exact Decimal.not_mem_toDigits hbracket n (List.mem_of_getLast? hend)

/-- The widths are told apart from what stands in front of them. -/
theorem widthsText_injective {front first : List Char} : ∀ {ns ms : List Nat}, ns ≠ [] → ms ≠ [] →
    front ++ ' ' :: widthsText ns = first ++ ' ' :: widthsText ms → front = first ∧ ns = ms
  | [n], [m], _, _, h => by
    have hblank : Char.isDigit ' ' = false := by decide
    obtain ⟨hfront, hdigits⟩ := Text.split_at_last (Decimal.not_mem_toDigits hblank n)
      (Decimal.not_mem_toDigits hblank m) h
    rw [Decimal.toDigits_injective hdigits]
    exact ⟨hfront, rfl⟩
  -- A single width ends with a digit, and several end with a bracket.
  | [n], m :: k :: ms, _, _, h => by
    have hend : (front ++ [' ']) ++ Nat.toDigits 10 n = (first ++ ' ' :: '(' ::
        [',', ' '].intercalate ((m :: k :: ms).map (Nat.toDigits 10))) ++ [')'] := by
      simp only [List.append_assoc, List.cons_append, List.nil_append]
      exact h
    exact absurd hend toDigits_ne_bracket
  | n :: k :: ns, [m], _, _, h => by
    have hend : (first ++ [' ']) ++ Nat.toDigits 10 m = (front ++ ' ' :: '(' ::
        [',', ' '].intercalate ((n :: k :: ns).map (Nat.toDigits 10))) ++ [')'] := by
      simp only [List.append_assoc, List.cons_append, List.nil_append]
      exact h.symm
    exact absurd hend toDigits_ne_bracket
  | n :: k :: ns, m :: l :: ms, hns, hms, h => by
    have hopen : (front ++ [' ']) ++ '(' :: ([',', ' '].intercalate
        ((n :: k :: ns).map (Nat.toDigits 10)) ++ [')']) = (first ++ [' ']) ++ '(' ::
        ([',', ' '].intercalate ((m :: l :: ms).map (Nat.toDigits 10)) ++ [')']) := by
      simp only [List.append_assoc, List.cons_append, List.nil_append]
      exact h
    obtain ⟨hfront, hinner⟩ := Text.split_at_last (bracket_not_mem _) (bracket_not_mem _) hopen
    refine ⟨List.append_cancel_right hfront, widths_injective ?_⟩
    rw [← intercalate_append hns, ← intercalate_append hms, List.append_cancel_right hinner]

/-- **The name of an array tells what is inside, and its widths.** -/
theorem arrayText_injective {s t : String} {ns ms : List Nat} (hns : ns ≠ []) (hms : ms ≠ [])
    (h : arrayText s ns = arrayText t ms) : s = t ∧ ns = ms := by
  have hchars := congrArg String.toList h
  rw [toList_arrayText s hns, toList_arrayText t hms] at hchars
  simp only [← List.cons_append, ← List.append_assoc] at hchars
  obtain ⟨hfront, hwidths⟩ := widthsText_injective hns hms (List.append_cancel_right hchars)
  have hinside := List.append_cancel_left (List.append_cancel_right hfront)
  exact ⟨String.toList_inj.mp hinside, hwidths⟩

/-! ## Simple types and the others -/

/-- The types in whose names nothing varies. -/
def simple : List Dtype :=
  [bool, i8, i16, i32, i64, i128, u8, u16, u32, u64, u128, f16, f32, f64, str, binary, date, time,
    null, duration .nanoseconds, duration .microseconds, duration .milliseconds]

/-- The sort of a type: it is simple, or made out of something. -/
def sort : Dtype → Nat
  | list _ => 1
  | array _ _ => 2
  | record _ => 3
  | decimal _ _ => 4
  | datetime _ _ => 5
  | _ => 0

/-- The sort that a name begins like. -/
def sortOfName (name : List Char) : Nat :=
  if name.take 5 = ['l', 'i', 's', 't', '['] then 1
  else if name.take 5 = ['a', 'r', 'r', 'a', 'y'] then 2
  else if name.take 5 = ['s', 't', 'r', 'u', 'c'] then 3
  else if name.take 5 = ['d', 'e', 'c', 'i', 'm'] then 4
  else if name.take 5 = ['d', 'a', 't', 'e', 't'] then 5
  else 0

theorem toList_list (item : Dtype) :
    (list item).text.toList = "list[".toList ++ item.text.toList ++ [']'] := by
  show ("list[" ++ item.text ++ "]").toList = _
  rw [String.toList_append, String.toList_append]
  rfl

theorem toList_array (item : Dtype) (width : Nat) :
    (array item width).text.toList = "array[".toList ++ (item.parts.1.toList ++ [',']) ++
      ' ' :: (widthsText (width :: item.parts.2) ++ [']']) :=
  toList_arrayText item.parts.1 (List.cons_ne_nil _ _)

theorem toList_record (fields : List (String × Dtype)) :
    (record fields).text.toList =
      "struct[".toList ++ Nat.toDigits 10 fields.length ++ [']'] := by
  show ("struct[" ++ toString fields.length ++ "]").toList = _
  rw [String.toList_append, String.toList_append, Decimal.toList_toString]
  rfl

theorem toList_decimal (precision scale : Nat) :
    (decimal precision scale).text.toList =
      "decimal[".toList ++ (Nat.toDigits 10 precision ++ ',' :: Nat.toDigits 10 scale) ++ [']'] := by
  show ("decimal[" ++ toString precision ++ "," ++ toString scale ++ "]").toList = _
  simp only [String.toList_append, Decimal.toList_toString, List.append_assoc]
  rfl

theorem toList_datetime (unit : TimeUnit) (zone : Option TimeZone) :
    (datetime unit zone).text.toList =
      "datetime[".toList ++ (unit.sign.toList ++ (zoneText zone).toList) ++ [']'] := by
  show ("datetime[" ++ unit.sign ++ zoneText zone ++ "]").toList = _
  simp only [String.toList_append, List.append_assoc]
  rfl

/-- A type has the sort that its name begins like. -/
theorem sortOfName_text (d : Dtype) : sortOfName d.text.toList = d.sort := by
  cases d with
  | datetime unit zone =>
    rw [toList_datetime]
    rfl
  | duration unit => cases unit <;> decide
  | list item =>
    rw [toList_list]
    rfl
  | array item width =>
    rw [toList_array]
    rfl
  | record fields =>
    rw [toList_record]
    rfl
  | decimal precision scale =>
    rw [toList_decimal]
    rfl
  | _ => decide

/-- A simple type is found by its name. -/
theorem find_simple {d : Dtype} (h : d.sort = 0) :
    simple.find? (fun e => e.text == d.text) = some d := by
  cases d with
  | duration unit => cases unit <;> rfl
  | datetime unit zone => exact nomatch h
  | list item => exact nomatch h
  | array item width => exact nomatch h
  | record fields => exact nomatch h
  | decimal precision scale => exact nomatch h
  | _ => rfl

/-- Simple types of one name are the same. -/
theorem eq_of_simple {d e : Dtype} (hd : d.sort = 0) (h : d.text = e.text) : d = e := by
  have hsort := sortOfName_text e
  rw [← h, sortOfName_text, hd] at hsort
  have hfound := find_simple hd
  rw [h, find_simple hsort.symm] at hfound
  exact (Option.some.inj hfound).symm

/-! ## Units and time zones -/

/-- The sign of a unit has two characters, which tell the unit. -/
theorem sign_length (unit : TimeUnit) : unit.sign.toList.length = 2 := by cases unit <;> rfl

theorem sign_injective {u v : TimeUnit} (h : u.sign.toList = v.sign.toList) : u = v := by
  cases u <;> cases v <;> first | rfl | exact absurd h (by decide)

/-- Behind the unit stands nothing, or a comma and a blank and the name of the zone. -/
theorem zoneText_injective {zone other : Option TimeZone} (h : zoneText zone = zoneText other) :
    zone = other := by
  have hname : ∀ z : TimeZone, (zoneText (some z)).toList = ',' :: ' ' :: z.name.toList := by
    intro z
    show (", " ++ z.name).toList = _
    rw [String.toList_append]
    rfl
  have hchars := congrArg String.toList h
  cases zone with
  | none =>
    cases other with
    | none => rfl
    | some w =>
      rw [hname] at hchars
      exact absurd hchars (List.cons_ne_nil _ _).symm
  | some z =>
    cases other with
    | none =>
      rw [hname] at hchars
      exact absurd hchars (List.cons_ne_nil _ _)
    | some w =>
      rw [hname, hname] at hchars
      have hsame := String.toList_inj.mp (List.cons.inj (List.cons.inj hchars).2).2
      exact congrArg some (TimeZone.ext hsame)

/-- There is no zero in the name of a zone. -/
theorem zero_not_mem_zoneText (zone : Option TimeZone) : '\x00' ∉ (zoneText zone).toList := by
  cases zone with
  | none => decide
  | some z =>
    have hzero : TimeZone.hasCharacter '\x00' = false := by decide
    show '\x00' ∉ (", " ++ z.name).toList
    rw [String.toList_append, List.mem_append, not_or]
    refine ⟨by decide, fun hmem => ?_⟩
    rw [List.all_eq_true.mp z.spelled _ hmem] at hzero
    cases hzero

/-- Types of one name have the same outline. -/
theorem outline_of_text {d e : Dtype} (h : d.text = e.text) : d.outline = e.outline := by
  have hsort : d.sort = e.sort := by rw [← sortOfName_text, h, sortOfName_text]
  have hchars := congrArg String.toList h
  cases d with
  | list item =>
    cases e with
    | list other =>
      rw [toList_list, toList_list] at hchars
      have hitem := List.append_cancel_left (List.append_cancel_right hchars)
      exact congrArg Dtype.list (outline_of_text (String.toList_inj.mp hitem))
    | _ => exact nomatch hsort
  | array item width =>
    cases e with
    | array other breadth =>
      obtain ⟨hinside, hwidths⟩ :=
        arrayText_injective (List.cons_ne_nil _ _) (List.cons_ne_nil _ _) h
      obtain ⟨rfl, hinner⟩ := List.cons.inj hwidths
      have hsame : item.parts.1 = other.parts.1 := hinside
      have hitem : item.text = other.text := by rw [text, text, hsame, hinner]
      exact congrArg (Dtype.array · width) (outline_of_text hitem)
    | _ => exact nomatch hsort
  | record fields =>
    cases e with
    | record others =>
      rw [toList_record, toList_record] at hchars
      have hlength := Decimal.toDigits_injective
        (List.append_cancel_left (List.append_cancel_right hchars))
      show record (fields.map fun _ => ("", null)) = record (others.map fun _ => ("", null))
      rw [List.map_const', List.map_const', hlength]
    | _ => exact nomatch hsort
  | decimal precision scale =>
    cases e with
    | decimal other others =>
      have hcomma : Char.isDigit ',' = false := by decide
      rw [toList_decimal, toList_decimal] at hchars
      obtain ⟨hprecision, hscale⟩ := Text.split_at (Decimal.not_mem_toDigits hcomma precision)
        (Decimal.not_mem_toDigits hcomma other)
        (List.append_cancel_left (List.append_cancel_right hchars))
      rw [Decimal.toDigits_injective hprecision, Decimal.toDigits_injective hscale]
    | _ => exact nomatch hsort
  | datetime unit zone =>
    cases e with
    | datetime other otherZone =>
      rw [toList_datetime, toList_datetime] at hchars
      have hinner := List.append_cancel_left (List.append_cancel_right hchars)
      have hlength : unit.sign.toList.length = other.sign.toList.length := by
        rw [sign_length, sign_length]
      obtain ⟨hunit, hzone⟩ := List.append_inj hinner hlength
      rw [sign_injective hunit, zoneText_injective (String.toList_inj.mp hzone)]
    | _ => exact nomatch hsort
  | _ => exact congrArg outline (eq_of_simple rfl h)

/-- **Two types have the same name exactly if they differ in the fields of records alone.** -/
theorem text_eq_iff {d e : Dtype} : d.text = e.text ↔ d.outline = e.outline := by
  constructor
  · exact outline_of_text
  · intro h
    rw [← text_outline d, h, text_outline]

example : (datetime .microseconds (some ⟨"UTC", by decide⟩)).text = "datetime[μs, UTC]" := by decide

/-! ## The characters of a name -/

/-- There is no zero in the name of an array, if there is none in the name of what is inside. -/
theorem zero_not_mem_arrayText {inside : String} (h : '\x00' ∉ inside.toList)
    (widths : List Nat) : '\x00' ∉ (arrayText inside widths).toList := by
  have hdigit : Char.isDigit '\x00' = false := by decide
  have hwidths : '\x00' ∉ widthsText widths := by
    match widths with
    | [n] => exact Decimal.not_mem_toDigits hdigit n
    | [] => decide
    | n :: m :: rest =>
      rw [widthsText, List.mem_cons, List.mem_append, not_or, not_or]
      · exact ⟨by decide, not_mem_widths hdigit (by decide) _, by decide⟩
      · exact fun k hk => nomatch hk
  cases widths with
  | nil => exact h
  | cons n rest =>
    rw [toList_arrayText inside (List.cons_ne_nil n rest)]
    simp only [List.mem_append, List.mem_cons, not_or, List.not_mem_nil, not_false_eq_true, and_true]
    exact ⟨⟨by decide, h, by decide⟩, by decide, hwidths, by decide⟩

theorem zero_not_mem_inside (d : Dtype) : '\x00' ∉ d.parts.1.toList := by
  have hdigit : Char.isDigit '\x00' = false := by decide
  cases d with
  | datetime unit zone =>
    have hunit : '\x00' ∉ unit.sign.toList := by cases unit <;> decide
    show '\x00' ∉ (datetime unit zone).text.toList
    rw [toList_datetime]
    simp only [List.mem_append, not_or]
    exact ⟨⟨by decide, hunit, zero_not_mem_zoneText zone⟩, by decide⟩
  | duration unit => cases unit <;> decide
  | list item =>
    have hitem := zero_not_mem_arrayText (zero_not_mem_inside item) item.parts.2
    show '\x00' ∉ (list item).text.toList
    rw [toList_list]
    simp only [List.mem_append, not_or]
    exact ⟨⟨by decide, hitem⟩, by decide⟩
  | array item width => exact zero_not_mem_inside item
  | record fields =>
    show '\x00' ∉ (record fields).text.toList
    rw [toList_record]
    simp only [List.mem_append, not_or]
    exact ⟨⟨by decide, Decimal.not_mem_toDigits hdigit _⟩, by decide⟩
  | decimal precision scale =>
    show '\x00' ∉ (decimal precision scale).text.toList
    rw [toList_decimal]
    simp only [List.mem_append, List.mem_cons, not_or]
    exact ⟨⟨by decide, Decimal.not_mem_toDigits hdigit _, by decide,
      Decimal.not_mem_toDigits hdigit _⟩, by decide, by decide⟩
  | _ => decide

/-- There is no zero in the name of a type. -/
theorem zero_not_mem_text (d : Dtype) : '\x00' ∉ d.text.toList :=
  zero_not_mem_arrayText (zero_not_mem_inside d) d.parts.2

/-- The name of a type has two characters at least. -/
theorem two_le_length_text (d : Dtype) : 2 ≤ d.text.toList.length := by
  cases d with
  | datetime unit zone =>
    rw [toList_datetime]
    exact Nat.le_add_left 2 _
  | duration unit => cases unit <;> decide
  | list item =>
    rw [toList_list]
    exact Nat.le_add_left 2 _
  | array item width =>
    rw [toList_array]
    exact Nat.le_add_left 2 _
  | record fields =>
    rw [toList_record]
    exact Nat.le_add_left 2 _
  | decimal precision scale =>
    rw [toList_decimal]
    exact Nat.le_add_left 2 _
  | _ => decide

end Lineage.Dtype
