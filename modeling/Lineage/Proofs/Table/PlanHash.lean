import Lineage.Proofs.Table.DtypeText
import Lineage.Proofs.Table.PlanText
/-
  What the hash of a table tells.

  The bytes that are hashed for a table are the text of its plan, the name and the type of each
  column with a zero behind either, and the height with the rows.  Nothing but the zeros tells where
  one of these ends, so it has to be seen that different columns cannot make up the same bytes:

    * Names and types are cut apart at the zeros (`cut`).  Only the first name is not told from the
      text of the plan in front of it, and the columns of one table may go on where the other has
      its height.
    * Of the eight bytes of a height the last four are zeros.  So there is room for one more column
      at most, with a name of one character at most (`one_more`).
    * The first name stands in the text of the plan, too.  So the text and the name together tell
      the name, and with it how many columns there are (`same_first`).

  What the bytes do not tell is what the names of types do not tell: the fields of records.  And a
  zero in a name spoils the first point.  So there are tables with different columns and the same
  hash (`columns_not_in_hash`).
-/

namespace Lineage

/-- Columns, as far as their names and the names of their types tell them. -/
def outlines (columns : FrameSchema) : FrameSchema := columns.map fun c => (c.1, c.2.outline)

/-- There is no zero in the names of the columns. -/
def NoZeros (columns : FrameSchema) : Prop := ∀ c ∈ columns, '\x00' ∉ c.1.toList

theorem NoZeros.tail {c : String × Dtype} {columns : FrameSchema} (h : NoZeros (c :: columns)) :
    NoZeros columns := fun d hd => h d (List.mem_cons_of_mem c hd)

/-- A table as the engine has them, with names without zeros. -/
structure Table.Usual (t : Table) : Prop where
  names : NoZeros t.columns
  height : t.height ≤ Plan.rowBound

namespace Plan

/-! ## Cutting the bytes apart -/

theorem schemaBytes_cons (c : String × Dtype) (columns : FrameSchema) (rest : List UInt8) :
    schemaBytes (c :: columns) ++ rest =
      Text.utf8 c.1 ++ 0 :: (Text.utf8 c.2.text ++ 0 :: (schemaBytes columns ++ rest)) := by
  simp only [schemaBytes, List.flatMap_cons, List.append_assoc, List.cons_append, List.nil_append]

/-- The bytes of columns tell their outlines. -/
theorem schemaBytes_outlines (columns : FrameSchema) :
    schemaBytes (outlines columns) = schemaBytes columns := by
  simp only [schemaBytes, outlines, List.flatMap_map, Dtype.text_outline]

/-- **Columns are cut apart at the zeros**, until those of one table come to an end. -/
theorem cut {p q : List UInt8} : ∀ {cs ds : FrameSchema}, NoZeros cs → NoZeros ds →
    schemaBytes cs ++ p = schemaBytes ds ++ q →
    (∃ front extra, ds = front ++ extra ∧ outlines front = outlines cs ∧
      p = schemaBytes extra ++ q) ∨
    (∃ front extra, cs = front ++ extra ∧ outlines front = outlines ds ∧
      q = schemaBytes extra ++ p)
  -- One of the two has come to its end: what is left of the other stands in front of its rest.
  | [], ds, _, _, h => .inl ⟨[], ds, rfl, rfl, h⟩
  | c :: cs, [], _, _, h => .inr ⟨[], c :: cs, rfl, rfl, h.symm⟩
  | c :: cs, d :: ds, hcs, hds, h => by
    rw [schemaBytes_cons, schemaBytes_cons] at h
    obtain ⟨hname, hbehind⟩ := Text.split_at
      (Text.zero_not_mem_utf8 (hcs c List.mem_cons_self))
      (Text.zero_not_mem_utf8 (hds d List.mem_cons_self)) h
    obtain ⟨htype, hrest⟩ := Text.split_at (Text.zero_not_mem_utf8 c.2.zero_not_mem_text)
      (Text.zero_not_mem_utf8 d.2.zero_not_mem_text) hbehind
    have hfirst : (d.1, d.2.outline) = (c.1, c.2.outline) := by
      rw [Text.utf8_injective hname, Dtype.text_eq_iff.mp (Text.utf8_injective htype)]
    rcases cut hcs.tail hds.tail hrest with ⟨front, extra, rfl, hsame, hp⟩ |
        ⟨front, extra, rfl, hsame, hq⟩
    · refine .inl ⟨d :: front, extra, rfl, ?_, hp⟩
      show (d.1, d.2.outline) :: outlines front = (c.1, c.2.outline) :: outlines cs
      rw [hfirst, hsame]
    · refine .inr ⟨c :: front, extra, rfl, ?_, hq⟩
      show (c.1, c.2.outline) :: outlines front = (d.1, d.2.outline) :: outlines ds
      rw [hfirst, hsame]

/-! ## Columns in place of a height -/

/-- The last four bytes of a height are zeros. -/
theorem height_zeros {h : Nat} (hle : h ≤ rowBound) (rest : List UInt8) {i : Nat} (hi : 4 ≤ i)
    (hi' : i < 8) : (Text.littleEndian 8 h ++ rest)[i]? = some 0 := by
  have hsmall : h / 256 / 256 / 256 / 256 = 0 := by
    have hbound : h ≤ 2 ^ 32 - 1 := hle
    omega
  have hbytes : Text.littleEndian 8 h =
      [UInt8.ofNat h, UInt8.ofNat (h / 256), UInt8.ofNat (h / 256 / 256),
        UInt8.ofNat (h / 256 / 256 / 256), 0, 0, 0, 0] := by
    simp only [Text.littleEndian, hsmall]
    rfl
  have hcases : i = 4 ∨ i = 5 ∨ i = 6 ∨ i = 7 := by omega
  rw [hbytes]
  rcases hcases with rfl | rfl | rfl | rfl <;> rfl

/-- What stands in bytes behind a first piece and its zero, and behind a second one and its zero. -/
theorem getElem?_pieces (name type more : List UInt8) (i : Nat) :
    (name ++ 0 :: (type ++ 0 :: more))[name.length + 1 + i]? = (type ++ 0 :: more)[i]? ∧
      (type ++ 0 :: more)[type.length + 1 + i]? = more[i]? := by
  constructor
  · rw [List.getElem?_append_right (by omega),
      show name.length + 1 + i - name.length = i + 1 by omega, List.getElem?_cons_succ]
  · rw [List.getElem?_append_right (by omega),
      show type.length + 1 + i - type.length = i + 1 by omega, List.getElem?_cons_succ]

/-- A column in place of a height has a name of one byte at most, and behind it there are two
zeros. -/
theorem first_column {h : Nat} (hle : h ≤ rowBound) {rest name type more : List UInt8}
    (hname : 0 ∉ name) (htype : 0 ∉ type) (hlong : 2 ≤ type.length)
    (heq : Text.littleEndian 8 h ++ rest = name ++ 0 :: (type ++ 0 :: more)) :
    name.length ≤ 1 ∧ more[0]? = some 0 ∧ more[1]? = some 0 := by
  have hzeros : ∀ i, 4 ≤ i → i < 8 → (name ++ 0 :: (type ++ 0 :: more))[i]? = some 0 := by
    intro i hi hi'
    rw [← heq]
    exact height_zeros hle rest hi hi'
  have hshort : name.length ≤ 4 := by
    refine Nat.le_of_not_lt fun hlt => ?_
    have hfour := hzeros 4 (Nat.le_refl 4) (by omega)
    rw [List.getElem?_append_left (by omega)] at hfour
    exact hname (List.mem_of_getElem? hfour)
  have htypes : ∀ i, 4 ≤ name.length + 1 + i → name.length + 1 + i < 8 →
      (type ++ 0 :: more)[i]? = some 0 := by
    intro i hi hi'
    rw [← (getElem?_pieces name type more i).1]
    exact hzeros _ hi hi'
  have hboth : name.length + type.length ≤ 3 := by
    refine Nat.le_of_not_lt fun hlt => ?_
    -- The type reaches into the zeros: at their beginning, or where it begins itself.
    have hin := htypes (3 - name.length) (by omega) (by omega)
    rw [List.getElem?_append_left (by omega)] at hin
    exact htype (List.mem_of_getElem? hin)
  have hmore : ∀ i, i < 2 → more[i]? = some 0 := by
    intro i hi
    rw [← (getElem?_pieces name type more i).2]
    exact htypes _ (by omega) (by omega)
  exact ⟨by omega, hmore 0 (by omega), hmore 1 (by omega)⟩

/-- **In place of a height there is room for one column at most**, with a short name. -/
theorem one_more {h : Nat} (hle : h ≤ rowBound) {rest q : List UInt8} {extra : FrameSchema}
    (hclean : NoZeros extra)
    (heq : Text.littleEndian 8 h ++ rest = schemaBytes extra ++ q) :
    extra = [] ∨ ∃ x, extra = [x] ∧ x.1.toList.length ≤ 1 := by
  have htext : ∀ d : Dtype, 0 ∉ Text.utf8 d.text ∧ 2 ≤ (Text.utf8 d.text).length := fun d =>
    ⟨Text.zero_not_mem_utf8 d.zero_not_mem_text,
      Nat.le_trans d.two_le_length_text (Text.length_le_utf8 _)⟩
  match extra, hclean, heq with
  | [], _, _ => exact .inl rfl
  | [x], hclean, heq =>
    rw [schemaBytes_cons] at heq
    obtain ⟨hshort, -, -⟩ := first_column hle
      (Text.zero_not_mem_utf8 (hclean x List.mem_cons_self)) (htext x.2).1 (htext x.2).2 heq
    exact .inr ⟨x, rfl, Nat.le_trans (Text.length_le_utf8 x.1) hshort⟩
  | x :: y :: extra, hclean, heq =>
    -- The name of a second column would be empty, and its type begin with a zero.
    rw [schemaBytes_cons] at heq
    obtain ⟨-, hzero, hone⟩ := first_column hle
      (Text.zero_not_mem_utf8 (hclean x List.mem_cons_self)) (htext x.2).1 (htext x.2).2 heq
    have hy := Text.zero_not_mem_utf8 (hclean.tail y List.mem_cons_self)
    rw [schemaBytes_cons] at hzero hone
    cases hname : Text.utf8 y.1 with
    | cons b bs =>
      rw [hname] at hy hzero
      obtain rfl : b = 0 := Option.some.inj hzero
      exact absurd List.mem_cons_self hy
    | nil =>
      have hpos : 0 < (Text.utf8 y.2.text).length := Nat.lt_of_lt_of_le Nat.two_pos (htext y.2).2
      rw [hname, List.nil_append, List.getElem?_cons_succ, List.getElem?_append_left hpos] at hone
      exact absurd (List.mem_of_getElem? hone) (htext y.2).1

/-! ## The bytes of a table -/

/-- The bytes that are hashed for a table. -/
def tableHashed (t : Table) : List UInt8 :=
  Text.utf8 (Origin.describe (.ofTable t) (.memory t)) ++ schemaBytes t.columns ++
    originBytes (.memory t)

theorem hashedBytes_ofTable (t : Table) :
    (ofTable t).hashedBytes (.ofTable t) = .ok (tableHashed t) := rfl

/-- The bytes of a table, with the text of the plan in front of the first name. -/
theorem tableHashed_cons {t : Table} {c : String × Dtype} {columns : FrameSchema}
    (h : t.columns = c :: columns) :
    tableHashed t =
      schemaBytes ((Origin.describe (.ofTable t) (.memory t) ++ c.1, c.2) :: columns) ++
        originBytes (.memory t) := by
  rw [tableHashed, h, schemaBytes_cons, Text.utf8_append, List.append_assoc, List.append_assoc,
    schemaBytes_cons]

/-- Behind four characters of the text there is a quote if there are columns, and a bracket
otherwise. -/
theorem describe_beginning (t : Table) :
    ∃ rest, Origin.describe (.ofTable t) (.memory t) =
      (if t.columns.isEmpty then "DF []" else "DF [\"") ++ rest := by
  cases h : t.columns with
  | nil =>
    refine ⟨"; PROJECT */0 COLUMNS", ?_⟩
    simp only [Origin.describe, Look.ofTable, h]
    rfl
  | cons c columns =>
    have hback : (String.ofList (c.1.toList ++ textBehind (columns.map Prod.fst))).toList =
      c.1.toList ++ textBehind (columns.map Prod.fst) := String.toList_ofList
    refine ⟨String.ofList (c.1.toList ++ textBehind (columns.map Prod.fst)), ?_⟩
    rw [← String.toList_inj, toList_describe h, String.toList_append, hback]
    rfl

/-- Only tables that have columns both, or have none both, have the same bytes. -/
theorem isEmpty_of_tableHashed {t u : Table} (h : tableHashed t = tableHashed u) :
    t.columns.isEmpty = u.columns.isEmpty := by
  obtain ⟨rest, hrest⟩ := describe_beginning t
  obtain ⟨more, hmore⟩ := describe_beginning u
  rw [tableHashed, tableHashed, hrest, hmore, Text.utf8_append, Text.utf8_append,
    List.append_assoc, List.append_assoc, List.append_assoc, List.append_assoc] at h
  -- Both beginnings have five bytes, so they are told apart in the first five.
  have hfive : ∀ b : Bool, (Text.utf8 (if b then "DF []" else "DF [\"")).length = 5 := by
    intro b
    rw [Text.utf8_eq]
    cases b <;> decide
  have hbeginning := Text.utf8_injective
    (List.append_inj_left h ((hfive t.columns.isEmpty).trans (hfive u.columns.isEmpty).symm))
  have hne : "DF []" ≠ "DF [\"" := by decide
  cases ht : t.columns.isEmpty <;> cases hu : u.columns.isEmpty
  · rfl
  · rw [ht, hu] at hbeginning
    exact absurd hbeginning.symm hne
  · rw [ht, hu] at hbeginning
    exact absurd hbeginning hne
  · rfl

/-- With the text of the plan in front of the first name there are still no zeros. -/
theorem noZeros_described {t : Table} {c : String × Dtype} {columns : FrameSchema}
    (h : t.columns = c :: columns) (hclean : NoZeros t.columns) :
    NoZeros ((Origin.describe (.ofTable t) (.memory t) ++ c.1, c.2) :: columns) := by
  rw [h] at hclean
  have hfirst := hclean c List.mem_cons_self
  have hothers : ∀ s ∈ columns.map Prod.fst, '\x00' ∉ s.toList := by
    intro s hs
    obtain ⟨d, hd, rfl⟩ := List.mem_map.mp hs
    exact hclean.tail d hd
  intro d hd
  rcases List.mem_cons.mp hd with rfl | hd
  · rw [String.toList_append, toList_describe h]
    simp only [List.mem_append, not_or]
    exact ⟨⟨by decide, hfirst, zero_not_mem_textBehind hothers⟩, hfirst⟩
  · exact hclean.tail d hd

/-- The names of columns are those of their outlines. -/
theorem names_outlines (columns : FrameSchema) :
    (outlines columns).map Prod.fst = columns.map Prod.fst := by
  rw [outlines, List.map_map]
  rfl

/-- The text of a plan over a table is that of the names of its columns. -/
theorem describe_eq {t u : Table} (h : t.columns.map Prod.fst = u.columns.map Prod.fst) :
    Origin.describe (.ofTable t) (.memory t) = Origin.describe (.ofTable u) (.memory u) := by
  have hquoted : (t.columns.map fun c => "\"" ++ c.1 ++ "\"") =
      u.columns.map fun c => "\"" ++ c.1 ++ "\"" := by
    have hmapped := congrArg (List.map quoted) h
    rw [List.map_map, List.map_map] at hmapped
    exact hmapped
  simp only [Origin.describe, Look.ofTable, hquoted]
  rfl

/-- Columns in place of a height make no great difference in the text of a plan. -/
theorem length_textBehind_extra {h : Nat} (hle : h ≤ rowBound) {rest q : List UInt8}
    {extra : FrameSchema} (hclean : NoZeros extra)
    (heq : Text.littleEndian 8 h ++ rest = schemaBytes extra ++ q) (others : List String) :
    (textBehind others).length ≤ (textBehind (others ++ extra.map Prod.fst)).length ∧
      (textBehind (others ++ extra.map Prod.fst)).length < (textBehind others).length + 16 := by
  rcases one_more hle hclean heq with rfl | ⟨x, rfl, hx⟩
  · rw [List.map_nil, List.append_nil]
    exact ⟨Nat.le_refl _, by omega⟩
  · obtain ⟨hlonger, hmuch⟩ := length_textBehind_concat others x.1
    exact ⟨hlonger, Nat.lt_of_le_of_lt hmuch (by omega)⟩

/-- The text of a plan and the first name together tell the first name, and how many columns there
are. -/
theorem same_first_column {t u : Table} {c d : String × Dtype} {cs ds : FrameSchema}
    (hc : t.columns = c :: cs) (hd : u.columns = d :: ds)
    (hle : (textBehind (cs.map Prod.fst)).length ≤ (textBehind (ds.map Prod.fst)).length)
    (hlt : (textBehind (ds.map Prod.fst)).length < (textBehind (cs.map Prod.fst)).length + 16)
    (htexts : Origin.describe (.ofTable u) (.memory u) ++ d.1 =
      Origin.describe (.ofTable t) (.memory t) ++ c.1) :
    c.1 = d.1 ∧ cs.length = ds.length := by
  have hchars : c.1.toList ++ textBehind (cs.map Prod.fst) ++ c.1.toList =
      d.1.toList ++ textBehind (ds.map Prod.fst) ++ d.1.toList := by
    have htoList := congrArg String.toList htexts
    rw [String.toList_append, String.toList_append, toList_describe hc,
      toList_describe hd] at htoList
    simp only [List.append_assoc] at htoList ⊢
    exact (List.append_cancel_left htoList).symm
  obtain ⟨hname, hbehind⟩ := same_first hle hlt hchars
  have hcount := length_of_textBehind hbehind
  rw [List.length_map, List.length_map] at hcount
  exact ⟨String.toList_inj.mp hname, hcount⟩

/-- **Where the columns of one table go on in those of another, they are the same.** -/
theorem same_columns {t u : Table} (ht : t.Usual) (hu : u.Usual) {c d : String × Dtype}
    {cs ds front extra : FrameSchema} (hc : t.columns = c :: cs) (hd : u.columns = d :: ds)
    (hsplit : (Origin.describe (.ofTable u) (.memory u) ++ d.1, d.2) :: ds = front ++ extra)
    (hsame : outlines front =
      outlines ((Origin.describe (.ofTable t) (.memory t) ++ c.1, c.2) :: cs))
    (hrest : originBytes (.memory t) = schemaBytes extra ++ originBytes (.memory u)) :
    outlines t.columns = outlines u.columns ∧
      originBytes (.memory t) = originBytes (.memory u) := by
  cases front with
  | nil => exact nomatch hsame
  | cons f fs =>
    obtain ⟨rfl, hds⟩ := List.cons.inj hsplit
    obtain rfl : ds = fs ++ extra := hds
    obtain ⟨hfirst, hcs⟩ := List.cons.inj hsame
    have hothers : outlines fs = outlines cs := hcs
    obtain ⟨htexts, htype⟩ := Prod.mk.inj hfirst
    have hclean : NoZeros extra := by
      intro x hx
      refine hu.names x ?_
      rw [hd]
      exact List.mem_cons_of_mem d (List.mem_append_right fs hx)
    have hnames : (fs ++ extra).map Prod.fst = cs.map Prod.fst ++ extra.map Prod.fst := by
      rw [List.map_append, ← names_outlines fs, hothers, names_outlines]
    obtain ⟨hle, hlt⟩ := length_textBehind_extra ht.height hclean hrest (cs.map Prod.fst)
    rw [← hnames] at hle hlt
    obtain ⟨hname, hcount⟩ := same_first_column hc hd hle hlt htexts
    -- There are as many columns on both sides, so none is left over.
    have hlength := congrArg List.length hothers
    rw [outlines, outlines, List.length_map, List.length_map] at hlength
    rw [List.length_append] at hcount
    have hnone : extra = [] := List.eq_nil_of_length_eq_zero (by omega)
    rw [hnone] at hrest hd
    refine ⟨?_, hrest⟩
    rw [hc, hd, List.append_nil]
    show (c.1, c.2.outline) :: outlines cs = (d.1, d.2.outline) :: outlines fs
    rw [hothers, htype, hname]

/-- **The bytes of a table tell the outlines of its columns, and its rows.** -/
theorem tableHashed_injective {t u : Table} (ht : t.Usual) (hu : u.Usual)
    (h : tableHashed t = tableHashed u) :
    outlines t.columns = outlines u.columns ∧
      originBytes (.memory t) = originBytes (.memory u) := by
  have hempty := isEmpty_of_tableHashed h
  cases hc : t.columns with
  | nil =>
    have hd : u.columns = [] := List.isEmpty_iff.mp (hempty ▸ List.isEmpty_iff.mpr hc)
    have htexts := describe_eq (t := t) (u := u) (by rw [hc, hd])
    rw [tableHashed, tableHashed, htexts, hc, hd] at h
    rw [hd]
    exact ⟨rfl, List.append_cancel_left h⟩
  | cons c cs =>
    cases hd : u.columns with
    | nil =>
      rw [hc, hd] at hempty
      exact nomatch hempty
    | cons d ds =>
      rw [tableHashed_cons hc, tableHashed_cons hd] at h
      rcases cut (noZeros_described hc ht.names) (noZeros_described hd hu.names) h with
        ⟨front, extra, hsplit, hsame, hrest⟩ | ⟨front, extra, hsplit, hsame, hrest⟩
      · rw [← hc, ← hd]
        exact same_columns ht hu hc hd hsplit hsame hrest
      · obtain ⟨hcolumns, horigin⟩ := same_columns hu ht hd hc hsplit hsame hrest
        rw [← hc, ← hd]
        exact ⟨hcolumns.symm, horigin.symm⟩

/-! ## The hash -/

theorem length_digest (bytes : List UInt8) : (Md5.digest bytes).length = 16 := by
  simp only [Md5.digest, Md5.Hasher.finish, List.flatMap_cons, List.flatMap_nil,
    List.length_append, Text.length_littleEndian, List.length_nil]

/-- The hash of some bytes. -/
def hashOf (bytes : List UInt8) : Int64 :=
  (UInt64.ofNat (Text.ofLittleEndian ((Md5.digest bytes).take 8))).toInt64

theorem semanticHash_ofTable (t : Table) :
    (ofTable t).semanticHash (.ofTable t) = .ok (hashOf (tableHashed t)) := rfl

/-- Hashes are the same exactly if the first eight bytes of the digests are. -/
theorem hashOf_eq_iff {b c : List UInt8} :
    hashOf b = hashOf c ↔ (Md5.digest b).take 8 = (Md5.digest c).take 8 := by
  have hlength : ∀ bytes, ((Md5.digest bytes).take 8).length = 8 := fun bytes => by
    rw [List.length_take, length_digest]
    rfl
  have hnumber : ∀ bytes, (UInt64.ofNat (Text.ofLittleEndian ((Md5.digest bytes).take 8))).toNat =
      Text.ofLittleEndian ((Md5.digest bytes).take 8) := fun bytes => by
    have hlt := Text.ofLittleEndian_lt ((Md5.digest bytes).take 8)
    rw [hlength] at hlt
    exact UInt64.toNat_ofNat_of_lt' hlt
  constructor
  · intro h
    have hwords := congrArg Int64.toUInt64 h
    rw [hashOf, hashOf, UInt64.toUInt64_toInt64, UInt64.toUInt64_toInt64] at hwords
    have hnumbers := congrArg UInt64.toNat hwords
    rw [hnumber, hnumber] at hnumbers
    exact Text.ofLittleEndian_injective ((hlength b).trans (hlength c).symm) hnumbers
  · intro h
    rw [hashOf, hashOf, h]

/-- Tables with the same outlines and the same rows have the same bytes. -/
theorem tableHashed_eq {t u : Table} (hcolumns : outlines t.columns = outlines u.columns)
    (hrows : originBytes (.memory t) = originBytes (.memory u)) :
    tableHashed t = tableHashed u := by
  have hnames : t.columns.map Prod.fst = u.columns.map Prod.fst := by
    rw [← names_outlines, hcolumns, names_outlines]
  rw [tableHashed, tableHashed, describe_eq hnames, ← schemaBytes_outlines t.columns, hcolumns,
    schemaBytes_outlines, hrows]

/-- **The hash of a table tells the outlines of its columns.**

If the first eight bytes of the digests tell the bytes of two tables apart, the hashes of the tables
are the same exactly if their rows are the same and their columns have the same names and the same
types in the same order, up to the fields of records. -/
theorem hash_tells_outlines (t u : Table) (ht : t.Usual) (hu : u.Usual)
    (hmd5 : ∀ b c, (ofTable t).hashedBytes (.ofTable t) = .ok b →
      (ofTable u).hashedBytes (.ofTable u) = .ok c →
      (Md5.digest b).take 8 = (Md5.digest c).take 8 → b = c) :
    ∃ h k, (ofTable t).semanticHash (.ofTable t) = .ok h ∧
      (ofTable u).semanticHash (.ofTable u) = .ok k ∧
      (h = k ↔ outlines t.columns = outlines u.columns ∧
        originBytes (.memory t) = originBytes (.memory u)) := by
  refine ⟨hashOf (tableHashed t), hashOf (tableHashed u), semanticHash_ofTable t,
    semanticHash_ofTable u, ?_⟩
  constructor
  · intro hsame
    have hbytes : tableHashed t = tableHashed u :=
      hmd5 _ _ (hashedBytes_ofTable t) (hashedBytes_ofTable u) (hashOf_eq_iff.mp hsame)
    exact tableHashed_injective ht hu hbytes
  · rintro ⟨hcolumns, hrows⟩
    rw [tableHashed_eq hcolumns hrows]

/-- A table without rows: four columns that the text of the plan names, and one more. -/
def fiveColumns (last : Dtype) : Table :=
  ⟨[("a", .i64), ("b", .i64), ("c", .i64), ("d", .i64), ("e", last)], []⟩

/-- The type of a column that is not named in the text of the plan is in the hash. -/
theorem fifth_column_in_hash :
    ∃ h k,
      (ofTable (fiveColumns (.list .i64))).semanticHash (.ofTable (fiveColumns (.list .i64))) =
        .ok h ∧
      (ofTable (fiveColumns (.list .f64))).semanticHash (.ofTable (fiveColumns (.list .f64))) =
        .ok k ∧
      h ≠ k := by
  have husual : ∀ last, (fiveColumns last).Usual := by
    intro last
    refine ⟨?_, Nat.zero_le _⟩
    simp only [NoZeros, fiveColumns, List.forall_mem_cons]
    exact ⟨by decide, by decide, by decide, by decide, by decide, nofun⟩
  have hdigests : (Md5.digest (tableHashed (fiveColumns (.list .i64)))).take 8 ≠
      (Md5.digest (tableHashed (fiveColumns (.list .f64)))).take 8 := by
    simp only [tableHashed, schemaBytes, Text.utf8_eq]
    decide +kernel
  obtain ⟨h, k, hfirst, hsecond, hiff⟩ := hash_tells_outlines (fiveColumns (.list .i64))
    (fiveColumns (.list .f64)) (husual _) (husual _) (by
      intro b c hb hc hsame
      obtain rfl := Except.ok.inj hb
      obtain rfl := Except.ok.inj hc
      exact absurd hsame hdigests)
  refine ⟨h, k, hfirst, hsecond, fun hsame => ?_⟩
  have houtlines := (hiff.mp hsame).1
  simp only [outlines, fiveColumns, List.map_cons, List.map_nil, Dtype.outline] at houtlines
  simp at houtlines

/-- The same bytes are hashed for two tables. -/
def HashedAlike (t u : Table) : Prop :=
  ∃ bytes h, (ofTable t).hashedBytes (.ofTable t) = .ok bytes ∧
    (ofTable u).hashedBytes (.ofTable u) = .ok bytes ∧
    (ofTable t).semanticHash (.ofTable t) = .ok h ∧ (ofTable u).semanticHash (.ofTable u) = .ok h

/-- A table of one record with one field, without rows. -/
def oneField (field : String) : Table := ⟨[("s", .record [(field, .i64)])], []⟩

/-- A table without rows: four columns that the text of the plan names, and two more. -/
def sixColumns (fifth sixth : String) : Table :=
  ⟨[("a", .i64), ("b", .i64), ("c", .i64), ("d", .i64), (fifth, .i64), (sixth, .i64)], []⟩

/-- **Different columns may have one hash**: the fields of records are not hashed, and a name with
zeros in it can stand for a name, a type and another name. -/
theorem columns_not_in_hash :
    ((oneField "a").columns ≠ (oneField "b").columns ∧ HashedAlike (oneField "a") (oneField "b")) ∧
      ((sixColumns "e\x00i64\x00f" "g").columns ≠ (sixColumns "e" "f\x00i64\x00g").columns ∧
        HashedAlike (sixColumns "e\x00i64\x00f" "g") (sixColumns "e" "f\x00i64\x00g")) := by
  have halike : ∀ t u : Table, tableHashed t = tableHashed u → HashedAlike t u := fun t u h =>
    ⟨tableHashed t, hashOf (tableHashed t), hashedBytes_ofTable t, h ▸ hashedBytes_ofTable u,
      semanticHash_ofTable t, h ▸ semanticHash_ofTable u⟩
  refine ⟨⟨?_, halike _ _ (tableHashed_eq rfl rfl)⟩, ⟨?_, halike _ _ ?_⟩⟩
  · simp [oneField]
  · simp [sixColumns]
  · simp only [tableHashed, schemaBytes, Text.utf8_eq]
    decide +kernel

end Plan
end Lineage
