import Lineage.Proofs.Text.Bytes
import Lineage.Table.Basic
/-
  Rows and what is written for them.

  The rows of a table are hashed one behind the other, with nothing in between.  So what is written
  for a row has to tell two things: the values of the row, and where the row ends (`Tells`).  Then
  the bytes of as many rows tell the rows in their order (`settled_of_flatMap`).  There are two ways
  to write rows that do:

    * A word of eight bytes, if it is a hash that separates the rows (`rowWord_tells`).  It ends
      where every word ends.
    * The values themselves (`codes_tells`).  A number has its fixed count of bytes, and what can be
      of any length has its length in front, so the values are told one after the other.

  Rows are held against each other as the engine does it: zeros of both signs are the same, and so
  are all words that are no number (`Cell.settled`).
-/

namespace Lineage

namespace Cell

/-! ## Values that are the same -/

mutual

/-- A value, with one chosen from those that are the same for the engine. -/
def settled : Cell → Cell
  | float x => .float x.canonical
  | list items => .list (settledAll items)
  | null => null
  | bool b => bool b
  | int n => int n
  | text s => text s
  | bytes bs => bytes bs

/-- The same for each of some values. -/
def settledAll : List Cell → List Cell
  | [] => []
  | c :: rest => settled c :: settledAll rest

end

theorem settledAll_eq_map : ∀ cells : List Cell, settledAll cells = cells.map settled
  | [] => rfl
  | c :: rest => by rw [settledAll, settledAll_eq_map rest, List.map_cons]

/-! ## Values that can be written -/

mutual

/-- A value is of a size that columns have: numbers of 136 bits, and fewer than `2^64` bytes or
items. -/
def Fits : Cell → Prop
  | int n => -2 ^ 135 ≤ n ∧ n < 2 ^ 135
  | text s => (Text.utf8 s).length < 256 ^ 8
  | bytes bs => bs.length < 256 ^ 8
  | list items => items.length < 256 ^ 8 ∧ FitsAll items
  | null | bool _ | float _ => True

/-- So are some values. -/
def FitsAll : List Cell → Prop
  | [] => True
  | c :: rest => Fits c ∧ FitsAll rest

end

/-- A length in front tells how far something goes. -/
theorem counted_append_inj {bs cs p q : List UInt8} (hb : bs.length < 256 ^ 8)
    (hc : cs.length < 256 ^ 8)
    (h : word bs.length ++ bs ++ p = word cs.length ++ cs ++ q) : bs = cs ∧ p = q := by
  rw [List.append_assoc, List.append_assoc] at h
  obtain ⟨hlength, hrest⟩ := Text.littleEndian_append_inj hb hc h
  exact List.append_inj hrest hlength

theorem int_append_inj {n m : Int} {p q : List UInt8} (hn : Fits (int n)) (hm : Fits (int m))
    (h : Text.littleEndian 17 (n % 2 ^ 136).toNat ++ p =
      Text.littleEndian 17 (m % 2 ^ 136).toNat ++ q) : n = m ∧ p = q := by
  simp only [Fits] at hn hm
  obtain ⟨hvalue, hrest⟩ := Text.littleEndian_append_inj (by omega) (by omega) h
  exact ⟨by omega, hrest⟩

theorem float_append_inj {x y : Binary64} {p q : List UInt8}
    (h : word x.canonical.bits.toNat ++ p = word y.canonical.bits.toNat ++ q) :
    x.canonical = y.canonical ∧ p = q := by
  obtain ⟨hvalue, hrest⟩ := Text.littleEndian_append_inj x.canonical.bits.toNat_lt
    y.canonical.bits.toNat_lt h
  refine ⟨?_, hrest⟩
  show Binary64.mk x.canonical.bits = Binary64.mk y.canonical.bits
  rw [UInt64.toNat_inj.mp hvalue]

/-! ## Values one behind the other -/

/-- The byte in front of a value, for its kind. -/
def kind : Cell → UInt8
  | null => 0
  | bool _ => 1
  | int _ => 2
  | float _ => 3
  | text _ => 4
  | bytes _ => 5
  | list _ => 6

theorem head?_code (c : Cell) (p : List UInt8) : (code c ++ p).head? = some (kind c) := by
  cases c <;> rfl

mutual

/-- **A value is told by its bytes**, whatever follows them. -/
theorem code_append_inj : ∀ {c d : Cell} {p q : List UInt8}, Fits c → Fits d →
    code c ++ p = code d ++ q → settled c = settled d ∧ p = q
  | c, d, p, q, hc, hd, h => by
    have hkind : kind c = kind d := by
      have hhead := congrArg List.head? h
      rw [head?_code, head?_code] at hhead
      exact Option.some.inj hhead
    -- Values of different kinds begin with different bytes.
    cases c with
    | null =>
      cases d with
      | null => exact ⟨rfl, (List.cons.inj h).2⟩
      | _ => simp [kind] at hkind
    | bool b =>
      cases d with
      | bool b' =>
        obtain ⟨hbit, hrest⟩ := List.cons.inj (List.cons.inj h).2
        refine ⟨?_, hrest⟩
        cases b <;> cases b' <;> first | rfl | exact absurd hbit (by decide)
      | _ => simp [kind] at hkind
    | int n =>
      cases d with
      | int m =>
        obtain ⟨rfl, hrest⟩ := int_append_inj hc hd (List.cons.inj h).2
        exact ⟨rfl, hrest⟩
      | _ => simp [kind] at hkind
    | float x =>
      cases d with
      | float y =>
        obtain ⟨hsame, hrest⟩ := float_append_inj (List.cons.inj h).2
        exact ⟨congrArg float hsame, hrest⟩
      | _ => simp [kind] at hkind
    | text s =>
      cases d with
      | text s' =>
        obtain ⟨hsame, hrest⟩ := counted_append_inj hc hd (List.cons.inj h).2
        obtain rfl := Text.utf8_injective hsame
        exact ⟨rfl, hrest⟩
      | _ => simp [kind] at hkind
    | bytes bs =>
      cases d with
      | bytes bs' =>
        obtain ⟨rfl, hrest⟩ := counted_append_inj hc hd (List.cons.inj h).2
        exact ⟨rfl, hrest⟩
      | _ => simp [kind] at hkind
    | list items =>
      cases d with
      | list others =>
        rw [code, code, List.cons_append, List.cons_append, List.append_assoc,
          List.append_assoc] at h
        obtain ⟨hlength, hitems⟩ :=
          Text.littleEndian_append_inj hc.1 hd.1 (List.cons.inj h).2
        obtain ⟨hsame, hrest⟩ := codes_append_inj hc.2 hd.2 hlength hitems
        exact ⟨congrArg list hsame, hrest⟩
      | _ => simp [kind] at hkind

/-- So are as many values. -/
theorem codes_append_inj : ∀ {cs ds : List Cell} {p q : List UInt8}, FitsAll cs → FitsAll ds →
    cs.length = ds.length → codes cs ++ p = codes ds ++ q → settledAll cs = settledAll ds ∧ p = q
  | [], [], p, q, _, _, _, h => ⟨rfl, h⟩
  | c :: cs, d :: ds, p, q, hcs, hds, hlength, h => by
    rw [codes, codes, List.append_assoc, List.append_assoc] at h
    obtain ⟨hfirst, hbehind⟩ := code_append_inj hcs.1 hds.1 h
    obtain ⟨hothers, hrest⟩ := codes_append_inj hcs.2 hds.2 (Nat.succ.inj hlength) hbehind
    rw [settledAll, settledAll, hfirst, hothers]
    exact ⟨rfl, hrest⟩

end

end Cell

/-! ## Rows -/

namespace Table

/-- The values of a row in some columns, as the engine compares them. -/
def settledRow (width : Nat) (row : List Cell) : List Cell :=
  (List.range width).map fun i => (cellAt row i).settled

/-- The rows of a table, as the engine compares them. -/
def settled (t : Table) : List (List Cell) := t.rows.map (settledRow t.width)

/-- Every row has a value in each column, of a size that columns have. -/
def Filled (t : Table) : Prop := ∀ row ∈ t.rows, row.length = t.width ∧ Cell.FitsAll row

theorem settledRow_of_length {width : Nat} {row : List Cell} (h : row.length = width) :
    settledRow width row = Cell.settledAll row := by
  rw [Cell.settledAll_eq_map]
  refine List.ext_getElem ?_ ?_
  · rw [settledRow, List.length_map, List.length_map, List.length_range, h]
  · intro i hi hrow
    rw [List.length_map] at hrow
    have hcell : cellAt row i = row[i] := by
      rw [cellAt, List.getD_eq_getElem?_getD, List.getElem?_eq_getElem hrow, Option.getD_some]
    simp only [settledRow, List.getElem_map, List.getElem_range, hcell]

/-- A row is told by what is written for it, whatever follows, among the rows of two tables. -/
def Tells (write : List Cell → List UInt8) (width : Nat) (rows others : List (List Cell)) : Prop :=
  ∀ r ∈ rows, ∀ s ∈ others, ∀ p q, write r ++ p = write s ++ q →
    settledRow width r = settledRow width s ∧ p = q

theorem Tells.tail {write : List Cell → List UInt8} {width : Nat} {r s : List Cell}
    {rows others : List (List Cell)} (h : Tells write width (r :: rows) (s :: others)) :
    Tells write width rows others := fun r' hr s' hs =>
  h r' (List.mem_cons_of_mem r hr) s' (List.mem_cons_of_mem s hs)

/-- **As many rows are told by what is written for them, one behind the other.** -/
theorem settled_of_flatMap {write : List Cell → List UInt8} {width : Nat} :
    ∀ {rows others : List (List Cell)}, Tells write width rows others →
      rows.length = others.length → rows.flatMap write = others.flatMap write →
      rows.map (settledRow width) = others.map (settledRow width)
  | [], [], _, _, _ => rfl
  | r :: rows, s :: others, hw, hlength, h => by
    rw [List.flatMap_cons, List.flatMap_cons] at h
    obtain ⟨hfirst, hbehind⟩ := hw r List.mem_cons_self s List.mem_cons_self _ _ h
    rw [List.map_cons, List.map_cons, hfirst,
      settled_of_flatMap hw.tail (Nat.succ.inj hlength) hbehind]

/-- A row as a word of eight bytes. -/
def rowWord (rowHash : List Cell → UInt64) (row : List Cell) : List UInt8 :=
  Text.littleEndian 8 (rowHash row).toNat

/-- A hash of rows separates those of two tables that are not the same for the engine. -/
def Separates (rowHash : List Cell → UInt64) (width : Nat) (rows others : List (List Cell)) :
    Prop :=
  ∀ r ∈ rows, ∀ s ∈ others, rowHash r = rowHash s → settledRow width r = settledRow width s

/-- **Words tell rows if they separate them.** -/
theorem rowWord_tells {rowHash : List Cell → UInt64} {width : Nat} {rows others : List (List Cell)}
    (h : Separates rowHash width rows others) : Tells (rowWord rowHash) width rows others := by
  intro r hr s hs p q hbytes
  obtain ⟨hword, hrest⟩ := Text.littleEndian_append_inj (rowHash r).toNat_lt (rowHash s).toNat_lt
    hbytes
  exact ⟨h r hr s hs (UInt64.toNat_inj.mp hword), hrest⟩

/-- **The values of rows tell them**, in two tables with as many columns. -/
theorem codes_tells {t u : Table} (ht : t.Filled) (hu : u.Filled) (hwidth : t.width = u.width) :
    Tells Cell.codes t.width t.rows u.rows := by
  intro r hr s hs p q hbytes
  obtain ⟨hr, hrfits⟩ := ht r hr
  obtain ⟨hs, hsfits⟩ := hu s hs
  rw [← hwidth] at hs
  rw [settledRow_of_length hr, settledRow_of_length hs]
  exact Cell.codes_append_inj hrfits hsfits (hr.trans hs.symm) hbytes

end Table
end Lineage
