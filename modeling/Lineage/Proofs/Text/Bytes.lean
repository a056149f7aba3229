import Lineage.Text.Hex
/-
  Texts and numbers as bytes.

  What is written as bytes can be told from the bytes: a text of any kind (`utf8_injective`), and a
  number in a known count of bytes (`littleEndian_append_inj`).  Two strings of bytes that have a
  separator in them fall into the same pieces, if the separator stands in neither of the pieces in
  front of it (`split_at`).  Any character below 128 can separate texts, for its byte is among the
  bytes of a text only if the text holds that character (`not_mem_utf8`); the zero is one of these.
-/

namespace Lineage.Text

/-! ## Separators -/

/-- **What stands in front of the first separator, and what stands behind it.** -/
theorem split_at {α : Type} {x : α} {rest more : List α} :
    ∀ {front first : List α}, x ∉ front → x ∉ first →
      front ++ x :: rest = first ++ x :: more → front = first ∧ rest = more
  | [], [], _, _, h => ⟨rfl, (List.cons.inj h).2⟩
  | [], b :: first, _, hfirst, h => by
    obtain rfl : x = b := (List.cons.inj h).1
    exact absurd List.mem_cons_self hfirst
  | a :: front, [], hfront, _, h => by
    obtain rfl : a = x := (List.cons.inj h).1
    exact absurd List.mem_cons_self hfront
  | a :: front, b :: first, hfront, hfirst, h => by
    obtain ⟨hhead, htail⟩ := List.cons.inj h
    obtain ⟨hsame, hrest⟩ := split_at (fun hx => hfront (List.mem_cons_of_mem a hx))
      (fun hx => hfirst (List.mem_cons_of_mem b hx)) htail
    exact ⟨by rw [hhead, hsame], hrest⟩

/-- What stands behind the last separator, and what stands in front of it. -/
theorem split_at_last {α : Type} {x : α} {front first back last : List α} (hback : x ∉ back)
    (hlast : x ∉ last) (h : front ++ x :: back = first ++ x :: last) :
    front = first ∧ back = last := by
  have hreverse := congrArg List.reverse h
  rw [List.reverse_append, List.reverse_append, List.reverse_cons, List.reverse_cons,
    List.append_assoc, List.append_assoc, List.singleton_append, List.singleton_append] at hreverse
  obtain ⟨hpieces, hrest⟩ := split_at (fun hx => hback (List.mem_reverse.mp hx))
    (fun hx => hlast (List.mem_reverse.mp hx)) hreverse
  exact ⟨List.reverse_inj.mp hrest, List.reverse_inj.mp hpieces⟩

/-! ## Texts -/

theorem toList_loop (bs : ByteArray) : ∀ (i : Nat) (before : List UInt8),
    ByteArray.toList.loop bs i before = before.reverse ++ bs.data.toList.drop i := by
  intro i before
  induction i, before using ByteArray.toList.loop.induct bs with
  | case1 i before hlt ih =>
    have hsize : i < bs.data.toList.length := by
      rw [Array.length_toList, ByteArray.size_data]
      exact hlt
    have hget : bs.get! i = bs.data.toList[i] := by
      show bs.data[i]! = _
      rw [getElem!_pos bs.data i (by rw [ByteArray.size_data]; exact hlt), Array.getElem_toList]
    rw [ByteArray.toList.loop, if_pos hlt, ih, List.drop_eq_getElem_cons hsize, hget,
      List.reverse_cons, List.append_assoc, List.singleton_append]
  | case2 i before hge =>
    have hsize : bs.data.toList.length ≤ i := by
      rw [Array.length_toList, ByteArray.size_data]
      omega
    rw [ByteArray.toList.loop, if_neg hge, List.drop_eq_nil_of_le hsize, List.append_nil]

/-- The bytes of a text are those of its characters. -/
theorem utf8_eq (s : String) : utf8 s = s.toList.flatMap String.utf8EncodeChar := by
  show ByteArray.toList.loop s.toByteArray 0 [] = _
  rw [toList_loop, List.reverse_nil, List.nil_append, List.drop_zero, ← String.utf8Encode_toList,
    List.utf8Encode, List.toList_data_toByteArray]

theorem utf8_append (s t : String) : utf8 (s ++ t) = utf8 s ++ utf8 t := by
  rw [utf8_eq, utf8_eq, utf8_eq, String.toList_append, List.flatMap_append]

/-- **Texts with the same bytes are the same.** -/
theorem utf8_injective {s t : String} (h : utf8 s = utf8 t) : s = t := by
  rw [utf8_eq, utf8_eq] at h
  rw [← String.toByteArray_inj, ← String.utf8Encode_toList, ← String.utf8Encode_toList,
    List.utf8Encode, List.utf8Encode, h]

/-- A character whose number is a byte below 128 is among the bytes of no other character. -/
theorem not_mem_utf8EncodeChar {x c : Char} (hx : x.toNat < 128) (h : c ≠ x) :
    UInt8.ofNat x.toNat ∉ String.utf8EncodeChar c := by
  have hpos : c.val.toNat ≠ x.toNat := fun heq => h (Char.toNat_inj.mp heq)
  have hne : ∀ n : Nat, n ≠ x.toNat → n < 256 → UInt8.ofNat x.toNat ≠ UInt8.ofNat n := by
    intro n hother hhigh heq
    have hn := congrArg UInt8.toNat heq
    rw [UInt8.toNat_ofNat_of_lt' (show x.toNat < 256 by omega),
      UInt8.toNat_ofNat_of_lt' hhigh] at hn
    exact hother hn.symm
  rw [String.utf8EncodeChar]
  split
  · rename_i hle
    simp only [List.mem_singleton]
    exact hne _ (by omega) (by omega)
  split
  · simp only [List.mem_cons, List.not_mem_nil, or_false, not_or]
    exact ⟨hne _ (by omega) (by omega), hne _ (by omega) (by omega)⟩
  split
  · simp only [List.mem_cons, List.not_mem_nil, or_false, not_or]
    exact ⟨hne _ (by omega) (by omega), hne _ (by omega) (by omega), hne _ (by omega) (by omega)⟩
  · simp only [List.mem_cons, List.not_mem_nil, or_false, not_or]
    exact ⟨hne _ (by omega) (by omega), hne _ (by omega) (by omega), hne _ (by omega) (by omega),
      hne _ (by omega) (by omega)⟩

theorem not_mem_utf8 {x : Char} {s : String} (hx : x.toNat < 128) (h : x ∉ s.toList) :
    UInt8.ofNat x.toNat ∉ utf8 s := by
  rw [utf8_eq, List.mem_flatMap]
  rintro ⟨c, hc, hbyte⟩
  have hne : c ≠ x := by
    rintro rfl
    exact h hc
  exact not_mem_utf8EncodeChar hx hne hbyte

theorem zero_not_mem_utf8 {s : String} (h : '\x00' ∉ s.toList) : (0 : UInt8) ∉ utf8 s :=
  not_mem_utf8 (by decide) h

/-- Every character has a byte at least. -/
theorem length_le_utf8 (s : String) : s.toList.length ≤ (utf8 s).length := by
  rw [utf8_eq]
  induction s.toList with
  | nil => exact Nat.le_refl 0
  | cons c cs ih =>
    have hc : 0 < (String.utf8EncodeChar c).length := by
      rw [String.length_utf8EncodeChar]
      exact c.utf8Size_pos
    rw [List.flatMap_cons, List.length_append, List.length_cons]
    omega

/-! ## Numbers -/

theorem length_littleEndian : ∀ count n, (littleEndian count n).length = count
  | 0, _ => rfl
  | count + 1, n => congrArg (· + 1) (length_littleEndian count (n / 256))

/-- Bytes of one length that stand for the same number are the same. -/
theorem ofLittleEndian_injective : ∀ {bs cs : List UInt8}, bs.length = cs.length →
    ofLittleEndian bs = ofLittleEndian cs → bs = cs
  | [], [], _, _ => rfl
  | b :: bs, c :: cs, hlength, h => by
    have hb := b.toNat_lt
    have hc := c.toNat_lt
    simp only [ofLittleEndian] at h
    have hfirst : b = c := UInt8.toNat_inj.mp (by omega)
    have hrest : bs = cs :=
      ofLittleEndian_injective (Nat.succ.inj hlength) (by omega)
    rw [hfirst, hrest]

/-- The number of some bytes is one of that many. -/
theorem ofLittleEndian_lt : ∀ bs : List UInt8, ofLittleEndian bs < 256 ^ bs.length
  | [] => Nat.one_pos
  | b :: bs => by
    have hb := b.toNat_lt
    have hbs := ofLittleEndian_lt bs
    rw [ofLittleEndian, List.length_cons, Nat.pow_succ]
    omega

/-- The bytes of a number stand for it, if there are enough of them. -/
theorem ofLittleEndian_littleEndian : ∀ {count n : Nat}, n < 256 ^ count →
    ofLittleEndian (littleEndian count n) = n
  | 0, n, h => (Nat.lt_one_iff.mp h).symm
  | count + 1, n, h => by
    have hrest : n / 256 < 256 ^ count := by
      rw [Nat.pow_succ] at h
      omega
    have hbyte : (UInt8.ofNat n).toNat = n % 256 := UInt8.toNat_ofNat
    rw [littleEndian, ofLittleEndian, ofLittleEndian_littleEndian hrest, hbyte]
    omega

/-- **A number is told by its bytes**, whatever follows them. -/
theorem littleEndian_append_inj {count n m : Nat} {p q : List UInt8} (hn : n < 256 ^ count)
    (hm : m < 256 ^ count) (h : littleEndian count n ++ p = littleEndian count m ++ q) :
    n = m ∧ p = q := by
  obtain ⟨hnumber, hrest⟩ := List.append_inj h
    ((length_littleEndian count n).trans (length_littleEndian count m).symm)
  have hvalue := congrArg ofLittleEndian hnumber
  rw [ofLittleEndian_littleEndian hn, ofLittleEndian_littleEndian hm] at hvalue
  exact ⟨hvalue, hrest⟩

end Lineage.Text
