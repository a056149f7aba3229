import Lineage.Proofs.Text.Bytes
import Lineage.Md5
/-
  MD5 block by block.

  The hasher takes bytes one at a time and keeps those of the block begun; it never sees the whole
  string.  What comes out of it is the digest of the whole string all the same: pad the string to
  blocks of 64 bytes, work one block after the other into the chain, and read the chain out
  (`digest_by_blocks`).

  The invariant is in `feed_within` and `feed_block`.  As long as a block is not full its bytes only
  wait, the last one in front; with the 64th byte they are worked in all at once, in order, and the
  hasher stands as it stood before the block, but for the chain and the length.
-/

namespace Lineage.Md5

/-- The words of a chain as bytes, from the first word on and the lowest byte of each first. -/
def Chain.bytes (c : Chain) : List UInt8 :=
  [c.a, c.b, c.c, c.d].flatMap fun w => Text.littleEndian 4 w.toNat

theorem Chain.length_bytes (c : Chain) : c.bytes.length = 16 := rfl

/-- A string with what fills its last block. -/
def padded (bytes : List UInt8) : List UInt8 := bytes ++ Hasher.padding bytes.length

/-- The blocks of 64 bytes that a string consists of. -/
structure IsBlocks (blocks : List (List UInt8)) (bytes : List UInt8) : Prop where
  size : ∀ block ∈ blocks, block.length = 64
  joined : blocks.flatten = bytes

/-! ## Blocks -/

/-- A string whose length is a multiple of 64 consists of blocks. -/
theorem exists_blocks : ∀ (count : Nat) {bytes : List UInt8}, bytes.length = 64 * count →
    ∃ blocks, IsBlocks blocks bytes
  | 0, bytes, h => by
    obtain rfl := List.length_eq_zero_iff.mp h
    exact ⟨[], fun _ hb => absurd hb List.not_mem_nil, rfl⟩
  | count + 1, bytes, h => by
    have hfirst : (bytes.take 64).length = 64 := by
      rw [List.length_take]
      omega
    have hrest : (bytes.drop 64).length = 64 * count := by
      rw [List.length_drop]
      omega
    obtain ⟨blocks, hsize, hjoined⟩ := exists_blocks count hrest
    refine ⟨bytes.take 64 :: blocks, List.forall_mem_cons.mpr ⟨hfirst, hsize⟩, ?_⟩
    rw [List.flatten_cons, hjoined, List.take_append_drop]

/-- The padding fills the last block. -/
theorem length_padded (bytes : List UInt8) : ∃ count, (padded bytes).length = 64 * count := by
  refine ⟨(padded bytes).length / 64, ?_⟩
  have hpadding : (Hasher.padding bytes.length).length =
      1 + (119 - bytes.length % 64) % 64 + 8 := by
    simp only [Hasher.padding, List.length_append, List.length_cons, List.length_replicate,
      Text.length_littleEndian]
    omega
  rw [padded, List.length_append, hpadding]
  omega

/-! ## Feeding -/

namespace Hasher

theorem feed_append (h : Hasher) (bytes more : List UInt8) :
    h.feed (bytes ++ more) = (h.feed bytes).feed more := List.foldl_append

theorem length_push (h : Hasher) (byte : UInt8) : (h.push byte).length = h.length + 1 := by
  unfold push
  split <;> rfl

theorem length_feed (bytes : List UInt8) :
    ∀ h : Hasher, (h.feed bytes).length = h.length + bytes.length := by
  induction bytes with
  | nil => exact fun h => rfl
  | cons byte rest ih =>
    intro h
    show ((h.push byte).feed rest).length = _
    rw [ih, length_push, List.length_cons]
    omega

/-- Bytes that do not fill the block begun wait, the last one in front. -/
theorem feed_within (bytes : List UInt8) :
    ∀ h : Hasher, h.length % 64 + bytes.length < 64 →
      h.feed bytes = ⟨h.chain, bytes.reverse ++ h.pending, h.length + bytes.length⟩ := by
  induction bytes with
  | nil => exact fun h _ => rfl
  | cons byte rest ih =>
    intro h hroom
    rw [List.length_cons] at hroom
    have hopen : h.length % 64 ≠ 63 := by omega
    have hpush : h.push byte = ⟨h.chain, byte :: h.pending, h.length + 1⟩ := if_neg hopen
    show (h.push byte).feed rest = _
    rw [hpush, ih _ (by dsimp only; omega), List.reverse_cons, List.append_assoc,
      List.singleton_append, List.length_cons]
    simp only [Nat.add_assoc, Nat.add_comm 1]

/-- A whole block is worked into the chain, and nothing of it waits. -/
theorem feed_block {block : List UInt8} (hblock : block.length = 64) (c : Chain) (count : Nat) :
    feed ⟨c, [], 64 * count⟩ block = ⟨compress c block, [], 64 * (count + 1)⟩ := by
  obtain ⟨waiting, last, rfl⟩ : ∃ waiting last, block = waiting ++ [last] := by
    rcases List.eq_nil_or_concat block with rfl | ⟨waiting, last, h⟩
    · cases hblock
    · exact ⟨waiting, last, h.trans List.concat_eq_append⟩
  have hwaiting : waiting.length = 63 := by
    rw [List.length_append, List.length_singleton] at hblock
    omega
  have hfull : (64 * count + 63) % 64 = 63 := by omega
  rw [feed_append, feed_within waiting ⟨c, [], 64 * count⟩ (by dsimp only; omega),
    List.append_nil, hwaiting]
  show push _ last = _
  unfold push
  simp only [hfull, if_true, List.reverse_cons, List.reverse_reverse]
  rfl

/-- Blocks are worked into the chain one after the other. -/
theorem feed_blocks : ∀ {blocks : List (List UInt8)}, (∀ block ∈ blocks, block.length = 64) →
    ∀ (c : Chain) (count : Nat), feed ⟨c, [], 64 * count⟩ blocks.flatten =
      ⟨blocks.foldl compress c, [], 64 * (count + blocks.length)⟩
  | [], _, _, _ => rfl
  | block :: rest, h, c, count => by
    obtain ⟨hblock, hrest⟩ := List.forall_mem_cons.mp h
    rw [List.flatten_cons, feed_append, feed_block hblock, feed_blocks hrest, List.foldl_cons,
      List.length_cons, Nat.add_assoc, Nat.add_comm 1]

end Hasher

/-! ## Digests -/

/-- **The digest is that of the padded string, block by block.** -/
theorem digest_by_blocks {blocks : List (List UInt8)} {bytes : List UInt8}
    (h : IsBlocks blocks (padded bytes)) :
    digest bytes = (blocks.foldl compress .initial).bytes := by
  have hlength : (Hasher.start.feed bytes).length = bytes.length := by
    rw [Hasher.length_feed]
    exact Nat.zero_add _
  have hfed : Hasher.start.feed (padded bytes) =
      ⟨blocks.foldl compress .initial, [], 64 * (0 + blocks.length)⟩ := by
    rw [← h.joined]
    exact Hasher.feed_blocks h.size .initial 0
  show Chain.bytes ((Hasher.start.feed bytes).feed
    (Hasher.padding (Hasher.start.feed bytes).length)).chain = _
  rw [hlength, ← Hasher.feed_append, ← padded, hfed]

end Lineage.Md5
