import Lineage.Proofs.Dataset.DigestOnce
import Lineage.Proofs.Digest.Blocks
/-
  Digests are told by bytes.

  The digest of some pieces is the beginning of the MD5 digest of all of them together, so it is the
  same however the bytes are cut (`ofPieces_eq_of_flatten`).  Only that there are pieces at all
  matters: of no pieces there is no digest, and of an empty piece there is one.

  A digest is eight hexadecimal digits (`wellFormed_of_begins`).  So is every digest that a dataset
  works out from the hash of its frame; nothing can fail on the way but the frame itself.
-/

namespace Lineage.Digest

open Md5 (IsBlocks padded compress)

/-! ## Digests of bytes -/

/-- Eight characters, each of them a digit or a letter from `a` to `f`. -/
def WellFormed (s : String) : Prop :=
  s.toList.length = 8 ∧ ∀ c ∈ s.toList, c ∈ "0123456789abcdef".toList

/-- The text is the beginning of the MD5 digest of these bytes, by blocks. -/
def Begins (bytes : List UInt8) (s : String) : Prop :=
  ∃ blocks, IsBlocks blocks (padded bytes) ∧
    s = String.ofList ((Text.hex (blocks.foldl compress .initial).bytes).take 8)

/-- The bytes are those of a signed number in two's complement, the lowest first. -/
structure Spell (bytes : List UInt8) (n : Int64) : Prop where
  count : bytes.length = 8
  value : (Text.ofLittleEndian bytes : Int) = n.toInt % 2 ^ 64

theorem mem_hex {bytes : List UInt8} {c : Char} (h : c ∈ Text.hex bytes) :
    c ∈ "0123456789abcdef".toList := by
  have hdigit : ∀ n < 16, Text.hexDigit n ∈ "0123456789abcdef".toList := by decide
  obtain ⟨b, -, hc⟩ := List.mem_flatMap.mp h
  have hb := b.toNat_lt
  simp only [List.mem_cons, List.not_mem_nil, or_false] at hc
  rcases hc with rfl | rfl
  · exact hdigit _ (by omega)
  · exact hdigit _ (by omega)

theorem length_hex (bytes : List UInt8) : (Text.hex bytes).length = 2 * bytes.length := by
  induction bytes with
  | nil => rfl
  | cons b rest ih =>
    show (Text.hex rest).length + 1 + 1 = _
    rw [ih, List.length_cons]
    omega

/-- Feeding pieces one after the other is feeding all of them at once. -/
theorem foldl_feed (pieces : List (List UInt8)) (h : Md5.Hasher) :
    pieces.foldl Md5.Hasher.feed h = h.feed pieces.flatten := List.foldl_flatten.symm

/-- The digest of pieces is the beginning of the MD5 digest of their bytes. -/
theorem ofPieces_eq {pieces : List (List UInt8)} (h : pieces ≠ []) :
    ofPieces pieces =
      .ok (String.ofList ((Text.hex (Md5.digest pieces.flatten)).take 8)) := by
  rw [ofPieces, List.isEmpty_eq_false_iff.mpr h, foldl_feed]
  rfl

/-- There is no digest of no pieces. -/
theorem ofPieces_eq_error_iff {pieces : List (List UInt8)} {f : Failure} :
    ofPieces pieces = .error f ↔ pieces = [] ∧ f = .invalidParameter .nothingToHash := by
  by_cases h : pieces = []
  · subst h
    show Except.error _ = Except.error f ↔ _
    rw [Except.error.injEq, eq_comm]
    exact ⟨fun hf => ⟨rfl, hf⟩, fun hf => hf.2⟩
  · rw [ofPieces_eq h]
    exact iff_of_false (fun hf => by cases hf) fun hf => h hf.1

theorem wellFormed_of_begins {bytes : List UInt8} {s : String} (h : Begins bytes s) :
    WellFormed s := by
  obtain ⟨blocks, -, rfl⟩ := h
  rw [WellFormed, String.toList_ofList]
  constructor
  · rw [List.length_take, length_hex, Md5.Chain.length_bytes]
    rfl
  · exact fun c hc => mem_hex (List.mem_of_mem_take hc)

/-- Of any pieces there is a digest, worked out block by block from their bytes. -/
theorem ofPieces_ok {pieces : List (List UInt8)} (h : pieces ≠ []) :
    ∃ s, ofPieces pieces = .ok s ∧ Begins pieces.flatten s := by
  obtain ⟨count, hcount⟩ := Md5.length_padded pieces.flatten
  obtain ⟨blocks, hblocks⟩ := Md5.exists_blocks count hcount
  exact ⟨_, ofPieces_eq h, blocks, hblocks, by rw [Md5.digest_by_blocks hblocks]⟩

/-- **How bytes are cut does not matter.** -/
theorem ofPieces_eq_of_flatten {pieces others : List (List UInt8)} (h : pieces ≠ [])
    (k : others ≠ []) (hbytes : pieces.flatten = others.flatten) :
    ofPieces pieces = ofPieces others := by
  rw [ofPieces_eq h, ofPieces_eq k, hbytes]

/-! ## Digests of hashes -/

/-- Two's complement: the bytes stand for the number, or for one that is larger by `2 ^ 64`. -/
theorem toNat_toUInt64 (n : Int64) : (n.toUInt64.toNat : Int) = n.toInt % 2 ^ 64 := by
  have hint : n.toInt = (n.toUInt64.toNat : Int).bmod (2 ^ 64) := BitVec.toInt_eq_toNat_bmod _
  have hmod : n.toInt % 2 ^ 64 = (n.toUInt64.toNat : Int) % 2 ^ 64 := by
    rw [hint]
    exact Int.bmod_emod
  have hlt := n.toUInt64.toNat_lt
  omega

/-- The bytes of a number are the ones that are hashed for it. -/
theorem spell_iff {bytes : List UInt8} {n : Int64} : Spell bytes n ↔ bytes = hashBytes n := by
  have hback : Text.ofLittleEndian (hashBytes n) = n.toUInt64.toNat :=
    Text.ofLittleEndian_littleEndian n.toUInt64.toNat_lt
  have hlength : (hashBytes n).length = 8 := Text.length_littleEndian 8 _
  constructor
  · rintro ⟨hcount, hvalue⟩
    rw [← toNat_toUInt64, Int.natCast_inj] at hvalue
    exact Text.ofLittleEndian_injective (hcount.trans hlength.symm) (hvalue.trans hback.symm)
  · rintro rfl
    exact ⟨hlength, by rw [hback, toNat_toUInt64]⟩

/-- The digest of a hash is that of its bytes, however they are cut. -/
theorem ofHash_eq {hash : Int64} {pieces : List (List UInt8)} (h : Spell pieces.flatten hash) :
    ofHash hash = ofPieces pieces := by
  have hne : pieces ≠ [] := by
    rintro rfl
    cases h.count
  refine ofPieces_eq_of_flatten (List.cons_ne_nil _ _) hne ?_
  rw [spell_iff.mp h, List.flatten_singleton]

theorem ofHash_wellFormed {hash : Int64} {s : String} (h : ofHash hash = .ok s) :
    WellFormed s := by
  obtain ⟨s', hs', hbegins⟩ := ofPieces_ok (List.cons_ne_nil (hashBytes hash) [])
  obtain rfl : s' = s := Except.ok.inj (hs'.symm.trans h)
  exact wellFormed_of_begins hbegins

end Digest

/-! ## Digests of datasets -/

namespace Dataset

open Dialogue

variable {F : Type}

/-- The answer of a call for the digest, among other turns, is the failure of the frame in that
call, or the well-formed digest of a hash that the frame has told in some turn. -/
def SoundDigest (d : Dataset F) (turns : List (Turn F)) (t : Turn F)
    (r : Except Failure String) : Prop :=
  (∃ f, r = .error f ∧ hashReplies t.said = [(d.frame, .error f)]) ∨
    ∃ u ∈ turns, ∃ hash s, hashReplies u.said = [(d.frame, .ok hash)] ∧
      Digest.ofHash hash = .ok s ∧ r = .ok s ∧ Digest.WellFormed s

/-- Each turn is one that the dataset of that moment can take. -/
theorem takes_of {d : Dataset F} {turns : List (Turn F)} (h : Takes d turns) :
    ∀ t ∈ turns, ∃ e : Dataset F, t.Of e := by
  induction h with
  | nil => exact fun t ht => absurd ht List.not_mem_nil
  | @cons e u rest hu _ ih =>
    intro t ht
    rcases List.mem_cons.mp ht with rfl | ht
    · exact ⟨e, hu⟩
    · exact ih t ht

/-- A digest is the answer to a call for the digest only. -/
theorem call_of_answer {e : Dataset F} {t : Turn F} (h : t.Of e) {r : Except Failure String}
    (hr : t.answer = .digest r) : t.call = .digest := by
  obtain ⟨call, said, answer, after⟩ := t
  obtain rfl : answer = .digest r := hr
  cases call with
  | digest => rfl
  | profile | schema | split | descriptor | descriptorText =>
    obtain ⟨_, _, hanswer⟩ := runs_mapView.mp h
    cases hanswer

/-- A call for the digest that leaves it open answers with the failure of the frame. -/
theorem LeavesOpen.soundDigest {d e : Dataset F} {t : Turn F} (h : d.LeavesOpen t) (ht : t.Of e)
    {r : Except Failure String} (hr : t.answer = .digest r) (turns : List (Turn F)) :
    d.SoundDigest turns t r := by
  have hasked := h.asked
  rw [call_of_answer ht hr] at hasked
  obtain ⟨f, hreplies, hfailure⟩ := hasked
  cases r with
  | error f' =>
    obtain rfl : f' = f := by
      rw [hr] at hfailure
      exact Option.some.inj hfailure
    exact .inl ⟨f', rfl, hreplies⟩
  | ok s =>
    rw [hr] at hfailure
    cases hfailure

/-- An answer that carries the digest settled in some turn is sound. -/
theorem Settles.soundDigest {d : Dataset F} {turns : List (Turn F)} {u t : Turn F} {hash : Int64}
    {s : String} (h : d.Settles u hash s) (hu : u ∈ turns) (ht : t.answer.Carries s)
    {r : Except Failure String} (hr : t.answer = .digest r) : d.SoundDigest turns t r := by
  rw [hr] at ht
  exact .inr ⟨u, hu, hash, s, h.asked, h.computed, ht, Digest.ofHash_wellFormed h.computed⟩

/-- **What a dataset answers for its digest is sound**, as long as it works it out itself. -/
theorem soundDigest_of_takes {made : List (Exchange F)} {d : Dataset F} (hd : Made none made d)
    {turns : List (Turn F)} (h : Takes d turns) {t : Turn F} (ht : t ∈ turns)
    {r : Except Failure String} (hr : t.answer = .digest r) : d.SoundDigest turns t r := by
  obtain ⟨hunknown, -⟩ := hd.remembers
  obtain ⟨e, he⟩ := takes_of h t ht
  rcases takes_open h hunknown with hall | ⟨before, u, later, hash, s, rfl, hbefore, hu, hlater⟩
  · exact (hall t ht).soundDigest he hr turns
  · have hmem : u ∈ before ++ u :: later := List.mem_append_right before List.mem_cons_self
    rcases List.mem_append.mp ht with hfirst | hrest
    · exact (hbefore t hfirst).soundDigest he hr _
    · rcases List.mem_cons.mp hrest with rfl | hrest
      · exact hu.soundDigest hmem hu.answer hr
      · exact hu.soundDigest hmem (hlater t hrest).answer hr

end Dataset

/-! ## The theorem -/

namespace Digest

open Dataset (Made Takes Turn SoundDigest)

/-- **Digests are well-formed and depend on the bytes alone.**  Only of no pieces there is no
digest.  Otherwise it consists of eight hexadecimal digits, the first ones of the MD5 digest of the
bytes, and pieces with the same bytes have the same digest, wherever they are cut.  Of every hash
there is a digest, the one of its eight bytes in two's complement, cut in any way.  So a dataset
that was given no digest fails to tell it only with the failure of its frame in that very call, and
otherwise tells the digest of a hash of its frame, which is eight hexadecimal digits. -/
theorem digests_told_by_bytes :
    (∀ pieces f, ofPieces pieces = .error f ↔
      pieces = [] ∧ f = .invalidParameter .nothingToHash) ∧
    (∀ pieces, pieces ≠ [] →
      ∃ s, ofPieces pieces = .ok s ∧ WellFormed s ∧ Begins pieces.flatten s) ∧
    (∀ pieces others, pieces ≠ [] → others ≠ [] → pieces.flatten = others.flatten →
      ofPieces pieces = ofPieces others) ∧
    (∀ hash, (∃ s, ofHash hash = .ok s) ∧ (∃ bytes, Spell bytes hash) ∧
      ∀ pieces, Spell pieces.flatten hash → ofHash hash = ofPieces pieces) ∧
    ∀ {F : Type} {made : List (Exchange F)} {d : Dataset F} {turns : List (Turn F)},
      Made none made d → Takes d turns →
        ∀ t ∈ turns, ∀ r, t.answer = .digest r → d.SoundDigest turns t r := by
  refine ⟨fun pieces f => ofPieces_eq_error_iff, fun pieces h => ?_,
    fun pieces others => ofPieces_eq_of_flatten,
    fun hash => ⟨Dataset.ofHash_ok hash, ⟨hashBytes hash, spell_iff.mpr rfl⟩,
      fun pieces => ofHash_eq⟩,
    fun hd h t ht r => Dataset.soundDigest_of_takes hd h ht⟩
  obtain ⟨s, hs, hbegins⟩ := ofPieces_ok h
  exact ⟨s, hs, wellFormed_of_begins hbegins, hbegins⟩

/-- The digest of three letters, cut in two. -/
example : (ofPieces [Text.utf8 "a", [], Text.utf8 "bc"]).toOption = some "90015098" := by
  decide +kernel

/-- Bytes that reach from one block into the next, in pieces. -/
def spread : List (List UInt8) := [List.replicate 63 0x61, [], [0x62, 0x63], []]

/-- The bytes of a negative number, in pieces. -/
def minusSeven : List (List UInt8) := [[0xf9, 0xff], [], [0xff, 0xff, 0xff, 0xff, 0xff, 0xff]]

/-- A dataset over a stand-in for a frame. -/
def unwatched : Dataset Unit := .fresh () (.table (.tableName "t")) ⟨none, none, none⟩ .standard

/-- The digest is asked for twice, first in vain. -/
def twoCalls (s : String) : List (Turn Unit) :=
  [⟨.digest, [⟨.planHash (), .error (.tableNotFound "t")⟩], .digest (.error (.tableNotFound "t")),
      unwatched⟩,
    ⟨.digest, [⟨.planHash (), .ok (-7)⟩, ⟨.note (.digestComputed unwatched.name s), ()⟩],
      .digest (.ok s), { unwatched with knownDigest := some s }⟩]

theorem pieces_told_by_bytes :
    (spread ≠ [] ∧ [spread.flatten] ≠ [] ∧ spread.flatten = [spread.flatten].flatten ∧
      ofPieces spread = ofPieces [spread.flatten]) ∧
    (∃ s, ofPieces [[]] = .ok s ∧ WellFormed s ∧ Begins [[]].flatten s) ∧
    (Spell minusSeven.flatten (-7) ∧ ofHash (-7) = ofPieces minusSeven) ∧
    ∃ s, Made none [] unwatched ∧ Takes unwatched (twoCalls s) ∧
      ∀ t ∈ twoCalls s, ∀ r, t.answer = .digest r →
        unwatched.SoundDigest (twoCalls s) t r := by
  obtain ⟨-, hwell, hcut, hhash, hdataset⟩ := digests_told_by_bytes
  have hjoined : spread.flatten = [spread.flatten].flatten := List.flatten_singleton.symm
  have hspell : Spell minusSeven.flatten (-7) := ⟨rfl, by decide⟩
  obtain ⟨s, hs⟩ := Dataset.ofHash_ok (-7)
  have hmake : Dialogue.Runs
      (Dataset.make () unwatched.source ⟨none, none, none⟩ unwatched.options) [] (.ok unwatched) :=
    Dialogue.runs_pure.mpr ⟨rfl, rfl⟩
  have hmade : Made none [] unwatched := .direct hmake rfl
  have htakes : Takes unwatched (twoCalls s) := by
    refine .cons (Dataset.runs_mapView.mpr ⟨_, Dataset.runs_digest.mpr (.failed rfl), rfl⟩) ?_
    refine .cons (Dataset.runs_mapView.mpr
      ⟨_, Dataset.runs_digest.mpr (.computed rfl hs (Dialogue.runs_pure.mpr ⟨rfl, rfl⟩)), rfl⟩) ?_
    exact .nil
  exact ⟨⟨List.cons_ne_nil _ _, List.cons_ne_nil _ _, hjoined,
      hcut _ _ (List.cons_ne_nil _ _) (List.cons_ne_nil _ _) hjoined⟩,
    hwell _ (List.cons_ne_nil _ _), ⟨hspell, (hhash (-7)).2.2 _ hspell⟩, s, hmade, htakes,
    hdataset hmade htakes⟩

end Digest
end Lineage
