import Lineage.Proofs.Catalog.SnapshotFiles
import Lineage.Proofs.Table.DataHash
/-
  What the hash of a plan tells of the data behind it.

  For a table in memory the hash tells the rows (`Plan.hashesDiffer_of_apart`).  For a version of a
  directory it does not look at the rows: there the path of the file stands for the data.  Paths of
  different versions differ in the number alone, and it is told from the end of the bytes
  (`version_of_bytes`): in `v10.parquet` nothing behind the first letter is that letter again, so
  the last one in the bytes is where the number begins, whatever the path of the directory may be.

  So two versions never have one hash.  That their hashes are answered at all is another matter.
  The file that is counted for a version is found by the names in the directory; the file that is
  scanned is found by its path, and there the signs of a pattern are read as such, also in the name
  of the directory.  A directory without signs in its path is fine (`hash_of_holds`); one that is
  called `n[1]` has versions, and none of them has a hash (`bracketed_versions_unhashed`).
-/

namespace Lineage.Snapshots

open Plan (DigestsTell HashesDiffer hashOf)

variable {t : FileTree} {path : String} {v w : UInt64} {key : FileKey} {table : Table}

/-! ## The number at the end of the bytes -/

/-- The name of a version behind its first letter. -/
def behindLetter (v : UInt64) : String := toString v ++ ".parquet"

theorem usualName_eq (v : UInt64) : usualName v = "v" ++ behindLetter v := by
  rw [usualName, behindLetter, String.append_assoc]

theorem usualName_injective (h : usualName v = usualName w) : v = w := by
  have hversion := congrArg version? h
  rw [version?_usualName, version?_usualName] at hversion
  exact Option.some.inj hversion

/-- The letter does not come again. -/
theorem letter_not_mem (v : UInt64) :
    UInt8.ofNat 'v'.toNat ∉ Text.utf8 (behindLetter v) ++ [0] := by
  have htoList : (behindLetter v).toList = Nat.toDigits 10 v.toNat ++ ending := by
    have hname := congrArg String.toList (usualName_eq v)
    rw [usualName_toList, String.toList_append] at hname
    exact (List.cons.inj hname).2.symm
  have hletter : 'v' ∉ (behindLetter v).toList := by
    rw [htoList, List.mem_append, not_or]
    refine ⟨?_, by decide⟩
    intro hmem
    have hdigit := List.all_eq_true.mp (Decimal.isDigit_toDigits v.toNat) _ hmem
    exact absurd hdigit (by decide)
  rw [List.mem_append, not_or]
  exact ⟨Text.not_mem_utf8 (by decide) hletter, by decide⟩

/-- The bytes of the path of a version: the letter, and behind it the number. -/
theorem utf8_filePath (path : String) (v : UInt64) :
    ∃ front, Text.utf8 (filePath path v) ++ [0] =
      front ++ UInt8.ofNat 'v'.toNat :: (Text.utf8 (behindLetter v) ++ [0]) := by
  have hv : Text.utf8 "v" = [UInt8.ofNat 'v'.toNat] := by
    rw [Text.utf8_eq]
    decide
  obtain ⟨directory, hpath⟩ : ∃ directory,
      filePath path v = directory ++ ("v" ++ behindLetter v) := by
    refine ⟨path ++ if path.isEmpty || path.endsWith "/" then "" else "/", ?_⟩
    simp only [filePath, behindLetter, String.append_assoc]
  refine ⟨Text.utf8 directory, ?_⟩
  rw [hpath, Text.utf8_append, Text.utf8_append, hv, List.append_assoc, List.append_assoc,
    List.singleton_append]

/-- **Bytes that end in the path of a version tell the version.** -/
theorem version_of_bytes {front first : List UInt8}
    (h : front ++ (Text.utf8 (filePath path v) ++ [0]) =
      first ++ (Text.utf8 (filePath path w) ++ [0])) : v = w := by
  obtain ⟨before, hv⟩ := utf8_filePath path v
  obtain ⟨before', hw⟩ := utf8_filePath path w
  rw [hv, hw, ← List.append_assoc, ← List.append_assoc] at h
  obtain ⟨-, hnumber⟩ := Text.split_at_last (letter_not_mem v) (letter_not_mem w) h
  have hsame : behindLetter v = behindLetter w :=
    Text.utf8_injective (List.append_cancel_right hnumber)
  exact usualName_injective (by rw [usualName_eq, usualName_eq, hsame])

/-- What is hashed for a plan over the file of a version ends in the path of the file. -/
theorem bytes_of_version {p : Plan} {format : FileFormat} {scan : Nat} {seen : Look}
    {b : List UInt8} (hp : p.origin = .files format (filePath path v) scan)
    (h : p.hashedBytes seen = .ok b) :
    ∃ front, b = front ++ (Text.utf8 (filePath path v) ++ [0]) := by
  obtain ⟨text, columns, -, -, hbytes⟩ := Plan.parts_of_hashedBytesBy h
  rw [hp] at hbytes
  exact ⟨Text.utf8 text ++ Plan.schemaBytes columns, hbytes⟩

/-- **Two versions never have one hash**: neither when steps follow, nor when the files have
changed in between. -/
theorem hash_ne_of_versions {p q : Plan} {format : FileFormat} {scan scan' : Nat}
    {seen seen' : Look} {h k : Int64} (hvw : v ≠ w)
    (hp : p.origin = .files format (filePath path v) scan)
    (hq : q.origin = .files format (filePath path w) scan')
    (hmd5 : DigestsTell (p.hashedBytes seen) (q.hashedBytes seen'))
    (hh : p.semanticHash seen = .ok h) (hk : q.semanticHash seen' = .ok k) : h ≠ k := by
  obtain ⟨b, hb, rfl⟩ := Plan.bytes_of_semanticHashBy hh
  obtain ⟨c, hc, rfl⟩ := Plan.bytes_of_semanticHashBy hk
  refine Plan.hashOf_ne hb hc hmd5 ?_
  rintro rfl
  obtain ⟨front, hfront⟩ := bytes_of_version hp hb
  obtain ⟨first, hfirst⟩ := bytes_of_version hq hc
  exact hvw (version_of_bytes (hfront.symm.trans hfirst))

/-! ## The hash of a version is answered -/

/-- The plan over the file of a version. -/
def versionPlan (path : String) (v : UInt64) (scan : Nat) : Plan :=
  ⟨.files .parquet (filePath path v) scan, []⟩

/-- What is hashed for a plan, with files looked at in a tree. -/
def bytesIn (t : FileTree) (p : Plan) : Except Failure (List UInt8) := do
  p.hashedBytes (← p.origin.look t)

/-- The hash of a plan, with files looked at in a tree. -/
def hashIn (t : FileTree) (p : Plan) : Except Failure Int64 := do
  p.semanticHash (← p.origin.look t)

/-- Both go by what is seen of the origin. -/
theorem hashIn_of_look {p : Plan} {seen : Look} (h : p.origin.look t = .ok seen) :
    bytesIn t p = p.hashedBytes seen ∧ hashIn t p = p.semanticHash seen := by
  rw [bytesIn, hashIn, h]
  exact ⟨rfl, rfl⟩

/-- A directory holds a table under the usual name of a version. -/
structure Holds (t : FileTree) (path : String) (v : UInt64) (key : FileKey) (table : Table) :
    Prop where
  located : t.locate path = .ok key
  directory : t.isDirectory key = true
  present : t.get? (key ++ [usualName v]) = some (.file (.table table))

/-- The file of a version can be scanned by its path: the directory is one that is looked into, its
path has no signs of a pattern, and there is room for the name. -/
structure Scannable (path : String) (v : UInt64) : Prop where
  searched : startsEmpty path = false
  literal : Files.isPattern path = false
  short : (filePath path v).utf8ByteSize ≤ FileTree.longestPath

/-- A table under the usual name makes its version count. -/
theorem Holds.counts (h : Holds t path v key table) (hs : startsEmpty path = false) :
    Counts t path v key (usualName v) (.file (.table table)) :=
  ⟨h.located, h.directory, hs, h.present, version?_usualName v⟩

/-- What is loaded for a version that is held. -/
theorem Holds.load (h : Holds t path v key table) (hs : startsEmpty path = false) (scan : Nat) :
    (Catalog.loadPath t path (some v) scan).2 = .ok (versionPlan path v scan) := by
  have hmem : v ∈ versions t path := mem_versions_iff.mpr ⟨_, _, _, h.counts hs⟩
  rw [loadPath_of_mem hmem]
  rfl

/-- What is seen of a version that is held: the columns and the height of its table. -/
theorem look_of_holds (h : Holds t path v key table) (hs : Scannable path v) :
    Files.look t .parquet (filePath path v) =
      .ok ⟨[filePath path v], table.columns, 0 + table.height⟩ := by
  have hlocate := locate_filePath h.located h.directory hs.short
  have hreadable : Readable t path v := ⟨key, _, _, h.counts hs.searched, hlocate⟩
  have htable : Files.tableAt t (filePath path v) = .ok table := by
    rw [Files.tableAt, Files.contentAt, FileTree.open?_of_locate hlocate, h.present]
    rfl
  rw [Files.look, pathsOf_of_readable hreadable hs.literal]
  simp only [bind, Except.bind, Files.ofFirst, List.mapM_cons, List.mapM_nil, htable]
  rfl

/-- **The hash of a version is answered** if its directory holds a table for it. -/
theorem hash_of_holds (h : Holds t path v key table) (hs : Scannable path v) (scan : Nat) :
    ∃ seen hash, Files.look t .parquet (filePath path v) = .ok seen ∧
      (versionPlan path v scan).semanticHash seen = .ok hash :=
  ⟨_, _, look_of_holds h hs, rfl⟩

/-- **Two versions that a directory holds have different hashes**, whatever their tables are. -/
theorem hashesDiffer_of_holds {table' : Table} {scan scan' : Nat} (hvw : v ≠ w)
    (hv : Holds t path v key table) (hw : Holds t path w key table') (hsv : Scannable path v)
    (hsw : Scannable path w)
    (hmd5 : DigestsTell (bytesIn t (versionPlan path v scan))
      (bytesIn t (versionPlan path w scan'))) :
    HashesDiffer (hashIn t (versionPlan path v scan)) (hashIn t (versionPlan path w scan')) := by
  obtain ⟨seen, h, hlook, hh⟩ := hash_of_holds hv hsv scan
  obtain ⟨seen', k, hlook', hk⟩ := hash_of_holds hw hsw scan'
  obtain ⟨hbytes, hhash⟩ := hashIn_of_look (p := versionPlan path v scan) hlook
  obtain ⟨hbytes', hhash'⟩ := hashIn_of_look (p := versionPlan path w scan') hlook'
  rw [hbytes, hbytes'] at hmd5
  exact ⟨h, k, hhash.trans hh, hhash'.trans hk,
    hash_ne_of_versions hvw rfl rfl hmd5 hh hk⟩

/-! ## Different data -/

/-- **Different data have different hashes**, if the first eight bytes of the digests tell what is
hashed.

1. The same steps over two tables with the same columns have different hashes if the tables differ
   in their heights, in a value or in the order of their rows, even if the steps make the same of
   both.  Rows may be written as words of eight bytes here, by any hash that separates them.
2. So it is if rows are written by their values.
3. Two versions that a directory holds are loaded, their hashes are answered, and they differ, even
   if the tables are the same.  The path of the directory must have no signs of a pattern, it must
   be one that is looked into, and there must be room for the names.
4. Whatever the directory and whatever steps follow, two versions never have one hash. -/
theorem hash_tells_data (rowHash : List Cell → UInt64) (steps : List Step) (t u : Table)
    (files : FileTree) (path : String) (v w : UInt64) (scan scan' : Nat) :
    (Plan.Apart steps t u → Table.Separates rowHash t.width t.rows u.rows →
      DigestsTell ((Plan.onTable t steps).hashedBytesBy (Table.rowWord rowHash) (.ofTable t))
        ((Plan.onTable u steps).hashedBytesBy (Table.rowWord rowHash) (.ofTable u)) →
      HashesDiffer ((Plan.onTable t steps).semanticHashBy (Table.rowWord rowHash) (.ofTable t))
        ((Plan.onTable u steps).semanticHashBy (Table.rowWord rowHash) (.ofTable u))) ∧
    (Plan.Apart steps t u → t.Filled → u.Filled →
      DigestsTell ((Plan.onTable t steps).hashedBytes (.ofTable t))
        ((Plan.onTable u steps).hashedBytes (.ofTable u)) →
      HashesDiffer ((Plan.onTable t steps).semanticHash (.ofTable t))
        ((Plan.onTable u steps).semanticHash (.ofTable u))) ∧
    (∀ key table table', v ≠ w → Holds files path v key table → Holds files path w key table' →
      Scannable path v → Scannable path w →
      DigestsTell (bytesIn files (versionPlan path v scan))
        (bytesIn files (versionPlan path w scan')) →
      (Catalog.loadPath files path (some v) scan).2 = .ok (versionPlan path v scan) ∧
      (Catalog.loadPath files path (some w) scan').2 = .ok (versionPlan path w scan') ∧
      HashesDiffer (hashIn files (versionPlan path v scan))
        (hashIn files (versionPlan path w scan'))) ∧
    (∀ (p q : Plan) (seen seen' : Look) (h k : Int64), v ≠ w →
      p.origin = .files .parquet (filePath path v) scan →
      q.origin = .files .parquet (filePath path w) scan' →
      DigestsTell (p.hashedBytes seen) (q.hashedBytes seen') →
      p.semanticHash seen = .ok h → q.semanticHash seen' = .ok k → h ≠ k) := by
  refine ⟨?_, ?_, ?_, ?_⟩
  · intro hapart hseparates hmd5
    exact Plan.hashesDiffer_of_apart hapart (Table.rowWord_tells hseparates) hmd5
  · intro hapart ht hu hmd5
    have hwidth : t.width = u.width := congrArg List.length hapart.columns
    exact Plan.hashesDiffer_of_apart hapart (Table.codes_tells ht hu hwidth) hmd5
  · intro key table table' hvw hv hw hsv hsw hmd5
    exact ⟨hv.load hsv.searched scan, hw.load hsw.searched scan',
      hashesDiffer_of_holds hvw hv hw hsv hsw hmd5⟩
  · intro p q seen seen' h k hvw hp hq hmd5 hh hk
    exact hash_ne_of_versions hvw hp hq hmd5 hh hk

/-- A table with two rows. -/
def twoRows (a b : Int) : Table := ⟨[("x", .i64)], [[.int a], [.int b]]⟩

/-- A directory with two files that hold the same table.  It stands in the working directory. -/
def holdingTwice (directory name other : String) : FileTree :=
  ⟨[(["w"], .directory), (["w", directory], .directory),
    (["w", directory, name], .file (.table oneRow)),
    (["w", directory, other], .file (.table oneRow))], ["w"]⟩

/-- A directory with two versions. -/
def plain : FileTree := holdingTwice "d" "v1.parquet" "v10.parquet"

/-- A directory with two versions, and with the sign of a pattern in its name. -/
def bracketed : FileTree := holdingTwice "n[1]" "v0.parquet" "v1.parquet"

/-- A word for a row: the hash of its values. -/
def hashedValues (row : List Cell) : UInt64 := (hashOf (Cell.codes row)).toUInt64

theorem apart_twoRows : Plan.Apart [.limit 0] (twoRows 1 2) (twoRows 2 1) where
  columns := rfl
  suitable := ⟨[("x", .i64)], rfl⟩
  height := by decide
  height' := by decide
  rows := by
    intro h
    obtain ⟨hrow, -⟩ := List.cons.inj h
    obtain ⟨hcell, -⟩ := List.cons.inj hrow
    have hint : (1 : Int) = 2 := Cell.int.inj hcell
    exact absurd hint (by decide)

theorem separates_twoRows :
    Table.Separates hashedValues 1 (twoRows 1 2).rows (twoRows 2 1).rows := by
  have hne : hashedValues [.int 1] ≠ hashedValues [.int 2] := by decide +kernel
  intro r hr s hs hsame
  simp only [twoRows, List.mem_cons, List.not_mem_nil, or_false] at hr hs
  rcases hr with rfl | rfl <;> rcases hs with rfl | rfl
  · exact absurd hsame hne
  · rfl
  · rfl
  · exact absurd hsame.symm hne

theorem filled_twoRows {a b : Int} (ha : Cell.Fits (.int a)) (hb : Cell.Fits (.int b)) :
    (twoRows a b).Filled := by
  intro row hrow
  simp only [twoRows, List.mem_cons, List.not_mem_nil, or_false] at hrow
  rcases hrow with rfl | rfl
  · exact ⟨rfl, ha, trivial⟩
  · exact ⟨rfl, hb, trivial⟩

/-- The order of two rows is in the hash, though none of them is left in the result, and so is the
number of a version, though the tables are the same.  The path of the directory is one from the
root. -/
theorem order_and_number_in_hash :
    Plan.runSteps [.limit 0] (twoRows 1 2) = Plan.runSteps [.limit 0] (twoRows 2 1) ∧
    HashesDiffer
      ((Plan.onTable (twoRows 1 2) [.limit 0]).semanticHashBy (Table.rowWord hashedValues)
        (.ofTable (twoRows 1 2)))
      ((Plan.onTable (twoRows 2 1) [.limit 0]).semanticHashBy (Table.rowWord hashedValues)
        (.ofTable (twoRows 2 1))) ∧
    HashesDiffer ((Plan.onTable (twoRows 1 2) [.limit 0]).semanticHash (.ofTable (twoRows 1 2)))
      ((Plan.onTable (twoRows 2 1) [.limit 0]).semanticHash (.ofTable (twoRows 2 1))) ∧
    HashesDiffer (hashIn plain (versionPlan "/w/d" 1 0))
      (hashIn plain (versionPlan "/w/d" 10 1)) := by
  obtain ⟨hwords, hvalues, hversions, -⟩ := hash_tells_data hashedValues [.limit 0] (twoRows 1 2)
    (twoRows 2 1) plain "/w/d" 1 10 0 1
  refine ⟨rfl, ?_, ?_, ?_⟩
  · exact hwords apart_twoRows separates_twoRows (Plan.digestsTell_of_ne (by decide +kernel))
  · have hone : Cell.Fits (.int 1) := ⟨by decide, by decide⟩
    have htwo : Cell.Fits (.int 2) := ⟨by decide, by decide⟩
    exact hvalues apart_twoRows (filled_twoRows hone htwo) (filled_twoRows htwo hone)
      (Plan.digestsTell_of_ne (by decide +kernel))
  · have hlocated : plain.locate "/w/d" = .ok ["w", "d"] := eq_ok_of_toOption (by decide +kernel)
    have hfirst : Holds plain "/w/d" 1 ["w", "d"] oneRow := ⟨hlocated, rfl, rfl⟩
    have hsecond : Holds plain "/w/d" 10 ["w", "d"] oneRow := ⟨hlocated, rfl, rfl⟩
    have hscan : Scannable "/w/d" 1 := ⟨by decide +kernel, by decide, by decide +kernel⟩
    have hscan' : Scannable "/w/d" 10 := ⟨hscan.searched, hscan.literal, by decide +kernel⟩
    obtain ⟨-, -, hdiffer⟩ := hversions ["w", "d"] oneRow oneRow (by decide) hfirst hsecond hscan
      hscan' (Plan.digestsTell_of_ne (by decide +kernel))
    exact hdiffer

/-- **Where the name of a directory holds the sign of a pattern, versions may have no hash.**  The
directory holds a table for each of two versions, both are loaded, and neither hash is answered. -/
theorem bracketed_versions_unhashed :
    Holds bracketed "n[1]" 0 ["w", "n[1]"] oneRow ∧ Holds bracketed "n[1]" 1 ["w", "n[1]"] oneRow ∧
    (Catalog.loadPath bracketed "n[1]" (some 0) 0).2 = .ok (versionPlan "n[1]" 0 0) ∧
    (Catalog.loadPath bracketed "n[1]" (some 1) 1).2 = .ok (versionPlan "n[1]" 1 1) ∧
    (∃ f, hashIn bracketed (versionPlan "n[1]" 0 0) = .error f) ∧
    (∃ f, hashIn bracketed (versionPlan "n[1]" 1 1) = .error f) ∧
    ¬ HashesDiffer (hashIn bracketed (versionPlan "n[1]" 0 0))
      (hashIn bracketed (versionPlan "n[1]" 1 1)) := by
  have hlocated : bracketed.locate "n[1]" = .ok ["w", "n[1]"] :=
    eq_ok_of_toOption (by decide +kernel)
  have hsearched : startsEmpty "n[1]" = false := by decide +kernel
  have hfirst : Holds bracketed "n[1]" 0 ["w", "n[1]"] oneRow := ⟨hlocated, rfl, rfl⟩
  have hsecond : Holds bracketed "n[1]" 1 ["w", "n[1]"] oneRow := ⟨hlocated, rfl, rfl⟩
  obtain ⟨f, hf⟩ := eq_error_of_toOption (x := hashIn bracketed (versionPlan "n[1]" 0 0))
    (by decide +kernel)
  obtain ⟨g, hg⟩ := eq_error_of_toOption (x := hashIn bracketed (versionPlan "n[1]" 1 1))
    (by decide +kernel)
  refine ⟨hfirst, hsecond, hfirst.load hsearched 0, hsecond.load hsearched 1, ⟨f, hf⟩, ⟨g, hg⟩, ?_⟩
  rintro ⟨h, k, hh, -, -⟩
  rw [hf] at hh
  cases hh

end Lineage.Snapshots
