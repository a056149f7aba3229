import Lineage.Catalog.Local
import Lineage.Proofs.Catalog.SnapshotNames
import Lineage.Proofs.Files.Below
import Lineage.Proofs.Success
/-
  Files that are read for versions of directories.

  The versions of a directory are told by the names in it; the file that is read for a version is
  told by its number alone.  So what is read need not be what was counted.  This module says when
  it is (`scan_readable_iff`): exactly if, among the entries that make the version count, a
  regular file has the usual name of the version, and the path to it is not too long.

  The two ways meet in `locate_filePath`: the path that is read leads to the usual name in the
  directory that was searched.
    * A counted file with the usual name is then the one that is read.
    * Where the number has a plus sign or zeros in front (`v007.parquet`), or where a directory has
      the usual name, the version counts and nothing can be read for it.
-/

namespace Lineage.Snapshots

variable {t : FileTree} {path : String} {v : UInt64} {key : FileKey} {name : String}
  {entry : FileEntry}

/-! ## What makes a version count -/

/-- The entry with a name in a directory makes a version of the directory count. -/
structure Counts (t : FileTree) (path : String) (v : UInt64) (key : FileKey) (name : String)
    (entry : FileEntry) : Prop where
  located : t.locate path = .ok key
  directory : t.isDirectory key = true
  searched : startsEmpty path = false
  present : t.get? (key ++ [name]) = some entry
  stands : version? name = some v

/-- **A directory has the versions that some entry in it makes count.** -/
theorem mem_versions_iff :
    v ∈ versions t path ↔ ∃ key name entry, Counts t path v key name entry := by
  constructor
  · intro h
    unfold versions at h
    split at h
    · exact absurd h List.not_mem_nil
    · rename_i key hlocated
      split at h
      · exact absurd h List.not_mem_nil
      · rename_i hsearched
        rw [Bool.or_eq_true, not_or, Bool.not_eq_true, Bool.not_eq_true,
          Bool.not_eq_false'] at hsearched
        obtain ⟨⟨name, listed⟩, hmem, hstands⟩ := List.mem_filterMap.mp h
        obtain ⟨entry, hpresent⟩ := FileTree.get?_of_mem_children hmem
        exact ⟨key, name, entry, hlocated, hsearched.1, hsearched.2, hpresent, hstands⟩
  · rintro ⟨key, name, entry, h⟩
    have hsearched : ¬ (!t.isDirectory key || startsEmpty path) = true := by
      rw [h.directory, h.searched]
      decide
    simp only [versions, h.located, if_neg hsearched]
    exact List.mem_filterMap.mpr ⟨(name, entry), FileTree.mem_children_of_get? h.present, h.stands⟩

/-! ## What is read for a version -/

/-- The characters of a usual name: the first one, digits, and those of the ending. -/
theorem mem_usualName {c : Char} (h : c ∈ (usualName v).toList) :
    c = 'v' ∨ c.isDigit = true ∨ c ∈ ending := by
  rw [usualName_toList] at h
  rcases List.mem_cons.mp h with rfl | h
  · exact .inl rfl
  rcases List.mem_append.mp h with h | h
  · exact .inr (.inl (List.all_eq_true.mp (Decimal.isDigit_toDigits v.toNat) c h))
  · exact .inr (.inr h)

/-- Digits take one byte each. -/
theorem utf8ByteSize_digits :
    ∀ {digits : List Char}, digits.all Char.isDigit = true →
      (String.ofList digits).utf8ByteSize = digits.length
  | [], _ => rfl
  | c :: digits, h => by
    obtain ⟨hc, hdigits⟩ := Bool.and_eq_true_iff.mp (List.all_cons ▸ h)
    have hhigh : c.toNat ≤ 57 := (Char.isDigit_iff_toNat.mp hc).2
    have hone : c.utf8Size = 1 := by
      rw [Char.utf8Size_eq_one_iff, UInt32.le_iff_toNat_le]
      show c.toNat ≤ 127
      omega
    rw [String.ofList_cons, String.utf8ByteSize_append, String.utf8ByteSize_singleton, hone,
      utf8ByteSize_digits hdigits, List.length_cons, Nat.add_comm]

/-- A version has at most twenty digits. -/
theorem utf8ByteSize_usualName (v : UInt64) : (usualName v).utf8ByteSize ≤ 29 := by
  have htext : toString v = String.ofList (Nat.toDigits 10 v.toNat) :=
    Nat.toString_eq_ofList_toDigits
  have hlength : (Nat.toDigits 10 v.toNat).length ≤ 20 := by
    rw [Nat.length_toDigits_le_iff (by omega) (by omega)]
    have hlt := v.toNat_lt
    omega
  have hv : "v".utf8ByteSize = 1 := rfl
  have hending : ".parquet".utf8ByteSize = 8 := rfl
  rw [usualName, String.utf8ByteSize_append, String.utf8ByteSize_append, htext,
    utf8ByteSize_digits (Decimal.isDigit_toDigits v.toNat), hv, hending]
  omega

theorem isName_usualName (v : UInt64) : IsName (usualName v) where
  slash := fun h => absurd (mem_usualName h) (by decide)
  zero := fun h => absurd (mem_usualName h) (by decide)
  nonempty := by
    rw [usualName_toList]
    exact List.cons_ne_nil _ _
  dot := by
    rw [usualName_toList]
    intro h
    exact absurd (List.cons.inj h).1 (by decide)
  dots := by
    rw [usualName_toList]
    intro h
    exact absurd (List.cons.inj h).1 (by decide)
  short := by
    have hsize := utf8ByteSize_usualName v
    show (usualName v).utf8ByteSize ≤ 255
    omega

theorem filePath_eq_below (path : String) (v : UInt64) :
    filePath path v = Files.below path (usualName v) := by
  simp only [filePath, Files.below, usualName, String.append_assoc]

/-- The path that is read leads to the usual name in the directory. -/
theorem locate_filePath (hl : t.locate path = .ok key) (hd : t.isDirectory key = true)
    (hshort : (filePath path v).utf8ByteSize ≤ FileTree.longestPath) :
    t.locate (filePath path v) = .ok (key ++ [usualName v]) := by
  rw [filePath_eq_below] at hshort ⊢
  exact FileTree.locate_below hl hd (isName_usualName v) hshort

/-- What is read for a version can be: it is a regular file in the directory, one of those that make
the version count. -/
def Readable (t : FileTree) (path : String) (v : UInt64) : Prop :=
  ∃ key name content, Counts t path v key name (.file content) ∧
    t.locate (filePath path v) = .ok (key ++ [name])

theorem readable_iff :
    Readable t path v ↔
      (∃ key name content, Counts t path v key name (.file content) ∧ IsUsualName name) ∧
        (filePath path v).utf8ByteSize ≤ FileTree.longestPath := by
  constructor
  · rintro ⟨key, name, content, hcounts, hlocate⟩
    have hshort := (FileTree.locate_eq_ok_iff.mp hlocate).2.1
    -- The path leads to the usual name as well, so that is the name it was counted by.
    have hkey := hlocate.symm.trans (locate_filePath hcounts.located hcounts.directory hshort)
    have hname : name = usualName v :=
      List.singleton_inj.mp (List.append_cancel_left (Except.ok.inj hkey))
    exact ⟨⟨key, name, content, hcounts, (eq_usualName_iff hcounts.stands).mp hname⟩, hshort⟩
  · rintro ⟨⟨key, name, content, hcounts, husual⟩, hshort⟩
    have hname := (eq_usualName_iff hcounts.stands).mpr husual
    refine ⟨key, name, content, hcounts, ?_⟩
    rw [hname]
    exact locate_filePath hcounts.located hcounts.directory hshort

/-- A version that counts can be read if the path that is read leads to a regular file. -/
theorem readable_iff_open? (h : v ∈ versions t path) :
    Readable t path v ↔ ∃ content, t.open? (filePath path v) = .ok (.file content) := by
  constructor
  · rintro ⟨key, name, content, hcounts, hlocate⟩
    refine ⟨content, ?_⟩
    rw [FileTree.open?_of_locate hlocate, hcounts.present]
  · rintro ⟨content, hopen⟩
    obtain ⟨key, name, entry, hcounts⟩ := mem_versions_iff.mp h
    obtain ⟨key', hlocate, hget⟩ := FileTree.locate_of_open? hopen
    -- What is there under the usual name makes the version count, whatever else does.
    have hshort := (FileTree.locate_eq_ok_iff.mp hlocate).2.1
    have husual := locate_filePath hcounts.located hcounts.directory hshort
    obtain rfl : key' = key ++ [usualName v] := Except.ok.inj (hlocate.symm.trans husual)
    exact ⟨key, usualName v, content,
      { hcounts with present := hget, stands := version?_usualName v }, husual⟩

/-! ## What is loaded -/

/-- The greatest of some versions is one of them. -/
theorem greatest_mem : ∀ {vs : List UInt64} {w : UInt64}, greatest vs = some w → w ∈ vs
  | [], w, h => by cases h
  | v :: rest, w, h => by
    unfold greatest at h
    split at h
    · cases h
      exact List.mem_cons_self
    · rename_i u hrest
      have hu : u ∈ v :: rest := List.mem_cons_of_mem v (greatest_mem hrest)
      rw [← Option.some.inj h]
      split
      · exact List.mem_cons_self
      · exact hu

theorem greatest_of_ne_nil : ∀ {vs : List UInt64}, vs ≠ [] → ∃ w, greatest vs = some w
  | [], h => absurd rfl h
  | v :: rest, _ => by
    unfold greatest
    cases greatest rest with
    | none => exact ⟨_, rfl⟩
    | some w => exact ⟨_, rfl⟩

/-- A directory with versions has a latest one. -/
theorem latest_of_isVersioned (h : isVersioned t path = true) :
    ∃ newest, latest t path = some newest ∧ newest ∈ versions t path := by
  rw [isVersioned, Bool.not_eq_true', List.isEmpty_eq_false_iff] at h
  obtain ⟨newest, hnewest⟩ := greatest_of_ne_nil h
  exact ⟨newest, hnewest, greatest_mem hnewest⟩

/-- What is loaded from a directory with versions: the version asked for, or else the latest, if it
counts. -/
theorem resolve_of_latest {newest : UInt64} (h : latest t path = some newest)
    (version : Option UInt64) :
    resolve t path version =
      if version.getD newest ∈ versions t path then .ok (.snapshot (version.getD newest))
      else .error (.versionNotFound path (version.getD newest)) := by
  unfold latest at h
  simp only [resolve, h, List.contains_iff_mem]

/-- A version that counts is loaded as a scan of its file. -/
theorem loadPath_of_mem (h : v ∈ versions t path) (scan : Nat) :
    Catalog.loadPath t path (some v) scan =
      ([.snapshotLoading path v], .ok ⟨.files .parquet (filePath path v) scan, []⟩) := by
  have hversioned : isVersioned t path = true := by
    rw [isVersioned, Bool.not_eq_true', List.isEmpty_eq_false_iff]
    exact List.ne_nil_of_mem h
  obtain ⟨newest, hnewest, -⟩ := latest_of_isVersioned hversioned
  rw [Catalog.loadPath, resolve_of_latest hnewest, Option.getD_some, if_pos h]
  rfl

/-- A version of a directory with versions that does not count is not found. -/
theorem mem_of_loadPath {newest : UInt64} (hnewest : latest t path = some newest) {scan : Nat}
    (h : (Catalog.loadPath t path (some v) scan).2 ≠ .error (.versionNotFound path v)) :
    v ∈ versions t path := by
  by_cases hmem : v ∈ versions t path
  · exact hmem
  · refine absurd ?_ h
    rw [Catalog.loadPath, resolve_of_latest hnewest, Option.getD_some, if_neg hmem]

/-- Without a version the latest one is loaded. -/
theorem loadPath_none {newest : UInt64} (hnewest : latest t path = some newest) (scan : Nat) :
    Catalog.loadPath t path none scan = Catalog.loadPath t path (some newest) scan := by
  simp only [Catalog.loadPath, resolve_of_latest hnewest, Option.getD_none, Option.getD_some]

/-! ## What is scanned -/

/-- The path of a version has signs of a pattern only where the directory's path has some. -/
theorem isPattern_filePath (path : String) (v : UInt64) :
    Files.isPattern (filePath path v) = Files.isPattern path := by
  have hname : Files.hasSigns (usualName v).toList = false := by
    rw [Files.hasSigns, List.any_eq_false]
    intro c hc hsign
    simp only [Bool.or_eq_true, decide_eq_true_eq] at hsign
    rcases hsign with (rfl | rfl) | rfl
    · exact absurd (mem_usualName hc) (by decide)
    · exact absurd (mem_usualName hc) (by decide)
    · exact absurd (mem_usualName hc) (by decide)
  have hslash : ∀ b : Bool, Files.hasSigns (if b then "" else "/").toList = false := by decide
  rw [filePath_eq_below, Files.isPattern, Files.below, String.toList_append, String.toList_append,
    Files.hasSigns, List.any_append, List.any_append]
  show (Files.hasSigns _ || Files.hasSigns _ || Files.hasSigns _) = _
  rw [hname, hslash, Bool.or_false, Bool.or_false]
  rfl

/-- A version that can be read is read from its own file alone, unless the directory's path is a
pattern. -/
theorem pathsOf_of_readable (h : Readable t path v) (hp : Files.isPattern path = false) :
    Files.pathsOf t (filePath path v) = .ok [filePath path v] := by
  obtain ⟨key, name, content, hcounts, hlocate⟩ := h
  have hfile : t.isDirectory (key ++ [name]) = false := by
    rw [FileTree.isDirectory, hcounts.present]
  rw [← isPattern_filePath path v] at hp
  simp only [Files.pathsOf, hp, hlocate, hfile]
  rfl

/-- **A version is read from what makes it count exactly if a file with its usual name does.**  In a
directory with versions, every version that is not refused as unknown is loaded as a scan of one
path, and so is the latest one if none is asked for.  That path leads to a regular file of the
directory, one of those that make the version count, if and only if some regular file among them has
neither a plus sign nor zeros in front of its number, and the path is not too long.  Otherwise there
is no regular file under that path. -/
theorem scan_readable_iff (hp : isVersioned t path = true) (scan : Nat) :
    (∃ newest, latest t path = some newest ∧
      Catalog.loadPath t path none scan = Catalog.loadPath t path (some newest) scan ∧
      (Catalog.loadPath t path (some newest) scan).2 ≠ .error (.versionNotFound path newest)) ∧
    ∀ v, (Catalog.loadPath t path (some v) scan).2 ≠ .error (.versionNotFound path v) →
      (Catalog.loadPath t path (some v) scan).2 =
        .ok ⟨.files .parquet (filePath path v) scan, []⟩ ∧
      (∃ key name entry, Counts t path v key name entry) ∧
      (Readable t path v ↔
        (∃ key name content, Counts t path v key name (.file content) ∧ IsUsualName name) ∧
          (filePath path v).utf8ByteSize ≤ FileTree.longestPath) ∧
      (Readable t path v ↔ ∃ content, t.open? (filePath path v) = .ok (.file content)) ∧
      (Readable t path v → Files.isPattern path = false →
        Files.pathsOf t (filePath path v) = .ok [filePath path v]) := by
  obtain ⟨newest, hnewest, hmem⟩ := latest_of_isVersioned hp
  constructor
  · refine ⟨newest, hnewest, loadPath_none hnewest scan, ?_⟩
    rw [loadPath_of_mem hmem]
    exact nofun
  · intro v hv
    have hversion := mem_of_loadPath hnewest hv
    rw [loadPath_of_mem hversion]
    exact ⟨rfl, mem_versions_iff.mp hversion, readable_iff, readable_iff_open? hversion,
      pathsOf_of_readable⟩

/-- A table with one row. -/
def oneRow : Table := ⟨[("x", .i64)], [[.int 1]]⟩

/-- A directory with a single file.  It stands in the working directory. -/
def holding (name : String) : FileTree :=
  ⟨[(["w"], .directory), (["w", "d"], .directory),
    (["w", "d", name], .file (.table oneRow))], ["w"]⟩

/-- Paths of that directory: from the working directory, from the root, and from the directory
above. -/
def waysThere : List String := ["d", "/w/d", "../w/d"]

/-- A version with a file of its usual name is read from that file, whatever the path of the
directory is. -/
theorem usual_version_readable :
    (∀ path ∈ waysThere, isVersioned (holding "v7.parquet") path = true ∧
      (Catalog.loadPath (holding "v7.parquet") path (some 7) 0).2 ≠
        .error (.versionNotFound path 7)) ∧
      ∀ path ∈ waysThere, Readable (holding "v7.parquet") path 7 := by
  have hlatest : ∀ path ∈ waysThere, latest (holding "v7.parquet") path = some 7 := by
    decide +kernel
  have hversioned : ∀ path ∈ waysThere, isVersioned (holding "v7.parquet") path = true := by
    decide +kernel
  have hlocated : ∀ path ∈ waysThere,
      ((holding "v7.parquet").locate path).toOption = some ["w", "d"] := by
    decide +kernel
  have hsearched : ∀ path ∈ waysThere, startsEmpty path = false := by decide +kernel
  have hshort : ∀ path ∈ waysThere, (filePath path 7).utf8ByteSize ≤ FileTree.longestPath := by
    decide +kernel
  have hfound : ∀ path ∈ waysThere, (Catalog.loadPath (holding "v7.parquet") path (some 7) 0).2 ≠
      .error (.versionNotFound path 7) := by
    intro path hpath
    rw [loadPath_of_mem (greatest_mem (hlatest path hpath))]
    exact nofun
  refine ⟨fun path hpath => ⟨hversioned path hpath, hfound path hpath⟩, fun path hpath => ?_⟩
  have hcounts : Counts (holding "v7.parquet") path 7 ["w", "d"] "v7.parquet"
      (.file (.table oneRow)) :=
    ⟨eq_ok_of_toOption (hlocated path hpath), rfl, hsearched path hpath, rfl, by decide +kernel⟩
  have husual : IsUsualName "v7.parquet" := ⟨['7'], by decide +kernel, by decide, .inr (by decide)⟩
  obtain ⟨-, -, hreadable, -⟩ :=
    (scan_readable_iff (hversioned path hpath) 0).2 7 (hfound path hpath)
  exact hreadable.mpr ⟨⟨_, _, _, hcounts, husual⟩, hshort path hpath⟩

/-- The number in the only name has zeros in front: the directory is said to have a version 7, its
latest one, and there is no file to read it from. -/
theorem padded_version_unreadable :
    isVersioned (holding "v007.parquet") "d" = true ∧
      latest (holding "v007.parquet") "d" = some 7 ∧
      (Catalog.loadPath (holding "v007.parquet") "d" (some 7) 0).2 ≠
        .error (.versionNotFound "d" 7) ∧
      ¬ Readable (holding "v007.parquet") "d" 7 := by
  have hlatest : latest (holding "v007.parquet") "d" = some 7 := by decide +kernel
  have hmem : 7 ∈ versions (holding "v007.parquet") "d" := greatest_mem hlatest
  refine ⟨by decide +kernel, hlatest, ?_, ?_⟩
  · rw [loadPath_of_mem hmem]
    exact nofun
  · rw [readable_iff_open? hmem]
    rintro ⟨content, hopen⟩
    obtain ⟨key, hlocate, hget⟩ := FileTree.locate_of_open? hopen
    have hlocated : (holding "v007.parquet").locate "d" = .ok ["w", "d"] :=
      eq_ok_of_toOption (by decide +kernel)
    have hscanned := locate_filePath (v := 7) hlocated rfl (by decide +kernel)
    obtain rfl : key = ["w", "d"] ++ [usualName 7] := Except.ok.inj (hlocate.symm.trans hscanned)
    have hnone : ((holding "v007.parquet").get? (["w", "d"] ++ [usualName 7])).isNone = true := by
      decide +kernel
    rw [hget] at hnone
    cases hnone

end Lineage.Snapshots
