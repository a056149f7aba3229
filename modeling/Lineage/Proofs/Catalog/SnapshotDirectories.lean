import Lineage.Proofs.Catalog.SnapshotHash
import Lineage.Proofs.EngineFaults
import Lineage.Proofs.Files.Changes
import Mathlib.Data.Finset.Insert
/-
  What is answered for paths, and for directories in which versions are made.

  Three questions can be asked about a path: whether it has versions, which is the latest, and what
  is loaded for it.  All of them go back to one list, the versions in the directory, so they agree
  for every path (`PathAnswersAgree`); the list is told by the names that stand in the directory.

  Making a version puts a file under its usual name.  What is said of the directory then
  (`HoldsMade`) is kept by each version that is made, whatever was made before, and so it holds
  after all of them in any order.  Reading the names back gives the versions that were made and no
  others (`mem_versions_iff_made`).  Which of them is the latest is left to `greatest`, which knows
  nothing of names: `v9` stands behind `v10` among the names, and 10 is the latest.

  One thing comes in between: a directory is not looked into if its path begins with a dot and an
  empty component behind it.  So `./` has no versions, whatever files stand there, though `.` has
  them.  By a path from the root every directory is looked into, so there it has the versions that
  it has by its path from the working directory, unless that one is such a path
  (`versions_from_root`).
-/

namespace Lineage

/-- Only a path without a known format is refused for its format. -/
theorem Catalog.openFile_ne_unsupportedFormat (files : FileTree) (format : FileFormat)
    (path p : String) (scan : Nat) :
    openFile files format path scan ≠ .error (.unsupportedFormat p) := by
  have hdocument : ∀ s, (Files.Records.ofDocument s).map Plan.ofTable ≠
      .error (.unsupportedFormat p) := by
    intro s h
    obtain ⟨fault, detail, hf⟩ := (Files.Records.ofDocument_engineOnly s).map Plan.ofTable _ h
    cases hf
  cases format with
  | json =>
    unfold openFile
    dsimp only
    split
    · exact nofun
    · exact nofun
    · split
      · exact hdocument _
      · exact nofun
  | csv => exact nofun
  | ndjson => exact nofun
  | parquet => exact nofun

namespace Snapshots

variable {t : FileTree} {path : String} {v : UInt64} {key : FileKey}

/-! ## One list behind all answers -/

/-- No version is above the greatest one. -/
theorem le_greatest : ∀ {vs : List UInt64} {w : UInt64}, greatest vs = some w → v ∈ vs → v ≤ w
  | [], _, _, hv => absurd hv List.not_mem_nil
  | u :: rest, w, h, hv => by
    unfold greatest at h
    split at h
    · rename_i hrest
      obtain rfl := Option.some.inj h
      rcases List.mem_cons.mp hv with rfl | hv
      · exact UInt64.le_refl v
      · obtain ⟨x, hx⟩ := greatest_of_ne_nil (List.ne_nil_of_mem hv)
        rw [hrest] at hx
        cases hx
    · rename_i x hrest
      rw [← Option.some.inj h]
      rcases List.mem_cons.mp hv with rfl | hv
      · split
        · exact UInt64.le_refl v
        · rename_i hnot
          exact UInt64.not_lt.mp hnot
      · have hx := le_greatest hrest hv
        split
        · rename_i hlt
          exact UInt64.le_trans hx (UInt64.le_of_lt hlt)
        · exact hx

/-- By a path from the root a directory is looked into. -/
theorem startsEmpty_of_root (h : path.startsWith "/" = true) : startsEmpty path = false := by
  rw [String.startsWith_string_iff] at h
  obtain ⟨rest, hpath⟩ := h
  have hnil : Files.splitSlashes [] = [[]] := List.splitOn_nil '/'
  have hpieces : Files.splitSlashes path.toList = [] :: Files.splitSlashes rest := by
    have hslash : path.toList = [] ++ '/' :: rest := hpath.symm
    rw [hslash, Files.splitSlashes_append, hnil, List.singleton_append]
  rw [startsEmpty, hpieces]
  rfl

/-- **A directory has the same versions by its path from the root and by its path from the working
directory**, unless it is not looked into by that one. -/
theorem versions_from_root {directory : String} (hroot : directory.startsWith "/" = true)
    (hbase : t.locate directory = .ok t.base) (hpath : path.isEmpty = false)
    (hrelative : path.startsWith "/" = false) (hsearched : startsEmpty path = false)
    (hshort : (Files.below directory path).utf8ByteSize ≤ FileTree.longestPath) :
    versions t (Files.below directory path) = versions t path := by
  have hempty : directory.isEmpty = false := (FileTree.locate_eq_ok_iff.mp hbase).2.2.1
  have hfrom : startsEmpty (Files.below directory path) = false := by
    apply startsEmpty_of_root
    rw [Files.startsWith_slash_below hempty]
    exact hroot
  rw [versions, versions, FileTree.locate_through_base hbase hpath hrelative hshort, hfrom,
    hsearched]

/-- What is answered for a path that has versions: the newest is loaded if none is asked for, and
those above it are not found. -/
structure AnswersVersioned (t : FileTree) (path : String) (newest : UInt64) (scan : Nat) :
    Prop where
  versioned : isVersioned t path = true
  loaded : Catalog.loadPath t path none scan = Catalog.loadPath t path (some newest) scan
  above : ∀ v, newest < v →
    (Catalog.loadPath t path (some v) scan).2 = .error (.versionNotFound path v)

/-- What is answered for a path without versions: any version is refused, and so is the path itself
exactly if its format is not known. -/
structure AnswersPlain (t : FileTree) (path : String) (scan : Nat) : Prop where
  plain : isVersioned t path = false
  refused : ∀ v, (Catalog.loadPath t path (some v) scan).2 =
    .error (.invalidParameter (.versionOfPlainPath v path))
  unsupported : ∀ p, (Catalog.loadPath t path none scan).2 = .error (.unsupportedFormat p) ↔
    FileFormat.ofPath path = none ∧ p = path

/-- The answers for a path agree with each other. -/
structure PathAnswersAgree (t : FileTree) (path : String) (scan : Nat) : Prop where
  same : isVersioned t path = true ↔ (latest t path).isSome = true
  versioned : ∀ newest, latest t path = some newest → AnswersVersioned t path newest scan
  plain : latest t path = none → AnswersPlain t path scan

theorem isVersioned_iff : isVersioned t path = true ↔ (latest t path).isSome = true := by
  constructor
  · intro h
    obtain ⟨newest, hnewest, -⟩ := latest_of_isVersioned h
    rw [hnewest]
    rfl
  · intro h
    obtain ⟨newest, hnewest⟩ := Option.isSome_iff_exists.mp h
    rw [isVersioned, Bool.not_eq_true', List.isEmpty_eq_false_iff]
    exact List.ne_nil_of_mem (greatest_mem hnewest)

/-- A version that does not count is not found. -/
theorem loadPath_of_not_mem {newest : UInt64} (hnewest : latest t path = some newest)
    (h : v ∉ versions t path) (scan : Nat) :
    (Catalog.loadPath t path (some v) scan).2 = .error (.versionNotFound path v) := by
  rw [Catalog.loadPath, resolve_of_latest hnewest, Option.getD_some, if_neg h]

theorem answersVersioned {newest : UInt64} (hnewest : latest t path = some newest) (scan : Nat) :
    AnswersVersioned t path newest scan where
  versioned := isVersioned_iff.mpr (by rw [hnewest]; rfl)
  loaded := loadPath_none hnewest scan
  above v hv := by
    refine loadPath_of_not_mem hnewest ?_ scan
    intro hmem
    exact UInt64.not_le.mpr hv (le_greatest hnewest hmem)

/-- A path without versions stands for a file of its format. -/
theorem resolve_of_plain (h : isVersioned t path = false) (version : Option UInt64) :
    resolve t path version =
      match version, FileFormat.ofPath path with
      | some v, _ => .error (.invalidParameter (.versionOfPlainPath v path))
      | none, some format => .ok (.file format)
      | none, none => .error (.unsupportedFormat path) := by
  have hnone : greatest (versions t path) = none := by
    rw [← Bool.not_eq_true, isVersioned_iff, Option.not_isSome_iff_eq_none] at h
    exact h
  unfold resolve
  simp only [hnone]
  cases version with
  | some v => rfl
  | none => cases FileFormat.ofPath path <;> rfl

theorem answersPlain (hnone : latest t path = none) (scan : Nat) : AnswersPlain t path scan := by
  have hplain : isVersioned t path = false := by
    rw [← Bool.not_eq_true, isVersioned_iff, hnone]
    decide
  refine ⟨hplain, fun v => ?_, fun p => ?_⟩
  · rw [Catalog.loadPath, resolve_of_plain hplain]
  · rw [Catalog.loadPath, resolve_of_plain hplain]
    cases hformat : FileFormat.ofPath path with
    | none =>
      constructor
      · intro h
        cases h
        exact ⟨rfl, rfl⟩
      · rintro ⟨-, rfl⟩
        rfl
    | some format =>
      exact iff_of_false (Catalog.openFile_ne_unsupportedFormat t format path p scan)
        fun h => Option.some_ne_none format h.1

/-- The answers agree whatever the path and the tree are. -/
theorem pathAnswersAgree (t : FileTree) (path : String) (scan : Nat) :
    PathAnswersAgree t path scan where
  same := isVersioned_iff
  versioned _ hnewest := answersVersioned hnewest scan
  plain hnone := answersPlain hnone scan

/-! ## Making versions -/

/-- The form of the names that are looked for: the letter, anything, and the ending. -/
def HasForm (name : String) : Prop := ∃ middle, name.toList = 'v' :: (middle ++ ending)

theorem hasForm_of_version? {name : String} (h : version? name = some v) : HasForm name := by
  obtain ⟨cs, hname, -⟩ := version?_eq_some_iff.mp h
  exact ⟨cs, hname⟩

/-- Makes versions in a directory, one after the other: each is a file of the usual name. -/
def makeVersions (t : FileTree) (key : FileKey) (made : List (UInt64 × FileContent)) : FileTree :=
  made.foldl (fun t m => t.put (key ++ [usualName m.1]) (.file m.2)) t

/-- A path leads to a directory in which versions were made, and where nothing else has a name of
their form. -/
structure HoldsMade (t : FileTree) (path : String) (key : FileKey)
    (made : List (UInt64 × FileContent)) : Prop where
  located : t.locate path = .ok key
  directory : t.isDirectory key = true
  present : ∀ m ∈ made, ∃ content, (m.1, content) ∈ made ∧
    t.get? (key ++ [usualName m.1]) = some (.file content)
  only : ∀ name entry, t.get? (key ++ [name]) = some entry → HasForm name →
    ∃ m ∈ made, name = usualName m.1

variable {made : List (UInt64 × FileContent)}

/-- Where a version is put there is no directory. -/
theorem HoldsMade.no_directory (h : HoldsMade t path key made) (v : UInt64) :
    t.isDirectory (key ++ [usualName v]) = false := by
  unfold FileTree.isDirectory
  cases hget : t.get? (key ++ [usualName v]) with
  | none => rfl
  | some entry =>
    obtain ⟨m, hm, hname⟩ := h.only _ _ hget (hasForm_of_version? (version?_usualName v))
    obtain ⟨content, -, hfile⟩ := h.present m hm
    rw [← hname, hget] at hfile
    cases hfile
    rfl

theorem concat_ne {name other : String} (h : name ≠ other) : key ++ [name] ≠ key ++ [other] := by
  intro hkey
  exact h (List.singleton_inj.mp (List.append_cancel_left hkey))

/-- **One more version is made**, and all that was made is still there. -/
theorem HoldsMade.put (h : HoldsMade t path key made) (v : UInt64) (content : FileContent) :
    HoldsMade (t.put (key ++ [usualName v]) (.file content)) path key (made ++ [(v, content)]) where
  located := FileTree.locate_put (h.no_directory v) h.located
  directory := FileTree.isDirectory_put (h.no_directory v) h.directory
  present m hm := by
    -- A version that is made again takes the place of its earlier file.
    by_cases hv : m.1 = v
    · refine ⟨content, ?_, ?_⟩
      · rw [hv]
        exact List.mem_append_right made List.mem_cons_self
      · rw [hv]
        exact FileTree.get?_put_self t key (usualName v) (.file content)
    · have hold : m ∈ made := by
        rcases List.mem_append.mp hm with hm | hm
        · exact hm
        · exact absurd (congrArg Prod.fst (List.mem_singleton.mp hm)) hv
      obtain ⟨c, hc, hget⟩ := h.present m hold
      refine ⟨c, List.mem_append_left _ hc, ?_⟩
      rw [FileTree.get?_put_of_ne t _ (concat_ne fun hname => hv (usualName_injective hname))]
      exact hget
  only name entry hget hform := by
    by_cases hname : name = usualName v
    · exact ⟨(v, content), List.mem_append_right made List.mem_cons_self, hname⟩
    · rw [FileTree.get?_put_of_ne t _ (concat_ne hname)] at hget
      obtain ⟨m, hm, hmade⟩ := h.only name entry hget hform
      exact ⟨m, List.mem_append_left _ hm, hmade⟩

/-- **All versions are made**, in whatever order and on top of what was made before. -/
theorem HoldsMade.makeVersions : ∀ {t : FileTree} {before : List (UInt64 × FileContent)}
    (made : List (UInt64 × FileContent)), HoldsMade t path key before →
    HoldsMade (Snapshots.makeVersions t key made) path key (before ++ made)
  | _, before, [], h => by rwa [List.append_nil]
  | _, before, (v, content) :: made, h => by
    have hrest := (h.put v content).makeVersions made
    rwa [List.append_assoc] at hrest

/-- The versions of the directory are those that were made. -/
theorem mem_versions_iff_made (h : HoldsMade t path key made)
    (hsearched : startsEmpty path = false) :
    v ∈ versions t path ↔ ∃ content, (v, content) ∈ made := by
  rw [mem_versions_iff]
  constructor
  -- What counts has a name of the form, so it was made, and its name tells just that number.
  · rintro ⟨key', name, entry, hcounts⟩
    obtain rfl : key' = key := Except.ok.inj (hcounts.located.symm.trans h.located)
    obtain ⟨m, hm, hname⟩ :=
      h.only name entry hcounts.present (hasForm_of_version? hcounts.stands)
    have hversion : version? (usualName m.1) = some v := hname ▸ hcounts.stands
    rw [version?_usualName] at hversion
    obtain rfl := Option.some.inj hversion
    exact ⟨m.2, hm⟩
  · rintro ⟨content, hmade⟩
    obtain ⟨c, -, hget⟩ := h.present (v, content) hmade
    exact ⟨key, usualName v, .file c, h.located, h.directory, hsearched, hget, version?_usualName v⟩

/-- Where a directory is not looked into there are no versions. -/
theorem versions_of_startsEmpty (h : startsEmpty path = true) : versions t path = [] := by
  unfold versions
  split
  · rfl
  · rw [h, Bool.or_true, if_pos rfl]

/-! ## What is answered for versions that were made -/

/-- What is answered for a directory in which exactly the versions of a set were made: it has them,
the latest is the greatest number, each is loaded as a scan of its own file, and no other is found.
The scan takes that file alone, and there is what was put into it, unless the path is a pattern or
too long. -/
structure AnswersMade (t : FileTree) (path : String) (S : Finset UInt64)
    (made : List (UInt64 × FileContent)) (scan : Nat) : Prop where
  versioned : isVersioned t path = true
  latest : ∃ newest ∈ S, (∀ v ∈ S, v ≤ newest) ∧ latest t path = some newest
  missing : ∀ v ∉ S, (Catalog.loadPath t path (some v) scan).2 = .error (.versionNotFound path v)
  scanned : ∀ v ∈ S, (Catalog.loadPath t path (some v) scan).2 =
    .ok ⟨.files .parquet (filePath path v) scan, []⟩
  read : ∀ v ∈ S, Files.isPattern path = false →
    (filePath path v).utf8ByteSize ≤ FileTree.longestPath →
    Files.pathsOf t (filePath path v) = .ok [filePath path v] ∧
      ∃ content, (v, content) ∈ made ∧ t.open? (filePath path v) = .ok (.file content)

theorem answersMade {S : Finset UInt64} (h : HoldsMade t path key made)
    (hsearched : startsEmpty path = false) (hS : S.Nonempty)
    (hmade : ∀ v, v ∈ S ↔ ∃ content, (v, content) ∈ made) (scan : Nat) :
    AnswersMade t path S made scan := by
  have hmem : ∀ v, v ∈ versions t path ↔ v ∈ S := by
    intro v
    rw [mem_versions_iff_made h hsearched, hmade]
  obtain ⟨member, hmember⟩ := hS
  obtain ⟨newest, hnewest⟩ := greatest_of_ne_nil (List.ne_nil_of_mem ((hmem member).mpr hmember))
  refine ⟨(answersVersioned hnewest scan).versioned,
    ⟨newest, (hmem newest).mp (greatest_mem hnewest), ?_, hnewest⟩, ?_, ?_, ?_⟩
  · intro v hv
    exact le_greatest hnewest ((hmem v).mpr hv)
  · intro v hv
    exact loadPath_of_not_mem hnewest (fun hversion => hv ((hmem v).mp hversion)) scan
  · intro v hv
    rw [loadPath_of_mem ((hmem v).mpr hv)]
  · intro v hv hpattern hshort
    obtain ⟨content, hcontent⟩ := (hmade v).mp hv
    obtain ⟨c, hc, hget⟩ := h.present (v, content) hcontent
    have hlocate := locate_filePath h.located h.directory hshort
    have hcounts : Counts t path v key (usualName v) (.file c) :=
      ⟨h.located, h.directory, hsearched, hget, version?_usualName v⟩
    refine ⟨pathsOf_of_readable ⟨key, usualName v, c, hcounts, hlocate⟩ hpattern, c, hc, ?_⟩
    rw [FileTree.open?_of_locate hlocate, hget]

/-- In a directory where no name has the form of a version's name the versions of a nonempty set are
made, in some order. -/
structure Making (t : FileTree) (path : String) (key : FileKey) (S : Finset UInt64)
    (made : List (UInt64 × FileContent)) : Prop where
  located : t.locate path = .ok key
  directory : t.isDirectory key = true
  other : ∀ name, HasForm name → t.get? (key ++ [name]) = none
  nonempty : S.Nonempty
  same : ∀ v, v ∈ S ↔ ∃ content, (v, content) ∈ made

/-- **The answers for a path agree, and those for a directory are told by the versions made in it.**
Whatever the tree and the path are, a path has versions exactly if it has a latest one; then that
one is loaded if none is asked for and none above it is found, and otherwise every version is
refused, and the path alone exactly if its format is not known.  In a directory where no name has
the form of a version's name, let the files of versions be made in any order, some maybe more than
once, so that they are those of a nonempty set.  If the directory is looked into, its latest version
is the greatest of the set, those of the set are loaded from their own files, and no others are
found.  If it is not looked into, it has no versions. -/
theorem path_answers_agree (scan : Nat) :
    (∀ (t : FileTree) (path : String), PathAnswersAgree t path scan) ∧
      ∀ (t : FileTree) (path : String) (key : FileKey) (S : Finset UInt64)
        (made : List (UInt64 × FileContent)), Making t path key S made →
        (startsEmpty path = false → AnswersMade (makeVersions t key made) path S made scan) ∧
          (startsEmpty path = true → latest (makeVersions t key made) path = none ∧
            AnswersPlain (makeVersions t key made) path scan) := by
  refine ⟨fun t path => pathAnswersAgree t path scan, ?_⟩
  intro t path key S made hmaking
  constructor
  · intro hsearched
    have hempty : HoldsMade t path key [] :=
      ⟨hmaking.located, hmaking.directory, nofun, fun name entry hget hform => by
        rw [hmaking.other name hform] at hget
        cases hget⟩
    exact answersMade (hempty.makeVersions made) hsearched hmaking.nonempty hmaking.same scan
  · intro hsearched
    have hlatest : latest (makeVersions t key made) path = none := by
      rw [latest, versions_of_startsEmpty hsearched]
      rfl
    exact ⟨hlatest, answersPlain hlatest scan⟩

/-- Version 10 of a directory, and version 9 after it. -/
def tenAndNine : List (UInt64 × FileContent) := [(10, .table oneRow), (9, .table oneRow)]

/-- Nothing but a directory in the working directory. -/
def onlyDirectory : FileTree := ⟨[(["w"], .directory), (["w", "d"], .directory)], ["w"]⟩

theorem making_tenAndNine (h : path ∈ waysThere) :
    Making onlyDirectory path ["w", "d"] {9, 10} tenAndNine where
  located := by
    have hlocated : ∀ path ∈ waysThere, (onlyDirectory.locate path).toOption = some ["w", "d"] := by
      decide +kernel
    exact eq_ok_of_toOption (hlocated path h)
  directory := rfl
  other name _ := by
    have hdeep : ∀ e ∈ onlyDirectory.entries, e.1.length ≤ ["w", "d"].length := by
      simp [onlyDirectory]
    exact FileTree.get?_concat_of_length hdeep name
  nonempty := ⟨9, by decide⟩
  same v := by
    rw [Finset.mem_insert, Finset.mem_singleton]
    constructor
    · rintro (rfl | rfl)
      · exact ⟨_, List.mem_cons_of_mem _ List.mem_cons_self⟩
      · exact ⟨_, List.mem_cons_self⟩
    · rintro ⟨content, hmem⟩
      rcases List.mem_cons.mp hmem with h | hmem
      · exact .inr (congrArg Prod.fst h)
      · exact .inl (congrArg Prod.fst (List.mem_singleton.mp hmem))

/-- The directory after both versions have been made. -/
def withTenAndNine : FileTree := makeVersions onlyDirectory ["w", "d"] tenAndNine

/-- The tenth version is the latest, though it was made first and its name comes first, by whatever
path the directory is asked for. -/
theorem ten_latest_of_tenAndNine :
    (∀ path ∈ waysThere, latest withTenAndNine path = some 10) ∧
      ∀ path ∈ waysThere,
        (Catalog.loadPath withTenAndNine path none 0).2 =
          .ok ⟨.files .parquet (filePath path 10) 0, []⟩ ∧
        (Catalog.loadPath withTenAndNine path (some 8) 0).2 =
          .error (.versionNotFound path 8) := by
  obtain ⟨hagree, hmade⟩ := path_answers_agree 0
  have hsearched : ∀ path ∈ waysThere, startsEmpty path = false := by decide +kernel
  have hanswers : ∀ path ∈ waysThere, AnswersMade withTenAndNine path {9, 10} tenAndNine 0 :=
    fun path hpath => (hmade _ _ _ _ _ (making_tenAndNine hpath)).1 (hsearched path hpath)
  have hten : ∀ path ∈ waysThere, latest withTenAndNine path = some 10 := by
    intro path hpath
    obtain ⟨newest, hmem, hgreatest, hlatest⟩ := (hanswers path hpath).latest
    have hnewest : newest = 10 := by
      rcases Finset.mem_insert.mp hmem with rfl | hmem
      · exact absurd (hgreatest 10 (by decide)) (by decide)
      · exact Finset.mem_singleton.mp hmem
    rw [hlatest, hnewest]
  refine ⟨hten, fun path hpath => ⟨?_, (hanswers path hpath).missing 8 (by decide)⟩⟩
  rw [((hagree _ _).versioned 10 (hten path hpath)).loaded]
  exact (hanswers path hpath).scanned 10 (by decide)

/-- A working directory with nothing in it. -/
def emptyDirectory : FileTree := ⟨[(["w"], .directory)], ["w"]⟩

/-- The directory after version 5 has been made. -/
def withFive : FileTree := makeVersions emptyDirectory ["w"] [(5, .table oneRow)]

/-- The path `./` leads to the working directory, and version 5 is made there; yet the directory has
no versions, while it has them under the path `.` and under its path from the root. -/
theorem dot_slash_without_versions :
    Making emptyDirectory "./" ["w"] {5} [(5, .table oneRow)] ∧
      isVersioned withFive "./" = false ∧
      latest withFive "./" = none ∧
      (Catalog.loadPath withFive "./" (some 5) 0).2 =
        .error (.invalidParameter (.versionOfPlainPath 5 "./")) ∧
      latest withFive "." = some 5 ∧
      latest withFive "/w/" = some 5 := by
  have hlatest : latest withFive "./" = none := by decide +kernel
  refine ⟨⟨eq_ok_of_toOption (by decide +kernel), rfl, fun name _ => ?_, ⟨5, by decide⟩, ?_⟩,
    by decide +kernel, hlatest, (answersPlain hlatest 0).refused 5, by decide +kernel,
    by decide +kernel⟩
  · have hdeep : ∀ e ∈ emptyDirectory.entries, e.1.length ≤ ["w"].length := by
      simp [emptyDirectory]
    exact FileTree.get?_concat_of_length hdeep name
  · intro v
    rw [Finset.mem_singleton]
    constructor
    · rintro rfl
      exact ⟨_, List.mem_cons_self⟩
    · rintro ⟨content, hmem⟩
      exact congrArg Prod.fst (List.mem_singleton.mp hmem)

end Snapshots
end Lineage
