import Lineage.Proofs.Files.Shape
import Lineage.Proofs.Session.RowsAndCounts
/-
  Files are read when they are used, except for documents.

  Loading a path tells what it stands for by the shape of the tree alone, and opens it.  Opening
  gives a plan over a file that is named and not read (`openTarget_eq`), so what files hold makes no
  difference to it (`loadPath_eq`).  The one exception is a document: it is read at once, and the
  plan is over the table that was in it (`document_of_loadPath`).  A frame over that plan is done
  with all files: its columns, its hash, its rows and their number are those of the table, in every
  session and whatever has become of the files (`Settled`).

  A directory with versions comes before any format, also if its name ends like that of a document.
  It is no document: its version is read when it is used (`directory_is_no_document`).
-/

namespace Lineage

/-! ## What is opened -/

namespace Snapshots

variable {t : FileTree} {path : String}

/-- A file of a format is opened only if no version counts. -/
theorem resolve_eq_file {version : Option UInt64} {format : FileFormat}
    (h : resolve t path version = .ok (.file format)) :
    isVersioned t path = false ∧ FileFormat.ofPath path = some format := by
  cases hversioned : isVersioned t path with
  | true =>
    obtain ⟨newest, hlatest, -⟩ := latest_of_isVersioned hversioned
    rw [resolve_of_latest hlatest] at h
    split at h <;> cases h
  | false =>
    rw [resolve_of_plain hversioned] at h
    split at h
    · cases h
    · rename_i known hknown
      obtain rfl := Target.file.inj (Except.ok.inj h)
      exact ⟨rfl, hknown⟩
    · cases h

end Snapshots

namespace Catalog

open Snapshots (Target resolve resolve_eq_file resolve_of_plain)

variable {t u : FileTree} {path : String} {version : Option UInt64} {scan : Nat}

/-- Nothing but a document is read when it is opened. -/
theorem openTarget_eq (t u : FileTree) (path : String) (scan : Nat) {target : Target}
    (h : target ≠ .file .json) : openTarget t path scan target = openTarget u path scan target := by
  cases target with
  | snapshot v => rfl
  | file format =>
    cases format with
    | json => exact absurd rfl h
    | csv => rfl
    | ndjson => rfl
    | parquet => rfl

/-- **What files hold makes no difference to what is loaded**, unless it is a document. -/
theorem loadPath_eq (hshape : t.SameShape u)
    (h : Snapshots.isVersioned t path = true ∨ FileFormat.ofPath path ≠ some .json)
    (version : Option UInt64) (scan : Nat) :
    loadPath t path version scan = loadPath u path version scan := by
  unfold loadPath
  rw [← hshape.resolve_eq]
  cases hresolve : resolve t path version with
  | error f => rfl
  | ok target =>
    have hfile : target ≠ .file .json := by
      rintro rfl
      obtain ⟨hplain, hformat⟩ := resolve_eq_file hresolve
      rcases h with h | h
      · rw [hplain] at h
        cases h
      · exact h hformat
    simp only [openTarget_eq t u path scan hfile]

/-- **A document is read at once**: the plan is over the table that is in it. -/
theorem document_of_loadPath {p : Plan} (hplain : Snapshots.isVersioned t path = false)
    (hformat : FileFormat.ofPath path = some .json) (h : (loadPath t path version scan).2 = .ok p) :
    ∃ text table, t.open? path = .ok (.file (.text text)) ∧
      Files.Records.ofDocument text = .ok table ∧ p = .ofTable table := by
  unfold loadPath at h
  rw [resolve_of_plain hplain, hformat] at h
  cases version with
  | some v => cases h
  | none =>
    change openFile t .json path scan = .ok p at h
    unfold openFile at h
    dsimp only at h
    split at h
    · cases h
    · cases h
    · rename_i content hopen
      split at h
      · rename_i text
        obtain ⟨table, htable, rfl⟩ := map_eq_ok.mp h
        exact ⟨text, table, hopen, htable, rfl⟩
      · cases h

/-- What is in a document is loaded, if it can be read. -/
theorem loadPath_of_document {text : String} {table : Table}
    (hplain : Snapshots.isVersioned t path = false)
    (hformat : FileFormat.ofPath path = some .json) (hopen : t.open? path = .ok (.file (.text text)))
    (htable : Files.Records.ofDocument text = .ok table) :
    (loadPath t path none scan).2 = .ok (.ofTable table) := by
  rw [loadPath, resolve_of_plain hplain, hformat]
  show openFile t .json path scan = _
  unfold openFile
  simp only [hopen, htable]
  rfl

end Catalog

namespace Session

variable {s t : State} {path : String} {version : Option UInt64} {f : Frame} {table : Table}

/-! ## Frames that are done with files -/

/-- In every session a frame has the columns, one hash, the rows and the number of rows of a
table. -/
structure Settled (f : Frame) (table : Table) : Prop where
  columns : ∀ s : State, (s.run (Dialogue.columns f)).1 = .ok table.columns
  hash : ∃ h, ∀ s : State, (s.run (Dialogue.planHash f)).1 = .ok h
  collected : ∀ s : State, (s.collect f).1 = .table table
  gives : Gives f table

theorem settled_of_body (h : f.body = .plan (.ofTable table)) : Settled f table := by
  obtain ⟨i, body⟩ := f
  cases h
  have hcollected : ∀ s : State, (s.collect ⟨i, .plan (.ofTable table)⟩).1 = .table table :=
    fun _ => rfl
  exact ⟨fun _ => rfl, ⟨_, fun _ => rfl⟩, hcollected,
    gives_of_collect ⟨table, [], rfl⟩ (hcollected State.start)⟩

/-- Where the catalog is asked for a path, it gives the plan for it. -/
theorem run_loadPath (h : s.overrides.lookup (.loadPath, path) = none) (version : Option UInt64) :
    ∃ t, s.run (Dialogue.loadPath path version) =
      asFrame (Catalog.loadPath s.files path version s.next).2 t := by
  show ∃ t, askCatalog .loadPath path (some version) _ (loadPath path version) s = _
  unfold askCatalog
  dsimp only
  rw [show (s.record (.catalogAsked .loadPath path (some version))).overrides = s.overrides from rfl,
    h]
  exact ⟨_, rfl⟩

theorem body_of_asFrame {r : Except Failure Plan} (h : asFrame r s = (.ok f, t)) :
    ∃ p, r = .ok p ∧ f.body = .plan p := by
  cases r with
  | error e => cases congrArg Prod.fst h
  | ok p =>
    cases h
    exact ⟨p, rfl, rfl⟩

/-- **Files are read when they are used, except for documents.**

1. What is loaded for a path that has versions, or that does not have the format of documents, is
   told by the shape of the tree: in two trees that differ only in what their files hold it is the
   same, the same failure or the same plan.
2. A frame that is loaded for a document is done with files.  The document has been read, and
   whatever session the frame is asked in afterwards, with whatever files, it has the columns of the
   table that was in the document, its rows and their number, and one and the same hash. -/
theorem files_wait_but_for_documents :
    (∀ {t u : FileTree} {path : String}, t.SameShape u →
      (Snapshots.isVersioned t path = true ∨ FileFormat.ofPath path ≠ some .json) →
      ∀ (version : Option UInt64) (scan : Nat),
        Catalog.loadPath t path version scan = Catalog.loadPath u path version scan) ∧
    ∀ {s t : State} {path : String} {version : Option UInt64} {f : Frame},
      s.overrides.lookup (.loadPath, path) = none → FileFormat.ofPath path = some .json →
      Snapshots.isVersioned s.files path = false →
      s.run (Dialogue.loadPath path version) = (.ok f, t) →
      ∃ text table, s.files.open? path = .ok (.file (.text text)) ∧
        Files.Records.ofDocument text = .ok table ∧ Settled f table := by
  constructor
  · intro t u path hshape h version scan
    exact Catalog.loadPath_eq hshape h version scan
  · intro s t path version f hasked hformat hplain hrun
    obtain ⟨u, hframe⟩ := run_loadPath hasked version
    obtain ⟨p, hp, hbody⟩ := body_of_asFrame (hframe.symm.trans hrun)
    obtain ⟨text, table, hopen, htable, rfl⟩ := Catalog.document_of_loadPath hplain hformat hp
    exact ⟨text, table, hopen, htable, settled_of_body hbody⟩

/-- A tree with one file, in the working directory. -/
def oneFile (name : String) (content : FileContent) : FileTree :=
  ⟨[(["w", name], .file content), (["w"], .directory)], ["w"]⟩

theorem sameShape_oneFile (name : String) (c c' : FileContent) :
    (oneFile name c).SameShape (oneFile name c') where
  kinds key := by
    unfold FileTree.get? oneFile
    split
    · rfl
    · simp only [List.lookup_cons]
      cases key == ["w", name] <;> rfl
  base := rfl

/-- A session with a document. -/
def withDocument : State :=
  { State.start with files := oneFile "d.json" (.text "[\x7b\"x\":true\x7d]") }

/-- A file of comma separated values waits, a document does not, here under paths from the root. -/
theorem document_settles :
    (oneFile "t.csv" (.text "x\n1\n")).SameShape (oneFile "t.csv" (.text "y,z\n")) ∧
    Catalog.loadPath (oneFile "t.csv" (.text "x\n1\n")) "/w/t.csv" none 0 =
      Catalog.loadPath (oneFile "t.csv" (.text "y,z\n")) "/w/t.csv" none 0 ∧
    ∃ f t text table, withDocument.run (Dialogue.loadPath "/w/d.json" none) = (.ok f, t) ∧
      withDocument.files.open? "/w/d.json" = .ok (.file (.text text)) ∧
      Files.Records.ofDocument text = .ok table ∧ Settled f table := by
  have hshape := sameShape_oneFile "t.csv" (.text "x\n1\n") (.text "y,z\n")
  have hcsv : FileFormat.ofPath "/w/t.csv" ≠ some .json := by decide +kernel
  have hjson : FileFormat.ofPath "/w/d.json" = some .json := by decide +kernel
  have hplain : Snapshots.isVersioned withDocument.files "/w/d.json" = false := by decide +kernel
  have hlocated : withDocument.files.locate "/w/d.json" = .ok ["w", "d.json"] :=
    eq_ok_of_toOption (by decide +kernel)
  have hopen : withDocument.files.open? "/w/d.json" = .ok (.file (.text "[\x7b\"x\":true\x7d]")) :=
    FileTree.open?_of_locate hlocated
  have hread : (Files.Records.ofDocument "[\x7b\"x\":true\x7d]").toOption.isSome = true := by
    decide +kernel
  obtain ⟨table, htable⟩ := Option.isSome_iff_exists.mp hread
  have hasked : withDocument.overrides.lookup (.loadPath, "/w/d.json") = none := rfl
  obtain ⟨u, hrun⟩ := run_loadPath hasked none
  rw [Catalog.loadPath_of_document hplain hjson hopen (eq_ok_of_toOption htable)] at hrun
  obtain ⟨text, table, hopen, htable, hsettled⟩ :=
    files_wait_but_for_documents.2 hasked hjson hplain hrun
  exact ⟨hshape, files_wait_but_for_documents.1 hshape (.inr hcsv) none 0, _, _, text, table, hrun,
    hopen, htable, hsettled⟩

/-- A session in which a directory has a name like that of a document, and a version in it. -/
def withDirectory : State :=
  { State.start with files :=
      ⟨[(["w"], .directory), (["w", "d.json"], .directory),
        (["w", "d.json", "v0.parquet"], .file (.table Snapshots.oneRow))], ["w"]⟩ }

/-- The frame that is loaded for the version. -/
def directoryFrame : Frame := ⟨1, .plan ⟨.files .parquet "d.json/v0.parquet" 0, []⟩⟩

/-- The session after the frame has been loaded. -/
def loaded : State := (withDirectory.run (Dialogue.loadPath "d.json" none)).2

/-- The session after the file of the version has been written again. -/
def rewritten : State :=
  (loaded.perform (.writeTable "d.json/v0.parquet" [⟨"x", .i64, [.int 2]⟩])).2

/-- The rows that a frame gives in a session, as bytes. -/
def rowCodes (s : State) (f : Frame) : Option (List (List UInt8)) :=
  (s.run (Dialogue.firstRows f 10)).1.toOption.map fun t => t.rows.map Cell.codes

/-- **A directory with versions is no document, whatever its name is**: the path has the format of
documents and is loaded, but the version is read when it is used, so that what is written to its
file afterwards shows in the rows. -/
theorem directory_is_no_document :
    FileFormat.ofPath "d.json" = some .json ∧
      withDirectory.run (Dialogue.loadPath "d.json" none) = (.ok directoryFrame, loaded) ∧
      (rewritten.run (Dialogue.firstRows directoryFrame 10)).1 ≠
        (loaded.run (Dialogue.firstRows directoryFrame 10)).1 := by
  have hrows : rowCodes rewritten directoryFrame ≠ rowCodes loaded directoryFrame := by
    decide +kernel
  refine ⟨by decide +kernel, ?_, fun h => hrows ?_⟩
  · have hasked : withDirectory.overrides.lookup (.loadPath, "d.json") = none := rfl
    have hlatest : Snapshots.latest withDirectory.files "d.json" = some 0 := by decide +kernel
    have hpath : Snapshots.filePath "d.json" 0 = "d.json/v0.parquet" := by decide +kernel
    have hnumber : (withDirectory.run (Dialogue.loadPath "d.json" none)).1.toOption.map Frame.id =
      some 1 := by decide +kernel
    obtain ⟨u, hrun⟩ := run_loadPath hasked none
    rw [Snapshots.loadPath_none hlatest,
      Snapshots.loadPath_of_mem (Snapshots.greatest_mem hlatest), hpath] at hrun
    rw [hrun] at hnumber
    refine Prod.ext ?_ rfl
    rw [hrun]
    have hnext : u.next = 1 := Option.some.inj hnumber
    show Except.ok (Frame.mk u.next _) = .ok directoryFrame
    rw [hnext]
    rfl
  · rw [rowCodes, h, rowCodes]

end Session
end Lineage
