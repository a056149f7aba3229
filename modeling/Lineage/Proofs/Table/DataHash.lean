import Lineage.Proofs.Success
import Lineage.Proofs.Table.PlanHash
import Lineage.Proofs.Table.RowCodes
/-
  The hash of a plan tells the rows of the table that the plan starts from.

  Take the same steps over two tables with the same columns.  What is hashed in front is the same
  for both then, since the text of a plan and the columns of its result depend on the columns alone
  (`hashedBytesBy_onTable`).  It can be cut off, and what remains are the heights and the rows.  The
  heights have eight bytes, so they are told first, and as many rows are told by what is written for
  them (`Table.settled_of_flatMap`).  Nothing is asked of the steps but that they suit the columns:
  they may drop every row, and the plans are still told apart.

  A table without columns has nothing but its height, and nothing is written for its rows.
-/

namespace Lineage.Plan

/-- Steps over a table in memory. -/
def onTable (t : Table) (steps : List Step) : Plan := ⟨.memory t, steps⟩

/-- The first eight bytes of the digests tell what is hashed, as far as it is known. -/
def DigestsTell (b c : Except Failure (List UInt8)) : Prop :=
  ∀ x y, b = .ok x → c = .ok y → (Md5.digest x).take 8 = (Md5.digest y).take 8 → x = y

/-- Both hashes are answered, and they differ. -/
def HashesDiffer (a b : Except Failure Int64) : Prop := ∃ h k, a = .ok h ∧ b = .ok k ∧ h ≠ k

/-- Digests that are different tell what is hashed. -/
theorem digestsTell_of_ne {b c : Except Failure (List UInt8)}
    (h : (b.toOption.map fun x => (Md5.digest x).take 8) ≠
      c.toOption.map fun x => (Md5.digest x).take 8) : DigestsTell b c := by
  rintro x y rfl rfl hsame
  exact absurd (congrArg some hsame) h

variable {write : List Cell → List UInt8} {seen seen' : Look} {p q : Plan} {b c : List UInt8}

/-! ## Hashes and the bytes that are hashed -/

theorem semanticHashBy_of_bytes (h : p.hashedBytesBy write seen = .ok b) :
    p.semanticHashBy write seen = .ok (hashOf b) := by
  rw [semanticHashBy, h]
  rfl

theorem bytes_of_semanticHashBy {h : Int64} (hhash : p.semanticHashBy write seen = .ok h) :
    ∃ b, p.hashedBytesBy write seen = .ok b ∧ h = hashOf b := by
  obtain ⟨b, hb, hresult⟩ := bind_eq_ok.mp hhash
  exact ⟨b, hb, (Except.ok.inj hresult).symm⟩

/-- What is hashed is the text, the columns of the result, and what the plan starts from. -/
theorem parts_of_hashedBytesBy (h : p.hashedBytesBy write seen = .ok b) :
    ∃ text columns, p.describe seen = .ok text ∧ p.schema seen = .ok columns ∧
      b = Text.utf8 text ++ schemaBytes columns ++ originBytesBy write p.origin := by
  obtain ⟨text, htext, hrest⟩ := bind_eq_ok.mp h
  obtain ⟨columns, hcolumns, hbytes⟩ := bind_eq_ok.mp hrest
  exact ⟨text, columns, htext, hcolumns, (Except.ok.inj hbytes).symm⟩

/-- Different bytes have different hashes, if the digests tell them. -/
theorem hashOf_ne (hb : p.hashedBytesBy write seen = .ok b)
    (hc : q.hashedBytesBy write seen' = .ok c)
    (hmd5 : DigestsTell (p.hashedBytesBy write seen) (q.hashedBytesBy write seen')) (hne : b ≠ c) :
    hashOf b ≠ hashOf c := by
  intro hsame
  exact hne (hmd5 b c hb hc (hashOf_eq_iff.mp hsame))

/-! ## Text and columns of plans over tables -/

/-- Steps that suit the columns have a text. -/
theorem describeSteps_of_schema : ∀ {steps : List Step} {columns result : FrameSchema}
    (below : String), steps.foldlM Step.schema columns = .ok result →
      ∃ text, describeSteps columns below steps = .ok text
  | [], _, _, below, _ => ⟨below, rfl⟩
  | s :: rest, columns, result, below, h => by
    rw [List.foldlM_cons] at h
    obtain ⟨next, hs, hrest⟩ := bind_eq_ok.mp h
    obtain ⟨text, htext⟩ := describeSteps_of_schema (s.describe columns below) hrest
    refine ⟨text, ?_⟩
    rw [describeSteps, hs]
    exact htext

/-- **What is hashed in front of the rows** is the same for all tables with these columns. -/
theorem hashedBytesBy_onTable {steps : List Step} {columns result : FrameSchema}
    (h : steps.foldlM Step.schema columns = .ok result) (write : List Cell → List UInt8) :
    ∃ front, ∀ t : Table, t.columns = columns →
      (onTable t steps).hashedBytesBy write (.ofTable t) =
        .ok (front ++ originBytesBy write (.memory t)) := by
  obtain ⟨text, htext⟩ := describeSteps_of_schema
    (Origin.describe (.ofTable ⟨columns, []⟩) (.memory ⟨columns, []⟩)) h
  refine ⟨Text.utf8 text ++ schemaBytes result, ?_⟩
  intro t hcolumns
  have hdescribed : (onTable t steps).describe (.ofTable t) = .ok text := by
    show describeSteps t.columns (Origin.describe (.ofTable t) (.memory t)) steps = _
    rw [describe_eq (t := t) (u := ⟨columns, []⟩) (congrArg (List.map Prod.fst) hcolumns), hcolumns]
    exact htext
  have hschema : (onTable t steps).schema (.ofTable t) = .ok result := by
    show steps.foldlM Step.schema t.columns = _
    rw [hcolumns]
    exact h
  rw [hashedBytesBy, hdescribed, hschema]
  rfl

/-! ## Rows -/

/-- **Height and rows of a table are told by its bytes.** -/
theorem settled_of_originBytesBy {t u : Table} (hcolumns : t.columns = u.columns)
    (ht : t.height < 2 ^ 64) (hu : u.height < 2 ^ 64)
    (hw : Table.Tells write t.width t.rows u.rows)
    (h : originBytesBy write (.memory t) = originBytesBy write (.memory u)) :
    t.settled = u.settled := by
  obtain ⟨hheight, hrows⟩ := Text.littleEndian_append_inj ht hu h
  have hwidth : t.width = u.width := congrArg List.length hcolumns
  have hlength : t.rows.length = u.rows.length := hheight
  rw [Table.settled, Table.settled, ← hwidth]
  cases hempty : t.columns.isEmpty with
  | true =>
    -- Without columns all rows are the same, so the height tells them.
    have hzero : t.width = 0 := by
      rw [Table.width, List.isEmpty_iff.mp hempty]
      rfl
    have hnothing : ∀ rows : List (List Cell),
        rows.map (Table.settledRow 0) = List.replicate rows.length [] := by
      intro rows
      exact List.map_const'
    rw [hzero, hnothing, hnothing, hlength]
  | false =>
    rw [← hcolumns, hempty] at hrows
    exact Table.settled_of_flatMap hw hlength hrows

/-- Tables with the same columns that differ in their heights, in a value or in the order of their
rows, and steps that suit their columns. -/
structure Apart (steps : List Step) (t u : Table) : Prop where
  columns : t.columns = u.columns
  suitable : ∃ result, steps.foldlM Step.schema t.columns = .ok result
  height : t.height < 2 ^ 64
  height' : u.height < 2 ^ 64
  rows : t.settled ≠ u.settled

/-- **Plans with the same steps over different rows have different hashes**, however rows are
written, if what is written tells them. -/
theorem hashesDiffer_of_apart {steps : List Step} {t u : Table} (h : Apart steps t u)
    (hw : Table.Tells write t.width t.rows u.rows)
    (hmd5 : DigestsTell ((onTable t steps).hashedBytesBy write (.ofTable t))
      ((onTable u steps).hashedBytesBy write (.ofTable u))) :
    HashesDiffer ((onTable t steps).semanticHashBy write (.ofTable t))
      ((onTable u steps).semanticHashBy write (.ofTable u)) := by
  obtain ⟨result, hresult⟩ := h.suitable
  obtain ⟨front, hfront⟩ := hashedBytesBy_onTable hresult write
  have hb := hfront t rfl
  have hc := hfront u h.columns.symm
  refine ⟨_, _, semanticHashBy_of_bytes hb, semanticHashBy_of_bytes hc, ?_⟩
  refine hashOf_ne hb hc hmd5 ?_
  intro hsame
  exact h.rows (settled_of_originBytesBy h.columns h.height h.height' hw
    (List.append_cancel_left hsame))

end Lineage.Plan
