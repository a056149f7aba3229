import Lineage.Proofs.Dataset.Courses
/-
  Turns of a dataset.

  The views of a dataset are taken one after the other, in any order.  A turn is one of these calls
  with all that is said in it, its answer and the dataset as it is afterwards; `Takes` strings turns
  together.  A turn changes nothing but what the dataset remembers (`turn_sameAs`).
-/

namespace Lineage.Dataset

open Dialogue

variable {F : Type}

/-! ## Taking turns -/

/-- A view that is called. -/
inductive ViewCall where
  | digest | profile | schema | split | descriptor | descriptorText
deriving DecidableEq, Repr

/-- The answer of a view. -/
inductive ViewAnswer where
  | digest (r : Except Failure String)
  | profile (r : Except Failure Profile)
  | schema (s : Option Schema)
  | split (r : Except Failure Split)
  | descriptor (r : Except Failure Descriptor)
  | descriptorText (r : Except Failure String)

/-- A view with its answer in another form. -/
def mapView {α β : Type} (f : α → β) (v : View F α) : View F β := fun d => do
  let (a, d) ← v d
  return (f a, d)

theorem runs_mapView {α β : Type} {f : α → β} {v : View F α} {d d' : Dataset F}
    {said : List (Exchange F)} {b : β} :
    Runs (mapView f v d) said (b, d') ↔ ∃ a, Runs (v d) said (a, d') ∧ b = f a := by
  rw [mapView, runs_bind]
  constructor
  · rintro ⟨first, ⟨a, d₁⟩, rest, rfl, ha, hend⟩
    obtain ⟨rfl, hr⟩ := runs_pure.mp hend
    cases hr
    rw [List.append_nil]
    exact ⟨a, ha, rfl⟩
  · rintro ⟨a, ha, rfl⟩
    exact ⟨said, (a, d'), [], by simp, ha, runs_pure.mpr ⟨rfl, rfl⟩⟩

/-- What a call does. -/
def ViewCall.view : ViewCall → View F ViewAnswer
  | digest => mapView .digest Dataset.digest
  | profile => mapView .profile Dataset.profile
  | schema => mapView .schema Dataset.schema
  | split => mapView .split Dataset.split
  | descriptor => mapView .descriptor Dataset.descriptor
  | descriptorText => mapView .descriptorText Dataset.descriptorText

/-- A call on a dataset: what is said in it, its answer, and the dataset afterwards. -/
structure Turn (F : Type) where
  call : ViewCall
  said : List (Exchange F)
  answer : ViewAnswer
  after : Dataset F

/-- The turn is one that a dataset can take. -/
def Turn.Of (d : Dataset F) (t : Turn F) : Prop := Runs (t.call.view d) t.said (t.answer, t.after)

/-- A dataset takes turns, each from where the one before has left it. -/
inductive Takes : Dataset F → List (Turn F) → Prop
  | nil {d : Dataset F} : Takes d []
  | cons {d : Dataset F} {t : Turn F} {rest : List (Turn F)} (h : t.Of d)
      (hrest : Takes t.after rest) : Takes d (t :: rest)

/-! ## What turns leave alone -/

theorem DigestCourse.sameAs {d d' : Dataset F} {said : List (Exchange F)}
    {r : Except Failure String} (h : DigestCourse d said r d') : d.SameAs d' := by
  cases h with
  | known _ => exact .refl d
  | failed _ => exact .refl d
  | computed _ _ _ => exact ⟨rfl, rfl, rfl, rfl, rfl⟩

theorem SchemaCourse.sameAs {d d' : Dataset F} {said : List (Exchange F)} {r : Option Schema}
    (h : SchemaCourse d said r d') : d.SameAs d' := by
  cases h with
  | known _ => exact .refl d
  | inferred _ _ => exact ⟨rfl, rfl, rfl, rfl, rfl⟩
  | degraded _ _ _ => exact ⟨rfl, rfl, rfl, rfl, rfl⟩

theorem DescriptorCourse.sameAs {d d' : Dataset F} {said : List (Exchange F)}
    {r : Except Failure Descriptor} (h : DescriptorCourse d said r d') : d.SameAs d' := by
  cases h with
  | refused hd => exact hd.sameAs
  | decided hd hs _ => exact hd.sameAs.trans hs.sameAs

/-! ## What they remember -/

/-- A digest that has come is kept. -/
theorem DigestCourse.remembers {d d' : Dataset F} {said : List (Exchange F)} {s : String}
    (h : DigestCourse d said (.ok s) d') : d'.knownDigest = some s := by
  cases h with
  | known hk => exact hk
  | computed _ _ _ => rfl

/-- The outcome of the schema is kept, and the digest is not touched. -/
theorem SchemaCourse.remembers {d d' : Dataset F} {said : List (Exchange F)} {r : Option Schema}
    (h : SchemaCourse d said r d') : d'.knownSchema = some r ∧ d'.knownDigest = d.knownDigest := by
  cases h with
  | known hk => exact ⟨hk, rfl⟩
  | inferred _ _ => exact ⟨rfl, rfl⟩
  | degraded _ _ _ => exact ⟨rfl, rfl⟩

/-- A turn changes nothing but what the dataset remembers. -/
theorem turn_sameAs {d : Dataset F} {t : Turn F} (h : t.Of d) : d.SameAs t.after := by
  obtain ⟨call, said, answer, after⟩ := t
  cases call with
  | digest =>
    obtain ⟨r, hr, -⟩ := runs_mapView.mp h
    exact (runs_digest.mp hr).sameAs
  | profile =>
    obtain ⟨r, hr, -⟩ := runs_mapView.mp h
    obtain ⟨-, rfl⟩ := runs_profile.mp hr
    exact .refl _
  | schema =>
    obtain ⟨r, hr, -⟩ := runs_mapView.mp h
    exact (runs_schema.mp hr).sameAs
  | split =>
    obtain ⟨r, hr, -⟩ := runs_mapView.mp h
    obtain ⟨-, rfl⟩ := runs_split.mp hr
    exact .refl _
  | descriptor =>
    obtain ⟨r, hr, -⟩ := runs_mapView.mp h
    exact (runs_descriptor.mp hr).sameAs
  | descriptorText =>
    obtain ⟨r, hr, -⟩ := runs_mapView.mp h
    obtain ⟨x, hx, -⟩ := runs_descriptorText.mp hr
    exact hx.sameAs

end Lineage.Dataset
