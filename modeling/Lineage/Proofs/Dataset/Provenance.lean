import Lineage.Proofs.Dataset.Making
/-
  Where a wrapped frame comes from.

  A request for wrapping a frame names paths, tables and queries (`FrameRequest.named`).  What is
  asked of the catalog, and which source the dataset gets, depends on nothing but these names, the
  version in the request and the answers of the catalog:

    * not exactly one name, or a query with a version: refused, and nobody is asked;
    * a query: nobody is asked, and the source is the query;
    * a path or a table: the catalog is asked whether it has versions; if it has, and the request
      does not say which, it is asked for the latest one; and nothing else is asked of it.

  The frame is not asked before the source is settled.  From there on all goes as if the dataset was
  made over the frame and that source directly (`DecidesProvenance`), with any answers whatever.
-/

namespace Lineage

/-! ## What is asked of the catalog -/

/-- A question to the catalog. -/
def Question.isCatalogs {F : Type} : Question F → Bool
  | isVersionedTable _ | isVersionedPath _ | latestOfTable _ | latestOfPath _
  | loadTable _ _ | loadPath _ _ | runQuery _ => true
  | _ => false

/-- The part of a course in which the catalog is asked. -/
def catalogTalk {F : Type} (said : List (Exchange F)) : List (Exchange F) :=
  said.filter fun x => x.question.isCatalogs

namespace VersionedLocation

/-- The catalog is asked whether a place has versions. -/
def versionsAsked {F : Type} : VersionedLocation → Bool → Exchange F
  | path p, versioned => ⟨.isVersionedPath p, versioned⟩
  | tableName n, versioned => ⟨.isVersionedTable n, versioned⟩

/-- The catalog is asked for the latest version of a place. -/
def latestAsked {F : Type} : VersionedLocation → Option UInt64 → Exchange F
  | path p, version => ⟨.latestOfPath p, version⟩
  | tableName n, version => ⟨.latestOfTable n, version⟩

end VersionedLocation

/-- All that a request for wrapping a frame names. -/
def FrameRequest.named (r : FrameRequest) : List TableRef :=
  (r.path.map TableRef.path).toList ++ (r.tableName.map TableRef.tableName).toList ++
    (r.sql.map TableRef.sql).toList

namespace Dataset

open Dialogue

variable {F : Type}

/-! ## Deciding the source -/

/-- The catalog has said whether a place has versions.  What it is asked then, and the verdict about
the source: it is refused if there is a version that the place cannot have, and otherwise it tells
the place, with the version in the request or else the latest one if it has versions. -/
def PlaceSettled (place : VersionedLocation) (asked : List (Exchange F))
    (verdict : Except Refusal Source) : Bool → Option UInt64 → Prop
  | false, some v => asked = [] ∧ verdict = .error (place.versionRefused v)
  | false, none => asked = [] ∧ verdict = .ok (.table place.plain)
  | true, some v => asked = [] ∧ verdict = .ok (.versioned ⟨place, some v⟩)
  | true, none => ∃ latest, asked = [place.latestAsked latest] ∧
      verdict = .ok (.versioned ⟨place, latest⟩)

/-- What comes of a verdict about the source: a refusal ends it at once, and with a source a dataset
is made, without the catalog. -/
def Concluded (frame : F) (labels : Labels) (options : DatasetOptions)
    (rest : List (Exchange F)) (result : Except Failure (Dataset F)) :
    Except Refusal Source → Prop
  | .error refusal => rest = [] ∧ result = .error (.invalidParameter refusal)
  | .ok source => catalogTalk rest = [] ∧ Runs (make frame source labels options) rest result

/-- In these exchanges, and with this result, the source of a wrapped frame is decided as the names
in the request, its version and the answers of the catalog demand. -/
structure DecidesProvenance (frame : F) (r : FrameRequest) (options : DatasetOptions)
    (said : List (Exchange F)) (result : Except Failure (Dataset F)) : Prop where
  unclear : r.named.length ≠ 1 →
    Concluded frame r.labels options said result (.error .oneOfThreeOrigins)
  versionOfQuery : ∀ q, r.named = [.sql q] → r.version.isSome →
    Concluded frame r.labels options said result (.error .versionOfQuery)
  query : ∀ q, r.named = [.sql q] → r.version = none →
    Concluded frame r.labels options said result (.ok (.table (.sql q)))
  place : ∀ place : VersionedLocation, r.named = [place.plain] →
    ∃ versioned asked verdict rest, said = place.versionsAsked versioned :: (asked ++ rest) ∧
      PlaceSettled place asked verdict versioned r.version ∧
      Concluded frame r.labels options rest result verdict

/-! ## Names -/

/-- A request names nothing or several things, or one query, or one place. -/
theorem named_cases (r : FrameRequest) :
    (r.named.length ≠ 1 ∧ originOf r = .error .oneOfThreeOrigins) ∨
      (∃ q, r.named = [.sql q] ∧
        originOf r = if r.version.isSome then .error .versionOfQuery else .ok (.inl q)) ∨
      ∃ place : VersionedLocation, r.named = [place.plain] ∧ originOf r = .ok (.inr place) := by
  obtain ⟨path, tableName, sql, version, labels⟩ := r
  cases path with
  | none =>
    cases tableName with
    | none =>
      cases sql with
      | none => exact .inl ⟨by simp [FrameRequest.named], rfl⟩
      | some q => exact .inr (.inl ⟨q, rfl, rfl⟩)
    | some n =>
      cases sql with
      | none => exact .inr (.inr ⟨.tableName n, rfl, rfl⟩)
      | some q => exact .inl ⟨by simp [FrameRequest.named], rfl⟩
  | some p =>
    cases tableName with
    | none =>
      cases sql with
      | none => exact .inr (.inr ⟨.path p, rfl, rfl⟩)
      | some q => exact .inl ⟨by simp [FrameRequest.named], rfl⟩
    | some n =>
      cases sql with
      | none => exact .inl ⟨by simp [FrameRequest.named], rfl⟩
      | some q => exact .inl ⟨by simp [FrameRequest.named], rfl⟩

/-- No place is a query. -/
theorem plain_ne_sql (place : VersionedLocation) (q : String) : place.plain ≠ .sql q := by
  cases place <;> exact fun h => by cases h

/-- A place is known by the reference to it. -/
theorem plain_injective {place other : VersionedLocation} (h : place.plain = other.plain) :
    place = other := by
  cases place with
  | path p =>
    cases other with
    | path q => exact congrArg _ (TableRef.path.inj h)
    | tableName n => cases h
  | tableName n =>
    cases other with
    | path q => cases h
    | tableName m => exact congrArg _ (TableRef.tableName.inj h)

/-! ## Courses -/

/-- Making a dataset asks nothing of the catalog. -/
theorem catalogTalk_of_make {frame : F} {source : Source} {labels : Labels}
    {options : DatasetOptions} {said : List (Exchange F)} {result : Except Failure (Dataset F)}
    (h : Runs (make frame source labels options) said result) : catalogTalk said = [] := by
  rw [make] at h
  cases ht : labels.targets with
  | none =>
    simp only [ht] at h
    rw [(runs_pure.mp h).1]
    rfl
  | some target =>
    simp only [ht] at h
    obtain ⟨reply, rest, rfl, hreply⟩ := runs_ask_bind.mp h
    have hrest : rest = [] := by
      cases reply with
      | error f => exact (runs_pure.mp hreply).1
      | ok columns =>
        by_cases hc : columns.any (·.1 == target) = true
        · simp only [if_pos hc] at hreply
          exact (runs_pure.mp hreply).1
        · simp only [if_neg hc] at hreply
          exact (runs_pure.mp hreply).1
    rw [hrest]
    rfl

/-- The courses of asking whether a place has versions, with a dialogue behind. -/
theorem runs_isVersioned_bind {α : Type} {place : VersionedLocation} {f : Bool → Dialogue F α}
    {said : List (Exchange F)} {a : α} :
    Runs ((place.isVersioned : Dialogue F Bool) >>= f) said a ↔
      ∃ versioned rest, said = place.versionsAsked versioned :: rest ∧
        Runs (f versioned) rest a := by
  cases place with
  | path p => exact runs_ask_bind
  | tableName n => exact runs_ask_bind

/-- The courses of asking for the latest version of a place, with a dialogue behind. -/
theorem runs_latest_bind {α : Type} {place : VersionedLocation}
    {f : Option UInt64 → Dialogue F α} {said : List (Exchange F)} {a : α} :
    Runs ((place.latest : Dialogue F (Option UInt64)) >>= f) said a ↔
      ∃ latest rest, said = place.latestAsked latest :: rest ∧ Runs (f latest) rest a := by
  cases place with
  | path p => exact runs_ask_bind
  | tableName n => exact runs_ask_bind

/-- The courses of settling the source of a place. -/
theorem runs_sourceOf {place : VersionedLocation} {version : Option UInt64}
    {said : List (Exchange F)} {verdict : Except Refusal Source} :
    Runs (sourceOf place version) said verdict ↔
      ∃ versioned asked, said = place.versionsAsked versioned :: asked ∧
        PlaceSettled place asked verdict versioned version := by
  unfold sourceOf
  rw [runs_isVersioned_bind]
  refine exists_congr fun versioned => exists_congr fun asked => and_congr_right fun _ => ?_
  cases versioned with
  | false =>
    cases version with
    | none => exact runs_pure
    | some v => exact runs_pure
  | true =>
    rw [if_pos rfl]
    cases version with
    | some v => exact runs_pure
    | none =>
      constructor
      · intro h
        obtain ⟨first, table, second, rfl, hpinned, hend⟩ := runs_bind.mp h
        obtain ⟨latest, rest, rfl, hlatest⟩ := runs_latest_bind.mp hpinned
        obtain ⟨rfl, rfl⟩ := runs_pure.mp hlatest
        obtain ⟨rfl, rfl⟩ := runs_pure.mp hend
        exact ⟨latest, rfl, rfl⟩
      · rintro ⟨latest, rfl, rfl⟩
        have hpinned : Runs (place.pinned none : Dialogue F VersionedTable)
            [place.latestAsked latest] ⟨place, latest⟩ :=
          runs_latest_bind.mpr ⟨latest, [], rfl, .done _⟩
        exact runs_bind.mpr ⟨_, _, [], rfl, hpinned, .done _⟩

/-- The courses of what comes of a verdict. -/
theorem runs_of_verdict {frame : F} {labels : Labels} {options : DatasetOptions}
    (verdict : Except Refusal Source) {rest : List (Exchange F)}
    {result : Except Failure (Dataset F)} :
    Runs (match verdict with
      | .error refusal => pure (.error (.invalidParameter refusal))
      | .ok source => make frame source labels options : Dialogue F (Except Failure (Dataset F)))
      rest result ↔ Concluded frame labels options rest result verdict := by
  cases verdict with
  | error refusal => exact runs_pure
  | ok source => exact ⟨fun h => ⟨catalogTalk_of_make h, h⟩, fun h => h.2⟩

/-- The courses of wrapping a frame from a place. -/
theorem runs_fromFrame_of_place {frame : F} {r : FrameRequest} {options : DatasetOptions}
    {place : VersionedLocation} (ho : originOf r = .ok (.inr place)) {said : List (Exchange F)}
    {result : Except Failure (Dataset F)} :
    Runs (fromFrame frame r options) said result ↔
      ∃ versioned asked verdict rest, said = place.versionsAsked versioned :: (asked ++ rest) ∧
        PlaceSettled place asked verdict versioned r.version ∧
        Concluded frame r.labels options rest result verdict := by
  rw [fromFrame, ho]
  show Runs (sourceOf place r.version >>= _) said result ↔ _
  rw [runs_bind]
  constructor
  · rintro ⟨first, verdict, rest, rfl, hsource, hrest⟩
    obtain ⟨versioned, asked, rfl, hsettled⟩ := runs_sourceOf.mp hsource
    exact ⟨versioned, asked, verdict, rest, rfl, hsettled, (runs_of_verdict verdict).mp hrest⟩
  · rintro ⟨versioned, asked, verdict, rest, rfl, hsettled, hrest⟩
    exact ⟨_, verdict, rest, rfl, runs_sourceOf.mpr ⟨versioned, asked, rfl, hsettled⟩,
      (runs_of_verdict verdict).mpr hrest⟩

/-- The courses of wrapping a frame from a query. -/
theorem runs_fromFrame_of_query {frame : F} {r : FrameRequest} {options : DatasetOptions}
    {q : String}
    (ho : originOf r = if r.version.isSome then .error .versionOfQuery else .ok (.inl q))
    {said : List (Exchange F)} {result : Except Failure (Dataset F)} :
    Runs (fromFrame frame r options) said result ↔
      Concluded frame r.labels options said result
        (if r.version.isSome then .error .versionOfQuery else .ok (.table (.sql q))) := by
  rw [fromFrame, ho]
  cases hv : r.version with
  | some v => exact runs_pure
  | none => exact runs_of_verdict (.ok _)

/-! ## The decision -/

section Demands

variable {frame : F} {r : FrameRequest} {options : DatasetOptions} {said : List (Exchange F)}
  {result : Except Failure (Dataset F)}

/-- What is demanded of a request that names nothing or several things. -/
theorem decides_of_unclear (hnamed : r.named.length ≠ 1) :
    DecidesProvenance frame r options said result ↔
      Concluded frame r.labels options said result (.error .oneOfThreeOrigins) := by
  constructor
  · intro h
    exact h.unclear hnamed
  · intro h
    -- The other demands are made of requests that name one thing.
    refine ⟨fun _ => h, fun q hq => ?_, fun q hq => ?_, fun place hplace => ?_⟩
    · exact absurd (congrArg List.length hq) hnamed
    · exact absurd (congrArg List.length hq) hnamed
    · exact absurd (congrArg List.length hplace) hnamed

/-- What is demanded of a request that names a query. -/
theorem decides_of_query {q : String} (hnamed : r.named = [.sql q]) :
    DecidesProvenance frame r options said result ↔
      Concluded frame r.labels options said result
        (if r.version.isSome then .error .versionOfQuery else .ok (.table (.sql q))) := by
  have hone : r.named.length = 1 := congrArg List.length hnamed
  have hquery : ∀ q' : String, r.named = [.sql q'] → q = q' := by
    intro q' hq
    exact TableRef.sql.inj (List.singleton_inj.mp (hnamed.symm.trans hq))
  have hplace : ∀ place : VersionedLocation, r.named ≠ [place.plain] := by
    intro place hp
    exact plain_ne_sql place q (List.singleton_inj.mp (hp.symm.trans hnamed))
  cases hv : r.version with
  | some v =>
    constructor
    · intro h
      exact h.versionOfQuery q hnamed (by rw [hv]; rfl)
    · intro h
      refine ⟨fun hn => absurd hone hn, fun _ _ _ => h, fun _ _ hnone => ?_,
        fun place hp => absurd hp (hplace place)⟩
      cases hv.symm.trans hnone
  | none =>
    constructor
    · intro h
      exact h.query q hnamed hv
    · intro h
      refine ⟨fun hn => absurd hone hn, fun _ _ hsome => ?_, fun q' hq _ => ?_,
        fun place hp => absurd hp (hplace place)⟩
      · rw [hv] at hsome
        cases hsome
      · obtain rfl := hquery q' hq
        exact h

/-- What is demanded of a request that names a place. -/
theorem decides_of_place {place : VersionedLocation} (hnamed : r.named = [place.plain]) :
    DecidesProvenance frame r options said result ↔
      ∃ versioned asked verdict rest, said = place.versionsAsked versioned :: (asked ++ rest) ∧
        PlaceSettled place asked verdict versioned r.version ∧
        Concluded frame r.labels options rest result verdict := by
  have hone : r.named.length = 1 := congrArg List.length hnamed
  have hquery : ∀ q, r.named ≠ [.sql q] := by
    intro q hq
    exact plain_ne_sql place q (List.singleton_inj.mp (hnamed.symm.trans hq))
  constructor
  · intro h
    exact h.place place hnamed
  · intro h
    refine ⟨fun hn => absurd hone hn, fun q hq => absurd hq (hquery q),
      fun q hq => absurd hq (hquery q), fun other hp => ?_⟩
    obtain rfl := plain_injective (List.singleton_inj.mp (hnamed.symm.trans hp))
    exact h

end Demands

/-- **The source of a wrapped frame is decided by the names in the request, its version and the
answers of the catalog**, whatever the catalog and the frame answer. -/
theorem fromFrame_decides_provenance (frame : F) (r : FrameRequest) (options : DatasetOptions)
    (said : List (Exchange F)) (result : Except Failure (Dataset F)) :
    Runs (fromFrame frame r options) said result ↔
      DecidesProvenance frame r options said result := by
  rcases named_cases r with ⟨hnamed, ho⟩ | ⟨q, hnamed, ho⟩ | ⟨place, hnamed, ho⟩
  · rw [decides_of_unclear hnamed, fromFrame, ho]
    exact runs_pure
  · rw [decides_of_query hnamed]
    exact runs_fromFrame_of_query ho
  · rw [decides_of_place hnamed]
    exact runs_fromFrame_of_place ho

end Dataset
end Lineage
