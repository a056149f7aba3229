import Lineage.Proofs.Dataset.Provenance
import Mathlib.Data.List.Nodup
/-
  Loading a version, question by question.

  A request for a version names a path, a table, both or neither (`VersionedRequest.named`).  All
  that is asked on the way to a dataset comes in one order, with any answers whatever
  (`LoadsInOrder`):

    * not exactly one name: refused, and nobody is asked;
    * one place: the catalog is asked whether it has versions, and if it has none that is the end;
    * otherwise, if the request does not say which version, the catalog is asked for the latest one,
      and there need not be one;
    * then exactly that version is loaded, once.  A failure ends it unchanged, and with a frame all
      goes as if the dataset was made over it directly.

  Wrapping a frame resolves places by code of its own (`sourceOf`).  The two agree: from the same
  answers of the catalog, wrapping a frame from the same place asks the same but for the loading,
  and goes on with the source that was recorded by loading (`WrapsAlike`).
-/

namespace Lineage

/-! ## Requests and places -/

/-- All that a request for a version names. -/
def VersionedRequest.named (r : VersionedRequest) : List VersionedLocation :=
  (r.path.map VersionedLocation.path).toList ++
    (r.tableName.map VersionedLocation.tableName).toList

/-- The request for wrapping a frame from the same place and version. -/
def VersionedRequest.wrapping (r : VersionedRequest) (labels : Labels) : FrameRequest :=
  ⟨r.path, r.tableName, none, r.version, labels⟩

namespace VersionedLocation

/-- The catalog is asked to load a place in a version. -/
def loadAsked {F : Type} : VersionedLocation → Option UInt64 → Except Failure F → Exchange F
  | path p, version, loaded => ⟨.loadPath p version, loaded⟩
  | tableName n, version, loaded => ⟨.loadTable n version, loaded⟩

/-- The name of a dataset over a place that is given none: the table with the number of the version,
if there is one, and the usual name for a path. -/
def defaultName : VersionedLocation → Option UInt64 → String
  | tableName n, some v => n ++ "v" ++ toString v
  | tableName n, none => n
  | path _, _ => "dataset"

end VersionedLocation

/-- The catalog answers alike in two courses, wherever the same is asked of it in both. -/
def AnswersAlike {F : Type} (said other : List (Exchange F)) : Prop :=
  ∀ (q : Question F) (a b : q.Answer), q.isCatalogs = true →
    (⟨q, a⟩ : Exchange F) ∈ said → (⟨q, b⟩ : Exchange F) ∈ other → b = a

namespace Dataset

open Dialogue

variable {F : Type}

/-! ## The order of loading -/

/-- The version that is loaded, and what the catalog is asked to find it: nothing if the request
tells the version, and otherwise for the latest one. -/
def VersionChosen (place : VersionedLocation) (asked : List (Exchange F))
    (chosen : Option UInt64) : Option UInt64 → Prop
  | some v => asked = [] ∧ chosen = some v
  | none => asked = [place.latestAsked chosen]

/-- What comes of loading: a failure is the end, and over a frame a dataset is made, without the
catalog.  Its source is the place in that version, and it has the name in the request or else the
usual one. -/
def AfterLoading (r : VersionedRequest) (options : DatasetOptions) (place : VersionedLocation)
    (chosen : Option UInt64) (rest : List (Exchange F)) (result : Except Failure (Dataset F)) :
    Except Failure F → Prop
  | .error f => rest = [] ∧ result = .error f
  | .ok frame => ∃ last, rest = ⟨.note (.versionedLoaded ⟨place, chosen⟩), ()⟩ :: last ∧
      catalogTalk last = [] ∧
      Runs (make frame (.versioned ⟨place, chosen⟩)
        ⟨r.labels.targets, some (r.labels.name.getD (place.defaultName chosen)), r.labels.digest⟩
        options) last result

/-- A place without versions is refused after that one question. -/
def Refused (place : VersionedLocation) (said : List (Exchange F))
    (result : Except Failure (Dataset F)) : Prop :=
  said = [place.versionsAsked false] ∧ result = .error (.invalidParameter place.notVersioned)

/-- A place with versions is loaded once, in the version that is chosen first. -/
def LoadedOnce (r : VersionedRequest) (options : DatasetOptions) (place : VersionedLocation)
    (said : List (Exchange F)) (result : Except Failure (Dataset F)) : Prop :=
  ∃ asked chosen loaded rest,
    said = place.versionsAsked true :: (asked ++ place.loadAsked chosen loaded :: rest) ∧
    VersionChosen place asked chosen r.version ∧
    AfterLoading r options place chosen rest result loaded

/-- In these exchanges, and with this result, a version is loaded in the one order there is. -/
structure LoadsInOrder (r : VersionedRequest) (options : DatasetOptions)
    (said : List (Exchange F)) (result : Except Failure (Dataset F)) : Prop where
  unclear : r.named.length ≠ 1 → said = [] ∧ result = .error (.invalidParameter .oneOfTwoPlaces)
  place : ∀ place, r.named = [place] →
    Refused place said result ∨ LoadedOnce r options place said result

/-- Wrapping any frame from the same place and version agrees with the dataset that was loaded in
these exchanges: from the same answers of the catalog the same is asked of it but for the loading,
and all goes on as if a dataset with the same source was made directly. -/
def WrapsAlike (r : VersionedRequest) (said : List (Exchange F)) (d : Dataset F) : Prop :=
  ∀ (frame : F) (labels : Labels) (options : DatasetOptions) (told : List (Exchange F))
    (result : Except Failure (Dataset F)),
    (Runs (fromFrame frame (r.wrapping labels) options) told result ∧ AnswersAlike said told ↔
      ∃ asked loading rest, catalogTalk said = asked ++ [loading] ∧ told = asked ++ rest ∧
        Runs (make frame d.source labels options) rest result) ∧
    ∀ e, Runs (fromFrame frame (r.wrapping labels) options) told (.ok e) →
      AnswersAlike said told → e.source = d.source

/-! ## Names -/

/-- A request names one place, or nothing or two things. -/
theorem place_cases (r : VersionedRequest) :
    (r.named.length ≠ 1 ∧ placeOf r = .error .oneOfTwoPlaces) ∨
      ∃ place, r.named = [place] ∧ placeOf r = .ok place ∧
        ∀ labels, originOf (r.wrapping labels) = .ok (.inr place) := by
  obtain ⟨path, tableName, version, labels⟩ := r
  cases path with
  | none =>
    cases tableName with
    | none => exact .inl ⟨by simp [VersionedRequest.named], rfl⟩
    | some n => exact .inr ⟨.tableName n, rfl, rfl, fun _ => rfl⟩
  | some p =>
    cases tableName with
    | none => exact .inr ⟨.path p, rfl, rfl, fun _ => rfl⟩
    | some n => exact .inl ⟨by simp [VersionedRequest.named], rfl⟩

/-- A dataset that is loaded is made with the name in the request, or else the usual one. -/
theorem make_named (frame : F) (source : Source) (labels : Labels) (options : DatasetOptions)
    (place : VersionedLocation) (chosen : Option UInt64) :
    make frame source { labels with name := labels.name.or (versionedName ⟨place, chosen⟩) }
        options =
      make frame source
        ⟨labels.targets, some (labels.name.getD (place.defaultName chosen)), labels.digest⟩
        options := by
  have hname : (labels.name.or (versionedName ⟨place, chosen⟩)).getD defaultName =
      labels.name.getD (place.defaultName chosen) := by
    cases labels.name with
    | some name => rfl
    | none =>
      cases place with
      | path p => rfl
      | tableName n => cases chosen <;> rfl
  simp only [make, fresh, hname, Option.getD_some]

/-! ## Courses -/

/-- The courses of choosing a version, with a dialogue behind. -/
theorem runs_pinned_bind {α : Type} {place : VersionedLocation} {version : Option UInt64}
    {f : VersionedTable → Dialogue F α} {said : List (Exchange F)} {a : α} :
    Runs ((place.pinned version : Dialogue F VersionedTable) >>= f) said a ↔
      ∃ asked chosen rest, said = asked ++ rest ∧ VersionChosen place asked chosen version ∧
        Runs (f ⟨place, chosen⟩) rest a := by
  cases version with
  | some v =>
    constructor
    · intro h
      exact ⟨[], some v, said, rfl, ⟨rfl, rfl⟩, h⟩
    · rintro ⟨_, _, rest, rfl, ⟨rfl, rfl⟩, h⟩
      exact h
  | none =>
    rw [runs_bind]
    constructor
    · rintro ⟨first, table, rest, rfl, hpinned, h⟩
      obtain ⟨latest, behind, rfl, hlatest⟩ := runs_latest_bind.mp hpinned
      obtain ⟨rfl, rfl⟩ := runs_pure.mp hlatest
      exact ⟨_, latest, rest, rfl, rfl, h⟩
    · rintro ⟨_, chosen, rest, rfl, rfl, h⟩
      exact ⟨_, _, rest, rfl, runs_latest_bind.mpr ⟨chosen, [], rfl, .done _⟩, h⟩

/-- The courses of loading a version, with a dialogue behind. -/
theorem runs_load_bind {α : Type} {place : VersionedLocation} {chosen : Option UInt64}
    {f : Except Failure F → Dialogue F α} {said : List (Exchange F)} {a : α} :
    Runs (Source.loadVersioned ⟨place, chosen⟩ >>= f) said a ↔
      ∃ loaded rest, said = place.loadAsked chosen loaded :: rest ∧ Runs (f loaded) rest a := by
  cases place with
  | path p => exact runs_ask_bind
  | tableName n => exact runs_ask_bind

/-- The courses of what comes of loading. -/
theorem runs_afterLoading {r : VersionedRequest} {options : DatasetOptions}
    {place : VersionedLocation} {chosen : Option UInt64} (loaded : Except Failure F)
    {rest : List (Exchange F)} {result : Except Failure (Dataset F)} :
    Runs (match loaded with
      | .error f => pure (.error f)
      | .ok frame => do
        Dialogue.note (.versionedLoaded ⟨place, chosen⟩)
        make frame (.versioned ⟨place, chosen⟩)
          { r.labels with name := r.labels.name.or (versionedName ⟨place, chosen⟩) } options :
        Dialogue F (Except Failure (Dataset F))) rest result ↔
      AfterLoading r options place chosen rest result loaded := by
  cases loaded with
  | error f => exact runs_pure
  | ok frame =>
    simp only [make_named]
    constructor
    · intro h
      obtain ⟨⟨⟩, last, rfl, hmake⟩ := runs_ask_bind.mp h
      exact ⟨last, rfl, catalogTalk_of_make hmake, hmake⟩
    · rintro ⟨last, rfl, -, hmake⟩
      exact runs_ask_bind.mpr ⟨(), last, rfl, hmake⟩

/-- The courses of loading a version of a place. -/
theorem runs_loadVersioned_of_place {r : VersionedRequest} {options : DatasetOptions}
    {place : VersionedLocation} (hp : placeOf r = .ok place) {said : List (Exchange F)}
    {result : Except Failure (Dataset F)} :
    Runs (loadVersioned r options) said result ↔
      Refused place said result ∨ LoadedOnce r options place said result := by
  rw [loadVersioned, hp]
  show Runs (place.isVersioned >>= _) said result ↔ _
  rw [runs_isVersioned_bind]
  constructor
  · rintro ⟨versioned, rest, rfl, h⟩
    cases versioned with
    | false =>
      obtain ⟨rfl, rfl⟩ := runs_pure.mp h
      exact .inl ⟨rfl, rfl⟩
    | true =>
      obtain ⟨asked, chosen, rest, rfl, hchosen, h⟩ := runs_pinned_bind.mp h
      obtain ⟨loaded, rest, rfl, hloaded⟩ := runs_load_bind.mp h
      have hafter := (runs_afterLoading loaded).mp hloaded
      exact .inr ⟨asked, chosen, loaded, rest, rfl, hchosen, hafter⟩
  · rintro (⟨rfl, rfl⟩ | ⟨asked, chosen, loaded, rest, rfl, hchosen, h⟩)
    · exact ⟨false, [], rfl, runs_pure.mpr ⟨rfl, rfl⟩⟩
    · refine ⟨true, _, rfl, runs_pinned_bind.mpr ⟨asked, chosen, _, rfl, hchosen, ?_⟩⟩
      exact runs_load_bind.mpr ⟨loaded, rest, rfl, (runs_afterLoading loaded).mpr h⟩

/-- Every course of loading a version is in order, and whatever is in order is a course. -/
theorem runs_loadVersioned_iff {r : VersionedRequest} {options : DatasetOptions}
    {said : List (Exchange F)} {result : Except Failure (Dataset F)} :
    Runs (loadVersioned r options) said result ↔ LoadsInOrder r options said result := by
  rcases place_cases r with ⟨hnamed, hp⟩ | ⟨place, hnamed, hp, -⟩
  · rw [loadVersioned, hp]
    constructor
    · intro h
      refine ⟨fun _ => runs_pure.mp h, fun place hplace => ?_⟩
      exact absurd (congrArg List.length hplace) hnamed
    · intro h
      exact runs_pure.mpr (h.unclear hnamed)
  · rw [runs_loadVersioned_of_place hp]
    constructor
    · intro h
      refine ⟨fun hn => absurd (congrArg List.length hnamed) hn, fun other hother => ?_⟩
      obtain rfl := List.singleton_inj.mp (hnamed.symm.trans hother)
      exact h
    · intro h
      exact h.place place hnamed

/-! ## What is asked of the catalog -/

theorem catalogTalk_append (first second : List (Exchange F)) :
    catalogTalk (first ++ second) = catalogTalk first ++ catalogTalk second :=
  List.filter_append ..

theorem catalogTalk_cons {x : Exchange F} (h : x.question.isCatalogs = true)
    (said : List (Exchange F)) : catalogTalk (x :: said) = x :: catalogTalk said :=
  List.filter_cons_of_pos h

/-- A note is not put to the catalog. -/
theorem catalogTalk_note (n : Note) (said : List (Exchange F)) :
    catalogTalk (⟨.note n, ()⟩ :: said) = catalogTalk said :=
  List.filter_cons_of_neg Bool.false_ne_true

theorem mem_catalogTalk {said : List (Exchange F)} {x : Exchange F} :
    x ∈ catalogTalk said ↔ x ∈ said ∧ x.question.isCatalogs = true := List.mem_filter

theorem isCatalogs_versionsAsked (place : VersionedLocation) (versioned : Bool) :
    (place.versionsAsked versioned : Exchange F).question.isCatalogs = true := by
  cases place <;> rfl

theorem isCatalogs_latestAsked (place : VersionedLocation) (latest : Option UInt64) :
    (place.latestAsked latest : Exchange F).question.isCatalogs = true := by
  cases place <;> rfl

theorem isCatalogs_loadAsked (place : VersionedLocation) (chosen : Option UInt64)
    (loaded : Except Failure F) : (place.loadAsked chosen loaded).question.isCatalogs = true := by
  cases place <;> rfl

/-- All that is asked to choose a version is asked of the catalog. -/
theorem VersionChosen.catalogTalk {place : VersionedLocation} {asked : List (Exchange F)}
    {chosen version : Option UInt64} (h : VersionChosen place asked chosen version) :
    catalogTalk asked = asked := by
  cases version with
  | some v =>
    rw [h.1]
    rfl
  | none =>
    obtain rfl : asked = [place.latestAsked chosen] := h
    exact catalogTalk_cons (isCatalogs_latestAsked place chosen) []

/-- What is asked of the catalog while a version is loaded as a dataset. -/
theorem catalogTalk_of_loaded {place : VersionedLocation} {asked last : List (Exchange F)}
    {chosen version : Option UInt64} {loaded : Except Failure F} {n : Note}
    (hchosen : VersionChosen place asked chosen version) (hlast : catalogTalk last = []) :
    catalogTalk (place.versionsAsked true ::
        (asked ++ place.loadAsked chosen loaded :: ⟨.note n, ()⟩ :: last)) =
      (place.versionsAsked true :: asked) ++ [place.loadAsked chosen loaded] := by
  rw [catalogTalk_cons (isCatalogs_versionsAsked place true), catalogTalk_append,
    hchosen.catalogTalk, catalogTalk_cons (isCatalogs_loadAsked place chosen loaded),
    catalogTalk_note, hlast]
  rfl

/-! ## The same place, wrapped -/

/-- A dataset has the source that it is made with. -/
theorem source_of_make {frame : F} {source : Source} {labels : Labels} {options : DatasetOptions}
    {said : List (Exchange F)} {d : Dataset F}
    (h : Runs (make frame source labels options) said (.ok d)) : d.source = source := by
  rw [(fresh_of_make h).1]
  rfl

/-- A version that could be loaded as a dataset: the exchanges in order, with the source that is
recorded. -/
theorem loaded_of_runs {r : VersionedRequest} {options : DatasetOptions}
    {place : VersionedLocation} (hp : placeOf r = .ok place) {said : List (Exchange F)}
    {d : Dataset F} (h : Runs (loadVersioned r options) said (.ok d)) :
    ∃ asked chosen loaded n last,
      said = place.versionsAsked true ::
        (asked ++ place.loadAsked chosen loaded :: ⟨.note n, ()⟩ :: last) ∧
      VersionChosen place asked chosen r.version ∧ catalogTalk last = [] ∧
      d.source = .versioned ⟨place, chosen⟩ := by
  rcases (runs_loadVersioned_of_place hp).mp h with
    ⟨-, hrefused⟩ | ⟨asked, chosen, loaded, rest, rfl, hchosen, hafter⟩
  · cases hrefused
  · cases loaded with
    | error f => cases hafter.2
    | ok frame =>
      obtain ⟨last, rfl, hlast, hmake⟩ := hafter
      exact ⟨asked, chosen, .ok frame, _, last, rfl, hchosen, hlast, source_of_make hmake⟩

/-- The catalog is asked for nothing twice while a version is loaded. -/
theorem nodup_loading {place : VersionedLocation} {asked : List (Exchange F)}
    {chosen version : Option UInt64} {loaded : Except Failure F}
    (h : VersionChosen place asked chosen version) :
    (((place.versionsAsked true :: asked) ++ [place.loadAsked chosen loaded]).map
      Exchange.question).Nodup := by
  cases version with
  | some v =>
    rw [h.1]
    cases place <;> simp [VersionedLocation.versionsAsked, VersionedLocation.loadAsked]
  | none =>
    obtain rfl : asked = [place.latestAsked chosen] := h
    cases place <;>
      simp [VersionedLocation.versionsAsked, VersionedLocation.loadAsked,
        VersionedLocation.latestAsked]

/-- Where the catalog is asked for nothing twice, exchanges with it that are repeated later have
the same answers. -/
theorem answersAlike_of_mem {said told : List (Exchange F)}
    (hnodup : ((catalogTalk said).map Exchange.question).Nodup)
    (hmem : ∀ x ∈ catalogTalk told, x ∈ catalogTalk said) : AnswersAlike said told := by
  intro q a b hq ha hb
  have hfirst : (⟨q, a⟩ : Exchange F) ∈ catalogTalk said := mem_catalogTalk.mpr ⟨ha, hq⟩
  have hsecond : (⟨q, b⟩ : Exchange F) ∈ catalogTalk said := hmem _ (mem_catalogTalk.mpr ⟨hb, hq⟩)
  have hsame := List.inj_on_of_nodup_map hnodup hsecond hfirst rfl
  cases hsame
  rfl

/-- What settles the source of a place for a wrapped frame, if the catalog answers as it did when a
version of the place was loaded. -/
theorem settled_of_alike {place : VersionedLocation} {version chosen : Option UInt64}
    {said asked more rest : List (Exchange F)} {versioned : Bool}
    {verdict : Except Refusal Source} (hchosen : VersionChosen place asked chosen version)
    (hsaid : ∀ x ∈ place.versionsAsked true :: asked, x ∈ said)
    (hsettled : PlaceSettled place more verdict versioned version)
    (halike : AnswersAlike said (place.versionsAsked versioned :: (more ++ rest))) :
    versioned = true ∧ more = asked ∧ verdict = .ok (.versioned ⟨place, chosen⟩) := by
  -- The first question is the same in both courses, and so is its answer.
  have hversioned : versioned = true := by
    cases place with
    | path p =>
      exact halike (.isVersionedPath p) true versioned rfl (hsaid _ List.mem_cons_self)
        List.mem_cons_self
    | tableName n =>
      exact halike (.isVersionedTable n) true versioned rfl (hsaid _ List.mem_cons_self)
        List.mem_cons_self
  subst hversioned
  cases version with
  | some v =>
    obtain ⟨rfl, rfl⟩ := hchosen
    exact ⟨rfl, hsettled⟩
  | none =>
    obtain rfl : asked = [place.latestAsked chosen] := hchosen
    obtain ⟨latest, rfl, rfl⟩ := hsettled
    -- Both ask for the latest version, as the request tells none.
    have hlatest : latest = chosen := by
      have hfirst := hsaid _ (List.mem_cons_of_mem _ List.mem_cons_self)
      have hagain : place.latestAsked latest ∈
          place.versionsAsked true :: ([place.latestAsked latest] ++ rest) :=
        List.mem_cons_of_mem _ List.mem_cons_self
      cases place with
      | path p => exact halike (.latestOfPath p) chosen latest rfl hfirst hagain
      | tableName n => exact halike (.latestOfTable n) chosen latest rfl hfirst hagain
    rw [hlatest]
    exact ⟨rfl, rfl, rfl⟩

/-- The source that is settled for a place with versions, in the course that loading took. -/
theorem settled_of_chosen {place : VersionedLocation} {asked : List (Exchange F)}
    {chosen version : Option UInt64} (h : VersionChosen place asked chosen version) :
    PlaceSettled place asked (.ok (.versioned ⟨place, chosen⟩)) true version := by
  cases version with
  | some v =>
    obtain ⟨rfl, rfl⟩ := h
    exact ⟨rfl, rfl⟩
  | none => exact ⟨chosen, h, rfl⟩

/-- What was loaded as a dataset can be wrapped from the same place and version. -/
theorem wrapsAlike_of_runs {r : VersionedRequest} {options : DatasetOptions}
    {said : List (Exchange F)} {d : Dataset F} (h : Runs (loadVersioned r options) said (.ok d)) :
    WrapsAlike r said d := by
  rcases place_cases r with ⟨-, hp⟩ | ⟨place, -, hp, ho⟩
  · rw [loadVersioned, hp] at h
    cases (runs_pure.mp h).2
  obtain ⟨asked, chosen, loaded, n, last, hsaid, hchosen, hlast, hsource⟩ := loaded_of_runs hp h
  have htalk : catalogTalk said =
      (place.versionsAsked true :: asked) ++ [place.loadAsked chosen loaded] := by
    rw [hsaid]
    exact catalogTalk_of_loaded hchosen hlast
  have hmem : ∀ x ∈ place.versionsAsked true :: asked, x ∈ said := by
    intro x hx
    rw [hsaid, ← List.cons_append]
    exact List.mem_append_left _ hx
  intro frame labels options' told result
  -- A course of wrapping, taken apart where the catalog answers as before.
  have hwrapped : ∀ {result : Except Failure (Dataset F)},
      Runs (fromFrame frame (r.wrapping labels) options') told result → AnswersAlike said told →
        ∃ rest, told = (place.versionsAsked true :: asked) ++ rest ∧
          Runs (make frame d.source labels options') rest result := by
    intro result hruns halike
    obtain ⟨versioned, more, verdict, rest, rfl, hsettled, hend⟩ :=
      (runs_fromFrame_of_place (ho labels)).mp hruns
    obtain ⟨rfl, rfl, rfl⟩ := settled_of_alike hchosen hmem hsettled halike
    exact ⟨rest, rfl, hsource ▸ hend.2⟩
  refine ⟨⟨?_, ?_⟩, ?_⟩
  · rintro ⟨hruns, halike⟩
    obtain ⟨rest, htold, hmake⟩ := hwrapped hruns halike
    exact ⟨_, _, rest, htalk, htold, hmake⟩
  · rintro ⟨first, loading, rest, hfirst, rfl, hmake⟩
    obtain ⟨rfl, -⟩ := List.append_inj' (htalk.symm.trans hfirst) rfl
    have hrest := catalogTalk_of_make hmake
    constructor
    · rw [hsource] at hmake
      exact (runs_fromFrame_of_place (ho labels)).mpr
        ⟨true, asked, _, rest, rfl, settled_of_chosen hchosen, hrest, hmake⟩
    · refine answersAlike_of_mem (htalk ▸ nodup_loading hchosen) fun x hx => ?_
      rw [catalogTalk_append, hrest, List.append_nil] at hx
      rw [htalk]
      exact List.mem_append_left _ (mem_catalogTalk.mp hx).1
  · intro e hruns halike
    obtain ⟨rest, -, hmake⟩ := hwrapped hruns halike
    exact source_of_make hmake

/-- **Loading a version asks, loads and fails in one order, and records the source that wrapping
would.**  Whatever the catalog and the frame answer, the courses of loading are those in order, and
a dataset that was loaded has the source that any frame wrapped from the same place and version
gets from the same answers of the catalog. -/
theorem loads_in_order_as_wrapping (r : VersionedRequest) (options : DatasetOptions)
    (said : List (Exchange F)) (result : Except Failure (Dataset F)) :
    (Runs (loadVersioned r options) said result ↔ LoadsInOrder r options said result) ∧
      ∀ d, result = .ok d → Runs (loadVersioned r options) said result → WrapsAlike r said d := by
  refine ⟨runs_loadVersioned_iff, ?_⟩
  rintro d rfl h
  exact wrapsAlike_of_runs h

/-- A request for the latest version of a table. -/
def latestOfSales : VersionedRequest := ⟨none, some "sales", none, ⟨none, none, none⟩⟩

/-- A catalog that knows four more versions of that table than the first, and loads the last. -/
def salesTalk : List (Exchange Unit) :=
  [⟨.isVersionedTable "sales", true⟩, ⟨.latestOfTable "sales", some 4⟩,
    ⟨.loadTable "sales" (some 4), .ok ()⟩,
    ⟨.note (.versionedLoaded ⟨.tableName "sales", some 4⟩), ()⟩]

theorem latest_sales_loaded_as_wrapping :
    ∃ d, Runs (loadVersioned latestOfSales .standard) salesTalk (.ok d) ∧ d.name = "salesv4" ∧
      LoadsInOrder latestOfSales .standard salesTalk (.ok d) ∧
      WrapsAlike latestOfSales salesTalk d := by
  have hplace : placeOf latestOfSales = .ok (.tableName "sales") := rfl
  have hloaded : LoadedOnce latestOfSales .standard (.tableName "sales") salesTalk
      (.ok (fresh () (.versioned ⟨.tableName "sales", some 4⟩) ⟨none, some "salesv4", none⟩
        .standard)) :=
    ⟨[⟨.latestOfTable "sales", some 4⟩], some 4, .ok (), _, rfl, rfl, [], rfl, rfl, .done _⟩
  have hruns := (runs_loadVersioned_of_place hplace).mpr (.inr hloaded)
  obtain ⟨hiff, hwraps⟩ := loads_in_order_as_wrapping latestOfSales .standard salesTalk (.ok _)
  exact ⟨_, hruns, rfl, hiff.mp hruns, hwraps _ rfl hruns⟩

end Dataset
end Lineage
