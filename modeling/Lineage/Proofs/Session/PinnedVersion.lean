import Lineage.Proofs.Catalog.History
import Lineage.Proofs.Session.Sight
/-
  A loaded version is pinned.

  A dataset that is loaded by version from a table of the catalog keeps the number of that version
  in its source: the one that was asked for, or the latest one there was.  Versions are never
  renumbered, so loading the source again gives the same plan after any further commits, and after
  registrations under other names.  And the same plan shows the same (`SameSight`), so it has the
  same rows and the same hash, and a dataset that is made of it again has the same digest.
-/

namespace Lineage.Session

open Dataset (fresh make loadVersioned placeOf versionedName)

/-! ## The catalog of a session -/

section Catalog

variable {s : State} (hs : s.overrides = [])

include hs

theorem run_isVersionedTable (n : String) :
    s.run (Dialogue.isVersionedTable n) =
      (s.catalog.isVersioned n, s.record (.catalogAsked .isVersionedTable n none)) := by
  simp only [State.run, Dialogue.isVersionedTable, Dialogue.run, answer, askCatalog, State.record,
    hs, List.lookup_nil]

theorem run_latestOfTable (n : String) :
    s.run (Dialogue.latestOfTable n) =
      (s.catalog.latestVersion n, s.record (.catalogAsked .latestOfTable n none)) := by
  simp only [State.run, Dialogue.latestOfTable, Dialogue.run, answer, askCatalog, State.record,
    hs, List.lookup_nil]

theorem run_loadTable (n : String) (v : Option UInt64) :
    s.run (Dialogue.loadTable n v) =
      asFrame (s.catalog.load n v) (s.record (.catalogAsked .loadTable n (some v))) := by
  simp only [State.run, Dialogue.loadTable, Dialogue.run, answer, askCatalog, State.record,
    hs, List.lookup_nil]

end Catalog

/-! ## Making a dataset over a plan -/

/-- A session as it was, as far as loading goes: a plan shows the same in it, and the catalog is
the same and answers for itself as before. -/
structure Keeps (p : Plan) (s t : State) : Prop extends SameSight p s t where
  catalog : t.catalog = s.catalog
  overrides : t.overrides = s.overrides

namespace Keeps

variable {p : Plan} {s t u : State}

theorem trans (h : Keeps p s t) (k : Keeps p t u) : Keeps p s u :=
  ⟨h.toSameSight.trans k.toSameSight, k.catalog.trans h.catalog, k.overrides.trans h.overrides⟩

/-- What happens is only noted down. -/
theorem record (p : Plan) (s : State) (h : Happening) : Keeps p s (s.record h) :=
  ⟨⟨rfl, rfl⟩, rfl, rfl⟩

theorem columnsOf (p : Plan) (i : Nat) (s : State) :
    Keeps p s (columnsOf ⟨i, .plan p⟩ s).2 := by
  refine ⟨sameSight_columnsOf p i s, ?_, ?_⟩
  · show (askPlan p _ s).2.catalog = s.catalog
    rw [askPlan_snd, lookAt_snd]
  · show (askPlan p _ s).2.overrides = s.overrides
    rw [askPlan_snd, lookAt_snd]

end Keeps

/-- A label column that is asked for is a column of the plan. -/
def Fits (p : Plan) (targets : Option String) (s : State) : Prop :=
  ∀ target, targets = some target → ∀ i, ∃ columns,
    (columnsOf ⟨i, .plan p⟩ s).1 = .ok columns ∧ columns.any (·.1 == target) = true

theorem fits_none (p : Plan) (s : State) : Fits p none s := by
  intro target h
  cases h

theorem SameSight.fits {p : Plan} {s t : State} (h : SameSight p s t) {targets : Option String}
    (hf : Fits p targets s) : Fits p targets t := by
  intro target ht i
  rw [h.columnsOf i i]
  exact hf target ht i

theorem run_columns (f : Frame) (s : State) : s.run (Dialogue.columns f) = columnsOf f s := rfl

/-- A dataset over a plan can be made if its label column fits. -/
theorem run_make_of_fits {p : Plan} (labels : Labels) {s : State} (hf : Fits p labels.targets s)
    (i : Nat) (source : Source) (options : DatasetOptions) :
    (s.run (make ⟨i, .plan p⟩ source labels options)).1 =
      .ok (fresh ⟨i, .plan p⟩ source labels options) := by
  rw [make]
  cases ht : labels.targets with
  | none => rfl
  | some target =>
    obtain ⟨columns, hcolumns, hany⟩ := hf target ht i
    simp only
    rw [State.run_bind, run_columns, hcolumns]
    simp only [hany, if_true]
    rfl

/-- A dataset that was made over a plan is the fresh one, its label column fits, and the session
is kept. -/
theorem fits_of_run_make {p : Plan} {i : Nat} {source : Source} {labels : Labels}
    {options : DatasetOptions} {s t : State} {d : Dataset Frame}
    (h : s.run (make ⟨i, .plan p⟩ source labels options) = (.ok d, t)) :
    d = fresh ⟨i, .plan p⟩ source labels options ∧ Fits p labels.targets s ∧ Keeps p s t := by
  rw [make] at h
  cases ht : labels.targets with
  | none =>
    simp only [ht] at h
    cases h
    exact ⟨rfl, fits_none p s, ⟨.refl p s, rfl, rfl⟩⟩
  | some target =>
    simp only [ht] at h
    rw [State.run_bind, run_columns] at h
    have hkeeps := Keeps.columnsOf p i s
    cases hc : (columnsOf ⟨i, .plan p⟩ s).1 with
    | error f =>
      rw [hc] at h
      cases congrArg Prod.fst h
    | ok columns =>
      rw [hc] at h
      by_cases hany : columns.any (·.1 == target) = true
      · simp only [hany, if_true] at h
        cases h
        refine ⟨rfl, ?_, hkeeps⟩
        intro target' htarget j
        cases htarget
        exact ⟨columns, hc, hany⟩
      · simp only [if_neg hany] at h
        cases congrArg Prod.fst h

/-! ## Loading a version of a table -/

/-- The labels of a dataset over a version: without a name it is named by table and number. -/
def labelsOf (r : VersionedRequest) (t : VersionedTable) : Labels :=
  { r.labels with name := r.labels.name.or (versionedName t) }

/-- The version that a request comes to: the one that is asked for, or else the latest. -/
def chosen (r : VersionedRequest) (n : String) (s : State) : Option UInt64 :=
  r.version.or (s.catalog.latestVersion n)

/-- Asking the catalog for the version to keep changes nothing that loading depends on. -/
theorem run_pinned {s : State} (hs : s.overrides = []) (r : VersionedRequest) (n : String) :
    ∃ t, s.run (VersionedLocation.pinned (.tableName n) r.version) =
        (⟨.tableName n, chosen r n s⟩, t) ∧ ∀ p, Keeps p s t := by
  unfold chosen
  cases r.version with
  | some v => exact ⟨s, rfl, fun p => ⟨.refl p s, rfl, rfl⟩⟩
  | none =>
    refine ⟨s.record (.catalogAsked .latestOfTable n none), ?_, fun p => .record p s _⟩
    rw [VersionedLocation.pinned, State.run_bind, VersionedLocation.latest, run_latestOfTable hs]
    rfl

/-- What a request for a version of a table comes to: the catalog loads the version, and a dataset
is made over its plan. -/
theorem run_loadVersioned_table {s : State} (hs : s.overrides = []) {r : VersionedRequest}
    {n : String} (hr : placeOf r = .ok (.tableName n)) (hn : s.catalog.isVersioned n = true)
    (options : DatasetOptions) :
    ∃ i u, (∀ p, Keeps p s u) ∧ s.run (loadVersioned r options) =
      match s.catalog.load n (chosen r n s) with
      | .error f => (.error f, u)
      | .ok p => u.run (make ⟨i, .plan p⟩ (.versioned ⟨.tableName n, chosen r n s⟩)
          (labelsOf r ⟨.tableName n, chosen r n s⟩) options) := by
  have hasked : ∀ p, Keeps p s (s.record (.catalogAsked .isVersionedTable n none)) :=
    fun p => .record p s _
  obtain ⟨t, hpinned, hkept⟩ := run_pinned (s := s.record (.catalogAsked .isVersionedTable n none))
    hs r n
  have hsame : chosen r n (s.record (.catalogAsked .isVersionedTable n none)) = chosen r n s := rfl
  rw [hsame] at hpinned
  have ht : t.overrides = [] := (hkept (.ofTable ⟨[], []⟩)).overrides.trans hs
  have hcatalog : t.catalog = s.catalog := (hkept (.ofTable ⟨[], []⟩)).catalog
  -- Up to the version everything is decided; what is left begins with loading it.
  have hrun : s.run (loadVersioned r options) = t.run (do
      match ← Dialogue.loadTable n (chosen r n s) with
      | .error f => return .error f
      | .ok frame => do
        Dialogue.note (.versionedLoaded ⟨.tableName n, chosen r n s⟩)
        make frame (.versioned ⟨.tableName n, chosen r n s⟩)
          (labelsOf r ⟨.tableName n, chosen r n s⟩) options) := by
    rw [loadVersioned, hr]
    simp only [VersionedLocation.isVersioned]
    rw [State.run_bind, run_isVersionedTable hs, hn]
    simp only [if_true]
    rw [State.run_bind, hpinned]
    refine congrArg (fun next => t.run (Dialogue.loadTable n (chosen r n s) >>= next)) ?_
    funext loaded
    cases loaded with
    | error f => rfl
    | ok frame => rfl
  rw [State.run_bind, run_loadTable ht, hcatalog] at hrun
  cases hload : s.catalog.load n (chosen r n s) with
  | error f =>
    rw [hload] at hrun
    exact ⟨0, _, fun p => (hasked p).trans ((hkept p).trans (.record p t _)), hrun⟩
  | ok p =>
    rw [hload] at hrun
    refine ⟨_, _, fun q => ?_, hrun⟩
    refine (hasked q).trans ((hkept q).trans ?_)
    exact ⟨⟨rfl, rfl⟩, rfl, rfl⟩

/-! ## Versions of a catalog -/

/-- The plan that stands in a catalog under a version of a table. -/
def HasVersion (c : Catalog Plan) (n : String) (w : UInt64) (p : Plan) : Prop :=
  ∃ frames, c.get? n = some (.versioned frames) ∧ frames[w.toNat]? = some p

namespace HasVersion

variable {c : Catalog Plan} {n : String} {w : UInt64} {p q : Plan}

theorem load (h : HasVersion c n w p) : c.load n (some w) = .ok p := by
  obtain ⟨frames, hget, hframe⟩ := h
  simp only [Catalog.load, hget, hframe]

theorem isVersioned (h : HasVersion c n w p) : c.isVersioned n = true := by
  obtain ⟨frames, hget, -⟩ := h
  simp only [Catalog.isVersioned, hget]

/-- Under one version there is one plan. -/
theorem unique (h : HasVersion c n w p) (k : HasVersion c n w q) : q = p :=
  Except.ok.inj (k.load.symm.trans h.load)

/-- **Versions stay.**  Further commits and registrations under other names leave the plan of a
version where it is. -/
theorem follow (h : HasVersion c n w p) {calls : List (Catalog.Call Plan)}
    (hcalls : ∀ call ∈ calls, call.isRegister = true → call.name ≠ n) :
    HasVersion (c.follow calls) n w p := by
  obtain ⟨frames, hget, hframe⟩ := h
  obtain ⟨more, hmore⟩ := Catalog.get?_follow_of_versioned hget hcalls
  refine ⟨frames ++ more, hmore, ?_⟩
  have hlt : w.toNat < frames.length := (List.getElem?_eq_some_iff.mp hframe).1
  rw [List.getElem?_append_left hlt, hframe]

end HasVersion

/-- A version of a table that was chosen and could be loaded is there. -/
theorem hasVersion_of_load {s : State} {r : VersionedRequest} {n : String} {p : Plan}
    (hn : s.catalog.isVersioned n = true) (h : s.catalog.load n (chosen r n s) = .ok p) :
    ∃ w, chosen r n s = some w ∧ HasVersion s.catalog n w p := by
  obtain ⟨frames, hget⟩ : ∃ frames, s.catalog.get? n = some (.versioned frames) := by
    unfold Catalog.isVersioned at hn
    split at hn
    · exact ⟨_, ‹_›⟩
    · cases hn
  cases hw : chosen r n s with
  | some w =>
    rw [hw] at h
    simp only [Catalog.load, hget] at h
    split at h
    · rename_i q hq
      cases h
      exact ⟨w, rfl, frames, hget, hq⟩
    · cases h
  | none =>
    -- Without a latest version there are no snapshots, and nothing could be loaded.
    have hlatest : s.catalog.latestVersion n = none := (Option.or_eq_none_iff.mp hw).2
    have hempty : frames = [] := by
      simp only [Catalog.latestVersion, hget] at hlatest
      split at hlatest
      · exact List.isEmpty_iff.mp ‹_›
      · cases hlatest
    rw [hw] at h
    simp only [Catalog.load, hget, hempty, List.getLast?_nil] at h
    cases h

/-! ## Datasets over a version -/

/-- A dataset that was made in a session over a version of a table. -/
structure Pinned (r : VersionedRequest) (n : String) (options : DatasetOptions) (w : UInt64)
    (p : Plan) (s t : State) (d : Dataset Frame) : Prop where
  version : HasVersion s.catalog n w p
  chosen : chosen r n s = some w
  fits : Fits p r.labels.targets s
  made : ∃ i, d = fresh ⟨i, .plan p⟩ (.versioned ⟨.tableName n, some w⟩)
    (labelsOf r ⟨.tableName n, some w⟩) options
  kept : Keeps p s t

variable {s t u : State} {r : VersionedRequest} {n : String} {options : DatasetOptions}
  {d : Dataset Frame} {w : UInt64} {p : Plan}

/-- A request that names a table and succeeds comes to a dataset over a version of it. -/
theorem pinned_of_run (hs : s.overrides = []) (hn : r.tableName = some n)
    (h : s.run (loadVersioned r options) = (.ok d, t)) :
    ∃ w p, Pinned r n options w p s t d := by
  have hr : placeOf r = .ok (.tableName n) := by
    cases hpath : r.path with
    | none => simp only [placeOf, hpath, hn]
    | some path =>
      simp only [loadVersioned, placeOf, hpath, hn] at h
      cases congrArg Prod.fst h
  have hversioned : s.catalog.isVersioned n = true := by
    cases hv : s.catalog.isVersioned n with
    | true => rfl
    | false =>
      rw [loadVersioned, hr] at h
      simp only [VersionedLocation.isVersioned] at h
      rw [State.run_bind, run_isVersionedTable hs, hv] at h
      cases congrArg Prod.fst h
  obtain ⟨i, v, hkept, hrun⟩ := run_loadVersioned_table hs hr hversioned options
  rw [h] at hrun
  cases hload : s.catalog.load n (chosen r n s) with
  | error f =>
    rw [hload] at hrun
    cases congrArg Prod.fst hrun
  | ok p =>
    obtain ⟨w, hw, hversion⟩ := hasVersion_of_load hversioned hload
    rw [hload, hw] at hrun
    obtain ⟨hd, hfits, hmake⟩ := fits_of_run_make hrun.symm
    exact ⟨w, p, hversion, hw, (hkept p).symm.fits hfits, ⟨i, hd⟩, (hkept p).trans hmake⟩

/-- A request for a version that is there succeeds if its label column fits. -/
theorem run_loadVersioned_of_version (hs : s.overrides = []) (hv : HasVersion s.catalog n w p)
    {labels : Labels} (hf : Fits p labels.targets s) (options : DatasetOptions) :
    ∃ d t, s.run (loadVersioned ⟨none, some n, some w, labels⟩ options) = (.ok d, t) := by
  obtain ⟨i, v, hkept, hrun⟩ := run_loadVersioned_table (r := ⟨none, some n, some w, labels⟩) hs rfl
    hv.isVersioned options
  have hload : s.catalog.load n (chosen ⟨none, some n, some w, labels⟩ n s) = .ok p := hv.load
  rw [hload] at hrun
  have hmade := run_make_of_fits (labelsOf ⟨none, some n, some w, labels⟩ ⟨.tableName n, some w⟩)
    ((hkept p).fits hf) i (.versioned ⟨.tableName n, some w⟩) options
  exact ⟨_, _, hrun.trans (Prod.ext hmade rfl)⟩

/-- Loading the source of a version that is there gives its plan. -/
theorem run_load_of_version (hs : s.overrides = []) (hv : HasVersion s.catalog n w p) :
    ∃ i t, s.run (Source.load (.versioned ⟨.tableName n, some w⟩)) = (.ok ⟨i, .plan p⟩, t) ∧
      Keeps p s t := by
  refine ⟨s.next, (asFrame (.ok p) (s.record (.catalogAsked .loadTable n (some (some w))))).2, ?_,
    ⟨⟨rfl, rfl⟩, rfl, rfl⟩⟩
  show s.run (Dialogue.loadTable n (some w)) = _
  rw [run_loadTable hs, hv.load]
  rfl

/-- A dataset that knows no digest answers with that of its frame. -/
theorem run_digest_of_unknown (hk : d.knownDigest = none) (s : State) :
    (s.run d.digest).1.1 = (hashOf d.frame s).1.bind Digest.ofHash := by
  have hasked : s.run (Dialogue.planHash d.frame) = hashOf d.frame s := rfl
  simp only [Dataset.digest, hk]
  rw [State.run_bind, hasked]
  cases (hashOf d.frame s).1.bind Digest.ofHash with
  | error f => rfl
  | ok digest =>
    simp only
    rw [State.run_bind, State.run_bind]
    rfl

/-! ## The pinning theorem -/

/-- A session that comes after a dataset was loaded from a table: the catalog has had further calls,
none of which registered the table's name, and the files are as they were.  The only file that may
have been looked at meanwhile is that of the dataset. -/
structure Later (n : String) (d : Dataset Frame) (t u : State) : Prop where
  catalog : ∃ calls : List (Catalog.Call Plan),
    (∀ call ∈ calls, call.isRegister = true → call.name ≠ n) ∧
      u.catalog = t.catalog.follow calls
  overrides : u.overrides = []
  files : u.files = t.files
  looks : u.looks = t.looks ∨ u.looks = (hashOf d.frame t).2.looks

/-- Loading the source of a dataset succeeds in a later session, with a frame that has the same
rows, or fails to have them in the same way, and has the same hash. -/
def Reloads (d : Dataset Frame) (t u : State) : Prop :=
  ∃ f v, u.run d.source.load = (.ok f, v) ∧ (v.collect f).1 = (t.collect d.frame).1 ∧
    (v.run (Dialogue.planHash f)).1 = (t.run (Dialogue.planHash d.frame)).1

/-- A request for the table and version of a dataset, given no digest, comes in a later session to a
dataset with the digest of the old one's frame, and succeeds at least if it asks for the same label
column or for none. -/
def Rebuilds (d : Dataset Frame) (n : String) (w : UInt64) (t u : State) : Prop :=
  ∀ (labels : Labels) (options : DatasetOptions), labels.digest = none →
    (labels.targets = none ∨ labels.targets = d.targets →
      ∃ again v, u.run (loadVersioned ⟨none, some n, some w, labels⟩ options) = (.ok again, v)) ∧
    ∀ again v, u.run (loadVersioned ⟨none, some n, some w, labels⟩ options) = (.ok again, v) →
      (v.run again.digest).1.1 =
        (t.run (Dialogue.planHash d.frame)).1.bind Digest.ofHash ∧
      (d.knownDigest = none → (v.run again.digest).1.1 = (t.run d.digest).1.1)

/-- A session in which the version of a dataset is there and shows the same loads it again. -/
theorem Pinned.reloads (h : Pinned r n options w p s t d) (hu : u.overrides = [])
    (hv : HasVersion u.catalog n w p) (hsight : SameSight p t u) : Reloads d t u := by
  obtain ⟨i, hd⟩ := h.made
  obtain ⟨j, v, hrun, hkept⟩ := run_load_of_version hu hv
  have hsame : SameSight p t v := hsight.trans hkept.toSameSight
  subst hd
  exact ⟨⟨j, .plan p⟩, v, hrun, hsame.collect i j, hsame.hashOf i j⟩

/-- ... and makes it again. -/
theorem Pinned.rebuilds (h : Pinned r n options w p s t d) (hu : u.overrides = [])
    (hv : HasVersion u.catalog n w p) (hsight : SameSight p t u) : Rebuilds d n w t u := by
  obtain ⟨i, hd⟩ := h.made
  have hfits : Fits p r.labels.targets u := (h.kept.toSameSight.trans hsight).fits h.fits
  intro labels options' hdigest
  constructor
  · intro htargets
    refine run_loadVersioned_of_version hu hv ?_ options'
    rcases htargets with hnone | hsame
    · rw [hnone]
      exact fits_none p u
    · rw [hsame, hd]
      exact hfits
  · intro again v hrun
    -- The new dataset is over a version as well, and that can only be the same one.
    obtain ⟨w', q, hagain⟩ := pinned_of_run hu rfl hrun
    obtain rfl : w = w' := Option.some.inj hagain.chosen
    obtain rfl : q = p := hv.unique hagain.version
    obtain ⟨j, hmade⟩ := hagain.made
    have hunknown : again.knownDigest = none := by rw [hmade]; exact hdigest
    have hsame : SameSight q t v := hsight.trans hagain.kept.toSameSight
    have hhash : (hashOf again.frame v).1 = (hashOf d.frame t).1 := by
      rw [hmade, hd]
      exact hsame.hashOf i j
    have hnew : (v.run again.digest).1.1 = (hashOf d.frame t).1.bind Digest.ofHash := by
      rw [run_digest_of_unknown hunknown, hhash]
    exact ⟨hnew, fun hk => hnew.trans (run_digest_of_unknown hk t).symm⟩

/-- The plan of the dataset shows the same in a later session. -/
theorem Later.sameSight (h : Later n d t u) {i : Nat} (hd : d.frame = ⟨i, .plan p⟩) :
    SameSight p t u := by
  rcases h.looks with hlooks | hlooks
  · exact ⟨h.files, by rw [h.files, hlooks]⟩
  · -- Asking for the hash looks at the plan, and that shows the same again.
    have hasked : (hashOf d.frame t).2 = (lookAt p t).2 := by
      rw [hd]
      exact askPlan_snd p _ t
    refine ⟨h.files, ?_⟩
    rw [h.files, hlooks, hasked]
    exact shown_again p t

/-- **Loading by version pins the snapshot for good.**  A request for a version of a table that
succeeds comes to a dataset whose source has the number of a version: the one asked for, or else the
latest one of that moment.  After any further commits, on any names, and any registrations under
other names, with the files as they were, the source loads a frame that is as the dataset's own, and
a dataset made again by name and number has the same digest. -/
theorem loading_pins_version (hs : s.overrides = []) (hn : r.tableName = some n)
    (h : s.run (loadVersioned r options) = (.ok d, t)) :
    ∃ w, d.source = .versioned ⟨.tableName n, some w⟩ ∧
      r.version.or (s.catalog.latestVersion n) = some w ∧
      ∀ u, Later n d t u → Reloads d t u ∧ Rebuilds d n w t u := by
  obtain ⟨w, p, hpinned⟩ := pinned_of_run hs hn h
  obtain ⟨i, hd⟩ := hpinned.made
  refine ⟨w, by rw [hd]; rfl, hpinned.chosen, ?_⟩
  intro u hlater
  obtain ⟨calls, hcalls, hcatalog⟩ := hlater.catalog
  have hv : HasVersion u.catalog n w p := by
    rw [hcatalog, hpinned.kept.catalog]
    exact hpinned.version.follow hcalls
  have hsight : SameSight p t u := hlater.sameSight (i := i) (by rw [hd]; rfl)
  exact ⟨hpinned.reloads hlater.overrides hv hsight, hpinned.rebuilds hlater.overrides hv hsight⟩

/-- A plan over a table with the single column `x`. -/
def numbers (cells : List Int) : Plan := .ofTable ⟨[("x", .i64)], cells.map fun n => [.int n]⟩

/-- A session in which two versions of a table have been committed. -/
def twice : State :=
  { State.start with
    catalog := Catalog.run [.commit "t" (numbers [1]), .commit "t" (numbers [2])] }

/-- The latest version of that table, with a label column. -/
def latestOfT : VersionedRequest := ⟨none, some "t", none, ⟨some "x", none, none⟩⟩

/-- Calls that come later: a third version, and another table. -/
def more : List (Catalog.Call Plan) := [.commit "t" (numbers [3]), .register "u" (numbers [4])]

theorem loading_pins_second_version :
    ∃ d t, twice.run (loadVersioned latestOfT .standard) = (.ok d, t) ∧
      Later "t" d t
        { t with catalog := t.catalog.follow more } ∧
      ∃ w, d.source = .versioned ⟨.tableName "t", some w⟩ ∧
        latestOfT.version.or (twice.catalog.latestVersion "t") = some w ∧
        ∀ u, Later "t" d t u → Reloads d t u ∧ Rebuilds d "t" w t u := by
  obtain ⟨d, t, h⟩ : ∃ d t, twice.run (loadVersioned latestOfT .standard) = (.ok d, t) :=
    ⟨_, _, rfl⟩
  obtain ⟨w, p, hpinned⟩ := pinned_of_run rfl rfl h
  refine ⟨d, t, h, ⟨⟨more, ?_, rfl⟩, hpinned.kept.overrides, rfl, .inl rfl⟩,
    loading_pins_version rfl rfl h⟩
  intro call hcall hregister
  simp only [more, List.mem_cons, List.not_mem_nil, or_false] at hcall
  rcases hcall with rfl | rfl
  · cases hregister
  · decide

end Lineage.Session
