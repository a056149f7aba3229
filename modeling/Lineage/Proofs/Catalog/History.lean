import Lineage.Catalog.Basic
import Lineage.Proofs.Entries
import Mathlib.Data.String.Basic
/-
  A catalog is the history of its tables.

  Two calls change a catalog: a frame is registered under a name, or committed to it as a further
  version.  What a name stands for after any calls is told by the calls on that name alone
  (`get?_run`), through a function that never looks at a catalog:
    * no call                  nothing;
    * some registration        the frame registered last, without versions (`meaning_plain`);
                               a commit behind it is refused, so registering is final;
    * commits only             their frames, in order (`meaning_commits`).
  The readers (`load`, `isVersioned`, `latestVersion`) ask for nothing but the meaning of a name,
  so each of them follows the history as well.  `tableNames` sees all names at once; it is in
  order because every name stands in the catalog only once (`Keyed`).
-/

namespace Lineage.Catalog

variable {F : Type}

/-! ## Calls and their histories -/

/-- A call that changes a catalog. -/
inductive Call (F : Type) where
  | register (name : String) (frame : F)
  | commit (name : String) (frame : F)

namespace Call

/-- The name that a call is on. -/
def name : Call F → String
  | register n _ | commit n _ => n

/-- The frame that a call brings. -/
def frame : Call F → F
  | register _ f | commit _ f => f

/-- The call registers its frame. -/
def isRegister : Call F → Bool
  | register _ _ => true
  | commit _ _ => false

/-- The answer to a call: a commit tells the number of its version. -/
def answer (c : Catalog F) : Call F → Except Failure (Option UInt64)
  | register _ _ => .ok none
  | commit n f => (c.commit n f).map fun r => some r.1

/-- The catalog after a call. -/
def after (c : Catalog F) : Call F → Catalog F
  | register n f => c.register n f
  | commit n f =>
    match c.commit n f with
    | .ok (_, changed) => changed
    | .error _ => c

end Call

/-- The catalog after some calls. -/
def follow (c : Catalog F) (calls : List (Call F)) : Catalog F := calls.foldl Call.after c

/-- The catalog after some calls on an empty one. -/
def run (calls : List (Call F)) : Catalog F := empty.follow calls

/-- What a call makes of the meaning of its name. -/
def Call.change (old : Option (CatalogEntry F)) : Call F → Option (CatalogEntry F)
  | .register _ f => some (.plain f)
  | .commit _ f =>
    match old with
    | some (.plain g) => some (.plain g)
    | some (.versioned snapshots) => some (.versioned (snapshots ++ [f]))
    | none => some (.versioned [f])

/-- The meaning of a name, by the calls on it. -/
def meaning (own : List (Call F)) : Option (CatalogEntry F) := own.foldl Call.change none

/-! ## Looking up -/

@[simp] theorem get?_empty (name : String) : (empty : Catalog F).get? name = none := rfl

@[simp] theorem get?_put_self (c : Catalog F) (name : String) (e : CatalogEntry F) :
    (c.put name e).get? name = some e := by
  simp [get?, put]

theorem get?_put_of_ne (c : Catalog F) {name other : String} (e : CatalogEntry F)
    (h : other ≠ name) : (c.put name e).get? other = c.get? other :=
  lookup_replaced_of_ne h e c.entries

/-- A call changes the meaning of its own name as `Call.change` tells. -/
theorem get?_after_self (c : Catalog F) (call : Call F) :
    (call.after c).get? call.name = call.change (c.get? call.name) := by
  cases call with
  | register n f => exact get?_put_self c n _
  | commit n f =>
    show (Call.after c (.commit n f)).get? n = Call.change (c.get? n) (.commit n f)
    rw [Call.after, commit]
    rcases h : c.get? n with _ | ⟨g⟩ | ⟨snapshots⟩
    · exact get?_put_self c n _
    · exact h
    · exact get?_put_self c n _

/-- ... and that of no other name. -/
theorem get?_after_of_ne (c : Catalog F) {call : Call F} {name : String} (h : name ≠ call.name) :
    (call.after c).get? name = c.get? name := by
  cases call with
  | register n f => exact get?_put_of_ne c _ h
  | commit n f =>
    rw [Call.after, commit]
    rcases c.get? n with _ | ⟨g⟩ | ⟨snapshots⟩
    · exact get?_put_of_ne c _ h
    · rfl
    · exact get?_put_of_ne c _ h

/-- The calls on a name, among others. -/
def callsOn (name : String) (calls : List (Call F)) : List (Call F) :=
  calls.filter fun call => call.name == name

/-- Names are independent: after any calls a name stands for what the calls on it alone have made
of it. -/
theorem get?_follow (name : String) :
    ∀ (calls : List (Call F)) (c : Catalog F),
      (c.follow calls).get? name = (callsOn name calls).foldl Call.change (c.get? name)
  | [], _ => rfl
  | call :: rest, c => by
    show ((call.after c).follow rest).get? name = _
    rw [get?_follow name rest (call.after c), callsOn, callsOn]
    by_cases hn : call.name = name
    · subst hn
      rw [List.filter_cons_of_pos (by simp), List.foldl_cons, get?_after_self]
    · rw [List.filter_cons_of_neg (by simpa using hn), get?_after_of_ne c (Ne.symm hn)]

theorem get?_run (name : String) (calls : List (Call F)) :
    (run calls).get? name = meaning (callsOn name calls) :=
  get?_follow name calls empty

/-! ## Meanings -/

/-- Commits leave a registered frame as it is. -/
theorem foldl_change_plain (f : F) :
    ∀ commits : List (Call F), (∀ call ∈ commits, call.isRegister = false) →
      commits.foldl Call.change (some (.plain f)) = some (.plain f)
  | [], _ => rfl
  | .register n g :: _, h =>
    absurd (h (.register n g) List.mem_cons_self) (by simp [Call.isRegister])
  | .commit _ _ :: rest, h =>
    foldl_change_plain f rest fun call hc => h call (List.mem_cons_of_mem _ hc)

/-- Commits add their frames to the versions that are there. -/
theorem foldl_change_versioned :
    ∀ (commits : List (Call F)) (snapshots : List F),
      (∀ call ∈ commits, call.isRegister = false) →
      commits.foldl Call.change (some (.versioned snapshots)) =
        some (.versioned (snapshots ++ commits.map Call.frame))
  | [], snapshots, _ => by simp
  | .register n g :: _, _, h =>
    absurd (h (.register n g) List.mem_cons_self) (by simp [Call.isRegister])
  | .commit n f :: rest, snapshots, h => by
    have hrest : ∀ call ∈ rest, call.isRegister = false :=
      fun call hc => h call (List.mem_cons_of_mem _ hc)
    show rest.foldl Call.change (some (.versioned (snapshots ++ [f]))) = _
    rw [foldl_change_versioned rest (snapshots ++ [f]) hrest]
    simp [Call.frame]

/-- Of a name that was registered the frame registered last is left. -/
theorem meaning_plain {before commits : List (Call F)} {name : String} {f : F}
    (h : ∀ call ∈ commits, call.isRegister = false) :
    meaning (before ++ .register name f :: commits) = some (.plain f) := by
  rw [meaning, List.foldl_append, List.foldl_cons]
  exact foldl_change_plain f commits h

/-- Of a name that was only committed to all frames are left. -/
theorem meaning_commits {commits : List (Call F)} (hne : commits ≠ [])
    (h : ∀ call ∈ commits, call.isRegister = false) :
    meaning commits = some (.versioned (commits.map Call.frame)) := by
  match commits, hne, h with
  | .register n g :: _, _, h => exact absurd (h _ List.mem_cons_self) (by simp [Call.isRegister])
  | .commit n f :: rest, _, h =>
    exact foldl_change_versioned rest [f] fun call hc => h call (List.mem_cons_of_mem _ hc)

/-- Whatever calls come, a registered name stands for a frame without versions. -/
theorem plain_of_foldl_change :
    ∀ (calls : List (Call F)) (f : F),
      ∃ g, calls.foldl Call.change (some (.plain f)) = some (.plain g)
  | [], f => ⟨f, rfl⟩
  | .register _ g :: rest, _ => plain_of_foldl_change rest g
  | .commit _ _ :: rest, f => plain_of_foldl_change rest f

/-- Once a name was registered it stands for a frame without versions. -/
theorem meaning_of_register {own : List (Call F)} (h : ∃ call ∈ own, call.isRegister = true) :
    ∃ f, meaning own = some (.plain f) := by
  obtain ⟨call, hmem, hreg⟩ := h
  obtain ⟨before, later, rfl⟩ := List.append_of_mem hmem
  cases call with
  | register n f =>
    rw [meaning, List.foldl_append, List.foldl_cons]
    exact plain_of_foldl_change later f
  | commit n f => exact absurd hreg (by simp [Call.isRegister])

/-- A table with versions keeps them, each with its number, until its name is registered. -/
theorem get?_follow_of_versioned {c : Catalog F} {name : String} {frames : List F}
    (h : c.get? name = some (.versioned frames)) {calls : List (Call F)}
    (hcalls : ∀ call ∈ calls, call.isRegister = true → call.name ≠ name) :
    ∃ more, (c.follow calls).get? name = some (.versioned (frames ++ more)) := by
  -- So all calls on the name are commits.
  have hown : ∀ call ∈ callsOn name calls, call.isRegister = false := by
    intro call hcall
    obtain ⟨hmem, hname⟩ := List.mem_filter.mp hcall
    by_contra hreg
    exact hcalls call hmem (by simpa using hreg) (by simpa using hname)
  rw [get?_follow, h, foldl_change_versioned _ frames hown]
  exact ⟨_, rfl⟩

/-- What a call leaves under its name is never a table with versions that has none. -/
theorem change_filled (old : Option (CatalogEntry F)) (call : Call F) :
    call.change old ≠ none ∧ call.change old ≠ some (.versioned []) := by
  cases call with
  | register n f => exact ⟨nofun, nofun⟩
  | commit n f =>
    rcases old with _ | ⟨g⟩ | ⟨snapshots⟩
    · exact ⟨nofun, nofun⟩
    · exact ⟨nofun, nofun⟩
    · exact ⟨nofun, by simp [Call.change]⟩

/-- A name means nothing only if there was no call on it. -/
theorem meaning_eq_none_iff {own : List (Call F)} : meaning own = none ↔ own = [] := by
  rcases List.eq_nil_or_concat own with rfl | ⟨before, call, rfl⟩
  · simp [meaning]
  · rw [List.concat_eq_append, meaning, List.foldl_append, List.foldl_cons, List.foldl_nil]
    exact iff_of_false (change_filled _ call).1 (by simp)

theorem meaning_ne_versioned_nil (own : List (Call F)) : meaning own ≠ some (.versioned []) := by
  -- The last call alone decides.
  rcases List.eq_nil_or_concat own with rfl | ⟨before, call, rfl⟩
  · exact nofun
  · rw [List.concat_eq_append, meaning, List.foldl_append, List.foldl_cons, List.foldl_nil]
    exact (change_filled _ call).2

/-! ## Names in order -/

/-- Every name stands in the catalog only once. -/
def Keyed (c : Catalog F) : Prop := (c.entries.map Prod.fst).Nodup

theorem keyed_put {c : Catalog F} (h : c.Keyed) (name : String) (e : CatalogEntry F) :
    (c.put name e).Keyed := nodup_replaced h name e

theorem keyed_after {c : Catalog F} (h : c.Keyed) (call : Call F) : (call.after c).Keyed := by
  cases call with
  | register n f => exact keyed_put h n _
  | commit n f =>
    rw [Call.after, commit]
    rcases c.get? n with _ | ⟨g⟩ | ⟨snapshots⟩
    · exact keyed_put h n _
    · exact h
    · exact keyed_put h n _

theorem keyed_follow {c : Catalog F} (h : c.Keyed) (calls : List (Call F)) :
    (c.follow calls).Keyed := by
  induction calls generalizing c with
  | nil => exact h
  | cons call rest ih => exact ih (keyed_after h call)

theorem keyed_run (calls : List (Call F)) : (run calls).Keyed :=
  keyed_follow (by simp [Keyed, empty]) calls

theorem mem_insertName {name other : String} :
    ∀ {names : List String}, other ∈ insertName name names ↔ other = name ∨ other ∈ names
  | [] => by simp [insertName]
  | n :: rest => by
    rw [insertName]
    split
    · rw [List.mem_cons, mem_insertName, List.mem_cons]
      tauto
    · simp

/-- A new name finds its place in names that are in order. -/
theorem pairwise_insertName {name : String} :
    ∀ {names : List String}, name ∉ names → names.Pairwise (· < ·) →
      (insertName name names).Pairwise (· < ·)
  | [], _, _ => List.pairwise_singleton _ _
  | n :: rest, hnew, hord => by
    obtain ⟨hfirst, hrest⟩ := List.pairwise_cons.mp hord
    have hne : name ≠ n := fun h => hnew (h ▸ List.mem_cons_self)
    rw [insertName]
    split
    · rename_i hlt
      refine List.pairwise_cons.mpr ⟨?_, pairwise_insertName
        (fun h => hnew (List.mem_cons_of_mem n h)) hrest⟩
      intro other hother
      rcases mem_insertName.mp hother with rfl | hmem
      · exact hlt
      · exact hfirst other hmem
    · -- The order is total, so a name that is not behind `n` and is not `n` is before it.
      rename_i hnlt
      have hlt : name < n := lt_of_le_of_ne (not_lt.mp hnlt) hne
      refine List.pairwise_cons.mpr ⟨?_, hord⟩
      intro other hother
      rcases List.mem_cons.mp hother with rfl | hmem
      · exact hlt
      · exact lt_trans hlt (hfirst other hmem)

theorem mem_foldr_insertName {other : String} :
    ∀ {names : List String}, other ∈ names.foldr insertName [] ↔ other ∈ names
  | [] => Iff.rfl
  | n :: rest => by rw [List.foldr_cons, mem_insertName, mem_foldr_insertName, List.mem_cons]

theorem pairwise_foldr_insertName :
    ∀ {names : List String}, names.Nodup → (names.foldr insertName []).Pairwise (· < ·)
  | [], _ => List.Pairwise.nil
  | n :: rest, h => by
    obtain ⟨hnew, hrest⟩ := List.nodup_cons.mp h
    exact pairwise_insertName (fun hmem => hnew (mem_foldr_insertName.mp hmem))
      (pairwise_foldr_insertName hrest)

/-- A name that means something stands among the names, and no other. -/
theorem mem_tableNames {c : Catalog F} {name : String} :
    name ∈ c.tableNames ↔ c.get? name ≠ none := by
  rw [tableNames, mem_foldr_insertName, get?, lookup_ne_none_iff]

/-! ## What the readers tell -/

/-- The catalog knows nothing under a name. -/
structure Unknown (c : Catalog F) (name : String) : Prop where
  load : ∀ version, c.load name version = .error (.tableNotFound name)
  isVersioned : c.isVersioned name = false
  latest : c.latestVersion name = none

/-- A name stands for a frame without versions. -/
structure StandsPlain (c : Catalog F) (name : String) (f : F) : Prop where
  load : c.load name none = .ok f
  refuse : ∀ v, c.load name (some v) = .error (.invalidParameter (.versionOfPlainTable v name))
  isVersioned : c.isVersioned name = false
  latest : c.latestVersion name = none

/-- A name stands for the versions of some frames, numbered from zero. -/
structure StandsVersioned (c : Catalog F) (name : String) (frames : List F)
    (hne : frames ≠ []) : Prop where
  load : c.load name none = .ok (frames.getLast hne)
  loadVersion : ∀ v : UInt64, ∀ h : v.toNat < frames.length,
    c.load name (some v) = .ok frames[v.toNat]
  refuse : ∀ v : UInt64, frames.length ≤ v.toNat →
    c.load name (some v) = .error (.versionNotFound name v)
  isVersioned : c.isVersioned name = true
  latest : c.latestVersion name = some (UInt64.ofNat (frames.length - 1))

theorem unknown_of_get? {c : Catalog F} {name : String} (h : c.get? name = none) :
    c.Unknown name where
  load version := by simp only [Catalog.load, h]
  isVersioned := by rw [Catalog.isVersioned, h]
  latest := by rw [latestVersion, h]

theorem standsPlain_of_get? {c : Catalog F} {name : String} {f : F}
    (h : c.get? name = some (.plain f)) : c.StandsPlain name f where
  load := by simp only [Catalog.load, h]
  refuse v := by simp only [Catalog.load, h]
  isVersioned := by rw [Catalog.isVersioned, h]
  latest := by rw [latestVersion, h]

theorem standsVersioned_of_get? {c : Catalog F} {name : String} {frames : List F}
    (h : c.get? name = some (.versioned frames)) (hne : frames ≠ []) :
    c.StandsVersioned name frames hne where
  load := by simp only [Catalog.load, h, List.getLast?_eq_some_getLast hne]
  loadVersion v hv := by simp only [Catalog.load, h, List.getElem?_eq_getElem hv]
  refuse v hv := by simp only [Catalog.load, h, List.getElem?_eq_none hv]
  isVersioned := by rw [Catalog.isVersioned, h]
  latest := by simp [latestVersion, h, lastVersion, hne]

/-! ## What a commit answers -/

/-- A commit to a registered name is refused and changes nothing. -/
theorem commit_refused {c : Catalog F} {name : String} {f : F} (g : F)
    (h : c.get? name = some (.plain f)) :
    Call.answer c (.commit name g) = .error (.invalidParameter (.commitToPlainTable name)) ∧
      Call.after c (.commit name g) = c := by
  constructor
  · simp only [Call.answer, commit, h]
    rfl
  · simp only [Call.after, commit, h]

/-- A commit behind commits alone tells their number. -/
theorem commit_answer {own : List (Call F)} {c : Catalog F} {name : String} (g : F)
    (h : c.get? name = meaning own) (hown : ∀ call ∈ own, call.isRegister = false) :
    Call.answer c (.commit name g) = .ok (some (UInt64.ofNat own.length)) := by
  by_cases hne : own = []
  · subst hne
    simp only [Call.answer, commit, h, meaning, List.foldl_nil]
    rfl
  · rw [meaning_commits hne hown] at h
    have hlen : (own.map Call.frame ++ [g]).length - 1 = own.length := by simp
    simp only [Call.answer, commit, h, Except.map, lastVersion, hlen]

/-! ## The history theorem -/

/-- **A catalog is the history of its tables.**  What is told of a name after any calls:
    * it is unknown if no call was on it;
    * it stands for the frame registered last if one was registered, and every commit behind the
      first registration is refused and leaves the whole catalog as it is;
    * it stands for the versions of all its frames if they were committed, and the commit behind
      `i` others tells the number `i`.
  The names are those that were called on, in order and each once, and no name ever stands for a
  table with versions that has none. -/
theorem run_tells_history (calls : List (Call F)) (name : String) :
    (callsOn name calls = [] → (run calls).Unknown name) ∧
    (∀ before f commits, callsOn name calls = before ++ .register name f :: commits →
      (∀ call ∈ commits, call.isRegister = false) → (run calls).StandsPlain name f) ∧
    (∀ before g later, calls = before ++ .commit name g :: later →
      (∃ call ∈ callsOn name before, call.isRegister = true) →
      Call.answer (run before) (.commit name g) =
          .error (.invalidParameter (.commitToPlainTable name)) ∧
        Call.after (run before) (.commit name g) = run before) ∧
    ((∀ call ∈ callsOn name calls, call.isRegister = false) →
      (∀ hne : (callsOn name calls).map Call.frame ≠ [],
        (run calls).StandsVersioned name ((callsOn name calls).map Call.frame) hne) ∧
      ∀ before g later, calls = before ++ .commit name g :: later →
        Call.answer (run before) (.commit name g) =
          .ok (some (UInt64.ofNat (callsOn name before).length))) ∧
    (run calls).tableNames.Pairwise (· < ·) ∧
    (∀ other, other ∈ (run calls).tableNames ↔ ∃ call ∈ calls, call.name = other) ∧
    (run calls).get? name ≠ some (.versioned []) := by
  refine ⟨?_, ?_, ?_, ?_, ?_, ?_, ?_⟩
  · intro hown
    refine unknown_of_get? ?_
    rw [get?_run, hown]
    rfl
  · intro before f commits hown hcommits
    refine standsPlain_of_get? ?_
    rw [get?_run, hown, meaning_plain hcommits]
  · intro before g later _ hreg
    obtain ⟨f, hf⟩ := meaning_of_register hreg
    exact commit_refused g ((get?_run name before).trans hf)
  · intro hcommits
    refine ⟨fun hne => standsVersioned_of_get? ?_ hne, ?_⟩
    · rw [get?_run]
      exact meaning_commits (fun h => hne (by rw [h]; rfl)) hcommits
    · rintro before g later rfl
      refine commit_answer g (get?_run name before) fun call hc => hcommits call ?_
      rw [callsOn, List.filter_append]
      exact List.mem_append_left _ hc
  · exact pairwise_foldr_insertName (keyed_run calls)
  · intro other
    rw [mem_tableNames, get?_run, Ne, meaning_eq_none_iff, callsOn, List.filter_eq_nil_iff]
    simp
  · rw [get?_run]
    exact meaning_ne_versioned_nil _

end Lineage.Catalog
