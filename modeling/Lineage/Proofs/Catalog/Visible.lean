import Lineage.Proofs.Catalog.History
/-
  Queries are shown what is loaded.

  For a query the tables of a catalog are shown one after the other, in whatever order they come.
  Each name stands in the catalog once (`Keyed`), so no frame takes the place of another: what is
  shown under a name is what its entry has as its latest frame (`lookup_shownIn`), in any order.

  Loading a name without a version is written apart from that, but gives the same frame.  Where both
  give none is an entry of versions without any; and no calls lead to one
  (`meaning_ne_versioned_nil`).  So the names that are shown are all the names of the catalog
  (`Reached.showsLoaded`).
-/

namespace Lineage.Catalog

variable {F : Type} {name : String}

/-! ## Showing entries -/

/-- Under the name of an entry its latest frame is shown, or what was shown before. -/
theorem lookup_showEntry_self (tables : List (String × F)) (name : String)
    (entry : CatalogEntry F) :
    (showEntry tables (name, entry)).lookup name = entry.latest?.or (tables.lookup name) := by
  unfold showEntry
  cases entry.latest? with
  | none => rfl
  | some frame => exact List.lookup_cons_self

theorem lookup_showEntry_of_ne {other : String} (h : name ≠ other) (tables : List (String × F))
    (entry : CatalogEntry F) :
    (showEntry tables (other, entry)).lookup name = tables.lookup name := by
  unfold showEntry
  cases entry.latest? with
  | none => rfl
  | some frame => exact lookup_replaced_of_ne h frame tables

theorem lookup_foldl_showEntry : ∀ {entries : List (String × CatalogEntry F)}
    (tables : List (String × F)), (entries.map Prod.fst).Nodup →
      (entries.foldl showEntry tables).lookup name =
        ((entries.lookup name).bind CatalogEntry.latest?).or (tables.lookup name)
  | [], tables, _ => rfl
  | (other, entry) :: rest, tables, h => by
    obtain ⟨hnew, hrest⟩ := List.nodup_cons.mp h
    rw [List.foldl_cons, lookup_foldl_showEntry _ hrest, List.lookup_cons]
    by_cases hname : name = other
    · subst hname
      rw [lookup_of_not_mem hnew, beq_self_eq_true, lookup_showEntry_self]
      rfl
    · rw [beq_false_of_ne hname, lookup_showEntry_of_ne hname]

/-- **What is shown under a name is the latest frame of its entry.** -/
theorem lookup_shownIn {entries : List (String × CatalogEntry F)}
    (h : (entries.map Prod.fst).Nodup) (name : String) :
    (shownIn entries).lookup name = (entries.lookup name).bind CatalogEntry.latest? := by
  rw [shownIn, lookup_foldl_showEntry [] h, List.lookup_nil, Option.or_none]

/-- The names that are shown are different. -/
theorem nodup_foldl_showEntry : ∀ {entries : List (String × CatalogEntry F)}
    {tables : List (String × F)}, (tables.map Prod.fst).Nodup →
      ((entries.foldl showEntry tables).map Prod.fst).Nodup
  | [], _, h => h
  | entry :: rest, tables, h => by
    rw [List.foldl_cons]
    refine nodup_foldl_showEntry ?_
    unfold showEntry
    split
    · exact nodup_replaced h _ _
    · exact h

/-! ## Loading and showing -/

/-- Loading a name gives the latest frame of its entry. -/
theorem load_toOption (c : Catalog F) (name : String) :
    (c.load name none).toOption = (c.get? name).bind CatalogEntry.latest? := by
  unfold load
  rcases c.get? name with _ | ⟨frame⟩ | ⟨snapshots⟩
  · rfl
  · rfl
  · have hlatest : (some (CatalogEntry.versioned snapshots)).bind CatalogEntry.latest? =
        snapshots.getLast? := rfl
    rw [hlatest]
    dsimp only
    cases snapshots.getLast? with
    | none => rfl
    | some frame => rfl

/-- Every entry that calls lead to has a latest frame. -/
theorem exists_latest_of_get?_run {calls : List (Call F)} {entry : CatalogEntry F}
    (h : (run calls).get? name = some entry) : ∃ frame, entry.latest? = some frame := by
  rcases entry with ⟨frame⟩ | ⟨snapshots⟩
  · exact ⟨frame, rfl⟩
  · cases hlast : snapshots.getLast? with
    | some frame => exact ⟨frame, hlast⟩
    | none =>
      rw [get?_run, List.getLast?_eq_none_iff.mp hlast] at h
      exact absurd h (meaning_ne_versioned_nil _)

/-! ## Entries in any order -/

/-- The names of a catalog are different. -/
theorem nodup_tableNames {c : Catalog F} (h : c.Keyed) : c.tableNames.Nodup :=
  (pairwise_foldr_insertName h).imp fun hlt => ne_of_lt hlt

/-- The entries of a catalog are those that calls lead to, in some order. -/
def Reached (calls : List (Call F)) (c : Catalog F) : Prop := c.entries.Perm (run calls).entries

/-- Queries are shown the tables of a catalog: the same names, each with the frame that is loaded
for it. -/
structure ShowsLoaded (c : Catalog F) : Prop where
  names : (c.visible.map Prod.fst).Perm c.tableNames
  loaded : ∀ name, c.visible.lookup name = (c.load name none).toOption

namespace Reached

variable {calls : List (Call F)} {c : Catalog F}

theorem keyed (h : Reached calls c) : c.Keyed := (h.map Prod.fst).nodup_iff.mpr (keyed_run calls)

theorem get? (h : Reached calls c) (name : String) : c.get? name = (run calls).get? name :=
  lookup_perm h.keyed h name

/-- What is loaded is the same in any order. -/
theorem load (h : Reached calls c) (name : String) (version : Option UInt64) :
    c.load name version = (run calls).load name version := by
  unfold Catalog.load
  rw [h.get? name]

/-- So are the names, which come in an order of their own. -/
theorem tableNames (h : Reached calls c) : c.tableNames = (run calls).tableNames := by
  have hmem : ∀ name, name ∈ c.tableNames ↔ name ∈ (run calls).tableNames := by
    intro name
    rw [mem_tableNames, mem_tableNames, h.get? name]
  have hperm := (List.perm_ext_iff_of_nodup (nodup_tableNames h.keyed)
    (nodup_tableNames (keyed_run calls))).mpr hmem
  exact hperm.eq_of_pairwise (fun _ _ _ _ hab hba => absurd hba (not_lt_of_gt hab))
    (pairwise_foldr_insertName h.keyed) (pairwise_foldr_insertName (keyed_run calls))

/-- **Queries are shown what is loaded**, in whatever order the entries come. -/
theorem showsLoaded (h : Reached calls c) : ShowsLoaded c := by
  have hlookup : ∀ name, c.visible.lookup name = (c.get? name).bind CatalogEntry.latest? :=
    lookup_shownIn h.keyed
  refine ⟨?_, fun name => (hlookup name).trans (load_toOption c name).symm⟩
  have hnames : (c.visible.map Prod.fst).Nodup := by
    refine nodup_foldl_showEntry ?_
    exact List.nodup_nil
  refine (List.perm_ext_iff_of_nodup hnames (nodup_tableNames h.keyed)).mpr fun name => ?_
  rw [mem_tableNames, ← lookup_ne_none_iff, hlookup, h.get? name]
  cases hentry : (run calls).get? name with
  | none => exact iff_of_false (fun h => h rfl) fun h => h rfl
  | some entry =>
    obtain ⟨frame, hframe⟩ := exists_latest_of_get?_run hentry
    rw [Option.bind_some, hframe]
    exact iff_of_true nofun nofun

end Reached
end Lineage.Catalog
