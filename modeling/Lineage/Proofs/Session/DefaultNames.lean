import Lineage.Proofs.Decimal.Digits
import Lineage.Proofs.Session.PinnedVersion
import Lineage.Proofs.Text.Bytes
/-
  Datasets that are named after what they were loaded from.

  A dataset that is loaded from a table and given no name is called by the table, a `v` and the
  number of the version.  No sign stands between the name of the table and that `v`, and the table
  may be called `sales2v1` itself; but the number consists of digits, so the last `v` of the name is
  the one in front of the number, and the name falls into its parts in one way only
  (`versionedName_eq_iff`).

  That there is a number at all takes the catalog: it has a latest version for every table that it
  calls versioned, or else loading would have failed (`pinned_of_run`).  Without a number the
  dataset would bear the name of the table alone, which another table with its number can have.
-/

namespace Lineage.Session

open Dataset (loadVersioned versionedName)

/-! ## Names -/

/-- The number of a version consists of its digits. -/
theorem toList_number (v : UInt64) : (toString v).toList = Nat.toDigits 10 v.toNat :=
  Nat.toList_repr

/-- The letter in front of the number does not come again. -/
theorem letter_not_mem_number (v : UInt64) : 'v' ∉ (toString v).toList := by
  rw [toList_number]
  exact Decimal.not_mem_toDigits (by decide) v.toNat

theorem number_injective {v w : UInt64} (h : (toString v).toList = (toString w).toList) :
    v = w := by
  rw [toList_number, toList_number] at h
  exact UInt64.toNat_inj.mp (Decimal.toDigits_injective h)

/-- **A table and a version are told by the name made of them.** -/
theorem versionedName_eq_iff {n m : String} {v w : UInt64} :
    versionedName ⟨.tableName n, some v⟩ = versionedName ⟨.tableName m, some w⟩ ↔
      n = m ∧ v = w := by
  constructor
  · intro h
    have hname : n ++ "v" ++ toString v = m ++ "v" ++ toString w := Option.some.inj h
    have hchars := congrArg String.toList hname
    have hletter : "v".toList = ['v'] := rfl
    simp only [String.toList_append, hletter, List.append_assoc, List.singleton_append] at hchars
    obtain ⟨htable, hnumber⟩ :=
      Text.split_at_last (letter_not_mem_number v) (letter_not_mem_number w) hchars
    exact ⟨String.toList_inj.mp htable, number_injective hnumber⟩
  · rintro ⟨rfl, rfl⟩
    rfl

/-! ## Datasets -/

/-- A request that names a table of the catalog, and gives no name, comes to a dataset. -/
structure LoadsUnnamed (s : State) (r : VersionedRequest) (options : DatasetOptions) (n : String)
    (d : Dataset Frame) : Prop where
  overrides : s.overrides = []
  table : r.tableName = some n
  unnamed : r.labels.name = none
  loaded : ∃ t, s.run (loadVersioned r options) = (.ok d, t)

/-- The version of a dataset over a table: the one that was asked for, or else the latest one there
was, and the one that stands in the source. -/
structure Resolved (s : State) (r : VersionedRequest) (n : String) (d : Dataset Frame)
    (v : UInt64) : Prop where
  source : d.source = .versioned ⟨.tableName n, some v⟩
  chosen : r.version.or (s.catalog.latestVersion n) = some v

/-- The dataset has a version, and is named by it. -/
theorem LoadsUnnamed.named {s : State} {r : VersionedRequest} {options : DatasetOptions}
    {n : String} {d : Dataset Frame} (h : LoadsUnnamed s r options n d) :
    ∃ v, Resolved s r n d v ∧ some d.name = versionedName ⟨.tableName n, some v⟩ := by
  obtain ⟨t, hrun⟩ := h.loaded
  obtain ⟨v, p, hpinned⟩ := pinned_of_run h.overrides h.table hrun
  obtain ⟨i, hd⟩ := hpinned.made
  refine ⟨v, ⟨by rw [hd]; rfl, hpinned.chosen⟩, ?_⟩
  rw [hd]
  show some ((r.labels.name.or (versionedName ⟨.tableName n, some v⟩)).getD Dataset.defaultName) = _
  rw [h.unnamed]
  rfl

/-- **A default name identifies the snapshot.**  Two datasets that were loaded from tables, in the
same session or in different ones, and were given no names, have each a version in their source; and
they bear the same name only if table and version are the same. -/
theorem default_names_identify {s u : State} {r q : VersionedRequest}
    {options choices : DatasetOptions} {n m : String} {d e : Dataset Frame}
    (h : LoadsUnnamed s r options n d) (k : LoadsUnnamed u q choices m e) :
    ∃ v w, Resolved s r n d v ∧ Resolved u q m e w ∧ (d.name = e.name ↔ n = m ∧ v = w) := by
  obtain ⟨v, hv, hd⟩ := h.named
  obtain ⟨w, hw, he⟩ := k.named
  refine ⟨v, w, hv, hw, ?_⟩
  rw [← versionedName_eq_iff, ← hd, ← he, Option.some_inj]

/-- A session with a table that is called as the second version of another one. -/
def lookalikes : State :=
  { State.start with
    catalog := Catalog.run
      [.commit "t" (numbers [1]), .commit "tv1" (numbers [2]), .commit "t" (numbers [3])] }

/-- The latest version of a table, as a dataset without a name of its own. -/
def latestOf (n : String) : VersionedRequest := ⟨none, some n, none, ⟨none, none, none⟩⟩

theorem lookalikes_told_apart :
    ∃ d e, LoadsUnnamed lookalikes (latestOf "t") .standard "t" d ∧
      LoadsUnnamed lookalikes (latestOf "tv1") .standard "tv1" e ∧
      d.name = "tv1" ∧ e.name = "tv1v0" ∧
      ∃ v w, Resolved lookalikes (latestOf "t") "t" d v ∧
        Resolved lookalikes (latestOf "tv1") "tv1" e w ∧
        (d.name = e.name ↔ "t" = "tv1" ∧ v = w) := by
  obtain ⟨d, t, hd, hname⟩ : ∃ d t,
      lookalikes.run (loadVersioned (latestOf "t") .standard) = (.ok d, t) ∧ d.name = "tv1" :=
    ⟨_, _, rfl, rfl⟩
  obtain ⟨e, u, he, hother⟩ : ∃ e u,
      lookalikes.run (loadVersioned (latestOf "tv1") .standard) = (.ok e, u) ∧ e.name = "tv1v0" :=
    ⟨_, _, rfl, rfl⟩
  have hfirst : LoadsUnnamed lookalikes (latestOf "t") .standard "t" d := ⟨rfl, rfl, rfl, t, hd⟩
  have hsecond : LoadsUnnamed lookalikes (latestOf "tv1") .standard "tv1" e :=
    ⟨rfl, rfl, rfl, u, he⟩
  exact ⟨d, e, hfirst, hsecond, hname, hother, default_names_identify hfirst hsecond⟩

end Lineage.Session
