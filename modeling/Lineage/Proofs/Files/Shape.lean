import Lineage.Proofs.Catalog.SnapshotDirectories
/-
  What is told by the shape of a tree.

  Two trees have the same shape if they have directories in the same places, and files in the same
  places, whatever the files hold, and one working directory (`SameShape`).  A path only asks for
  directories on its way, so it leads to the same names in both trees, or fails in the same way
  (`SameShape.locate_eq`).  A version of a directory counts by the name of an entry, so the same
  versions count (`SameShape.versions`); the greatest of them, and whether one is among them, do not
  depend on the order in which they are listed.  So a path stands for the same thing in both trees
  (`SameShape.resolve_eq`).
-/

namespace Lineage

/-- The entry is a file, whatever it holds. -/
def FileEntry.isFile : FileEntry → Bool
  | .directory => false
  | .file _ => true

namespace FileTree

/-- Two trees have directories in the same places, and files in the same places, and the same
working directory. -/
structure SameShape (t u : FileTree) : Prop where
  kinds : ∀ key, (t.get? key).map FileEntry.isFile = (u.get? key).map FileEntry.isFile
  base : t.base = u.base

namespace SameShape

variable {t u : FileTree}

theorem symm (h : SameShape t u) : SameShape u t := ⟨fun key => (h.kinds key).symm, h.base.symm⟩

theorem passThrough_eq (h : SameShape t u) (key : FileKey) :
    t.passThrough key = u.passThrough key := by
  have hkind : ∀ w : FileTree, w.passThrough key =
      match (w.get? key).map FileEntry.isFile with
      | some false => .ok ()
      | some true => .error .notDirectory
      | none => .error .missing := by
    intro w
    unfold passThrough
    rcases w.get? key with _ | (_ | _) <;> rfl
  rw [hkind, hkind, h.kinds key]

theorem isDirectory_eq (h : SameShape t u) (key : FileKey) :
    t.isDirectory key = u.isDirectory key := by
  rw [Bool.eq_iff_iff, ← passThrough_eq_ok_iff, ← passThrough_eq_ok_iff, h.passThrough_eq]

theorem follow_eq (h : SameShape t u) : t.follow = u.follow := by
  funext key piece
  rw [follow, follow, h.passThrough_eq]

/-- **A path leads to the same place**, or fails in the same way. -/
theorem locate_eq (h : SameShape t u) (path : String) : t.locate path = u.locate path := by
  rw [locate, locate, h.follow_eq, start, start, h.base]

theorem exists_entry (h : SameShape t u) {key : FileKey} {entry : FileEntry}
    (ht : t.get? key = some entry) : ∃ other, u.get? key = some other := by
  have hkey := h.kinds key
  rw [ht] at hkey
  obtain ⟨other, hother, -⟩ := Option.map_eq_some_iff.mp hkey.symm
  exact ⟨other, hother⟩

end SameShape
end FileTree

namespace Snapshots

open FileTree

variable {t u : FileTree} {path : String} {v : UInt64}

/-- The greatest of some versions does not depend on their order. -/
theorem greatest_congr {vs ws : List UInt64} (h : ∀ v, v ∈ vs ↔ v ∈ ws) :
    greatest vs = greatest ws := by
  cases hv : greatest vs with
  | none =>
    have hvs : vs = [] := by
      by_contra hne
      obtain ⟨w, hw⟩ := greatest_of_ne_nil hne
      rw [hv] at hw
      cases hw
    have hws : ws = [] := by
      refine List.eq_nil_iff_forall_not_mem.mpr fun v hmem => ?_
      have hmem' := (h v).mpr hmem
      rw [hvs] at hmem'
      exact absurd hmem' List.not_mem_nil
    rw [hws]
    rfl
  | some v =>
    have hmem := (h v).mp (greatest_mem hv)
    obtain ⟨w, hw⟩ := greatest_of_ne_nil (List.ne_nil_of_mem hmem)
    have hle := le_greatest hw hmem
    have hge := le_greatest hv ((h w).mpr (greatest_mem hw))
    rw [hw, UInt64.le_antisymm hle hge]

theorem Counts.sameShape {key : FileKey} {name : String} {entry : FileEntry}
    (h : Counts t path v key name entry) (hshape : SameShape t u) :
    ∃ other, Counts u path v key name other := by
  obtain ⟨other, hother⟩ := hshape.exists_entry h.present
  refine ⟨other, ?_, ?_, h.searched, hother, h.stands⟩
  · rw [← hshape.locate_eq, h.located]
  · rw [← hshape.isDirectory_eq, h.directory]

end Snapshots

namespace FileTree.SameShape

open Snapshots

variable {t u : FileTree}

/-- The same versions count. -/
theorem versions (h : SameShape t u) (path : String) (v : UInt64) :
    v ∈ versions t path ↔ v ∈ versions u path := by
  have hone : ∀ {t u : FileTree}, SameShape t u → v ∈ Snapshots.versions t path →
      v ∈ Snapshots.versions u path := by
    intro t u h hv
    obtain ⟨key, name, entry, hcounts⟩ := mem_versions_iff.mp hv
    obtain ⟨other, hcounts'⟩ := hcounts.sameShape h
    exact mem_versions_iff.mpr ⟨key, name, other, hcounts'⟩
  exact ⟨hone h, hone h.symm⟩

/-- **A path stands for the same thing.** -/
theorem resolve_eq (h : SameShape t u) (path : String) (version : Option UInt64) :
    resolve t path version = resolve u path version := by
  have hcontains : ∀ w, (Snapshots.versions t path).contains w =
      (Snapshots.versions u path).contains w := by
    intro w
    rw [Bool.eq_iff_iff, List.contains_iff_mem, List.contains_iff_mem, h.versions path w]
  unfold resolve
  simp only [greatest_congr (h.versions path), hcontains]

end FileTree.SameShape
end Lineage
