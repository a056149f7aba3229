import Mathlib.Data.List.Basic
/-
  Entries under keys, kept in lists.

  Catalogs, trees of files and sessions keep what they know in lists of entries, and change an entry
  by leaving out the old one and adding the new one.  What stands under other keys is found as
  before.  As long as no key stands twice, the order of entries makes no difference.
-/

namespace Lineage

variable {α β : Type} [BEq α]

/-- Changed values are found under the same keys. -/
theorem lookup_map {γ : Type} (f : β → γ) (key : α) : ∀ entries : List (α × β),
    (entries.map fun e => (e.1, f e.2)).lookup key = (entries.lookup key).map f
  | [] => rfl
  | e :: rest => by
    rw [List.map_cons, List.lookup_cons, List.lookup_cons, lookup_map f key rest]
    cases key == e.1 <;> rfl

variable [LawfulBEq α] {key other : α}

/-- A search passes over the entries that a filter has left out, unless it is for one of them. -/
theorem lookup_filter_of_ne (h : other ≠ key) : ∀ entries : List (α × β),
    (entries.filter fun e => e.1 != key).lookup other = entries.lookup other
  | [] => rfl
  | (k, e) :: rest => by
    by_cases hk : k = key
    · have hother : (other == k) = false := beq_false_of_ne (hk ▸ h)
      rw [List.filter_cons_of_neg (by simp [hk]), lookup_filter_of_ne h rest, List.lookup_cons,
        hother]
    · rw [List.filter_cons_of_pos (by simpa using hk), List.lookup_cons, List.lookup_cons,
        lookup_filter_of_ne h rest]

/-- An entry in front of the others is found under its own key alone. -/
theorem lookup_replaced_of_ne (h : other ≠ key) (value : β) (entries : List (α × β)) :
    ((key, value) :: entries.filter fun e => e.1 != key).lookup other = entries.lookup other := by
  rw [List.lookup_cons, beq_false_of_ne h]
  exact lookup_filter_of_ne h entries

/-- Keys stay different when an entry takes the place of the one that is there. -/
theorem nodup_replaced {entries : List (α × β)} (h : (entries.map Prod.fst).Nodup) (key : α)
    (value : β) : (((key, value) :: entries.filter fun e => e.1 != key).map Prod.fst).Nodup := by
  have hsub : (entries.filter fun e => e.1 != key).Sublist entries := List.filter_sublist
  refine List.nodup_cons.mpr ⟨fun hmem => ?_, h.sublist (hsub.map Prod.fst)⟩
  obtain ⟨entry, hentry, hkey⟩ := List.mem_map.mp hmem
  exact bne_iff_ne.mp (List.mem_filter.mp hentry).2 hkey

/-- Nothing is found under a key that does not stand there. -/
theorem lookup_of_not_mem {entries : List (α × β)} (h : key ∉ entries.map Prod.fst) :
    entries.lookup key = none := by
  rw [List.lookup_eq_none_iff]
  intro entry hentry
  exact bne_iff_ne.mpr fun he => h (List.mem_map.mpr ⟨entry, hentry, he.symm⟩)

/-- Something is found under the keys that stand there, and under no others. -/
theorem lookup_ne_none_iff {entries : List (α × β)} :
    entries.lookup key ≠ none ↔ key ∈ entries.map Prod.fst := by
  constructor
  · intro h
    by_contra hnot
    exact h (lookup_of_not_mem hnot)
  · intro hmem hnone
    obtain ⟨entry, hentry, hkey⟩ := List.mem_map.mp hmem
    exact bne_iff_ne.mp (List.lookup_eq_none_iff.mp hnone entry hentry) hkey.symm

/-- What is found under a key stands there. -/
theorem mem_of_lookup {entries : List (α × β)} {value : β} (h : entries.lookup key = some value) :
    (key, value) ∈ entries := by
  obtain ⟨before, after, rfl, -⟩ := List.lookup_eq_some_iff.mp h
  exact List.mem_append_right before List.mem_cons_self

/-- Among different keys, what is found under a key is what stands there. -/
theorem lookup_eq_some_iff_mem {value : β} : ∀ {entries : List (α × β)},
    (entries.map Prod.fst).Nodup → (entries.lookup key = some value ↔ (key, value) ∈ entries)
  | [], _ => by simp
  | (k, e) :: rest, h => by
    obtain ⟨hnew, hrest⟩ := List.nodup_cons.mp h
    rw [List.lookup_cons, List.mem_cons, ← lookup_eq_some_iff_mem hrest]
    by_cases hk : key = k
    · subst hk
      rw [beq_self_eq_true, lookup_of_not_mem hnew]
      constructor
      · intro hsome
        exact .inl (Prod.ext rfl (Option.some.inj hsome).symm)
      · rintro (hentry | hfound)
        · exact congrArg some (congrArg Prod.snd hentry).symm
        · cases hfound
    · rw [beq_false_of_ne hk]
      constructor
      · exact .inr
      · rintro (hentry | hfound)
        · exact absurd (congrArg Prod.fst hentry) hk
        · exact hfound

/-- Among different keys, the order of entries makes no difference to what is found. -/
theorem lookup_perm {entries others : List (α × β)} (hkeys : (entries.map Prod.fst).Nodup)
    (h : entries.Perm others) (key : α) : entries.lookup key = others.lookup key := by
  have hothers : (others.map Prod.fst).Nodup := (h.map Prod.fst).nodup_iff.mp hkeys
  refine Option.ext fun value => ?_
  rw [lookup_eq_some_iff_mem hkeys, lookup_eq_some_iff_mem hothers, h.mem_iff]

end Lineage
