import Lineage.Files.Tree
/-
  Paths of what lies in a directory.

  A name, or a path, is put behind the path of a directory with a slash between them, unless there
  is one at the end already (`below`).  The pieces of such a path are those of the directory's path
  and those behind, up to an empty piece in between, which stays where it is.  So the path leads on
  from that directory (`locate_behind`), if it has not become too long: a name leads to what has it
  there (`locate_below`).

  A path from the working directory leads where that path leads behind any path of the working
  directory (`locate_through_base`).
-/

namespace Lineage

/-- A text that is one piece of a path, leads down and is short enough for a name. -/
structure IsName (name : String) : Prop where
  slash : '/' ∉ name.toList
  zero : '\x00' ∉ name.toList
  nonempty : name.toList ≠ []
  dot : name.toList ≠ ['.']
  dots : name.toList ≠ ['.', '.']
  short : name.utf8ByteSize ≤ FileTree.longestName

namespace Files

/-- The path of what has a name in the directory that a path leads to, or of what a path leads to
from there. -/
def below (path name : String) : String :=
  path ++ (if path.isEmpty || path.endsWith "/" then "" else "/") ++ name

theorem below_eq_append (path rest : String) :
    below path rest = path ++ ((if path.isEmpty || path.endsWith "/" then "" else "/") ++ rest) :=
  String.append_assoc

theorem isEmpty_below {path : String} (h : path.isEmpty = false) (rest : String) :
    (below path rest).isEmpty = false := by
  rw [String.isEmpty_eq_false_iff] at h ⊢
  intro hbelow
  rw [below_eq_append, String.append_eq_empty_iff] at hbelow
  exact h hbelow.1

/-- Whether a path begins with a slash is told by its first character. -/
theorem startsWith_slash_below {path : String} (h : path.isEmpty = false) (rest : String) :
    (below path rest).startsWith "/" = path.startsWith "/" := by
  have hhead : ∀ p : String, p.startsWith "/" = true ↔ p.toList.head? = some '/' := by
    intro p
    rw [String.startsWith_string_iff]
    exact List.singleton_prefix_iff_head?_eq_some
  have hne : path.toList ≠ [] := by
    rwa [ne_eq, String.toList_eq_nil_iff, ← ne_eq, ← String.isEmpty_eq_false_iff]
  obtain ⟨c, cs, hcs⟩ := List.exists_cons_of_ne_nil hne
  rw [Bool.eq_iff_iff, hhead, hhead, below_eq_append, String.toList_append, hcs, List.cons_append]
  rfl

/-- No zero character comes in between. -/
theorem zero_not_mem_below {path rest : String} (hpath : '\x00' ∉ path.toList)
    (hrest : '\x00' ∉ rest.toList) : '\x00' ∉ (below path rest).toList := by
  have hslash : ∀ b : Bool, '\x00' ∉ (if b then "" else "/").toList := by decide
  simp only [below, String.toList_append, List.mem_append, not_or]
  exact ⟨⟨hpath, hslash _⟩, hrest⟩

theorem endsWith_slash_iff {path : String} :
    path.endsWith "/" = true ↔ ∃ pieces, path.toList = pieces ++ ['/'] := by
  rw [← String.endsWith_toSlice, String.Slice.endsWith_string_iff, String.copy_toSlice]
  constructor
  · rintro ⟨pieces, h⟩
    exact ⟨pieces, h.symm⟩
  · rintro ⟨pieces, h⟩
    exact ⟨pieces, h.symm⟩

/-- The characters of a path below a path: a slash stands in front of the name, and behind some
part of the path that has the same pieces but for an empty one at the end. -/
theorem below_toList {path : String} (hpath : path.isEmpty = false) (name : String) :
    ∃ front, (below path name).toList = front ++ '/' :: name.toList ∧
      (path.toList = front ∨ path.toList = front ++ ['/']) := by
  unfold below
  by_cases hslash : path.endsWith "/" = true
  · obtain ⟨front, hfront⟩ := endsWith_slash_iff.mp hslash
    refine ⟨front, ?_, .inr hfront⟩
    rw [hpath, hslash, Bool.or_true, if_pos rfl, String.toList_append, String.toList_append, hfront,
      String.toList_empty, List.append_nil, List.append_assoc, List.singleton_append]
  · refine ⟨path.toList, ?_, .inl rfl⟩
    have hsep : "/".toList = ['/'] := rfl
    rw [hpath, Bool.false_or, if_neg hslash, String.toList_append, String.toList_append, hsep,
      List.append_assoc, List.singleton_append]

theorem splitSlashes_append (front behind : List Char) :
    splitSlashes (front ++ '/' :: behind) = splitSlashes front ++ splitSlashes behind :=
  List.splitOn_append_cons_self front behind

theorem splitSlashes_name {name : String} (h : IsName name) :
    splitSlashes name.toList = [name.toList] :=
  List.splitOn_eq_singleton h.slash

end Files

namespace FileTree

variable {t : FileTree} {path name : String} {key : FileKey} {entry : FileEntry}

/-! ## What lies in a directory -/

theorem mem_children_iff :
    (name, entry) ∈ t.children key ↔ (key ++ [name], entry) ∈ t.entries := by
  unfold children
  rw [List.mem_filterMap]
  constructor
  · rintro ⟨⟨k, e⟩, hmem, hsome⟩
    dsimp only at hsome
    split at hsome
    · rename_i last hlast
      obtain ⟨init, rfl⟩ := List.getLast?_eq_some_iff.mp hlast
      rw [List.dropLast_concat] at hsome
      split at hsome
      · rename_i hinit
        obtain ⟨rfl, rfl⟩ := Prod.mk.inj (Option.some.inj hsome)
        exact hinit ▸ hmem
      · cases hsome
    · cases hsome
  · intro hmem
    refine ⟨(key ++ [name], entry), hmem, ?_⟩
    simp only [List.getLast?_concat, List.dropLast_concat, if_true]

theorem get?_concat (t : FileTree) (key : FileKey) (name : String) :
    t.get? (key ++ [name]) = t.entries.lookup (key ++ [name]) := by
  have hne : key ++ [name] ≠ [] := List.append_ne_nil_of_right_ne_nil key (List.cons_ne_nil name [])
  rw [get?, List.isEmpty_eq_false_iff.mpr hne, if_neg (by decide)]

/-- Where no entry stands deeper, nothing stands in a directory. -/
theorem get?_concat_of_length (h : ∀ e ∈ t.entries, e.1.length ≤ key.length) (name : String) :
    t.get? (key ++ [name]) = none := by
  rw [get?_concat, List.lookup_eq_none_iff]
  intro e he
  rw [bne_iff_ne]
  intro hkey
  have hlength := h e he
  rw [← hkey, List.length_append, List.length_singleton] at hlength
  omega

/-- A name that is listed in a directory leads to an entry, though it may be listed with another
one as well. -/
theorem get?_of_mem_children (h : (name, entry) ∈ t.children key) :
    ∃ e, t.get? (key ++ [name]) = some e := by
  rw [get?_concat]
  apply Option.isSome_iff_exists.mp
  rw [List.lookup_isSome_iff]
  exact ⟨_, mem_children_iff.mp h, beq_self_eq_true _⟩

/-- What a name leads to is listed. -/
theorem mem_children_of_get? (h : t.get? (key ++ [name]) = some entry) :
    (name, entry) ∈ t.children key := by
  rw [get?_concat] at h
  obtain ⟨before, behind, hentries, -⟩ := List.lookup_eq_some_iff.mp h
  rw [mem_children_iff, hentries]
  exact List.mem_append_right before List.mem_cons_self

/-! ## Where paths lead -/

/-- A path that leads somewhere has none of the faults of a text. -/
theorem locate_eq_ok_iff :
    t.locate path = .ok key ↔
      '\x00' ∉ path.toList ∧ path.utf8ByteSize ≤ longestPath ∧ path.isEmpty = false ∧
        (Files.splitSlashes path.toList).foldlM t.follow (t.start path) = .ok key := by
  unfold locate
  constructor
  · intro h
    split at h
    · cases h
    · rename_i hzero
      split at h
      · cases h
      · rename_i hlong
        split at h
        · cases h
        · rename_i hempty
          rw [List.contains_iff_mem] at hzero
          rw [Bool.not_eq_true] at hempty
          exact ⟨hzero, by omega, hempty, h⟩
  · rintro ⟨hzero, hlong, hempty, h⟩
    have hnot : ¬ longestPath < path.utf8ByteSize := by omega
    rw [if_neg (by rwa [List.contains_iff_mem]), if_neg hnot, hempty, if_neg (by decide)]
    exact h

theorem open?_of_locate (h : t.locate path = .ok key) :
    t.open? path = match t.get? key with
      | some entry => .ok entry
      | none => .error .missing := by
  rw [open?, h]
  rfl

theorem locate_of_open? (h : t.open? path = .ok entry) :
    ∃ key, t.locate path = .ok key ∧ t.get? key = some entry := by
  cases hl : t.locate path with
  | error fault =>
    rw [open?, hl] at h
    cases h
  | ok key =>
    rw [open?_of_locate hl] at h
    split at h
    · rename_i e hget
      cases h
      exact ⟨key, rfl, hget⟩
    · cases h

/-- A name leads from a directory to what has that name there. -/
theorem follow_name (hd : t.isDirectory key = true) (hn : IsName name) :
    t.follow key name.toList = .ok (key ++ [name]) := by
  have hpass : t.passThrough key = .ok () := by
    unfold isDirectory at hd
    unfold passThrough
    split at hd
    · rename_i hget
      rw [hget]
    · cases hd
  have hstay : ¬ (name.toList.isEmpty || name.toList == ['.']) = true := by
    rw [Bool.or_eq_true, List.isEmpty_iff, beq_iff_eq]
    exact not_or.mpr ⟨hn.nonempty, hn.dot⟩
  have hup : ¬ (name.toList == ['.', '.']) = true := by
    rw [beq_iff_eq]
    exact hn.dots
  have hlong : ¬ longestName < (String.ofList name.toList).utf8ByteSize := by
    rw [String.ofList_toList]
    have hshort := hn.short
    omega
  rw [follow, hpass]
  show (if _ then _ else if _ then _ else if _ then _ else _ : Except PathFault FileKey) = _
  rw [if_neg hstay, if_neg hup, if_neg hlong, String.ofList_toList]
  rfl

/-- An empty piece leads nowhere else. -/
theorem eq_of_follow_nil {key' : FileKey} (h : t.follow key' [] = .ok key) : key' = key := by
  unfold follow at h
  cases hpass : t.passThrough key' with
  | error fault =>
    rw [hpass] at h
    cases h
  | ok u =>
    rw [hpass] at h
    exact Except.ok.inj h

/-- The pieces of a directory's path lead to it without an empty piece at the end as well. -/
theorem foldlM_front {front : List Char} {start : FileKey}
    (h : (Files.splitSlashes (front ++ ['/'])).foldlM t.follow start = .ok key) :
    (Files.splitSlashes front).foldlM t.follow start = .ok key := by
  rw [Files.splitSlashes_append, List.foldlM_append] at h
  cases hfront : (Files.splitSlashes front).foldlM t.follow start with
  | error fault =>
    rw [hfront] at h
    cases h
  | ok key' =>
    rw [hfront] at h
    have hpieces : Files.splitSlashes [] = [[]] := List.splitOn_nil '/'
    rw [hpieces] at h
    have hlast : (t.follow key' [] >>= pure) = .ok key := h
    rw [bind_pure] at hlast
    rw [eq_of_follow_nil hlast]

/-- **A path that goes on behind another leads on from where that one leads**, if it is not too
long. -/
theorem locate_behind (hl : t.locate path = .ok key) {rest : String}
    (hrest : '\x00' ∉ rest.toList) (hshort : (Files.below path rest).utf8ByteSize ≤ longestPath) :
    t.locate (Files.below path rest) = (Files.splitSlashes rest.toList).foldlM t.follow key := by
  obtain ⟨hzero, -, hempty, hpieces⟩ := locate_eq_ok_iff.mp hl
  obtain ⟨front, hbelow, hfront⟩ := Files.below_toList hempty rest
  -- The pieces in front of the rest lead to the key, however the path ends.
  have hto : (Files.splitSlashes front).foldlM t.follow (t.start path) = .ok key := by
    rcases hfront with hfront | hfront
    · rw [hfront] at hpieces
      exact hpieces
    · rw [hfront] at hpieces
      exact foldlM_front hpieces
  have hnone : ¬ (Files.below path rest).toList.contains '\x00' = true := by
    rw [List.contains_iff_mem]
    exact Files.zero_not_mem_below hzero hrest
  have hlong : ¬ longestPath < (Files.below path rest).utf8ByteSize := by omega
  have hstart : t.start (Files.below path rest) = t.start path := by
    rw [start, start, Files.startsWith_slash_below hempty]
  rw [locate, if_neg hnone, if_neg hlong, Files.isEmpty_below hempty, if_neg (by decide), hstart,
    hbelow, Files.splitSlashes_append, List.foldlM_append, hto]
  rfl

/-- **A path below a directory leads to the name in it,** if it is not too long. -/
theorem locate_below (hl : t.locate path = .ok key) (hd : t.isDirectory key = true)
    (hn : IsName name) (hshort : (Files.below path name).utf8ByteSize ≤ longestPath) :
    t.locate (Files.below path name) = .ok (key ++ [name]) := by
  rw [locate_behind hl hn.zero hshort, Files.splitSlashes_name hn]
  show (t.follow key name.toList >>= pure) = _
  rw [bind_pure, follow_name hd hn]

/-- **A path from the working directory leads where the path through that directory leads**, be it a
path from the root or another one. -/
theorem locate_through_base {directory : String} (hbase : t.locate directory = .ok t.base)
    (hpath : path.isEmpty = false) (hrelative : path.startsWith "/" = false)
    (hshort : (Files.below directory path).utf8ByteSize ≤ longestPath) :
    t.locate (Files.below directory path) = t.locate path := by
  have hsize : path.utf8ByteSize ≤ (Files.below directory path).utf8ByteSize := by
    rw [Files.below, String.utf8ByteSize_append]
    omega
  have hlong : ¬ longestPath < path.utf8ByteSize := by omega
  have hstart : t.start path = t.base := by rw [start, hrelative, if_neg (by decide)]
  by_cases hzero : '\x00' ∈ path.toList
  · have hthrough : '\x00' ∈ (Files.below directory path).toList := by
      rw [Files.below, String.toList_append]
      exact List.mem_append_right _ hzero
    rw [locate, locate, if_pos (List.contains_iff_mem.mpr hthrough),
      if_pos (List.contains_iff_mem.mpr hzero)]
  · rw [locate_behind hbase hzero hshort, locate, if_neg (by rwa [List.contains_iff_mem]),
      if_neg hlong, hpath, if_neg (by decide), hstart]

end FileTree
end Lineage
