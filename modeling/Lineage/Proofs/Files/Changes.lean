import Lineage.Proofs.Entries
import Lineage.Proofs.Files.Below
import Lineage.Proofs.Success
/-
  What a change of a tree leaves as it is.

  Putting an entry in its place changes what is found there and nothing else (`get?_put_self`,
  `get?_put_of_ne`).  A path asks for directories on its way, so it leads where it led before as
  long as no directory is replaced (`locate_put`) and the working directory is the same.

  Appending puts a file in its place or does nothing (`append_cases`), so all paths lead where they
  led; the text of a file grows by what is appended to it and by nothing else
  (`Appendable.append_here`, `Appendable.append_elsewhere`).
-/

namespace Lineage.FileTree

variable {t : FileTree} {path : String} {key k : FileKey} {entry : FileEntry}

/-! ## Entries -/

theorem get?_put_self (t : FileTree) (key : FileKey) (name : String) (entry : FileEntry) :
    (t.put (key ++ [name]) entry).get? (key ++ [name]) = some entry := by
  have hgone : (t.entries.filter fun e => e.1 != key ++ [name]).lookup (key ++ [name]) = none := by
    rw [List.lookup_eq_none_iff]
    intro e he
    have hne := bne_iff_ne.mp (List.mem_filter.mp he).2
    exact bne_iff_ne.mpr hne.symm
  rw [get?_concat, put, List.lookup_append, hgone]
  simp only [List.lookup_cons, beq_self_eq_true, Option.none_or]

theorem get?_put_of_ne (t : FileTree) (entry : FileEntry) (h : k ≠ key) :
    (t.put key entry).get? k = t.get? k := by
  have hother : (k == key) = false := beq_eq_false_iff_ne.mpr h
  have hlookup : (t.put key entry).entries.lookup k = t.entries.lookup k := by
    rw [put, List.lookup_append, lookup_filter_of_ne h, List.lookup_cons, hother, List.lookup_nil,
      Option.or_none]
  rw [get?, get?, hlookup]

/-- A directory stays one if something is put where no directory is. -/
theorem isDirectory_put (hput : t.isDirectory key = false) (hd : t.isDirectory k = true) :
    (t.put key entry).isDirectory k = true := by
  have hne : k ≠ key := by
    rintro rfl
    rw [hput] at hd
    cases hd
  rw [isDirectory, get?_put_of_ne t entry hne]
  exact hd

/-! ## Paths -/

theorem passThrough_eq_ok_iff : t.passThrough key = .ok () ↔ t.isDirectory key = true := by
  unfold passThrough isDirectory
  cases t.get? key with
  | none => exact iff_of_false nofun nofun
  | some entry =>
    cases entry with
    | directory => exact iff_of_true rfl rfl
    | file content => exact iff_of_false nofun nofun

theorem follow_mono {u : FileTree} (hdir : ∀ k, t.isDirectory k = true → u.isDirectory k = true)
    {piece : List Char} {next : FileKey} (h : t.follow k piece = .ok next) :
    u.follow k piece = .ok next := by
  unfold follow at h ⊢
  obtain ⟨_, hpass, hrest⟩ := bind_eq_ok.mp h
  have hdirectory := passThrough_eq_ok_iff.mp hpass
  exact bind_eq_ok.mpr ⟨(), passThrough_eq_ok_iff.mpr (hdir k hdirectory), hrest⟩

theorem foldlM_follow_mono {u : FileTree}
    (hdir : ∀ k, t.isDirectory k = true → u.isDirectory k = true) :
    ∀ {pieces : List (List Char)} {start target : FileKey},
      pieces.foldlM t.follow start = .ok target → pieces.foldlM u.follow start = .ok target
  | [], _, _, h => h
  | piece :: pieces, _, _, h => by
    rw [List.foldlM_cons] at h ⊢
    obtain ⟨next, hfollow, hrest⟩ := bind_eq_ok.mp h
    exact bind_eq_ok.mpr ⟨next, follow_mono hdir hfollow, foldlM_follow_mono hdir hrest⟩

/-- **A path leads where it led before, if no directory has gone.** -/
theorem locate_mono {u : FileTree} (hdir : ∀ k, t.isDirectory k = true → u.isDirectory k = true)
    (hbase : u.base = t.base) (h : t.locate path = .ok k) : u.locate path = .ok k := by
  obtain ⟨hzero, hlong, hempty, hpieces⟩ := locate_eq_ok_iff.mp h
  have hstart : u.start path = t.start path := by rw [start, start, hbase]
  exact locate_eq_ok_iff.mpr ⟨hzero, hlong, hempty, hstart ▸ foldlM_follow_mono hdir hpieces⟩

/-- A path leads where it led before, if something is put where no directory is. -/
theorem locate_put (hput : t.isDirectory key = false) (h : t.locate path = .ok k) :
    (t.put key entry).locate path = .ok k :=
  locate_mono (fun _ => isDirectory_put hput) rfl h

/-! ## Files -/

/-- A file in its place is no directory, nor is anything else one that was none. -/
theorem isDirectory_put_file (hput : t.isDirectory key = false) (content : FileContent) :
    (t.put key (.file content)).isDirectory k = t.isDirectory k := by
  by_cases hk : k = key
  · subst hk
    rcases List.eq_nil_or_concat k with rfl | ⟨names, name, rfl⟩
    · cases hput
    · rw [hput, isDirectory, List.concat_eq_append, get?_put_self]
  · rw [isDirectory, get?_put_of_ne t _ hk, isDirectory]

/-! ## Appending -/

/-- Text can be appended under these names: a file with this text is there, or none and it can be
made. -/
def Appendable (t : FileTree) (key : FileKey) (old : String) : Prop :=
  t.get? key = some (.file (.text old)) ∨
    old = "" ∧ t.get? key = none ∧ t.isDirectory key.dropLast = true

theorem Appendable.not_isDirectory {old : String} (h : t.Appendable key old) :
    t.isDirectory key = false := by
  rcases h with h | ⟨-, h, -⟩
  · rw [isDirectory, h]
  · rw [isDirectory, h]

theorem Appendable.append {old text : String} (h : t.Appendable key old)
    (hp : t.locate path = .ok key) :
    t.append path text = t.put key (.file (.text (old ++ text))) := by
  rcases h with h | ⟨rfl, h, hd⟩
  · simp only [FileTree.append, hp, h]
  · simp only [FileTree.append, hp, h, hd, if_true, String.empty_append]

/-- Appending to a file puts it in its place, or does nothing. -/
theorem append_cases (t : FileTree) (path text : String) :
    t.append path text = t ∨ ∃ key content, t.locate path = .ok key ∧
      t.isDirectory key = false ∧ t.append path text = t.put key (.file content) := by
  cases hp : t.locate path with
  | error e => exact .inl (by simp only [FileTree.append, hp])
  | ok key =>
    cases hk : t.get? key with
    | none =>
      have hdir : t.isDirectory key = false := by rw [isDirectory, hk]
      by_cases hd : t.isDirectory key.dropLast = true
      · exact .inr ⟨key, .text text, rfl, hdir, by simp only [FileTree.append, hp, hk, hd, if_true]⟩
      · exact .inl (by simp only [FileTree.append, hp, hk, hd, if_false, Bool.false_eq_true])
    | some entry =>
      rcases entry with _ | (old | _)
      · exact .inl (by simp only [FileTree.append, hp, hk])
      · have hdir : t.isDirectory key = false := by rw [isDirectory, hk]
        exact .inr ⟨key, .text (old ++ text), rfl, hdir, by simp only [FileTree.append, hp, hk]⟩
      · exact .inl (by simp only [FileTree.append, hp, hk])

/-- Appending makes no directory and removes none. -/
theorem isDirectory_append (t : FileTree) (path text : String) (k : FileKey) :
    (t.append path text).isDirectory k = t.isDirectory k := by
  rcases t.append_cases path text with h | ⟨key, content, -, hput, h⟩
  · rw [h]
  · rw [h, isDirectory_put_file hput]

/-- Appending goes nowhere. -/
theorem base_append (t : FileTree) (path text : String) : (t.append path text).base = t.base := by
  rcases t.append_cases path text with h | ⟨key, content, -, -, h⟩
  · rw [h]
  · rw [h, put]

/-- Every path leads where it led before something was appended. -/
theorem locate_append_iff {text other : String} :
    (t.append path text).locate other = .ok k ↔ t.locate other = .ok k :=
  ⟨locate_mono (fun _ hd => (isDirectory_append t path text _).symm.trans hd)
      (base_append t path text).symm,
    locate_mono (fun _ hd => (isDirectory_append t path text _).trans hd) (base_append t path text)⟩

/-- What is appended stands behind what was there. -/
theorem Appendable.append_here {old : String} (h : t.Appendable key old)
    (hp : t.locate path = .ok key) (text : String) :
    (t.append path text).Appendable key (old ++ text) := by
  rw [h.append hp]
  rcases List.eq_nil_or_concat key with rfl | ⟨names, name, rfl⟩
  · cases h.not_isDirectory
  · rw [List.concat_eq_append]
    exact .inl (get?_put_self t names name _)

/-- What is appended to another file does not show in this one. -/
theorem Appendable.append_elsewhere {old : String} (h : t.Appendable key old)
    (hp : t.locate path ≠ .ok key) (text : String) : (t.append path text).Appendable key old := by
  have hdir := isDirectory_append t path text key.dropLast
  rcases t.append_cases path text with hnone | ⟨other, content, hother, hput, hsome⟩
  · rwa [hnone]
  · have hne : key ≠ other := fun heq => hp (heq ▸ hother)
    rw [Appendable, hdir, hsome, get?_put_of_ne t _ hne]
    exact h

/-- The text that is there can be read. -/
theorem Appendable.text? {old : String} (h : t.Appendable key old)
    (hp : t.locate path = .ok key) : (t.text? path).getD "" = old := by
  rcases h with h | ⟨rfl, h, -⟩
  · rw [FileTree.text?, open?_of_locate hp, h]
    rfl
  · rw [FileTree.text?, open?_of_locate hp, h]
    rfl

end Lineage.FileTree
