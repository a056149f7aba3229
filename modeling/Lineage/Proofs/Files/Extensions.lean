import Lineage.Files.Format
import Lineage.Proofs.Files.Below
import Mathlib.Data.List.Forall2
/-
  Which format a path tells.

  A path tells its format by its last piece that counts, and that piece by what stands behind its
  last dot (`ofPath_eq`).  Empty pieces and single dots at the end do not count, so a slash behind a
  path changes nothing, nor does anything that stands in front of the last piece.  Two dots are not
  a name, but need no rule of their own here: read as one they would have the empty extension, which
  belongs to no format.

  For letters in another case every step is followed through with the small letters in place of all
  letters (`ofPath_map_toLower`).  Neither a slash nor a dot is a letter, so the path is cut in the
  same places.
-/

namespace Lineage

namespace Files

/-- The piece does not count at the end of a path. -/
def isPassed (piece : List Char) : Bool := piece.isEmpty || piece == ['.']

theorem splitSlashes_of_not_mem {cs : List Char} (h : '/' ∉ cs) : splitSlashes cs = [cs] :=
  List.splitOn_eq_singleton h

/-- What has a slash in it is cut at its last one. -/
theorem exists_last_slash {cs : List Char} (h : '/' ∈ cs) :
    ∃ front back, cs = front ++ '/' :: back ∧ '/' ∉ back := by
  obtain ⟨back, front, hcs, hback⟩ := List.eq_append_cons_of_mem (List.mem_reverse.mpr h)
  refine ⟨front.reverse, back.reverse, ?_, fun hmem => hback (List.mem_reverse.mp hmem)⟩
  rw [← List.reverse_inj, hcs]
  simp

/-! ## Extensions -/

/-- What has no dot in it stands behind the last dot of whatever it is put behind. -/
theorem takeWhile_reverse_append {ext : List Char} (h : '.' ∉ ext) (front : List Char) :
    (front ++ ext).reverse.takeWhile (· ≠ '.') =
      ext.reverse ++ front.reverse.takeWhile (· ≠ '.') := by
  have hall : ∀ c ∈ ext.reverse, decide (c ≠ '.') = true := by
    intro c hc
    rw [decide_eq_true_eq]
    rintro rfl
    exact h (List.mem_reverse.mp hc)
  rw [List.reverse_append, List.takeWhile_append_of_pos hall]

/-- Behind the last dot stands the extension, if there is something in front. -/
theorem splitExtension_append {stem ext : List Char} (hstem : stem ≠ []) (hext : '.' ∉ ext) :
    splitExtension (stem ++ '.' :: ext) = (stem, some ext) := by
  have hbehind : (stem ++ '.' :: ext).reverse.takeWhile (· ≠ '.') = ext.reverse := by
    rw [List.append_cons stem '.' ext, takeWhile_reverse_append hext, List.reverse_append,
      List.reverse_singleton, List.singleton_append, List.takeWhile_cons_of_neg (by decide),
      List.append_nil]
  have hfront : ((stem ++ '.' :: ext).take ((stem ++ '.' :: ext).length - ext.length)).dropLast =
      stem := by
    have hcount : (stem ++ '.' :: ext).length - ext.length = (stem ++ ['.']).length := by
      simp only [List.length_append, List.length_cons, List.length_nil]
      omega
    rw [hcount, List.append_cons stem '.' ext, List.take_left, List.dropLast_concat]
  simp only [splitExtension, hbehind, List.reverse_reverse, hfront]
  rw [if_neg (by simpa using hstem)]

/-- A name without a dot behind its first character has no extension. -/
theorem splitExtension_of_not_mem {name : List Char} (h : '.' ∉ name.tail) :
    splitExtension name = (name, none) := by
  have hstem : (name.take (name.length -
      (name.reverse.takeWhile (· ≠ '.')).reverse.length)).dropLast = [] := by
    cases name with
    | nil => rfl
    | cons first rest =>
      have hrest : '.' ∉ rest := h
      -- At most the first character is in front of what stands behind the last dot.
      have hlong : rest.length ≤
          ((first :: rest).reverse.takeWhile (· ≠ '.')).reverse.length := by
        rw [← List.singleton_append, takeWhile_reverse_append hrest, List.length_reverse,
          List.length_append, List.length_reverse]
        exact Nat.le_add_right ..
      rw [← List.length_eq_zero_iff, List.length_dropLast, List.length_take, List.length_cons]
      omega
  simp only [splitExtension, hstem, List.isEmpty_nil, if_true]

/-! ## Cutting where no letter is -/

section Map

variable {f : Char → Char}

/-- Texts are cut at a character in the same places if others are put in place of the rest. -/
theorem splitOn_map {x : Char} (hf : ∀ c, f c = x ↔ c = x) :
    ∀ cs : List Char, (cs.map f).splitOn x = (cs.splitOn x).map (List.map f)
  | [] => rfl
  | c :: cs => by
    rw [List.map_cons, List.splitOn_cons_eq_if_modifyHead, List.splitOn_cons_eq_if_modifyHead,
      splitOn_map hf cs]
    by_cases hc : c = x
    · rw [if_pos (by simpa using (hf c).mpr hc), if_pos (by simpa using hc)]
      rfl
    · have hne : f c ≠ x := fun h => hc ((hf c).mp h)
      rw [if_neg (by simpa using hne), if_neg (by simpa using hc)]
      cases cs.splitOn x with
      | nil => rfl
      | cons first rest => rfl

theorem isPassed_map (hf : ∀ c, f c = '.' ↔ c = '.') (piece : List Char) :
    isPassed (piece.map f) = isPassed piece := by
  match piece with
  | [] => rfl
  | [c] =>
    rw [Bool.eq_iff_iff]
    simp [isPassed, hf c]
  | c :: d :: rest =>
    rw [Bool.eq_iff_iff]
    simp [isPassed]

theorem splitExtension_map (hf : ∀ c, f c = '.' ↔ c = '.') (name : List Char) :
    splitExtension (name.map f) =
      ((splitExtension name).1.map f, (splitExtension name).2.map (List.map f)) := by
  have hbehind : ((name.map f).reverse.takeWhile (· ≠ '.')).reverse =
      ((name.reverse.takeWhile (· ≠ '.')).reverse).map f := by
    have hsame : (fun c : Char => decide (c ≠ '.')) ∘ f = fun c => decide (c ≠ '.') := by
      funext c
      exact decide_eq_decide.mpr (not_congr (hf c))
    rw [← List.map_reverse, List.takeWhile_map, hsame, List.map_reverse]
  simp only [splitExtension, hbehind, List.length_map, ← List.map_take, ← List.map_dropLast,
    List.isEmpty_map]
  split <;> rfl

end Map

end Files

namespace FileFormat

open Files (isPassed splitSlashes splitExtension)

/-! ## The piece that counts -/

/-- The format that a name tells. -/
def ofName (name : List Char) : Option FileFormat :=
  (splitExtension name).2.bind fun ext => ofExtension (String.ofList ext)

/-- The format that the pieces of a path tell. -/
def ofPieces (pieces : List (List Char)) : Option FileFormat :=
  (pieces.reverse.dropWhile isPassed).head?.bind ofName

theorem ofPieces_passed {piece : List Char} (h : isPassed piece = true)
    (pieces : List (List Char)) : ofPieces (pieces ++ [piece]) = ofPieces pieces := by
  rw [ofPieces, List.reverse_append, List.reverse_singleton, List.singleton_append,
    List.dropWhile_cons_of_pos h, ofPieces]

theorem ofPieces_last {name : List Char} (h : isPassed name = false)
    (pieces : List (List Char)) : ofPieces (pieces ++ [name]) = ofName name := by
  rw [ofPieces, List.reverse_append, List.reverse_singleton, List.singleton_append,
    List.dropWhile_cons_of_neg (by rw [h]; exact Bool.false_ne_true)]
  rfl

/-- **The last piece that counts tells the format of a path.** -/
theorem ofPath_eq (path : String) : ofPath path = ofPieces (splitSlashes path.toList) := by
  cases hlast : (splitSlashes path.toList).reverse.dropWhile isPassed with
  | nil =>
    have hnone : Files.fileName? path = none := by
      unfold isPassed at hlast
      simp only [Files.fileName?, hlast]
    rw [ofPath, Files.extension?, hnone, ofPieces, hlast]
    rfl
  | cons piece others =>
    have hsome : Files.fileName? path =
        if piece == ['.', '.'] then none else some piece := by
      unfold isPassed at hlast
      simp only [Files.fileName?, hlast]
    have htold : ofPieces (splitSlashes path.toList) = ofName piece := by
      rw [ofPieces, hlast]
      rfl
    rw [htold, ofPath, Files.extension?, hsome]
    by_cases hdots : piece = ['.', '.']
    · subst hdots
      rfl
    · rw [if_neg (by simpa using hdots)]
      show ((splitExtension piece).2.bind _).bind _ = _
      rw [Option.bind_assoc]
      rfl

/-! ## Paths -/

/-- A slash at the end changes nothing, with a dot behind it or without. -/
theorem ofPath_append_slash (path : String) :
    ofPath (path ++ "/") = ofPath path ∧ ofPath (path ++ "/.") = ofPath path := by
  have hslash : "/".toList = ['/'] := rfl
  have hdot : "/.".toList = ['/', '.'] := rfl
  have hempty : splitSlashes [] = [[]] := List.splitOn_nil '/'
  have hsingle : splitSlashes ['.'] = [['.']] := Files.splitSlashes_of_not_mem (by decide)
  constructor
  · rw [ofPath_eq, String.toList_append, hslash, Files.splitSlashes_append, hempty,
      ofPieces_passed rfl, ← ofPath_eq]
  · rw [ofPath_eq, String.toList_append, hdot, Files.splitSlashes_append, hsingle,
      ofPieces_passed rfl, ← ofPath_eq]

/-- A path that is a name, or has a name behind its last slash, tells the format of that name. -/
theorem ofPath_of_name {path : String} {name : List Char} (hslash : '/' ∉ name)
    (hname : isPassed name = false)
    (h : path.toList = name ∨ ∃ front, path.toList = front ++ '/' :: name) :
    ofPath path = ofName name := by
  have hpiece : splitSlashes name = [name] := Files.splitSlashes_of_not_mem hslash
  rcases h with h | ⟨front, h⟩
  · rw [ofPath_eq, h, hpiece]
    exact ofPieces_last hname []
  · rw [ofPath_eq, h, Files.splitSlashes_append, hpiece, ofPieces_last hname]

/-- What stands behind the last dot tells the format. -/
theorem ofPath_append_dot {stem ext : String} (hstem : stem ≠ "")
    (hend : stem.endsWith "/" = false) (hdot : '.' ∉ ext.toList) (hslash : '/' ∉ ext.toList) :
    ofPath (stem ++ "." ++ ext) = ofExtension ext := by
  have hchars : (stem ++ "." ++ ext).toList = stem.toList ++ '.' :: ext.toList := by
    have hone : ".".toList = ['.'] := rfl
    rw [String.toList_append, String.toList_append, hone, List.append_assoc, List.singleton_append]
  -- Between the last slash and the dot something is left, as the stem does not end in that slash.
  obtain ⟨name, hne, hfree, hpath⟩ : ∃ name : List Char, name ≠ [] ∧ '/' ∉ name ∧
      (stem.toList = name ∨ ∃ front, stem.toList = front ++ '/' :: name) := by
    by_cases hmem : '/' ∈ stem.toList
    · obtain ⟨front, back, hstem', hback⟩ := Files.exists_last_slash hmem
      refine ⟨back, ?_, hback, .inr ⟨front, hstem'⟩⟩
      rintro rfl
      rw [Files.endsWith_slash_iff.mpr ⟨front, hstem'⟩] at hend
      cases hend
    · exact ⟨stem.toList, fun h => hstem (String.toList_eq_nil_iff.mp h), hmem, .inl rfl⟩
  have hwhole : '/' ∉ name ++ '.' :: ext.toList := by
    simp only [List.mem_append, List.mem_cons, not_or]
    exact ⟨hfree, by decide, hslash⟩
  have hcounts : isPassed (name ++ '.' :: ext.toList) = false := by
    obtain ⟨c, cs, rfl⟩ := List.exists_cons_of_ne_nil hne
    simp [isPassed]
  have htold : ofPath (stem ++ "." ++ ext) = ofName (name ++ '.' :: ext.toList) := by
    refine ofPath_of_name hwhole hcounts ?_
    rw [hchars]
    rcases hpath with hpath | ⟨front, hpath⟩
    · exact .inl (by rw [hpath])
    · exact .inr ⟨front, by rw [hpath, List.append_assoc, List.cons_append]⟩
  rw [htold, ofName, Files.splitExtension_append hne hdot, Option.bind_some, String.ofList_toList]

/-! ## Letters in another case -/

theorem isUpper_iff_val {c : Char} : c.isUpper = true ↔ 'A'.val ≤ c.val ∧ c.val ≤ 'Z'.val :=
  decide_eq_true_iff

theorem isLower_iff_val {c : Char} : c.isLower = true ↔ 'a'.val ≤ c.val ∧ c.val ≤ 'z'.val := by
  show (decide ('a'.val ≤ c.val) && decide (c.val ≤ 'z'.val)) = true ↔ _
  rw [Bool.and_eq_true, decide_eq_true_iff, decide_eq_true_iff]

theorem isUpper_iff {c : Char} : c.isUpper = true ↔ 65 ≤ c.toNat ∧ c.toNat ≤ 90 :=
  isUpper_iff_val.trans (and_congr UInt32.le_iff_toNat_le UInt32.le_iff_toNat_le)

theorem isLower_iff {c : Char} : c.isLower = true ↔ 97 ≤ c.toNat ∧ c.toNat ≤ 122 :=
  isLower_iff_val.trans (and_congr UInt32.le_iff_toNat_le UInt32.le_iff_toNat_le)

/-- A capital letter has its small letter 32 places behind it. -/
theorem toNat_toLower (c : Char) :
    c.toLower.toNat = if c.isUpper then c.toNat + 32 else c.toNat := by
  unfold Char.toLower
  by_cases h : c.isUpper = true
  · have hbounds := isUpper_iff.mp h
    have hstep : ('a'.val - 'A'.val).toNat = 32 := rfl
    rw [dif_pos (isUpper_iff_val.mp h), if_pos h]
    show (c.val + ('a'.val - 'A'.val)).toNat = _
    rw [UInt32.toNat_add, hstep, Char.toNat_val]
    omega
  · rw [dif_neg (mt isUpper_iff_val.mpr h), if_neg h]

theorem toNat_toUpper (c : Char) :
    c.toUpper.toNat = if c.isLower then c.toNat - 32 else c.toNat := by
  unfold Char.toUpper
  by_cases h : c.isLower = true
  · have hbounds := isLower_iff.mp h
    have hstep : ('A'.val - 'a'.val).toNat = 2 ^ 32 - 32 := rfl
    rw [dif_pos (isLower_iff_val.mp h), if_pos h]
    show (c.val + ('A'.val - 'a'.val)).toNat = _
    rw [UInt32.toNat_add, hstep, Char.toNat_val]
    omega
  · rw [dif_neg (mt isLower_iff_val.mpr h), if_neg h]

theorem toLower_toLower (c : Char) : c.toLower.toLower = c.toLower := by
  rw [← Char.toNat_inj, toNat_toLower c.toLower]
  grind [isUpper_iff, toNat_toLower]

theorem toLower_toUpper (c : Char) : c.toUpper.toLower = c.toLower := by
  rw [← Char.toNat_inj, toNat_toLower, toNat_toLower]
  grind [isUpper_iff, isLower_iff, toNat_toUpper]

/-- Only itself has a character that is no letter for its small letter. -/
theorem toLower_eq_iff {x : Char} (hx : x.isAlpha = false) (c : Char) : c.toLower = x ↔ c = x := by
  have hneither : (x.isUpper || x.isLower) = false := hx
  rw [Bool.or_eq_false_iff, ← Bool.not_eq_true, ← Bool.not_eq_true, isUpper_iff, isLower_iff]
    at hneither
  rw [← Char.toNat_inj, ← Char.toNat_inj, toNat_toLower]
  split
  · rename_i hupper
    have hbounds := isUpper_iff.mp hupper
    omega
  · rfl

theorem ofExtension_map_toLower (ext : List Char) :
    ofExtension (String.ofList (ext.map Char.toLower)) = ofExtension (String.ofList ext) := by
  have hagain : (ext.map Char.toLower).map Char.toLower = ext.map Char.toLower := by
    rw [List.map_map]
    exact List.map_congr_left fun c _ => toLower_toLower c
  rw [ofExtension, ofExtension, String.toList_ofList, String.toList_ofList, hagain]

theorem ofName_map_toLower (name : List Char) : ofName (name.map Char.toLower) = ofName name := by
  rw [ofName, ofName, Files.splitExtension_map (toLower_eq_iff rfl)]
  cases (splitExtension name).2 with
  | none => rfl
  | some ext => exact ofExtension_map_toLower ext

/-- A path with small letters in place of all letters tells the same format. -/
theorem ofPath_map_toLower (path : String) :
    ofPath (String.ofList (path.toList.map Char.toLower)) = ofPath path := by
  have hpassed : isPassed ∘ List.map Char.toLower = isPassed :=
    funext (Files.isPassed_map (toLower_eq_iff rfl))
  rw [ofPath_eq, ofPath_eq, String.toList_ofList, splitSlashes,
    Files.splitOn_map (toLower_eq_iff rfl), ofPieces, ofPieces, ← List.map_reverse,
    List.dropWhile_map, hpassed]
  show (List.head? (List.map _ ((splitSlashes path.toList).reverse.dropWhile isPassed))).bind _ = _
  cases (splitSlashes path.toList).reverse.dropWhile isPassed with
  | nil => rfl
  | cons name _ => exact ofName_map_toLower name

/-- A text with some of its letters `a` to `z` and `A` to `Z` in the other case. -/
def Recased (s t : String) : Prop :=
  List.Forall₂ (fun c d => d = c ∨ d = c.toLower ∨ d = c.toUpper) s.toList t.toList

/-- Texts that differ in the case of letters only have the same small letters. -/
theorem map_toLower_of_recased {cs ds : List Char}
    (h : List.Forall₂ (fun c d => d = c ∨ d = c.toLower ∨ d = c.toUpper) cs ds) :
    ds.map Char.toLower = cs.map Char.toLower := by
  induction h with
  | nil => rfl
  | @cons c d cs ds hcd _ ih =>
    have hd : d.toLower = c.toLower := by
      rcases hcd with rfl | rfl | rfl
      · rfl
      · exact toLower_toLower c
      · exact toLower_toUpper c
    rw [List.map_cons, List.map_cons, hd, ih]

theorem ofPath_of_recased {path other : String} (h : Recased path other) :
    ofPath other = ofPath path := by
  rw [← ofPath_map_toLower other, map_toLower_of_recased h, ofPath_map_toLower]

/-! ## The theorem -/

/-- The name of a file: it is not empty, has no slash in it, and is neither a dot nor two dots. -/
structure IsFileName (name : String) : Prop where
  nonempty : name ≠ ""
  slash : '/' ∉ name.toList
  dot : name ≠ "."
  dots : name ≠ ".."

theorem IsFileName.counts {name : String} (h : IsFileName name) :
    isPassed name.toList = false := by
  have hnonempty : name.toList ≠ [] := fun hn => h.nonempty (String.toList_eq_nil_iff.mp hn)
  have hdot : name.toList ≠ ['.'] := fun hn => h.dot (String.toList_inj.mp hn)
  rw [isPassed, List.isEmpty_eq_false_iff.mpr hnonempty, Bool.false_or]
  exact beq_eq_false_iff_ne.mpr hdot

/-- **The extension of the last component tells the format**, and nothing else does.  It is what
stands behind the last dot, if something stands in front of that dot.  Slashes and dots behind the
path, letters in another case and directories in front of the name make no difference, and a name
without a dot behind its first character has no format. -/
theorem format_told_by_extension :
    (∀ stem ext : String, stem ≠ "" → stem.endsWith "/" = false → '.' ∉ ext.toList →
      '/' ∉ ext.toList → ofPath (stem ++ "." ++ ext) = ofExtension ext) ∧
    (∀ path : String, ofPath (path ++ "/") = ofPath path ∧ ofPath (path ++ "/.") = ofPath path) ∧
    (∀ path other : String, Recased path other → ofPath other = ofPath path) ∧
    (∀ directory name : String, IsFileName name →
      ofPath (directory ++ "/" ++ name) = ofPath name) ∧
    ∀ name : String, IsFileName name → '.' ∉ name.toList.tail → ofPath name = none := by
  refine ⟨fun stem ext => ofPath_append_dot, ofPath_append_slash,
    fun path other => ofPath_of_recased, fun directory name h => ?_, fun name h hdot => ?_⟩
  · have hchars : (directory ++ "/" ++ name).toList = directory.toList ++ '/' :: name.toList := by
      have hone : "/".toList = ['/'] := rfl
      rw [String.toList_append, String.toList_append, hone, List.append_assoc,
        List.singleton_append]
    rw [ofPath_of_name h.slash h.counts (.inr ⟨_, hchars⟩),
      ofPath_of_name h.slash h.counts (.inl rfl)]
  · rw [ofPath_of_name h.slash h.counts (.inl rfl), ofName,
      Files.splitExtension_of_not_mem hdot]
    rfl

/-- A name with dots in front of its extension, a name in another case, and one that is hidden: its
only dot is its first character, so it has no extension. -/
theorem hidden_file_has_no_format :
    ofPath ("sales/..v1" ++ "." ++ "CSV") = ofExtension "CSV" ∧
    Recased "v1.Csv/" "V1.csv/" ∧ ofPath "V1.csv/" = ofPath "v1.Csv/" ∧
    (IsFileName ".csv" ∧ ofPath ("a.json/.." ++ "/" ++ ".csv") = ofPath ".csv") ∧
    ('.' ∉ ".csv".toList.tail ∧ ofPath ".csv" = none) := by
  obtain ⟨hdot, -, hcase, hdirectory, hnone⟩ := format_told_by_extension
  have hname : IsFileName ".csv" := ⟨by decide, by decide, by decide, by decide⟩
  have hrecased : Recased "v1.Csv/" "V1.csv/" := by
    unfold Recased
    decide
  have hend : "sales/..v1".endsWith "/" = false := by decide +kernel
  refine ⟨hdot _ _ (by decide) hend (by decide) (by decide), hrecased, hcase _ _ hrecased,
    ⟨hname, hdirectory _ _ hname⟩, by decide, hnone _ hname (by decide)⟩

end FileFormat
end Lineage
