import Lineage.Evaluation
/-
  Contexts as they are set out for prompts.

  An entry is set out on three lines: `key: ` with the key, `value:`, and the value.  The next entry
  begins on the line below, so what stands between two entries is the newline that stands inside of
  each.  Joining lists of entries and joining what is set out for them is the same
  (`render_append`), if there are entries on both sides.

  As long as no newline stands in the keys and values themselves, the lines come in threes
  (`lines_render`), whatever they look like: a value that reads `key: x` is still the third of its
  three.  So `ofRendered` reads the entries back, by counting lines, and no two lists of entries look
  the same.
-/

namespace Lineage.GradingContext

/-- No newline stands in the key or in the value of an entry. -/
def OnOwnLines (e : String × String) : Prop := '\n' ∉ e.1.toList ∧ '\n' ∉ e.2.toList

/-- The lines on which an entry is set out. -/
def entryLines (e : String × String) : List (List Char) :=
  ["key: ".toList ++ e.1.toList, "value:".toList, e.2.toList]

/-- The entries on some lines, three lines for each. -/
def ofLines : List (List Char) → List (String × String)
  | first :: _ :: third :: rest => (String.ofList (first.drop 5), String.ofList third) :: ofLines rest
  | _ => []

/-- The entries that a text sets out. -/
def ofRendered (text : String) : List (String × String) := ofLines (text.toList.splitOn '\n')

/-! ## Joining -/

/-- Entries below entries are set out one below the other. -/
theorem render_append {a b : List (String × String)} (ha : a ≠ []) (hb : b ≠ []) :
    (entries (a ++ b)).render = (entries a).render ++ "\n" ++ (entries b).render := by
  have hfirst : a.map renderEntry ≠ [] := fun h => ha (List.map_eq_nil_iff.mp h)
  have hsecond : b.map renderEntry ≠ [] := fun h => hb (List.map_eq_nil_iff.mp h)
  show String.intercalate "\n" ((a ++ b).map renderEntry) = _
  rw [List.map_append, String.intercalate_append_of_ne_nil hfirst hsecond]
  rfl

/-! ## Lines -/

/-- An entry without newlines of its own is set out on its three lines. -/
theorem lines_renderEntry {e : String × String} (h : OnOwnLines e) :
    (renderEntry e).toList.splitOn '\n' = entryLines e := by
  have hchars : (renderEntry e).toList =
      ("key: ".toList ++ e.1.toList) ++ '\n' :: ("value:".toList ++ '\n' :: e.2.toList) := by
    simp [renderEntry]
  have hfirst : '\n' ∉ "key: ".toList ++ e.1.toList := by
    rw [List.mem_append, not_or]
    exact ⟨by decide, h.1⟩
  have hsecond : '\n' ∉ "value:".toList := by decide
  rw [hchars, List.splitOn_append_cons_self, List.splitOn_append_cons_self,
    List.splitOn_eq_singleton hfirst, List.splitOn_eq_singleton hsecond,
    List.splitOn_eq_singleton h.2]
  rfl

/-- Entries are set out on their lines, one entry after the other. -/
theorem lines_render {es : List (String × String)} (hne : es ≠ [])
    (h : ∀ e ∈ es, OnOwnLines e) :
    (entries es).render.toList.splitOn '\n' = es.flatMap entryLines := by
  induction es with
  | nil => exact absurd rfl hne
  | cons e rest ih =>
    have hentry : (entries [e]).render.toList.splitOn '\n' = entryLines e :=
      lines_renderEntry (h e List.mem_cons_self)
    by_cases hrest : rest = []
    · subst hrest
      rw [hentry, List.flatMap_cons, List.flatMap_nil, List.append_nil]
    · have hbelow := ih hrest fun e' he' => h e' (List.mem_cons_of_mem e he')
      have hjoined := render_append (List.cons_ne_nil e []) hrest
      have hnewline : "\n".toList = ['\n'] := rfl
      rw [← List.singleton_append, hjoined, String.toList_append, String.toList_append, hnewline,
        List.append_assoc, List.singleton_append, List.splitOn_append_cons_self, hentry, hbelow]
      rfl

/-! ## Reading -/

theorem ofLines_entryLines (es : List (String × String)) :
    ofLines (es.flatMap entryLines) = es := by
  induction es with
  | nil => rfl
  | cons e rest ih =>
    have hkey : String.ofList (("key: ".toList ++ e.1.toList).drop 5) = e.1 :=
      String.ofList_toList
    rw [List.flatMap_cons]
    show (String.ofList (("key: ".toList ++ e.1.toList).drop 5), String.ofList e.2.toList) ::
      ofLines (rest.flatMap entryLines) = e :: rest
    rw [hkey, String.ofList_toList, ih]

/-- **What is set out can be read back**, if no newline stands in the keys and values. -/
theorem ofRendered_render {es : List (String × String)} (h : ∀ e ∈ es, OnOwnLines e) :
    ofRendered (entries es).render = es := by
  by_cases hne : es = []
  · subst hne
    rfl
  · rw [ofRendered, lines_render hne h, ofLines_entryLines]

/-- **Every entry is set out, in its place.**  Entries that are put behind others are set out below
them, on a new line.  If no newline stands in the keys and values, what is set out tells the
entries: their number, their keys and values, their order and how often each comes. -/
theorem rendering_keeps_entries :
    (∀ a b : List (String × String), a ≠ [] → b ≠ [] →
      (entries (a ++ b)).render = (entries a).render ++ "\n" ++ (entries b).render) ∧
    ∀ a b : List (String × String), (∀ e ∈ a, OnOwnLines e) → (∀ e ∈ b, OnOwnLines e) →
      ((entries a).render = (entries b).render ↔ a = b) := by
  refine ⟨fun a b => render_append, fun a b ha hb => ⟨fun h => ?_, fun h => h ▸ rfl⟩⟩
  have hread := congrArg ofRendered h
  rwa [ofRendered_render ha, ofRendered_render hb] at hread

/-- Entries that look like the lines around them, one of them twice. -/
def deceptive : List (String × String) := [("", "key: "), ("value:", ""), ("value:", "")]

theorem deceptive_told_apart :
    (entries (deceptive ++ [("", "")])).render =
        (entries deceptive).render ++ "\n" ++ (entries [("", "")]).render ∧
      (∀ e ∈ deceptive, OnOwnLines e) ∧
      (entries deceptive).render ≠ (entries deceptive.reverse).render ∧
      (entries deceptive).render ≠ (entries (deceptive.take 2)).render := by
  have hall : ∀ e ∈ deceptive, OnOwnLines e := by
    intro e he
    simp only [deceptive, List.mem_cons, List.not_mem_nil, or_false] at he
    rcases he with rfl | rfl | rfl <;> exact ⟨by decide, by decide⟩
  have hreverse : ∀ e ∈ deceptive.reverse, OnOwnLines e :=
    fun e he => hall e (List.mem_reverse.mp he)
  have hfewer : ∀ e ∈ deceptive.take 2, OnOwnLines e :=
    fun e he => hall e (List.mem_of_mem_take he)
  refine ⟨rendering_keeps_entries.1 _ _ (by decide) (by decide), hall, ?_, ?_⟩
  · rw [Ne, rendering_keeps_entries.2 _ _ hall hreverse]
    decide
  · rw [Ne, rendering_keeps_entries.2 _ _ hall hfewer]
    decide

/-- With newlines in a value one entry can look like two. -/
example : (entries [("a", "x\nkey: b\nvalue:\ny")]).render =
    (entries [("a", "x"), ("b", "y")]).render := by decide

end Lineage.GradingContext
