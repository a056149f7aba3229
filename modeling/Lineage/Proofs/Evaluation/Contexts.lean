import Lineage.Evaluation
import Lineage.Proofs.Json.Written
/-
  Contexts in JSON.

  A context is written as a text, or as an object with its entries for members, and read back from
  there.  Unlike in a table of names, entries keep their order, and a name may come again.

  Reading is the inverse of writing in both directions, and that is what the proof goes by.  What
  the reader makes of a document is written as that document says (`spells_of_decoder`), and from a
  document of what is written the reader makes what was written (`reads_toJson`).  So a text is read
  as a context just when it is parsed as what that context is written as
  (`readText_eq_ok_iff`), and the rest is known about parsing.
-/

namespace Lineage

open Json (Doc Key Blank WrittenText WrittenEntries)

/-! ## What contexts are written as -/

/-- The values that contexts are written as: texts, and objects of texts. -/
def Json.IsContext : Json → Prop
  | .text _ => True
  | .object members => ∀ m ∈ members, ∃ s, m.2 = .text s
  | _ => False

theorem Json.exists_texts {members : List (String × Json)} (h : ∀ m ∈ members, ∃ s, m.2 = .text s) :
    ∃ es, members = Json.texts es := by
  induction members with
  | nil => exact ⟨[], rfl⟩
  | cons m members ih =>
    obtain ⟨name, j⟩ := m
    obtain ⟨s, hs⟩ := h (name, j) List.mem_cons_self
    obtain ⟨es, hes⟩ := ih fun m hm => h m (List.mem_cons_of_mem _ hm)
    exact ⟨(name, s) :: es, by rw [hes, show j = .text s from hs]; rfl⟩

namespace GradingContext

theorem toJson_entries (es : List (String × String)) :
    (entries es).toJson = .object (Json.texts es) := rfl

/-- Contexts are written as those values, and as all of them. -/
theorem isContext_iff {j : Json} : j.IsContext ↔ ∃ g : GradingContext, j = g.toJson := by
  constructor
  · intro h
    cases j with
    | text s => exact ⟨text s, rfl⟩
    | object members =>
      obtain ⟨es, hes⟩ := Json.exists_texts h
      exact ⟨entries es, by rw [toJson_entries, hes]⟩
    | _ => exact absurd h not_false
  · rintro ⟨g, rfl⟩
    cases g with
    | text s => trivial
    | entries es =>
      intro m hm
      obtain ⟨e, -, rfl⟩ := List.mem_map.mp hm
      exact ⟨e.2, rfl⟩

/-- There are no numbers in it. -/
theorem whole_toJson (g : GradingContext) : g.toJson.Whole := by
  cases g with
  | text s => trivial
  | entries es => exact Json.wholeMembers_texts es

theorem depth_toJson (g : GradingContext) : g.toJson.depth ≤ 1 := by
  cases g with
  | text s => exact Nat.zero_le 1
  | entries es =>
    show Json.depthMembers (Json.texts es) + 1 ≤ 1
    rw [Json.depthMembers_texts]

/-! ## Reading and writing -/

/-- What is read as a text is one. -/
theorem spells_of_text {m : Json.Mode} {doc : Doc} {s : String}
    (h : Json.Decoder.text m doc = .ok s) : doc.Spells (.text s) := by
  unfold Json.Decoder.text at h
  split at h
  · rename_i start t stop
    obtain rfl := Except.ok.inj h
    exact .text start stop t
  · cases h

/-- The members that are read one by one are those of the object, in their order. -/
theorem membersSpell_of_members {m : Json.Mode} : ∀ {docs : List (Key × Doc)}
    {es : List (String × String)}, Json.Decoder.members Json.Decoder.text m docs = .ok es →
      Json.MembersSpell docs (Json.texts es)
  | [], _, h => by
    obtain rfl := Except.ok.inj h
    exact .nil
  | (⟨key, gap⟩, doc) :: docs, _, h => by
    obtain ⟨name, rfl, hvalue⟩ := bind_eq_ok.mp h
    obtain ⟨s, hs, hothers⟩ := bind_eq_ok.mp hvalue
    obtain ⟨es, hes, hall⟩ := bind_eq_ok.mp hothers
    obtain rfl := Except.ok.inj hall
    exact .cons name gap (spells_of_text hs) (membersSpell_of_members hes)

theorem members_of_membersSpell {m : Json.Mode} : ∀ {docs : List (Key × Doc)}
    {es : List (String × String)}, Json.MembersSpell docs (Json.texts es) →
      Json.Decoder.members Json.Decoder.text m docs = .ok es
  | _, [], .nil => rfl
  | _, (name, s) :: es, .cons _ _ hdoc hrest => by
    obtain ⟨start, stop, rfl⟩ := hdoc.eq_text
    have hothers := members_of_membersSpell (m := m) hrest
    exact bind_eq_ok.mpr ⟨name, rfl, bind_eq_ok.mpr ⟨s, rfl, bind_eq_ok.mpr ⟨es, hothers, rfl⟩⟩⟩

/-- What is read of a document is what the document says. -/
theorem spells_of_decoder {m : Json.Mode} {doc : Doc} {g : GradingContext}
    (h : decoder m doc = .ok g) : doc.Spells g.toJson := by
  unfold decoder at h
  split at h
  · rename_i start s stop
    obtain rfl := Except.ok.inj h
    exact .text start stop s
  · rename_i start docs ending
    obtain ⟨inner, -, hmembers⟩ := bind_eq_ok.mp h
    obtain ⟨es, hes, hending⟩ := bind_eq_ok.mp hmembers
    obtain ⟨_, hread, hall⟩ := bind_eq_ok.mp hending
    obtain ⟨stop, rfl⟩ := Json.Ending.read_eq_ok hread
    obtain rfl := Except.ok.inj hall
    exact .object start stop (membersSpell_of_members hes)
  · -- An array is refused as soon as it may be entered.
    obtain ⟨_, -, hrefused⟩ := bind_eq_ok.mp h
    cases hrefused
  · cases h

/-- A document of what a context is written as is read as that context. -/
theorem reads_toJson (g : GradingContext) : decoder.Reads g.toJson g := by
  intro m doc hm hdoc
  cases g with
  | text s =>
    obtain ⟨start, stop, rfl⟩ := hdoc.eq_text
    rfl
  | entries es =>
    cases hdoc with
    | @object docs members start stop hdocs =>
      obtain ⟨inner, hinner, -⟩ := Json.inside_of_allows hm start
      have hmembers : Json.Decoder.members Json.Decoder.text inner docs = .ok es :=
        members_of_membersSpell hdocs
      exact bind_eq_ok.mpr ⟨inner, hinner, bind_eq_ok.mpr ⟨es, hmembers, rfl⟩⟩

/-- **A text is read as a context just when it is parsed as what that context is written as.** -/
theorem readText_eq_ok_iff {text : String} {g : GradingContext} :
    decoder.readText text = .ok g ↔ Json.parse text = .ok g.toJson := by
  have hdepth : g.toJson.depth < Doc.depthLimit :=
    Nat.lt_of_le_of_lt g.depth_toJson (by decide)
  rw [Json.parse_eq_ok_iff, Json.Decoder.readText, Json.readWith_eq_ok]
  simp only [Json.isEmpty_skipBlank_iff]
  constructor
  · rintro ⟨hread, hstop⟩
    exact ⟨spells_of_decoder hread, hdepth, hstop⟩
  · rintro ⟨hspells, -, hstop⟩
    exact ⟨reads_toJson g (.direct Doc.depthLimit) _ hdepth hspells, hstop⟩

/-- What is written is read back. -/
theorem readText_toJson (g : GradingContext) : decoder.readText g.toJson.render = .ok g := by
  have hdepth : g.toJson.depth < Doc.depthLimit :=
    Nat.lt_of_le_of_lt g.depth_toJson (by decide)
  exact Json.readText_render g.reads_toJson g.whole_toJson hdepth

/-- **Contexts go through JSON unchanged.**  Every context is read back from what is written of it.
A text is read as entries just when it is written as an object with these entries for members, one
by one and in that order, and as a text just when it is written as that text.  So of the values that
a text can be parsed as, those that are read are the texts, and the objects all of whose members are
texts. -/
theorem contexts_survive :
    (∀ g : GradingContext, decoder.readText g.toJson.render = .ok g) ∧
    (∀ text es, decoder.readText text = .ok (entries es) ↔ WrittenEntries text.toList es) ∧
    (∀ text s, decoder.readText text = .ok (.text s) ↔ WrittenText text.toList s) ∧
    (∀ text g, decoder.readText text = .ok g ↔ Json.parse text = .ok g.toJson) ∧
    ∀ text j, Json.parse text = .ok j → ((∃ g, decoder.readText text = .ok g) ↔ j.IsContext) := by
  refine ⟨readText_toJson, fun text es => ?_, fun text s => ?_, fun text g => readText_eq_ok_iff,
    fun text j hparse => ?_⟩
  · rw [readText_eq_ok_iff, toJson_entries]
    exact Json.parse_eq_texts_iff
  · rw [readText_eq_ok_iff]
    exact Json.parse_eq_text_iff
  · rw [isContext_iff]
    refine exists_congr fun g => ?_
    rw [readText_eq_ok_iff, hparse, Except.ok.injEq]

end GradingContext
end Lineage
