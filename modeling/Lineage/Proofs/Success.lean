import Mathlib.Data.List.Forall2
/-
  Computations that may fail, and when they succeed.

  What succeeds in steps has succeeded in each step (`bind_eq_ok`).  So a computation written step by
  step is taken apart from its result, and no failing branch has to be looked at on the way.
-/

namespace Lineage

variable {ε α β : Type} {x : Except ε α} {a : α} {b : β}

theorem bind_eq_ok {f : α → Except ε β} :
    x >>= f = .ok b ↔ ∃ a, x = .ok a ∧ f a = .ok b := by
  cases x with
  | error e => exact iff_of_false (fun h => by cases h) (by rintro ⟨_, h, -⟩; cases h)
  | ok a =>
    constructor
    · intro h
      exact ⟨a, rfl, h⟩
    · rintro ⟨_, ha, h⟩
      cases ha
      exact h

theorem map_eq_ok {f : α → β} : x.map f = .ok b ↔ ∃ a, x = .ok a ∧ f a = b := by
  cases x with
  | error e => exact iff_of_false (fun h => by cases h) (by rintro ⟨_, h, -⟩; cases h)
  | ok a =>
    constructor
    · intro h
      exact ⟨a, rfl, Except.ok.inj h⟩
    · rintro ⟨_, ha, rfl⟩
      cases ha
      rfl

theorem map_eq_error {f : α → β} {e : ε} : x.map f = .error e ↔ x = .error e := by
  cases x with
  | error e' => exact ⟨fun h => congrArg Except.error (Except.error.inj h), fun h =>
      congrArg Except.error (Except.error.inj h)⟩
  | ok a => exact iff_of_false (fun h => by cases h) fun h => by cases h

/-- What succeeds for each of some values, with a result that is known, succeeds for all of them. -/
theorem mapM_eq_ok {f : α → Except ε β} {g : α → β} : ∀ {as : List α},
    (∀ a ∈ as, f a = .ok (g a)) → as.mapM f = .ok (as.map g)
  | [], _ => rfl
  | a :: rest, h => by
    rw [List.mapM_cons, h a List.mem_cons_self,
      mapM_eq_ok fun b hb => h b (List.mem_cons_of_mem a hb)]
    rfl

/-- What is computed for each of some values is all that matters for what is computed for all. -/
theorem mapM_congr {f g : α → Except ε β} : ∀ {as : List α},
    (∀ a ∈ as, f a = g a) → as.mapM f = as.mapM g
  | [], _ => rfl
  | a :: rest, h => by
    rw [List.mapM_cons, List.mapM_cons, h a List.mem_cons_self,
      mapM_congr fun b hb => h b (List.mem_cons_of_mem a hb)]

/-- All succeed just when each one does, with its own result. -/
theorem mapM_eq_ok_iff {f : α → Except ε β} : ∀ {as : List α} {bs : List β},
    as.mapM f = .ok bs ↔ List.Forall₂ (fun a b => f a = .ok b) as bs
  | [], bs => by
    rw [List.forall₂_nil_left_iff]
    exact ⟨fun h => (Except.ok.inj h).symm, fun h => congrArg Except.ok h.symm⟩
  | a :: as, bs => by
    rw [List.mapM_cons, bind_eq_ok]
    constructor
    · rintro ⟨b, hb, hrest⟩
      obtain ⟨others, hothers, hbs⟩ := bind_eq_ok.mp hrest
      obtain rfl := Except.ok.inj hbs
      exact .cons hb (mapM_eq_ok_iff.mp hothers)
    · rintro (_ | ⟨hb, hothers⟩)
      exact ⟨_, hb, bind_eq_ok.mpr ⟨_, mapM_eq_ok_iff.mpr hothers, rfl⟩⟩

/-- Where not all succeed, the first one that fails does so for all of them. -/
theorem mapM_eq_error_iff {f : α → Except ε β} {e : ε} : ∀ {as : List α},
    as.mapM f = .error e ↔ ∃ before a after, as = before ++ a :: after ∧
      (∀ x ∈ before, ∃ b, f x = .ok b) ∧ f a = .error e
  | [] => by
    refine iff_of_false (fun h => by cases h) ?_
    rintro ⟨before, a, after, hno, -⟩
    cases before <;> cases hno
  | a :: as => by
    rw [List.mapM_cons]
    cases ha : f a with
    | error e' =>
      constructor
      · intro h
        obtain rfl := Except.error.inj h
        exact ⟨[], a, as, rfl, fun x hx => absurd hx List.not_mem_nil, ha⟩
      · rintro ⟨before, x, after, hsplit, hbefore, hx⟩
        cases before with
        | nil =>
          obtain ⟨rfl, -⟩ := List.cons.inj hsplit
          exact congrArg Except.error (Except.error.inj (ha.symm.trans hx))
        | cons y before =>
          obtain ⟨rfl, -⟩ := List.cons.inj hsplit
          obtain ⟨b, hb⟩ := hbefore a List.mem_cons_self
          cases ha.symm.trans hb
    | ok b =>
      have hrest : (do return b :: (← as.mapM f) : Except ε (List β)) = .error e ↔
          as.mapM f = .error e := by
        cases as.mapM f with
        | error e' => exact Iff.rfl
        | ok bs => exact iff_of_false (fun h => by cases h) fun h => by cases h
      refine hrest.trans (mapM_eq_error_iff.trans ?_)
      constructor
      · rintro ⟨before, x, after, rfl, hbefore, hx⟩
        refine ⟨a :: before, x, after, rfl, fun y hy => ?_, hx⟩
        rcases List.mem_cons.mp hy with rfl | hy
        · exact ⟨b, ha⟩
        · exact hbefore y hy
      · rintro ⟨before, x, after, hsplit, hbefore, hx⟩
        cases before with
        | nil =>
          obtain ⟨rfl, -⟩ := List.cons.inj hsplit
          cases ha.symm.trans hx
        | cons y before =>
          obtain ⟨-, hrest⟩ := List.cons.inj hsplit
          exact ⟨before, x, after, hrest, fun z hz => hbefore z (List.mem_cons_of_mem y hz), hx⟩

theorem exists_mapM_eq_ok_iff {f : α → Except ε β} {as : List α} :
    (∃ bs, as.mapM f = .ok bs) ↔ ∀ a ∈ as, ∃ b, f a = .ok b := by
  constructor
  · rintro ⟨bs, hbs⟩ a ha
    obtain ⟨i, hi, rfl⟩ := List.getElem_of_mem ha
    have hall := mapM_eq_ok_iff.mp hbs
    exact ⟨_, hall.get hi (hall.length_eq ▸ hi)⟩
  · intro h
    cases hall : as.mapM f with
    | ok bs => exact ⟨bs, rfl⟩
    | error e =>
      obtain ⟨before, a, after, rfl, -, ha⟩ := mapM_eq_error_iff.mp hall
      obtain ⟨b, hb⟩ := h a (List.mem_append_right before List.mem_cons_self)
      cases ha.symm.trans hb

/-! ## Lists that go along with each other -/

section Along

variable {R : α → β → Prop} {as : List α} {bs : List β}

theorem exists_mem_of_forall₂ (h : List.Forall₂ R as bs) : ∀ a ∈ as, ∃ b ∈ bs, R a b := by
  induction h with
  | nil => exact fun _ ha => nomatch ha
  | @cons a b as bs hab _ ih =>
    refine List.forall_mem_cons.mpr ⟨⟨b, List.mem_cons_self, hab⟩, fun a' ha' => ?_⟩
    obtain ⟨b', hb', hab'⟩ := ih a' ha'
    exact ⟨b', List.mem_cons_of_mem b hb', hab'⟩

/-- What follows from two relations for each in turn follows along the lists. -/
theorem forall₂_through {γ : Type} {S : β → γ → Prop} {T : γ → α → Prop}
    (h : ∀ a b c, R a b → S b c → T c a) (hR : List.Forall₂ R as bs) :
    ∀ {cs : List γ}, List.Forall₂ S bs cs → List.Forall₂ T cs as := by
  induction hR with
  | nil =>
    rintro _ ⟨⟩
    exact .nil
  | cons hab _ ih =>
    intro cs hS
    cases hS with
    | cons hbc hrest => exact .cons (h _ _ _ hab hbc) (ih hrest)

end Along

theorem eq_ok_of_toOption (h : x.toOption = some a) : x = .ok a := by
  cases x with
  | error e => cases h
  | ok b => exact congrArg Except.ok (Option.some.inj h)

theorem eq_error_of_toOption (h : x.toOption = none) : ∃ e, x = .error e := by
  cases x with
  | error e => exact ⟨e, rfl⟩
  | ok b => cases h

end Lineage
