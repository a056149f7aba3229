import Lineage.Proofs.Json.Grammar
/-
  Members that a record has no use for.

  Read directly, a record passes over every member whose name is not one of its own: it skips what
  stands there, and anything in the grammar can be skipped.  So an object is read as if only the
  record's own members stood in it (`Record.Local.decoder_object`), and what the record makes of
  those is told by the values they stand for, whatever the others are (`Record.Accepts.hasMembers`).
-/

namespace Lineage.Json

/-! ## The record's own members -/

/-- The member has the name of one of the fields. -/
def isOwn (fields : List (String × Decoder Unit)) (d : Key × Doc) : Bool :=
  match d.1.text with
  | .ok name => (fields.lookup name).isSome
  | .error _ => false

section Members

variable {fields : List (String × Decoder Unit)} {members : List (String × String)}
  {docs : List (Key × Doc)} {name : String}

theorem isOwn_of_namedOf {m : String × String} {d : Key × Doc} (h : NamedOf m d) :
    isOwn fields d = (fields.lookup m.1).isSome := by
  rw [isOwn, h.1]

theorem own_namedOf (h : List.Forall₂ NamedOf members docs) :
    List.Forall₂ NamedOf (members.filter fun m => (fields.lookup m.1).isSome)
      (docs.filter (isOwn fields)) := by
  refine List.rel_filter (fun m d hd => ?_) h
  show (fields.lookup m.1).isSome = true ↔ isOwn fields d = true
  rw [isOwn_of_namedOf hd]

/-- The others pass every check. -/
theorem checkMembers_filter {n : Nat} (h : List.Forall₂ NamedOf members docs) :
    ∀ seen, checkMembers (.direct n) fields seen docs =
      checkMembers (.direct n) fields seen (docs.filter (isOwn fields)) := by
  induction h with
  | nil => exact fun _ => rfl
  | @cons m d members docs hd _ ih =>
    intro seen
    have hown : isOwn fields d = (fields.lookup m.1).isSome := isOwn_of_namedOf hd
    obtain ⟨⟨key, gap⟩, doc⟩ := d
    obtain ⟨rfl, hskip, -⟩ := hd
    cases hlookup : fields.lookup m.1 with
    | none =>
      rw [hlookup] at hown
      rw [List.filter_cons_of_neg (by rw [hown]; exact Bool.false_ne_true), ← ih seen]
      simp only [checkMembers, bind, Except.bind, hlookup, Mode.pass, hskip]
    | some check =>
      rw [hlookup] at hown
      rw [List.filter_cons_of_pos (by rw [hown]; rfl)]
      simp only [checkMembers, bind, Except.bind, hlookup, ih]

/-- What is found under a name of the record's own is found without the others. -/
theorem memberNamed_filter (h : List.Forall₂ NamedOf members docs)
    (hname : (fields.lookup name).isSome) :
    memberNamed (docs.filter (isOwn fields)) name = memberNamed docs name := by
  induction h with
  | nil => rfl
  | @cons m d members docs hd _ ih =>
    have hown : isOwn fields d = (fields.lookup m.1).isSome := isOwn_of_namedOf hd
    obtain ⟨⟨key, gap⟩, doc⟩ := d
    obtain ⟨rfl, -⟩ := hd
    by_cases hmine : (fields.lookup m.1).isSome = true
    · rw [List.filter_cons_of_pos (hown.trans hmine)]
      simp only [memberNamed, ih]
    · have hother : m.1 ≠ name := fun hsame => hmine (hsame ▸ hname)
      rw [List.filter_cons_of_neg (by rwa [hown]), ih]
      simp only [memberNamed, if_neg hother]

theorem memberNamed_eq_none (h : List.Forall₂ NamedOf members docs)
    (hname : name ∉ members.map Prod.fst) : memberNamed docs name = none := by
  induction h with
  | nil => rfl
  | @cons m d members docs hd _ ih =>
    rw [List.map_cons, List.mem_cons, not_or] at hname
    obtain ⟨⟨key, gap⟩, doc⟩ := d
    obtain ⟨rfl, -⟩ := hd
    simp only [memberNamed, if_neg (Ne.symm hname.1), ih hname.2]

end Members

/-! ## Records that look at their own members only -/

/-- The record is gathered from what is found under the names of its own members. -/
def Record.Local {α : Type} (r : Record α) : Prop :=
  ∀ m p find found, (∀ name, (r.fields.lookup name).isSome → find name = found name) →
    r.gather m p find = r.gather m p found

/-- The record cannot be gathered without the member. -/
def Record.Requires {α : Type} (r : Record α) (name : String) : Prop :=
  ∀ m p find a, find name = none → r.gather m p find ≠ .ok a

section Records

variable {α β : Type} {name : String}

theorem Field.local (f : Field α) : f.record.Local := by
  intro m p find found h
  have hown : (f.record.fields.lookup f.name).isSome := by
    simp only [Field.record, List.lookup_cons_self, Option.isSome_some]
  simp only [Field.record, h f.name hown]

theorem Record.Local.and {r : Record α} {q : Record β} (hr : r.Local) (hq : q.Local) :
    (r.and q).Local := by
  intro m p find found h
  have happend : ∀ name, (r.and q).fields.lookup name =
      (r.fields.lookup name).or (q.fields.lookup name) := fun _ => List.lookup_append
  have hmine : r.gather m p find = r.gather m p found := by
    refine hr m p find found fun name hname => h name ?_
    rw [happend, Option.isSome_or, hname, Bool.true_or]
  have hyours : q.gather m p find = q.gather m p found := by
    refine hq m p find found fun name hname => h name ?_
    rw [happend, Option.isSome_or, hname, Bool.or_true]
  simp only [Record.and, hmine, hyours]

theorem Record.Local.map {r : Record α} (hr : r.Local) (f : α → β) : (r.map f).Local :=
  fun m p find found h => congrArg (Except.map f) (hr m p find found h)

theorem Field.requires {f : Field α} (h : f.absent = none) : f.record.Requires f.name := by
  intro m p find a hnone
  simp only [Field.record, hnone, h]
  exact fun hok => by cases hok

theorem Record.Requires.and_left {r : Record α} (hr : r.Requires name) (q : Record β) :
    (r.and q).Requires name := by
  intro m p find x hnone hok
  obtain ⟨a, ha, -⟩ := bind_eq_ok.mp hok
  exact hr m p find a hnone ha

theorem Record.Requires.and_right {q : Record β} (hq : q.Requires name) (r : Record α) :
    (r.and q).Requires name := by
  intro m p find x hnone hok
  obtain ⟨a, -, hok⟩ := bind_eq_ok.mp hok
  obtain ⟨b, hb, -⟩ := bind_eq_ok.mp hok
  exact hq m p find b hnone hb

theorem Record.Requires.map {r : Record α} (hr : r.Requires name) (f : α → β) :
    (r.map f).Requires name := by
  intro m p find b hnone hok
  obtain ⟨a, ha, -⟩ := map_eq_ok.mp hok
  exact hr m p find a hnone ha

end Records

/-! ## Objects -/

section Objects

variable {α : Type} {r : Record α} {title : String} {n : Nat} {a : α}
  {members : List (String × String)}

/-- **An object is read as if only the record's own members stood in it.** -/
theorem Record.Local.decoder_object (hr : r.Local) {docs : List (Key × Doc)}
    (h : List.Forall₂ NamedOf members docs) (start : List Char) (ending : Ending) :
    r.decoder title (.direct n) (.object start docs ending) =
      r.decoder title (.direct n) (.object start (docs.filter (isOwn r.fields)) ending) := by
  have hgather : ∀ inner, r.gather inner ending.place (memberNamed docs) =
      r.gather inner ending.place (memberNamed (docs.filter (isOwn r.fields))) := fun inner =>
    hr inner ending.place _ _ fun name hname => (memberNamed_filter h hname).symm
  simp only [Record.decoder, hgather]
  cases hinner : Mode.inside start (.direct n) with
  | error t => rfl
  | ok inner =>
    obtain ⟨k, rfl⟩ := direct_of_inside hinner
    simp only [bind, Except.bind, checkMembers_filter h []]

/-- What a record makes of an object is told by the values that its own members stand for. -/
theorem Record.Accepts.hasMembers {R : List (String × Json) → α → Prop} (hr : r.Accepts R)
    (hlocal : r.Local) {doc : Doc} (h : doc.HasMembers members) {js : List (String × Json)}
    (hstand : Stand (members.filter fun m => (r.fields.lookup m.1).isSome) js)
    (hdepth : depthMembers js + 1 < n) :
    r.decoder title (.direct n) doc = .ok a ↔ (ownNames r.fields js).Nodup ∧ R js a := by
  obtain ⟨start, docs, stop, rfl, hdocs⟩ := h
  rw [hlocal.decoder_object hdocs]
  exact hr.object title hdepth ((membersSpell_iff_stand (own_namedOf hdocs)).mpr hstand)

/-- An object is not read as a record without a member that the record requires. -/
theorem Record.Requires.hasMembers {name : String} (hr : r.Requires name) {doc : Doc}
    (h : doc.HasMembers members) (hname : name ∉ members.map Prod.fst) :
    r.decoder title (.direct n) doc ≠ .ok a := by
  obtain ⟨start, docs, stop, rfl, hdocs⟩ := h
  intro hok
  obtain ⟨inner, -, hok⟩ := bind_eq_ok.mp hok
  obtain ⟨_, -, hok⟩ := bind_eq_ok.mp hok
  obtain ⟨_, -, hok⟩ := bind_eq_ok.mp hok
  exact hr inner _ _ a (memberNamed_eq_none hdocs hname) hok

end Objects

end Lineage.Json
