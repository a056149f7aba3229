import Lineage.Proofs.Json.Grammar
/-
  Records that are read directly, and behind a tag.

  Read directly, the members of a record are taken as they come, and what is wrong with one of them
  is found there.  Behind a tag all members but the tag are read first, as values of any kind, and
  the record is put together from those.  So the two meet different parts of a text in a different
  order, and complain of different things; but they make the same of it, as long as the record has
  a use for all of its members (`tagged_iff_direct`).

  This is shown in two steps.  What either of them accepts is written as values, no deeper than a
  reader goes: a decoder that succeeds directly has seen a value (`Decoder.Sound`), and what stands
  beside a tag has been read as one (`spells_of_splitTag`).  And of values both make what the record
  accepts (`Record.Accepts.object`, `tagged_eq_ok`).  In between the values have to be the same
  although they stand in different texts, which they are by the grammar (`Doc.IsOf`).
-/

namespace Lineage.Json

/-! ## Decoders that have seen a value -/

/-- What the decoder makes something of, read directly, is a document of a value, and the value is
not deeper than the bound. -/
def Decoder.Sound {α : Type} (d : Decoder α) (bound : Nat) : Prop :=
  ∀ depth doc a, d (.direct depth) doc = .ok a → ∃ j, doc.Spells j ∧ j.depth ≤ bound

/-- So is what goes with the name of an alternative. -/
def Payload.Sound {α : Type} (payload : Payload α) (bound : Nat) : Prop :=
  ∀ depth doc a, payload.read (.direct depth) doc = .ok a → ∃ j, doc.Spells j ∧ j.depth ≤ bound

namespace Decoder

variable {α β : Type} {bound : Nat}

theorem Sound.mono {d : Decoder α} {more : Nat} (h : d.Sound bound) (hle : bound ≤ more) :
    d.Sound more := by
  intro depth doc a ha
  obtain ⟨j, hj, hdepth⟩ := h depth doc a ha
  exact ⟨j, hj, Nat.le_trans hdepth hle⟩

theorem Sound.map {d : Decoder α} (h : d.Sound bound) (f : α → β) : (d.map f).Sound bound := by
  intro depth doc b hb
  obtain ⟨a, ha, -⟩ := map_eq_ok.mp hb
  exact h depth doc a ha

theorem sound_text : text.Sound 0 := by
  intro depth doc s h
  cases doc with
  | text start value stop =>
    cases value with
    | ok t => exact ⟨.text t, .text start stop t, Nat.le_refl 0⟩
    | error t => cases h
  | _ => cases h

theorem sound_natural : natural.Sound 0 := by
  intro depth doc n h
  cases doc with
  | number start value stop =>
    cases value with
    | ok k => exact ⟨.number k, .number start stop k, Nat.le_refl 0⟩
    | error t => cases h
  | _ => cases h

theorem Sound.option {d : Decoder α} (h : d.Sound bound) : d.option.Sound bound := by
  intro depth doc o ho
  cases doc with
  | null start stop => exact ⟨.null, .null start stop, Nat.zero_le bound⟩
  | _ =>
    obtain ⟨a, ha, -⟩ := map_eq_ok.mp ho
    exact h depth _ a ha

end Decoder

/-- Behind the only member the object ends. -/
theorem ending_of_onlyMember {doc : Doc} {more : List (Key × Doc)} {ending : Ending}
    (h : onlyMember doc more ending = .ok ()) : more = [] ∧ ∃ stop, ending = .closed stop := by
  unfold onlyMember at h
  split at h
  · exact ⟨rfl, _, rfl⟩
  · split at h <;> cases h
  · cases h

/-- Alternatives are a text, or an object with one member. -/
theorem sound_alternatives {α : Type} {alts : List (String × Payload α)} {bound : Nat}
    (h : ∀ name payload, alts.lookup name = some payload → payload.Sound bound) :
    (alternatives alts).Sound (bound + 1) := by
  intro depth doc a ha
  cases doc with
  | text start value stop =>
    cases value with
    | ok s => exact ⟨.text s, .text start stop s, Nat.zero_le _⟩
    | error t => cases ha
  | object start members ending =>
    obtain ⟨inner, hinner, ha⟩ := bind_eq_ok.mp ha
    obtain ⟨inside, rfl⟩ := direct_of_inside hinner
    cases members with
    | nil => cases ha
    | cons m more =>
      obtain ⟨⟨key, gap⟩, doc⟩ := m
      obtain ⟨name, rfl, ha⟩ := bind_eq_ok.mp ha
      obtain ⟨payload, hpayload, ha⟩ := bind_eq_ok.mp ha
      obtain ⟨b, hb, ha⟩ := bind_eq_ok.mp ha
      obtain ⟨_, honly, -⟩ := bind_eq_ok.mp ha
      obtain ⟨rfl, stop, rfl⟩ := ending_of_onlyMember honly
      obtain ⟨j, hj, hdepth⟩ := h name payload (chosen_eq_ok.mp hpayload) inside doc b hb
      refine ⟨.object [(name, j)], .object start stop (.cons name gap hj .nil), ?_⟩
      exact Nat.succ_le_succ (Nat.max_le.mpr ⟨hdepth, Nat.zero_le bound⟩)
  | broken start read skipped =>
    unfold alternatives at ha
    dsimp only at ha
    split at ha <;> cases ha
  | _ => cases ha

/-- The checks of the record have seen a value where they succeed. -/
def Record.Sound {α : Type} (r : Record α) (bound : Nat) : Prop :=
  ∀ name check, r.fields.lookup name = some check → check.Sound bound

section Records

variable {α β : Type} {bound : Nat}

theorem Field.sound {f : Field α} (h : f.decode.Sound bound) : f.record.Sound bound := by
  intro name check hcheck
  rw [Field.record, List.lookup_cons] at hcheck
  split at hcheck
  · exact Option.some.inj hcheck ▸ h.map _
  · cases hcheck

theorem Record.Sound.and {r : Record α} {q : Record β} (hr : r.Sound bound) (hq : q.Sound bound) :
    (r.and q).Sound bound := by
  intro name check hcheck
  have happend : (r.fields.lookup name).or (q.fields.lookup name) = some check :=
    List.lookup_append.symm.trans hcheck
  rcases Option.or_eq_some_iff.mp happend with hmine | ⟨-, hyours⟩
  · exact hr name check hmine
  · exact hq name check hyours

theorem Record.Sound.map {r : Record α} (h : r.Sound bound) (f : α → β) : (r.map f).Sound bound := h

end Records

/-! ## Members that are values -/

/-- Members that pass their checks are documents of values. -/
theorem spells_of_checkMembers {α : Type} {r : Record α} {bound n : Nat} (h : r.Sound bound) :
    ∀ {docs : List (Key × Doc)} {seen : List String},
      checkMembers (.direct n) r.fields seen docs = .ok () →
      ∀ d ∈ docs, ∀ name, d.1.text = .ok name → (r.fields.lookup name).isSome →
        ∃ j, d.2.Spells j ∧ j.depth ≤ bound
  | [], _, _, _, hd, _, _, _ => nomatch hd
  | (⟨key, gap⟩, doc) :: docs, seen, hok, d, hd, name, hname, hown => by
    obtain ⟨first, rfl, hok⟩ := bind_eq_ok.mp hok
    cases hlookup : r.fields.lookup first with
    | none =>
      rw [hlookup] at hok
      obtain ⟨_, -, hok⟩ := bind_eq_ok.mp hok
      rcases List.mem_cons.mp hd with rfl | hd
      · -- It has no check, so it is none of the record's own.
        obtain rfl := Except.ok.inj hname
        rw [hlookup] at hown
        cases hown
      · exact spells_of_checkMembers h hok d hd name hname hown
    | some check =>
      rw [hlookup] at hok
      dsimp only at hok
      split at hok
      · cases hok
      · obtain ⟨_, hcheck, hok⟩ := bind_eq_ok.mp hok
        rcases List.mem_cons.mp hd with rfl | hd
        · exact h first check hlookup n doc () hcheck
        · exact spells_of_checkMembers h hok d hd name hname hown

/-- What stands beside the tag is documents of values. -/
theorem spells_of_splitTag {β : Type} {depth : Nat} {tag : String} {alts : List (String × β)}
    (hdepth : 0 < depth) : ∀ {docs : List (Key × Doc)} {found : Option β}
      {split : Option β × List (Key × Doc)}, splitTag depth tag alts found docs = .ok split →
      ∀ d ∈ docs, d.1.text ≠ .ok tag → ∃ j, d.2.Spells j ∧ j.depth < depth
  | [], _, _, _, _, hd, _ => nomatch hd
  | (⟨key, gap⟩, doc) :: docs, found, split, hok, d, hd, htag => by
    obtain ⟨name, rfl, hok⟩ := bind_eq_ok.mp hok
    by_cases hname : name = tag
    · rw [if_pos hname] at hok
      cases found with
      | some b => cases hok
      | none =>
        obtain ⟨b, -, hok⟩ := bind_eq_ok.mp hok
        rcases List.mem_cons.mp hd with rfl | hd
        · exact absurd (congrArg Except.ok hname) htag
        · exact spells_of_splitTag hdepth hok d hd htag
    · rw [if_neg hname] at hok
      obtain ⟨j, hj, hok⟩ := bind_eq_ok.mp hok
      obtain ⟨rest, hrest, -⟩ := bind_eq_ok.mp hok
      rcases List.mem_cons.mp hd with rfl | hd
      · exact ⟨j, spells_of_json hdepth hj⟩
      · exact spells_of_splitTag hdepth hrest d hd htag

/-! ## Both ways of reading -/

section Reading

variable {α : Type} {r : Record α} {R : List (String × Json) → α → Prop} {title : String} {a : α}

/-- An object whose members stand for values is read directly as what the record accepts. -/
theorem Record.Accepts.readText_object (hr : r.Accepts R) {text : String}
    {members : List (String × String)} {js : List (String × Json)} (h : ObjectText text members)
    (hstand : Stand members js) (hdepth : depthMembers js + 1 < Doc.depthLimit) :
    (r.decoder title).readText text = .ok a ↔ (ownNames r.fields js).Nodup ∧ R js a := by
  obtain ⟨_, ⟨start, docs, stop, rfl, hdocs⟩, hreader⟩ := h.readWith_eq_ok
  exact hreader.trans (hr.object title hdepth ((membersSpell_iff_stand hdocs).mpr hstand))

variable {β : Type} {tag name : String} {alts : List (String × Decoder β)} {f : α → β} {b : β}
  {before after : List (String × String)} {js ks : List (String × Json)} {k text : String}

/-- Behind its tag, an object whose members stand for values is read as the same. -/
theorem Record.Accepts.tagged_object (hr : r.Accepts R) {whole : String}
    (hlookup : alts.lookup name = some ((r.decoder title).map f))
    (h : ObjectText text (before ++ (tag, k) :: after)) (hk : parse k = .ok (.text name))
    (hbefore : Stand before js) (hafter : Stand after ks)
    (htag : tag ∉ (before ++ after).map Prod.fst)
    (hdepth : depthMembers (js ++ ks) + 1 < Doc.depthLimit) :
    readWith (tagged whole tag alts Doc.depthLimit) text = .ok b ↔
      ∃ a, ((ownNames r.fields (js ++ ks)).Nodup ∧ R (js ++ ks) a) ∧ f a = b := by
  obtain ⟨_, ⟨start, docs, stop, rfl, hdocs⟩, hreader⟩ := h.readWith_eq_ok
  have hstand : Stand (before ++ (tag, k) :: after) (js ++ (tag, .text name) :: ks) :=
    hbefore.append (.cons ⟨rfl, (spells_of_parse hk).1⟩ hafter)
  rw [List.map_append, List.mem_append, not_or, ← hbefore.names, ← hafter.names] at htag
  have hdepthTag : depthMembers (js ++ (tag, .text name) :: ks) + 1 < Doc.depthLimit := by
    rw [depthMembers_append] at hdepth ⊢
    rwa [depthMembers, depth, Nat.zero_max]
  obtain ⟨others, hothers, htagged⟩ := tagged_eq_ok ((membersSpell_iff_stand hdocs).mpr hstand)
    hdepthTag htag.1 htag.2
  have hheld : ∀ a, r.decoder title .held (.object start others (.closed stop)) = .ok a ↔ _ :=
    fun a => hr.object title (show Mode.held.Allows _ from trivial) hothers
  refine hreader.trans ((htagged b).trans ?_)
  constructor
  · rintro ⟨_, d, hname, hd, hok⟩
    obtain rfl := Json.text.inj hname
    obtain rfl := Option.some.inj (hlookup.symm.trans hd)
    obtain ⟨a, ha, hb⟩ := map_eq_ok.mp hok
    exact ⟨a, (hheld a).mp ha, hb⟩
  · rintro ⟨a, ha, hb⟩
    exact ⟨name, _, rfl, hlookup, map_eq_ok.mpr ⟨a, (hheld a).mpr ha, hb⟩⟩

/-- What is read directly has members that stand for values. -/
theorem Record.Sound.stand {bound : Nat} (h : r.Sound bound) {members : List (String × String)}
    (htext : ObjectText text members) (hown : ∀ m ∈ members, (r.fields.lookup m.1).isSome)
    (hread : (r.decoder title).readText text = .ok a) :
    ∀ m ∈ members, ∃ j, (Doc.ofChars m.2.toList).Spells j ∧ j.depth ≤ bound := by
  obtain ⟨_, ⟨start, docs, stop, rfl, hdocs⟩, hreader⟩ := htext.readWith_eq_ok
  obtain ⟨inner, hinner, hok⟩ := bind_eq_ok.mp (hreader.mp hread)
  obtain ⟨n, rfl⟩ := direct_of_inside hinner
  obtain ⟨_, hcheck, -⟩ := bind_eq_ok.mp hok
  intro m hm
  obtain ⟨d, hd, hname, -, hspells⟩ := exists_mem_of_forall₂ hdocs m hm
  obtain ⟨j, hj, hdepth⟩ := spells_of_checkMembers h hcheck d hd m.1 hname (hown m hm)
  exact ⟨j, (hspells j).mp hj, hdepth⟩

/-- So has what is read behind a tag, but for the tag. -/
theorem stand_of_tagged {whole : String} {members : List (String × String)}
    (htext : ObjectText text members)
    (hread : readWith (tagged whole tag alts Doc.depthLimit) text = .ok b) :
    ∀ m ∈ members, m.1 ≠ tag →
      ∃ j, (Doc.ofChars m.2.toList).Spells j ∧ j.depth < Doc.depthLimit - 1 := by
  obtain ⟨_, ⟨start, docs, stop, rfl, hdocs⟩, hreader⟩ := htext.readWith_eq_ok
  obtain ⟨inner, hinner, hok⟩ := bind_eq_ok.mp (hreader.mp hread)
  obtain ⟨hdepth, rfl⟩ := deeper_eq_ok.mp hinner
  obtain ⟨split, hsplit, -⟩ := bind_eq_ok.mp hok
  intro m hm htag
  obtain ⟨d, hd, hname, -, hspells⟩ := exists_mem_of_forall₂ hdocs m hm
  have hother : d.1.text ≠ .ok tag := by
    rw [hname]
    exact fun h => htag (Except.ok.inj h)
  obtain ⟨j, hj, hlt⟩ := spells_of_splitTag (Nat.sub_pos_of_lt hdepth) hsplit d hd hother
  exact ⟨j, (hspells j).mp hj, hlt⟩

/-- **A record is read directly as what it is read as behind its tag**, from any object text all of
whose members are the record's own, wherever the tag is put between them. -/
theorem Record.Accepts.tagged_iff_direct (hr : r.Accepts R) {bound : Nat} (hsound : r.Sound bound)
    (hbound : bound + 1 < Doc.depthLimit) (hfields : r.fields.lookup tag = none)
    (hlookup : alts.lookup name = some ((r.decoder title).map f)) {whole other : String}
    (h : ObjectText text (before ++ after)) (hother : ObjectText other (before ++ (tag, k) :: after))
    (hk : parse k = .ok (.text name))
    (hown : ∀ m ∈ before ++ after, (r.fields.lookup m.1).isSome) :
    readWith (tagged whole tag alts Doc.depthLimit) other = .ok b ↔
      ∃ a, (r.decoder title).readText text = .ok a ∧ f a = b := by
  have htag : ∀ m ∈ before ++ after, m.1 ≠ tag := by
    intro m hm hname
    have hsome := hown m hm
    rw [hname, hfields] at hsome
    cases hsome
  -- Where the members stand for values, both make of them what the record accepts.
  have hsame : (∀ m ∈ before ++ after, ∃ j, (Doc.ofChars m.2.toList).Spells j ∧
      j.depth ≤ Doc.depthLimit - 2) →
      (readWith (tagged whole tag alts Doc.depthLimit) other = .ok b ↔
        ∃ a, (r.decoder title).readText text = .ok a ∧ f a = b) := by
    intro hstand
    obtain ⟨hbefore, hafter⟩ := List.forall_mem_append.mp hstand
    obtain ⟨js, hjs, hdepthJs⟩ := exists_stand hbefore
    obtain ⟨ks, hks, hdepthKs⟩ := exists_stand hafter
    have hdepth : depthMembers (js ++ ks) + 1 < Doc.depthLimit := by
      rw [depthMembers_append]
      omega
    have hnames : tag ∉ (before ++ after).map Prod.fst := by
      intro hmem
      obtain ⟨m, hm, hname⟩ := List.mem_map.mp hmem
      exact htag m hm hname
    rw [hr.tagged_object hlookup hother hk hjs hks hnames hdepth]
    simp only [hr.readText_object h (hjs.append hks) hdepth]
  constructor
  · intro hread
    refine (hsame fun m hm => ?_).mp hread
    have hm' : m ∈ before ++ (tag, k) :: after :=
      List.perm_middle.mem_iff.mpr (List.mem_cons_of_mem _ hm)
    obtain ⟨j, hj, hlt⟩ := stand_of_tagged hother hread m hm' (htag m hm)
    exact ⟨j, hj, by omega⟩
  · rintro ⟨a, hread, hb⟩
    refine (hsame fun m hm => ?_).mpr ⟨a, hread, hb⟩
    obtain ⟨j, hj, hle⟩ := hsound.stand h hown hread m hm
    exact ⟨j, hj, by omega⟩

end Reading

end Lineage.Json
