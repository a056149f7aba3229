import Lineage.Proofs.Dataset.Splitting
import Lineage.Proofs.Session.LabelColumn
import Lineage.Proofs.Table.FurtherSteps
/-
  Rows and their number agree.

  A frame over a table in memory can be collected, counted and asked for its first rows, and a
  dataset over it has a profile and can be split.  All of these are carried out anew whenever they
  are asked for, each by steps of its own, and at any time in a session.  If the frame can be
  collected, to some table, then the others speak of that table (`Gives`): the count is its height,
  and the first rows are its first.

  A dataset that was made over the frame has not lost its label column (`Holds`), so its rows are
  split whenever it is asked, and there are as many as the limit and the profile say
  (`rows_and_count_agree`).
-/

namespace Lineage.Session

variable {f : Frame} {r : Table} {d : Dataset Frame} {n : String} {s t : State}

/-- Whenever the frame is asked, it counts the rows of a table and gives the first of them. -/
structure Gives (f : Frame) (r : Table) : Prop where
  counts : ∀ (s : State) (timeout : Duration) (confidence : Binary64),
    (s.run (Dialogue.countRows f timeout confidence)).1 = .ok (UInt64.ofNat r.height)
  rows : ∀ (s : State) (n : Nat),
    (s.run (Dialogue.firstRows f n)).1 = .ok (r.take (min n (2 ^ 32 - 1)))

/-- An answer with a table is that of a result. -/
theorem ok_of_reply {x : Except Failure Table} (h : reply Reply.table x = .table r) : x = .ok r := by
  cases x with
  | error e => cases h
  | ok r' => exact congrArg Except.ok (Reply.table.inj h)

/-- **A frame over a table in memory gives what it is collected to.** -/
theorem gives_of_collect (hmemory : InMemory f) (h : (s.collect f).1 = .table r) : Gives f r := by
  obtain ⟨i, body⟩ := f
  obtain ⟨table, steps, rfl⟩ := hmemory
  have hcollect : Plan.collect s.files (.ofTable table) ⟨.memory table, steps⟩ = .ok r :=
    ok_of_reply h
  constructor
  · intro u timeout confidence
    have hcount : Plan.count u.files (.ofTable table) ⟨.memory table, steps⟩ =
        .ok (UInt64.ofNat r.height) := by
      rw [Plan.count_eq]
      exact map_eq_ok.mpr ⟨r, hcollect, rfl⟩
    show (countOf ⟨i, .plan ⟨.memory table, steps⟩⟩ timeout confidence u).1 = _
    have hasked : askPlan ⟨.memory table, steps⟩
        (fun files seen => Plan.count files seen ⟨.memory table, steps⟩) u =
          (Plan.count u.files (.ofTable table) ⟨.memory table, steps⟩, u) := rfl
    unfold countOf
    simp only [hasked, hcount]
  · intro u k
    show Plan.head u.files (.ofTable table) ⟨.memory table, steps⟩ k = _
    rw [Plan.head_eq]
    exact map_eq_ok.mpr ⟨r, hcollect, rfl⟩

namespace Gives

theorem of_countRows (h : Gives f r) {timeout : Duration} {confidence : Binary64}
    {a : Except Failure UInt64} (ha : Answered ⟨.countRows f timeout confidence, a⟩) :
    a = .ok (UInt64.ofNat r.height) := by
  obtain ⟨s, hs⟩ := ha
  exact hs.symm.trans (h.counts s timeout confidence)

theorem of_firstRows (h : Gives f r) {k : Nat} {a : Except Failure Table}
    (ha : Answered ⟨.firstRows f k, a⟩) : a = .ok (r.take (min k (2 ^ 32 - 1))) := by
  obtain ⟨s, hs⟩ := ha
  exact hs.symm.trans (h.rows s k)

/-- Fewer rows are the first of more rows. -/
theorem rows_le (h : Gives f r) (s t : State) {j k : Nat} (hle : j ≤ k) :
    ∃ few many, (s.run (Dialogue.firstRows f j)).1 = .ok few ∧
      (t.run (Dialogue.firstRows f k)).1 = .ok many ∧ few.columns = many.columns ∧
        few.rows <+: many.rows := by
  refine ⟨_, _, h.rows s j, h.rows t k, rfl, ?_⟩
  exact List.take_prefix_take_left (by omega)

end Gives

/-! ## Profiles and splits -/

variable {columns : Except Failure FrameSchema}

theorem Holds.profile_of_gives (h : Holds n columns d s) (hgives : Gives d.frame r) :
    (s.perform (.view n .profile)).1 = .version (some (UInt64.ofNat r.height)) := by
  obtain ⟨e, hstands, hremembers⟩ := h
  have hreply : (s.perform (.view n .profile)).1 =
      reply (fun p : Profile => .version (some p.approxCount)) (s.run e.profile).1.1 := by
    show (s.withDataset n _).1 = _
    rw [hstands.withDataset]
    rfl
  obtain ⟨said, hruns, hanswered⟩ := runs_answered e.profile s
  obtain ⟨hcourse, -⟩ := Dataset.runs_profile.mp hruns
  rw [hreply]
  rw [← hremembers.same.frame] at hgives
  generalize (s.run e.profile).1.1 = result at hcourse ⊢
  cases hcourse with
  | failed => cases hgives.of_countRows (hanswered _ List.mem_cons_self)
  | counted _ =>
    obtain rfl := Except.ok.inj (hgives.of_countRows (hanswered _ List.mem_cons_self))
    rfl

/-- A dataset whose frame gives rows is split into them; its label column is not lost. -/
theorem Holds.split_of_gives {rows : Nat → Except Failure Table} (h : Holds n columns d s)
    (hf : Steady d.frame columns rows) (hlabel : HasLabel d.targets columns)
    (hgives : Gives d.frame r) :
    ∃ parts, (s.perform (.view n .split)).1 = .split parts ∧
      parts.inputs.height = min (min d.options.rowLimit (2 ^ 32 - 1)) r.height ∧
      ∀ c ∈ parts.outputs, c.cells.length = parts.inputs.height := by
  obtain ⟨e, hstands, hremembers⟩ := h
  have hreply : (s.perform (.view n .split)).1 = reply .split (s.run e.split).1.1 := by
    show (s.withDataset n _).1 = _
    rw [hstands.withDataset]
    rfl
  obtain ⟨said, hruns, hanswered⟩ := runs_answered e.split s
  obtain ⟨hcourse, -⟩ := Dataset.runs_split.mp hruns
  rw [hreply]
  generalize (s.run e.split).1.1 = result at hcourse ⊢
  have hsplit := hremembers.splitCourse hf hlabel hcourse hanswered
  have hgiven := hgives.rows s d.options.rowLimit
  cases hcourse with
  | failed =>
    have hrows := hanswered _ List.mem_cons_self
    rw [hremembers.same.frame] at hrows
    cases hgives.of_firstRows hrows
  | @materialized table told ht =>
    have hrows := hanswered _ List.mem_cons_self
    rw [hremembers.same.frame, hremembers.same.options] at hrows
    obtain rfl := Except.ok.inj (hgives.of_firstRows hrows)
    rcases hsplit with ⟨e, -, hfailed, -⟩ | ⟨parts, -, hparts, -⟩
    · rw [← hf.given d.options.rowLimit s, hgiven] at hfailed
      cases hfailed
    · obtain ⟨hinputs, houtputs⟩ := Dataset.height_of_splitTable hparts
      rw [Table.height_take] at hinputs
      refine ⟨parts, by rw [hparts]; rfl, hinputs, fun c hc => ?_⟩
      rw [houtputs c hc, Table.height_take, hinputs]

/-- **Rows and their number agree.**  Let a frame over a table in memory, with any steps, be
collected to some table.  Whenever it is asked, in this session or in another, and with whatever
time and confidence, it counts the rows of that table; and it gives the first of them, as many as
are asked for and at most as many as the engine can be asked for, so that fewer rows are the first
of more.  Let a dataset be made over the frame, in any of the ways there are.  If the table is lower
than that bound, then at any time later the dataset is split into as many rows as its limit allows
and its profile counts, whenever that is asked for. -/
theorem rows_and_count_agree (hmemory : InMemory f) (hcollected : (s.collect f).1 = .table r) :
    Gives f r ∧
    (∀ (u v : State) {j k : Nat}, j ≤ k →
      ∃ few many, (u.run (Dialogue.firstRows f j)).1 = .ok few ∧
        (v.run (Dialogue.firstRows f k)).1 = .ok many ∧ few.columns = many.columns ∧
          few.rows <+: many.rows) ∧
    (r.height < 2 ^ 32 - 1 → ∀ {u v : State} {n : String} {recipe : Recipe} {d : Dataset Frame}
      {happened : List Happening}, u.step (.make n recipe) = (.summary d, happened, v) →
      d.frame.body = f.body → ∀ {xs ys : List Step}, (∀ x ∈ xs, x.makes n = false) →
      (∀ y ∈ ys, y.makes n = false) →
      ∃ parts count, ((v.after xs).perform (.view n .split)).1 = .split parts ∧
        ((v.after ys).perform (.view n .profile)).1 = .version (some count) ∧
        count.toNat = r.height ∧ parts.inputs.height = min d.options.rowLimit count.toNat ∧
        ∀ c ∈ parts.outputs, c.cells.length = parts.inputs.height) := by
  have hgives := gives_of_collect hmemory hcollected
  refine ⟨hgives, fun u v _ _ hle => hgives.rows_le u v hle, ?_⟩
  intro hlow u v n recipe d happened hmade hbody xs ys hxs hys
  have hmemory' : InMemory d.frame := by
    obtain ⟨table, steps, hf⟩ := hmemory
    exact ⟨table, steps, hbody.trans hf⟩
  have hcollect : s.collect d.frame = s.collect f := by
    unfold State.collect
    rw [hbody]
  have hgives' : Gives d.frame r := gives_of_collect hmemory' (by rw [hcollect, hcollected])
  obtain ⟨columns, rows, hf⟩ := steady_of_inMemory hmemory'
  have hperform := perform_of_step hmade
  have hholds : Holds n columns d v :=
    ⟨d, stands_of_make hmemory' hperform, remembers_of_make hperform⟩
  obtain ⟨parts, hsplit, hheight, hlabel⟩ :=
    (hholds.after hf hxs).split_of_gives hf (hasLabel_of_make hperform hf) hgives'
  have hsize : r.height < UInt64.size := Nat.lt_trans hlow (by decide)
  have hcount : (UInt64.ofNat r.height).toNat = r.height := UInt64.toNat_ofNat_of_lt' hsize
  refine ⟨parts, _, hsplit, (hholds.after hf hys).profile_of_gives hgives', hcount, ?_, hlabel⟩
  rw [hheight, hcount]
  omega

/-- A session with a frame of four rows, of which the first is left out. -/
def measured : State :=
  (State.start.perform (.define "f"
    [⟨"a", .i64, [.int 1, .int 2, .int 3, .int 4]⟩, ⟨"y", .i64, [.int 5, .int 6, .int 7, .null]⟩]
    [.keep "a" .gt (.int 1)])).2

/-- The rows that are left. -/
def measuredRows : Table :=
  ⟨[("a", .i64), ("y", .i64)], [[.int 2, .int 6], [.int 3, .int 7], [.int 4, .null]]⟩

/-- A dataset over that frame that wants two rows and has its label column `y`. -/
def overMeasured : Recipe :=
  .over "f" (.table (.path "f.csv")) ⟨some "y", none, none⟩ (some ⟨some 2, none, none, none, none⟩)

theorem measured_rows_agree :
    ∃ f d happened t, InMemory f ∧ (measured.collect f).1 = .table measuredRows ∧
      measured.step (.make "d" overMeasured) = (.summary d, happened, t) ∧
      d.frame.body = f.body ∧
      ∃ parts count, ((t.after [.remove "f.csv"]).perform (.view "d" .split)).1 = .split parts ∧
        ((t.after [.view "d" .digest]).perform (.view "d" .profile)).1 = .version (some count) ∧
        count.toNat = measuredRows.height ∧ parts.inputs.height = min 2 count.toNat := by
  obtain ⟨f, d, happened, t, hmemory, hcollected, hmade, hbody, hlimit⟩ :
      ∃ f d happened t, InMemory f ∧ (measured.collect f).1 = .table measuredRows ∧
        measured.step (.make "d" overMeasured) = (.summary d, happened, t) ∧
        d.frame.body = f.body ∧ d.options.rowLimit = 2 :=
    ⟨_, _, _, _, ⟨_, _, rfl⟩, rfl, rfl, rfl, rfl⟩
  have hremove : ∀ x ∈ [Step.remove "f.csv"], x.makes "d" = false := by simp [Step.makes]
  have hdigest : ∀ x ∈ [Step.view "d" .digest], x.makes "d" = false := by simp [Step.makes]
  obtain ⟨-, -, hdataset⟩ := rows_and_count_agree hmemory hcollected
  obtain ⟨parts, count, hsplit, hprofile, hcount, hheight, -⟩ :=
    hdataset (by decide) hmade hbody hremove hdigest
  rw [hlimit] at hheight
  exact ⟨f, d, happened, t, hmemory, hcollected, hmade, hbody, parts, count, hsplit, hprofile,
    hcount, hheight⟩

end Lineage.Session
