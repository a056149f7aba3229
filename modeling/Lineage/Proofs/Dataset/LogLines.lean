import Lineage.Proofs.Dataset.Watching
import Lineage.Proofs.Decimal.Digits
import Lineage.Proofs.Files.Changes
import Lineage.Proofs.Session.Answering
import Mathlib.Data.List.Forall2
/-
  What stands in the log of a dataset.

  What has happened in a turn can be read off what frame and inferrer have answered (`happened`),
  whoever watches; the observer is told of exactly that.  Each file in its nest is given one record
  for each event: the time, the kind of the event, the dataset, and what else there is to say.  The
  file keeps what it held and gains the records, each with a newline behind it.

  A record holds names and wordings as they are.  It is one line as long as there is no newline in
  them, and only then: `log_lines` says so of whole runs, over any number of datasets whose
  observers share a file.
-/

namespace Lineage

open Dialogue

variable {F : Type}

/-! ## What has happened -/

/-- What has happened when this has been asked and answered. -/
def Exchange.event? : Exchange F → Option Event
  | ⟨.note (.digestComputed _ digest), _⟩ => some (.digest digest)
  | ⟨.countRows _ _ _, .ok n⟩ => some (.profile ⟨n⟩)
  | ⟨.firstRows _ limit, .ok t⟩ => some (.materialized t.height t.width limit)
  | ⟨.note (.schemaFailed _ f), _⟩ => some (.schemaDegraded f)
  | _ => none

/-- What has happened in a course, in order. -/
def happened (said : List (Exchange F)) : List Event := said.filterMap Exchange.event?

theorem happened_append (first second : List (Exchange F)) :
    happened (first ++ second) = happened first ++ happened second :=
  List.filterMap_append ..

/-- Nothing happens while observers are served. -/
theorem happened_of_isReport {said : List (Exchange F)}
    (h : ∀ x ∈ said, x.question.isReport = true) : happened said = [] := by
  refine List.filterMap_eq_nil_iff.mpr ?_
  rintro ⟨q, r⟩ hx
  have hq := h _ hx
  cases q with
  | note n =>
    cases n with
    | observed _ _ => rfl
    | _ => cases hq
  | countRows _ _ _ => cases hq
  | firstRows _ _ => cases hq
  | _ => rfl

namespace Dataset

/-- The observer is told of exactly what has happened, and digests are made from hashes. -/
structure Faithful (d : Dataset F) (said : List (Exchange F)) : Prop where
  told : d.Told (happened said) said
  digests : ∀ s, .digest s ∈ happened said → ∃ hash, Digest.ofHash hash = .ok s

variable {d d' : Dataset F} {said first second : List (Exchange F)}

theorem Faithful.append (h : d.Faithful first) (k : d.Faithful second) :
    d.Faithful (first ++ second) := by
  constructor
  · rw [happened_append]
    exact told_append h.told k.told
  · intro s hs
    rw [happened_append] at hs
    rcases List.mem_append.mp hs with hs | hs
    · exact h.digests s hs
    · exact k.digests s hs

theorem SameAs.faithful (h : d.SameAs d') (hf : d'.Faithful said) : d.Faithful said :=
  ⟨h.told hf.told, hf.digests⟩

/-- Nobody is told of anything where nothing happens. -/
theorem faithful_nil (hreports : reports said = []) (hhappened : happened said = []) :
    d.Faithful said := by
  constructor
  · rw [hhappened]
    exact told_nil hreports
  · rw [hhappened]
    exact nofun

/-- Something happens, and then the observer is told of it. -/
theorem faithful_emit (first : List (Exchange F)) {e : Event} {told : List (Exchange F)}
    (hreports : reports first = []) (hhappened : happened first = [e]) (ht : Runs (d.emit e) told ())
    (he : ∀ s, e = .digest s → ∃ hash, Digest.ofHash hash = .ok s) :
    d.Faithful (first ++ told) := by
  have hall : happened (first ++ told) = [e] := by
    rw [happened_append, happened_of_isReport (isReport_of_emit ht), hhappened, List.append_nil]
  constructor
  · rw [hall]
    exact told_append (told_nil hreports) (told_emit ht)
  · intro s hs
    rw [hall] at hs
    exact he s (List.mem_singleton.mp hs).symm

theorem DigestCourse.faithful {r : Except Failure String} (h : DigestCourse d said r d') :
    d.Faithful said := by
  cases h with
  | known _ => exact faithful_nil rfl rfl
  | failed _ => exact faithful_nil rfl rfl
  | @computed hash s told _ hs ht =>
    refine faithful_emit [_, _] rfl rfl ht ?_
    rintro _ ⟨⟩
    exact ⟨hash, hs⟩

theorem ProfileCourse.faithful {r : Except Failure Profile} (h : ProfileCourse d said r) :
    d.Faithful said := by
  cases h with
  | failed => exact faithful_nil rfl rfl
  | counted ht => exact faithful_emit [_] rfl rfl ht nofun

theorem SplitCourse.faithful {r : Except Failure Split} (h : SplitCourse d said r) :
    d.Faithful said := by
  cases h with
  | failed => exact faithful_nil rfl rfl
  | materialized ht => exact faithful_emit [_, _] rfl rfl ht nofun

theorem InferredCourse.faithful {r : Except Failure Schema} (h : InferredCourse d said r) :
    d.Faithful said := by
  cases h with
  | failed => exact faithful_nil rfl rfl
  | standard _ => exact faithful_nil rfl rfl
  | external _ => exact faithful_nil rfl rfl

theorem SchemaCourse.faithful {r : Option Schema} (h : SchemaCourse d said r d') :
    d.Faithful said := by
  cases h with
  | known _ => exact faithful_nil rfl rfl
  | inferred _ hi => exact hi.faithful
  | degraded _ hi ht => exact hi.faithful.append (faithful_emit [_] rfl rfl ht nofun)

theorem DescriptorCourse.faithful {r : Except Failure Descriptor}
    (h : DescriptorCourse d said r d') : d.Faithful said := by
  cases h with
  | refused hd => exact hd.faithful
  | decided hd hs hp =>
    have hrest := hd.sameAs.faithful (hs.faithful.append (hs.sameAs.faithful hp.faithful))
    exact hd.faithful.append hrest

/-- **In a turn, the observer is told of exactly what has happened.** -/
theorem turn_faithful {t : Turn F} (h : t.Of d) : d.Faithful t.said := by
  obtain ⟨call, said, answer, after⟩ := t
  cases call with
  | digest =>
    obtain ⟨r, hr, -⟩ := runs_mapView.mp h
    exact (runs_digest.mp hr).faithful
  | profile =>
    obtain ⟨r, hr, -⟩ := runs_mapView.mp h
    exact (runs_profile.mp hr).1.faithful
  | schema =>
    obtain ⟨r, hr, -⟩ := runs_mapView.mp h
    exact (runs_schema.mp hr).faithful
  | split =>
    obtain ⟨r, hr, -⟩ := runs_mapView.mp h
    exact (runs_split.mp hr).1.faithful
  | descriptor =>
    obtain ⟨r, hr, -⟩ := runs_mapView.mp h
    exact (runs_descriptor.mp hr).faithful
  | descriptorText =>
    obtain ⟨r, hr, -⟩ := runs_mapView.mp h
    obtain ⟨x, hx, -⟩ := runs_descriptorText.mp hr
    exact hx.faithful

end Dataset

/-! ## Records -/

namespace Event

/-- The word for what has happened. -/
def kind : Event → String
  | digest _ => "digest"
  | profile _ => "profile"
  | materialized _ _ _ => "materialized"
  | schemaDegraded _ => "schema_degraded"

/-- What there is to say of an event besides its kind and its dataset. -/
def details : Event → String
  | digest d => " digest=" ++ d
  | profile p => " approx_count=" ++ toString p.approxCount
  | materialized rows columns limit =>
    " rows=" ++ toString rows ++ " columns=" ++ toString columns ++ " limit=" ++ toString limit
  | schemaDegraded f => " err=" ++ f.message

theorem logLine_eq (c : Context) (e : Event) :
    e.logLine c =
      e.kind ++ " dataset=" ++ c.dataset ++ " source_type=" ++ c.sourceType ++ e.details := by
  cases e with
  | digest d => exact String.append_assoc
  | profile p => rfl
  | materialized rows columns limit => rfl
  | schemaDegraded f => exact String.append_assoc

/-- The words in the record of an event that others have chosen: the name of the dataset, and the
wording of a failure. -/
def words (c : Context) : Event → List String
  | schemaDegraded f => [c.dataset, f.message]
  | _ => [c.dataset]

end Event

/-- The record of an event at some time. -/
def recordAt (time : Nat) (c : Context) (e : Event) : String :=
  toString time ++ " " ++ e.kind ++ " dataset=" ++ c.dataset ++ " source_type=" ++ c.sourceType ++
    e.details

theorem recordAt_eq (time : Nat) (c : Context) (e : Event) :
    recordAt time c e = toString time ++ " " ++ e.logLine c := by
  rw [Event.logLine_eq]
  simp only [recordAt, String.append_assoc]

/-- The lines of a text; behind a newline at its end there is one more, which is empty. -/
def lines (text : String) : List String := (text.toList.splitOn '\n').map String.ofList

/-- Records in a file, each with a newline behind it. -/
def written (records : List String) : String := String.join (records.map (· ++ "\n"))

/-- The pieces of what is written are the pieces of the records. -/
theorem lines_written (records : List String) :
    lines (written records) = records.flatMap lines ++ [""] := by
  induction records with
  | nil => rfl
  | cons record rest ih =>
    have hchars : (written (record :: rest)).toList =
        record.toList ++ '\n' :: (written rest).toList := by
      simp [written, String.toList_join]
    rw [lines, hchars, List.splitOn_append_cons_self, List.map_append, List.flatMap_cons,
      List.append_assoc, ← ih]
    rfl

/-- No piece between newlines has one in it. -/
theorem not_mem_of_mem_splitOn {c : Char} {piece : List Char} :
    ∀ {cs : List Char}, piece ∈ cs.splitOn c → c ∉ piece
  | [], h => by
    rw [List.splitOn_nil, List.mem_singleton] at h
    rw [h]
    exact List.not_mem_nil
  | x :: cs, h => by
    rw [List.splitOn_cons_eq_if_modifyHead] at h
    split at h
    · rcases List.mem_cons.mp h with rfl | h
      · exact List.not_mem_nil
      · exact not_mem_of_mem_splitOn h
    · rename_i hx
      have hne : cs.splitOn c ≠ [] := List.splitOn_ne_nil c cs
      obtain ⟨first, rest, hsplit⟩ := List.exists_cons_of_ne_nil hne
      rw [hsplit, List.modifyHead_cons] at h
      rcases List.mem_cons.mp h with rfl | h
      · have hfirst : c ∉ first := not_mem_of_mem_splitOn (hsplit ▸ List.mem_cons_self)
        rw [List.mem_cons, not_or]
        exact ⟨fun heq => hx (beq_iff_eq.mpr heq.symm), hfirst⟩
      · exact not_mem_of_mem_splitOn (hsplit ▸ List.mem_cons_of_mem _ h)

/-- **What is written stands on one line a record if there is no newline in any, and only then.** -/
theorem lines_written_eq_iff {records : List String} :
    lines (written records) = records ++ [""] ↔ ∀ record ∈ records, '\n' ∉ record.toList := by
  rw [lines_written, List.append_cancel_right_eq]
  constructor
  · intro h record hrecord
    rw [← h] at hrecord
    obtain ⟨whole, -, hpiece⟩ := List.mem_flatMap.mp hrecord
    obtain ⟨piece, hsplit, rfl⟩ := List.mem_map.mp hpiece
    rw [String.toList_ofList]
    exact not_mem_of_mem_splitOn hsplit
  · intro h
    have hone : ∀ record ∈ records, lines record = [record] := by
      intro record hrecord
      rw [lines, List.splitOn_eq_singleton (h record hrecord), List.map_singleton,
        String.ofList_toList]
    rw [List.flatMap_congr hone, List.flatMap_singleton']

/-- Where each member of a list stands for one of another list, what holds of all of the one holds
of all of the other. -/
theorem forall_mem_iff_of_forall₂ {α β : Type} {R : α → β → Prop} {P : α → Prop} {Q : β → Prop}
    {as : List α} {bs : List β} (h : List.Forall₂ R as bs)
    (hiff : ∀ a ∈ as, ∀ b, R a b → (Q b ↔ P a)) : (∀ b ∈ bs, Q b) ↔ ∀ a ∈ as, P a := by
  induction h with
  | nil =>
    constructor
    · intro _ a ha
      cases ha
    · intro _ b hb
      cases hb
  | @cons a b as bs hab _ ih =>
    rw [List.forall_mem_cons, List.forall_mem_cons, hiff a List.mem_cons_self b hab,
      ih fun a' ha' => hiff a' (List.mem_cons_of_mem a ha')]

/-! ## Newlines in records -/

/-- A digest is written in hexadecimal. -/
theorem newline_not_mem_digest {hash : Int64} {s : String} (h : Digest.ofHash hash = .ok s) :
    '\n' ∉ s.toList := by
  have hdigit : ∀ n < 16, Text.hexDigit n ≠ '\n' := by decide
  have hbytes : ∀ bytes : List UInt8, '\n' ∉ Text.hex bytes := by
    intro bytes hmem
    obtain ⟨b, -, hb⟩ := List.mem_flatMap.mp hmem
    have hlt : b.toNat < 256 := b.toNat_lt
    rcases List.mem_pair.mp hb with heq | heq
    · exact hdigit (b.toNat / 16) (by omega) heq.symm
    · exact hdigit (b.toNat % 16) (by omega) heq.symm
  cases h
  rw [String.toList_ofList]
  exact fun hmem => hbytes _ (List.mem_of_mem_take hmem)

theorem newline_not_mem_typeName (source : Source) : '\n' ∉ source.typeName.toList := by
  cases source with
  | table _ => exact (by decide : '\n' ∉ "table".toList)
  | versioned _ => exact (by decide : '\n' ∉ "versioned_table".toList)

/-- There is no newline in a record but those in the words that others have chosen. -/
theorem newline_not_mem_recordAt_iff {time : Nat} {c : Context} {e : Event}
    (hsource : '\n' ∉ c.sourceType.toList) (hdigest : ∀ s, e = .digest s → '\n' ∉ s.toList) :
    '\n' ∉ (recordAt time c e).toList ↔ ∀ word ∈ e.words c, '\n' ∉ word.toList := by
  have hdigits (n : Nat) : '\n' ∉ Nat.toDigits 10 n := Decimal.not_mem_toDigits rfl n
  cases e with
  | digest s =>
    have hs := hdigest s rfl
    simp [recordAt, Event.kind, Event.details, Event.words, hdigits, hsource, hs]
  | profile p =>
    have hcount : '\n' ∉ (toString p.approxCount).toList := by
      rw [show toString p.approxCount = toString p.approxCount.toNat from rfl,
        Decimal.toList_toString]
      exact hdigits p.approxCount.toNat
    simp [recordAt, Event.kind, Event.details, Event.words, hdigits, hsource, hcount]
  | materialized rows columns limit =>
    simp [recordAt, Event.kind, Event.details, Event.words, hdigits, hsource]
  | schemaDegraded f =>
    simp [recordAt, Event.kind, Event.details, Event.words, hdigits, hsource]

/-! ## Writing -/

/-- The line that is written in an exchange, with the path of its file. -/
def Exchange.line? : Exchange F → Option (String × String)
  | ⟨.appendLine path line, _⟩ => some (path, line)
  | _ => none

/-- The lines that are written in a course, with the paths of their files. -/
def linesIn (said : List (Exchange F)) : List (String × String) := said.filterMap Exchange.line?

theorem linesIn_append (first second : List (Exchange F)) :
    linesIn (first ++ second) = linesIn first ++ linesIn second :=
  List.filterMap_append ..

/-- Nobody writes but observers. -/
theorem linesIn_reports (said : List (Exchange F)) : linesIn (reports said) = linesIn said := by
  rw [linesIn, reports, List.filterMap_filter]
  refine List.filterMap_congr ?_
  rintro ⟨q, r⟩ -
  cases q with
  | note n => cases n <;> rfl
  | _ => rfl

/-- The line is a record of the event, for the file with this path. -/
def IsRecord (x : String × Context × Event) (line : String × String) : Prop :=
  line.1 = x.1 ∧ ∃ time, line.2 = recordAt time x.2.1 x.2.2

namespace Observer

/-- The path of the file that a leaf writes to. -/
def path? : Observer → Option String
  | .file path => some path
  | _ => none

/-- The paths of the files that a nest writes to, from left to right. -/
def paths (o : Observer) : List String := o.leaves.filterMap path?

mutual

/-- **A nest writes one record to each of its files.** -/
theorem lines_of_notify {c : Context} {e : Event} {said : List (Exchange F)} :
    ∀ {o : Observer}, Runs (o.notify c e) said () →
      List.Forall₂ IsRecord ((o.leaves.filterMap path?).map fun path => (path, c, e)) (linesIn said)
  | .recorder _, h => by
    rw [runs_single.mp h]
    exact .nil
  | .silent, h => by
    rw [(runs_pure.mp h).1]
    exact .nil
  | .tracing, h => by
    rw [runs_single.mp h]
    exact .nil
  | .file _, h => by
    obtain ⟨time, rest, rfl, hline⟩ := runs_ask_bind.mp h
    rw [runs_single.mp hline]
    exact .cons ⟨rfl, time, (recordAt_eq time c e).symm⟩ .nil
  | .composite _, h => lines_of_notifyAll h

theorem lines_of_notifyAll {c : Context} {e : Event} {said : List (Exchange F)} :
    ∀ {os : List Observer}, Runs (notifyAll c e os) said () →
      List.Forall₂ IsRecord (((leavesOfAll os).filterMap path?).map fun path => (path, c, e))
        (linesIn said)
  | [], h => by
    rw [(runs_pure.mp h).1]
    exact .nil
  | _ :: _, h => by
    obtain ⟨now, ⟨⟩, later, rfl, ho, hrest⟩ := runs_bind.mp h
    rw [leavesOfAll, List.filterMap_append, List.map_append, linesIn_append]
    exact List.rel_append (lines_of_notify ho) (lines_of_notifyAll hrest)

end

end Observer

namespace Dataset

/-- The paths of the files that the observer of a dataset writes to. -/
def logPaths (d : Dataset F) : List String := (watchers d.options.observer).filterMap Observer.path?

/-- What the observer of a dataset has to write of an event. -/
def dues (d : Dataset F) (e : Event) : List (String × Context × Event) :=
  d.logPaths.map fun path => (path, d.context, e)

theorem SameAs.dues {d d' : Dataset F} (h : d.SameAs d') : d'.dues = d.dues := by
  funext e
  rw [Dataset.dues, Dataset.dues, logPaths, logPaths, context, context, h.options, h.name, h.source]

variable {d : Dataset F}

theorem lines_of_emit {e : Event} {said : List (Exchange F)} (h : Runs (d.emit e) said ()) :
    List.Forall₂ IsRecord (d.dues e) (linesIn said) := by
  rw [emit] at h
  rw [dues, logPaths]
  cases ho : d.options.observer with
  | none =>
    rw [ho] at h
    rw [(runs_pure.mp h).1]
    exact .nil
  | some o =>
    rw [ho] at h
    exact Observer.lines_of_notify h

theorem lines_of_emitAll :
    ∀ {events : List Event} {said : List (Exchange F)}, Runs (d.emitAll events) said () →
      List.Forall₂ IsRecord (events.flatMap d.dues) (linesIn said)
  | [], said, h => by
    rw [(runs_pure.mp h).1]
    exact .nil
  | e :: rest, said, h => by
    obtain ⟨now, ⟨⟩, later, rfl, he, hrest⟩ := runs_bind.mp h
    rw [List.flatMap_cons, linesIn_append]
    exact List.rel_append (lines_of_emit he) (lines_of_emitAll hrest)

/-- **In a turn, what has happened is written.** -/
theorem lines_of_turn {t : Turn F} (h : t.Of d) :
    List.Forall₂ IsRecord ((happened t.said).flatMap d.dues) (linesIn t.said) := by
  rw [← linesIn_reports]
  exact lines_of_emitAll (turn_faithful h).told

/-! ## Several datasets -/

variable {ι : Type}

/-- Several datasets take turns, in any order. -/
inductive TakesAmong [DecidableEq ι] : (ι → Dataset F) → List (ι × Turn F) → Prop
  | nil {ds : ι → Dataset F} : TakesAmong ds []
  | cons {ds : ι → Dataset F} {i : ι} {t : Turn F} {rest : List (ι × Turn F)} (h : t.Of (ds i))
      (hrest : TakesAmong (Function.update ds i t.after) rest) : TakesAmong ds ((i, t) :: rest)

/-- What has happened in the turns of several datasets, in order, each with its dataset. -/
def happenedAmong (turns : List (ι × Turn F)) : List (ι × Event) :=
  turns.flatMap fun x => (happened x.2.said).map fun e => (x.1, e)

/-- All that is said in some turns. -/
def saidAmong (turns : List (ι × Turn F)) : List (Exchange F) := turns.flatMap fun x => x.2.said

/-- Each of the turns is one that its dataset can take, whatever it remembers by then. -/
theorem TakesAmong.turns [DecidableEq ι] {ds : ι → Dataset F} {turns : List (ι × Turn F)}
    (h : TakesAmong ds turns) : ∀ x ∈ turns, ∃ d, (ds x.1).SameAs d ∧ x.2.Of d := by
  induction h with
  | nil => exact fun _ hx => absurd hx List.not_mem_nil
  | @cons ds i t rest ht hrest ih =>
    intro x hx
    rcases List.mem_cons.mp hx with rfl | hx
    · exact ⟨ds i, .refl _, ht⟩
    · obtain ⟨d, hsame, hof⟩ := ih x hx
      refine ⟨d, ?_, hof⟩
      by_cases hi : x.1 = i
      · rw [hi, Function.update_self] at hsame
        rw [hi]
        exact (turn_sameAs ht).trans hsame
      · rwa [Function.update_of_ne hi] at hsame

/-- In the turns of several datasets, what has happened is written. -/
theorem lines_of_turns {ds : ι → Dataset F} {turns : List (ι × Turn F)}
    (h : ∀ x ∈ turns, ∃ d, (ds x.1).SameAs d ∧ x.2.Of d) :
    List.Forall₂ IsRecord ((happenedAmong turns).flatMap fun x => (ds x.1).dues x.2)
      (linesIn (saidAmong turns)) := by
  induction turns with
  | nil => exact .nil
  | cons x rest ih =>
    obtain ⟨d, hsame, hof⟩ := h x List.mem_cons_self
    have hfirst := lines_of_turn hof
    rw [hsame.dues] at hfirst
    have hrest := ih fun y hy => h y (List.mem_cons_of_mem x hy)
    rw [happenedAmong, List.flatMap_cons, List.flatMap_append, List.flatMap_map, saidAmong,
      List.flatMap_cons, linesIn_append]
    exact List.rel_append hfirst hrest

/-- A digest that is told of is made from a hash. -/
theorem digest_of_turns {ds : ι → Dataset F} {turns : List (ι × Turn F)}
    (h : ∀ x ∈ turns, ∃ d, (ds x.1).SameAs d ∧ x.2.Of d) :
    ∀ x ∈ happenedAmong turns, ∀ s, x.2 = .digest s → ∃ hash, Digest.ofHash hash = .ok s := by
  intro x hx s hs
  obtain ⟨y, hy, he⟩ := List.mem_flatMap.mp hx
  obtain ⟨e, hmem, rfl⟩ := List.mem_map.mp he
  obtain ⟨d, -, hof⟩ := h y hy
  exact (turn_faithful hof).digests s (hs ▸ hmem)

end Dataset

/-! ## The file -/

namespace FileTree

/-- The path leads to these names. -/
def leadsTo (t : FileTree) (key : FileKey) (path : String) : Bool := t.locate path = .ok key

/-- Writes lines to the ends of files, one after the other, each with a newline behind it. -/
def writeLines (t : FileTree) (lines : List (String × String)) : FileTree :=
  lines.foldl (fun t line => t.append line.1 (line.2 ++ "\n")) t

/-- Every path leads where it led before lines were written. -/
theorem locate_writeLines_iff {key : FileKey} {path : String} :
    ∀ (lines : List (String × String)) (t : FileTree),
      (t.writeLines lines).locate path = .ok key ↔ t.locate path = .ok key
  | [], _ => .rfl
  | line :: rest, t =>
    (locate_writeLines_iff rest (t.append line.1 (line.2 ++ "\n"))).trans locate_append_iff

/-- **A file grows by the lines for it, and by nothing else.** -/
theorem Appendable.writeLines {key : FileKey} :
    ∀ (lines : List (String × String)) {t : FileTree} {old : String}, t.Appendable key old →
      (t.writeLines lines).Appendable key
        (old ++ written ((lines.filter fun line => t.leadsTo key line.1).map Prod.snd))
  | [], t, old, h => by
    rw [List.filter_nil, List.map_nil, written, List.map_nil, String.join_nil, String.append_empty]
    exact h
  | line :: rest, t, old, h => by
    have hleads : (t.append line.1 (line.2 ++ "\n")).leadsTo key = t.leadsTo key :=
      funext fun path => decide_eq_decide.mpr locate_append_iff
    by_cases hp : t.locate line.1 = .ok key
    · have hgrown := Appendable.writeLines rest (h.append_here hp (line.2 ++ "\n"))
      rw [hleads] at hgrown
      rw [List.filter_cons_of_pos (by simp [leadsTo, hp]), List.map_cons, written, List.map_cons,
        String.join_cons, ← written, ← String.append_assoc]
      exact hgrown
    · have hgrown := Appendable.writeLines rest (h.append_elsewhere hp (line.2 ++ "\n"))
      rw [hleads] at hgrown
      rw [List.filter_cons_of_neg (by simp [leadsTo, hp])]
      exact hgrown

end FileTree

namespace Session

theorem files_bear : Bears fun s t => t.files = s.files where
  refl _ := rfl
  trans h k := k.trans h
  record _ _ := rfl
  seen _ _ := rfl
  script _ _ _ := rfl
  fresh _ := rfl

theorem answer_files (q : Question Frame) (s : State) :
    (answer q s).2.files = s.files.writeLines (linesIn [⟨q, (answer q s).1⟩]) := by
  cases q with
  | appendLine path line => rfl
  | _ => exact (files_bear.answer _ s).resolve_right nofun

/-- **In a session, dialogues change the files by the lines that are written and by nothing else.** -/
theorem files_run {α : Type} (d : Dialogue Frame α) (s : State) :
    ∃ said, Runs d said (s.run d).1 ∧ (s.run d).2.files = s.files.writeLines (linesIn said) := by
  show ∃ said, Runs d said (d.run answer s).1 ∧ (d.run answer s).2.files = _
  induction d generalizing s with
  | done a => exact ⟨[], .done a, rfl⟩
  | ask q next ih =>
    obtain ⟨said, hruns, hfiles⟩ := ih (answer q s).1 (answer q s).2
    refine ⟨⟨q, (answer q s).1⟩ :: said, .ask _ hruns, ?_⟩
    rw [answer_files] at hfiles
    have hsplit := linesIn_append [⟨q, (answer q s).1⟩] said
    rw [List.singleton_append] at hsplit
    rw [hsplit, FileTree.writeLines, List.foldl_append]
    exact hfiles

end Session

namespace Dataset

variable {ι : Type} [DecidableEq ι]

/-- What has to stand in a file of what has happened: each event with its dataset, once for each
place in the dataset's observer that writes to the file. -/
def entries (ds : ι → Dataset F) (t : FileTree) (key : FileKey) (turns : List (ι × Turn F)) :
    List (Context × Event) :=
  (happenedAmong turns).flatMap fun x =>
    List.replicate ((ds x.1).logPaths.countP (t.leadsTo key)) ((ds x.1).context, x.2)

/-- One file has to be given an event once for each place that writes to it. -/
theorem dues_of_file (d : Dataset F) (e : Event) (leads : String → Bool) :
    ((d.dues e).filter fun due => leads due.1).map Prod.snd =
      List.replicate (d.logPaths.countP leads) (d.context, e) := by
  rw [dues, List.filter_map, List.map_map, List.countP_eq_length_filter]
  exact List.map_const' ..

/-- There is no newline in what the program itself has to say of an event. -/
theorem newline_not_mem_of_entries {ds : ι → Dataset F} {turns : List (ι × Turn F)} {t : FileTree}
    {key : FileKey} (h : TakesAmong ds turns) :
    ∀ x ∈ entries ds t key turns, '\n' ∉ x.1.sourceType.toList ∧
      ∀ s, x.2 = .digest s → '\n' ∉ s.toList := by
  intro x hx
  obtain ⟨y, hy, hrep⟩ := List.mem_flatMap.mp hx
  obtain ⟨-, rfl⟩ := List.mem_replicate.mp hrep
  refine ⟨newline_not_mem_typeName (ds y.1).source, fun s hs => ?_⟩
  obtain ⟨hash, hdigest⟩ := digest_of_turns h.turns y hy s hs
  exact newline_not_mem_digest hdigest

/-- **The log of datasets.**  Any number of datasets take turns, whatever frames and inferrers
answer, and a file can be written.  It keeps what it held, and gains one record for each event and
each place in the dataset's observer that writes to it, in the order of the events: the time, the
kind of the event, the dataset and the details, and a newline.  What it gains stands on one line a
record if there is no newline in the names of the datasets and in the wordings of the failures, and
only then. -/
theorem log_lines (ds : ι → Dataset F) (turns : List (ι × Turn F)) (t : FileTree) (path : String)
    (key : FileKey) (old : String) (hturns : TakesAmong ds turns)
    (hpath : t.locate path = .ok key) (hopen : t.Appendable key old) :
    ∃ records : List String,
      ((t.writeLines (linesIn (saidAmong turns))).text? path).getD "" = old ++ written records ∧
      (t.writeLines (linesIn (saidAmong turns))).Appendable key (old ++ written records) ∧
      List.Forall₂ (fun x record => ∃ time, record = recordAt time x.1 x.2)
        (entries ds t key turns) records ∧
      (lines (written records) = records ++ [""] ↔
        ∀ x ∈ entries ds t key turns, ∀ word ∈ x.2.words x.1, '\n' ∉ word.toList) := by
  have hall := lines_of_turns hturns.turns
  have hfile : List.Forall₂ IsRecord
      (((happenedAmong turns).flatMap fun x => (ds x.1).dues x.2).filter fun due =>
        t.leadsTo key due.1)
      ((linesIn (saidAmong turns)).filter fun line => t.leadsTo key line.1) :=
    List.rel_filter (fun due line h => iff_of_eq (congrArg (t.leadsTo key · = true) h.1.symm)) hall
  have hdues : (((happenedAmong turns).flatMap fun x => (ds x.1).dues x.2).filter fun due =>
      t.leadsTo key due.1).map Prod.snd = entries ds t key turns := by
    rw [List.filter_flatMap, List.map_flatMap]
    exact congrArg ((happenedAmong turns).flatMap ·) (funext fun x => dues_of_file ..)
  have hrecords : List.Forall₂ (fun x record => ∃ time, record = recordAt time x.1 x.2)
      (entries ds t key turns)
      (((linesIn (saidAmong turns)).filter fun line => t.leadsTo key line.1).map Prod.snd) := by
    rw [← hdues, List.forall₂_map_left_iff, List.forall₂_map_right_iff]
    exact hfile.imp fun _ _ h => h.2
  have hgrown := FileTree.Appendable.writeLines (linesIn (saidAmong turns)) hopen
  refine ⟨_, hgrown.text? ((FileTree.locate_writeLines_iff _ t).mpr hpath), hgrown, hrecords, ?_⟩
  rw [lines_written_eq_iff]
  exact forall_mem_iff_of_forall₂ hrecords fun x hx record hrecord => by
    obtain ⟨hsource, hdigest⟩ := newline_not_mem_of_entries hturns x hx
    obtain ⟨time, rfl⟩ := hrecord
    exact newline_not_mem_recordAt_iff hsource hdigest

/-- A dataset over a stand-in for a frame, watched by a recorder and a log. -/
def kept (name : String) : Dataset Unit :=
  fresh () (.table (.tableName "t")) ⟨none, some name, none⟩
    { DatasetOptions.standard with observer := some (.composite [.recorder "r", .file "log"]) }

/-- Its rows are counted, at the time 7. -/
def countedOnce (name : String) : List (Unit × Turn Unit) :=
  [((), ⟨.profile,
    [⟨.countRows () (kept name).options.timeout (kept name).options.confidence, .ok 3⟩,
     ⟨.deliver "r" (kept name).context (.profile ⟨3⟩), ()⟩, ⟨.now, (7 : Nat)⟩,
     ⟨.appendLine "log" (toString 7 ++ " " ++ (Event.profile ⟨3⟩).logLine (kept name).context), ()⟩],
    .profile (.ok ⟨3⟩), kept name⟩)]

theorem takesAmong_countedOnce (name : String) :
    TakesAmong (fun _ => kept name) (countedOnce name) := by
  have htold : Runs ((kept name).emit (.profile ⟨3⟩))
      [⟨.deliver "r" (kept name).context (.profile ⟨3⟩), ()⟩, ⟨.now, (7 : Nat)⟩,
       ⟨.appendLine "log" (toString 7 ++ " " ++ (Event.profile ⟨3⟩).logLine (kept name).context), ()⟩]
      () := by
    refine runs_bind.mpr ⟨[_], (), _, rfl, runs_single.mpr rfl, ?_⟩
    refine runs_bind.mpr ⟨[_, _], (), [], rfl, ?_, .done ()⟩
    exact runs_ask_bind.mpr ⟨(7 : Nat), _, rfl, runs_single.mpr rfl⟩
  have hcounted : Runs (profile (kept name)) _ (.ok ⟨3⟩, kept name) :=
    runs_profile.mpr ⟨.counted htold, rfl⟩
  exact .cons (runs_mapView.mpr ⟨_, hcounted, rfl⟩) .nil

theorem locate_log : FileTree.empty.locate "log" = .ok ["log"] := by decide +kernel

theorem appendable_log : FileTree.empty.Appendable ["log"] "" := .inr ⟨rfl, rfl, rfl⟩

theorem entries_countedOnce (name : String) :
    entries (fun _ => kept name) FileTree.empty ["log"] (countedOnce name) =
      [((kept name).context, .profile ⟨3⟩)] := by
  have hleads : FileTree.empty.leadsTo ["log"] "log" = true := decide_eq_true locate_log
  have hpaths : (kept name).logPaths = ["log"] := rfl
  have hhappened : happenedAmong (countedOnce name) = [((), .profile ⟨3⟩)] := rfl
  rw [entries, hhappened, List.flatMap_singleton, hpaths, List.countP_singleton, if_pos hleads]
  rfl

/-- The record of a single event is a line of the log. -/
theorem log_of_one_event :
    TakesAmong (fun _ => kept "a") (countedOnce "a") ∧
      FileTree.empty.locate "log" = .ok ["log"] ∧ FileTree.empty.Appendable ["log"] "" ∧
      ∃ record time,
        ((FileTree.empty.writeLines (linesIn (saidAmong (countedOnce "a")))).text? "log").getD "" =
          written [record] ∧
        record = recordAt time (kept "a").context (.profile ⟨3⟩) ∧
        lines (written [record]) = [record, ""] := by
  obtain ⟨records, htext, -, hrecords, hlines⟩ := log_lines (fun _ => kept "a") (countedOnce "a")
    FileTree.empty "log" ["log"] "" (takesAmong_countedOnce "a") locate_log appendable_log
  rw [entries_countedOnce] at hrecords hlines
  obtain ⟨record, rest, ⟨time, htime⟩, hrest, rfl⟩ := List.forall₂_cons_left_iff.mp hrecords
  obtain rfl := List.forall₂_nil_left_iff.mp hrest
  refine ⟨takesAmong_countedOnce "a", locate_log, appendable_log, record, time, ?_, htime, ?_⟩
  · rw [htext, String.empty_append]
  · refine hlines.mpr fun x hx word hword => ?_
    obtain rfl := List.mem_singleton.mp hx
    obtain rfl : word = "a" := List.mem_singleton.mp hword
    decide

/-- A newline in the name of a dataset breaks the record of its only event in two lines, of which
the second begins with no time. -/
theorem newline_in_name_breaks_record :
    TakesAmong (fun _ => kept "a\nb") (countedOnce "a\nb") ∧
      FileTree.empty.locate "log" = .ok ["log"] ∧ FileTree.empty.Appendable ["log"] "" ∧
      entries (fun _ => kept "a\nb") FileTree.empty ["log"] (countedOnce "a\nb") =
        [((kept "a\nb").context, .profile ⟨3⟩)] ∧
      ((FileTree.empty.writeLines (linesIn (saidAmong (countedOnce "a\nb")))).text? "log").map lines =
        some ["7 profile dataset=a", "b source_type=table approx_count=3", ""] :=
  ⟨takesAmong_countedOnce _, locate_log, appendable_log, entries_countedOnce _, by decide +kernel⟩

end Dataset
end Lineage
