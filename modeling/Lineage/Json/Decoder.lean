import Lineage.Json.Document
/-
  Readers of values of a wanted kind.

  A `Decoder` goes through a document in the order of the text and gives the wanted value or the
  first trouble.  It works in one of two modes.  Directly, it meets the parts of the document as
  they come: a part that is not wanted is only skipped, and the depth of the arrays and objects
  it enters is bounded.  Held, the document has been read as a whole before, because something
  further on had to be known first; then there are no faults left to find, and no places.

  Records (`Record`) are put together from their members (`Field`).  A record can be written as
  an object, in any order and with other members between, or as an array in the order of
  declaration.  Alternatives (`alternatives`) are written by their name alone or as an object
  with one member; `tagged` alternatives carry their name in a member beside the others.
-/

namespace Lineage.Json

/-- How a document is gone through. -/
inductive Mode where
  /-- As it comes, with this depth left. -/
  | direct (depth : Nat)
  /-- After it has been read as a whole. -/
  | held

/-- A reader of values of one kind. -/
abbrev Decoder (α : Type) := Mode → Doc → Except Trouble α

namespace Mode

/-- The mode inside an array or object. -/
def inside (start : List Char) : Mode → Except Trouble Mode
  | direct depth => (Doc.deeper start depth).map direct
  | held => .ok held

/-- A complaint; a held document has no places. -/
def complain (m : Mode) (p : Place) (c : Complaint) : Trouble :=
  match m with
  | direct _ => ⟨.complaint c, some p⟩
  | held => ⟨.complaint c, none⟩

/-- Passes over a part that is not wanted. -/
def pass (m : Mode) (d : Doc) : Except Trouble Unit :=
  match m with
  | direct _ => d.skip
  | held => .ok ()

/-- The trouble of finding a part of another kind than the wanted one.  Arrays and objects are
refused at their bracket, everything else after it has been read. -/
def mismatch (m : Mode) (wanted : String) : Doc → Trouble
  | .null _ stop => m.complain (here stop) (.wrongKind .null wanted)
  | .bool _ b stop => m.complain (here stop) (.wrongKind (.boolean b) wanted)
  | .number _ (.ok n) stop => m.complain (here stop) (.wrongKind (.number n) wanted)
  | .number _ (.error t) _ => t
  | .text _ (.ok s) stop => m.complain (here stop) (.wrongKind (.text s) wanted)
  | .text _ (.error t) _ => t
  | .array start _ _ => m.complain (here start) (.wrongKind .array wanted)
  | .object start _ _ => m.complain (here start) (.wrongKind .object wanted)
  | .broken _ read _ => read

end Mode

namespace Decoder

/-! ## Single values -/

/-- The value, changed by a function. -/
def map {α β : Type} (f : α → β) (d : Decoder α) : Decoder β := fun m doc => (d m doc).map f

/-- `null`. -/
def unit : Decoder Unit
  | _, .null _ _ => .ok ()
  | m, d => .error (m.mismatch "unit" d)

/-- `true` or `false`. -/
def bool : Decoder Bool
  | _, .bool _ b _ => .ok b
  | m, d => .error (m.mismatch "a boolean" d)

/-- A text. -/
def text : Decoder String
  | _, .text _ (.ok s) _ => .ok s
  | m, d => .error (m.mismatch "a string" d)

/-- A whole number from zero up, below `2^64`. -/
def natural : Decoder UInt64
  | _, .number _ (.ok (.unsigned n)) _ => .ok n
  | m, .number _ (.ok (.negative n)) stop =>
    .error (m.complain (here stop) (.wrongValue (.number (.negative n)) "u64"))
  | m, d => .error (m.mismatch "u64" d)

/-- The double nearest to a number. -/
def Number.toBinary64 : Number → Binary64
  | .unsigned n => Binary64.ofNat n.toNat
  | .negative n => Binary64.ofInt n.toInt
  | .float x => x

/-- Any number, as a double. -/
def binary64 : Decoder Binary64
  | _, .number _ (.ok n) _ => .ok (Number.toBinary64 n)
  | m, d => .error (m.mismatch "f64" d)

/-- A value, or none for `null`. -/
def option {α : Type} (d : Decoder α) : Decoder (Option α)
  | _, .null _ _ => .ok none
  | m, doc => (d m doc).map some

/-- Every item of an array. -/
def items {α : Type} (d : Decoder α) (m : Mode) : List Doc → Except Trouble (List α)
  | [] => .ok []
  | doc :: rest => do return (← d m doc) :: (← items d m rest)

/-- An array of any length. -/
def list {α : Type} (d : Decoder α) : Decoder (List α)
  | m, .array start docs ending => do
    let as ← items d (← m.inside start) docs
    ending.read
    return as
  | m, doc => .error (m.mismatch "a sequence" doc)

/-- Every member of an object, with its name. -/
def members {α : Type} (d : Decoder α) (m : Mode) :
    List (Key × Doc) → Except Trouble (List (String × α))
  | [] => .ok []
  | (key, doc) :: rest => do
    let name ← key.text
    return (name, ← d m doc) :: (← members d m rest)

end Decoder

/-! ## Records -/

/-- A member of a record. -/
structure Field (α : Type) where
  name : String
  decode : Decoder α
  /-- The value of a member that an object lacks. -/
  absent : Option α
  /-- The value of a member that an array is too short for. -/
  cutOff : Option α

/-- The items of an array that is read as a record: how many have been used, those left, and how
the array ends. -/
structure Seats where
  used : Nat
  left : List Doc
  ending : Ending

/-- A record that is being put together from its members. -/
structure Record (α : Type) where
  /-- The names of the members, each with a check of its value. -/
  fields : List (String × Decoder Unit)
  /-- The record from the members of an object, all of which have been checked; the place is
  where a missing member is noticed. -/
  gather : Mode → Place → (String → Option Doc) → Except Trouble α
  /-- The record from the next items of an array, and the array behind them; the text says what
  was wanted. -/
  seat : Mode → String → Seats → Except Trouble (α × Seats)

/-- The record with a single member. -/
def Field.record {α : Type} (f : Field α) : Record α where
  fields := [(f.name, f.decode.map fun _ => ())]
  gather m p find :=
    match find f.name, f.absent with
    | some doc, _ => f.decode m doc
    | none, some a => .ok a
    | none, none => .error (m.complain p (.memberMissing f.name))
  seat m wanted s :=
    match s.left, s.ending with
    | doc :: rest, _ => do return (← f.decode m doc, { s with used := s.used + 1, left := rest })
    | [], .broken read _ => .error read
    | [], .closed stop =>
      match f.cutOff with
      | some a => .ok (a, s)
      | none => .error (m.complain (here stop) (.wrongLength s.used wanted))

/-- The members of one record behind those of another. -/
def Record.and {α β : Type} (r : Record α) (q : Record β) : Record (α × β) where
  fields := r.fields ++ q.fields
  gather m p find := do return (← r.gather m p find, ← q.gather m p find)
  seat m wanted s := do
    let (a, s) ← r.seat m wanted s
    let (b, s) ← q.seat m wanted s
    return ((a, b), s)

/-- The record, made into another type. -/
def Record.map {α β : Type} (f : α → β) (r : Record α) : Record β where
  fields := r.fields
  gather m p find := (r.gather m p find).map f
  seat m wanted s := (r.seat m wanted s).map fun (a, s) => (f a, s)

/-- Where a repeated member is noticed: in front of what follows its name, unless that ends the
object. -/
def repeatPlace (gap : List Char) : Place :=
  if gap.head? = some '\x7d' then peeked gap else here gap

/-- Checks the members of an object in order.  `seen` are the members of the record that have
come before; any other members are passed over. -/
def checkMembers (m : Mode) (fields : List (String × Decoder Unit)) (seen : List String) :
    List (Key × Doc) → Except Trouble Unit
  | [] => .ok ()
  | (key, doc) :: rest => do
    let name ← key.text
    match fields.lookup name with
    | none => do
      m.pass doc
      checkMembers m fields seen rest
    | some check =>
      if seen.contains name then
        .error (m.complain (repeatPlace key.gap) (.memberRepeated name))
      else do
        check m doc
        checkMembers m fields (name :: seen) rest

/-- The value of the first member with a name. -/
def memberNamed (members : List (Key × Doc)) (name : String) : Option Doc :=
  match members with
  | [] => none
  | (key, doc) :: rest =>
    match key.text with
    | .ok s => if s = name then some doc else memberNamed rest name
    | .error _ => memberNamed rest name

/-- A count with the word for the things counted. -/
def counted (n : Nat) : String := if n = 1 then "1 element" else s!"{n} elements"

/-- The end of an array all of whose wanted items have been used. -/
def Seats.close (s : Seats) : Mode → Except Trouble Unit
  | .held =>
    if s.left.isEmpty then .ok ()
    else .error ⟨.complaint (.wrongLength (s.used + s.left.length)
      (counted s.used ++ " in sequence")), none⟩
  | .direct _ =>
    match s.left, s.ending with
    | doc :: _, _ => .error (Fault.trailingText.troubleAt (peeked doc.start))
    | [], .closed _ => .ok ()
    | [], .broken read _ =>
      match read.problem with
      | .fault .arrayContinuation | .fault .endInValue =>
        .error ⟨.fault .trailingText, read.place⟩
      | _ => .error read

/-- The place behind a bracket that ends an object. -/
def Ending.place : Ending → Place
  | .closed stop => here stop
  | .broken _ _ => here []

/-- Reads a record, called `title` in complaints. -/
def Record.decoder {α : Type} (title : String) (r : Record α) : Decoder α
  | m, .array start items ending => do
    let inner ← m.inside start
    let wanted := title ++ " with " ++ counted r.fields.length
    let (a, rest) ← r.seat inner wanted ⟨0, items, ending⟩
    rest.close m
    return a
  | m, .object start members ending => do
    let inner ← m.inside start
    checkMembers inner r.fields [] members
    ending.read
    r.gather inner ending.place (memberNamed members)
  | m, doc => .error (m.mismatch title doc)

/-! ## Alternatives -/

/-- What goes with the name of an alternative. -/
inductive Payload (α : Type) where
  /-- Nothing. -/
  | bare (a : α)
  /-- A value. -/
  | carrying (d : Decoder α)

/-- What the name of an alternative, or the place where it should be, is called in complaints. -/
def nameOfAlternative : String := "variant identifier"

/-- The alternative with a name. -/
def chosen {β : Type} (m : Mode) (p : Place) (alts : List (String × β)) (name : String) :
    Except Trouble β :=
  match alts.lookup name with
  | some b => .ok b
  | none => .error (m.complain p (.unknownAlternative name (alts.map Prod.fst)))

/-- The value of an alternative written as the member of an object. -/
def Payload.read {α : Type} (payload : Payload α) (m : Mode) (doc : Doc) : Except Trouble α :=
  match payload with
  | bare a => (Decoder.unit m doc).map fun _ => a
  | carrying d => d m doc

/-- Nothing may stand behind the only member of an object that is read directly. -/
def onlyMember (doc : Doc) (more : List (Key × Doc)) (ending : Ending) : Except Trouble Unit :=
  match more, ending, doc.outcome with
  | [], .closed _, _ => .ok ()
  | _, _, .ok stop =>
    match skipBlank stop with
    | [] => .error (Fault.endInObject.troubleAt (here []))
    | after => .error (Fault.valueMissing.troubleAt (here after))
  | _, _, .error (read, _) => .error read

/-- Reads one of several alternatives: its name alone, or an object whose only member it is. -/
def alternatives {α : Type} (alts : List (String × Payload α)) : Decoder α
  | m, .text _ (.ok name) stop => do
    match ← chosen m (here stop) alts name with
    | .bare a => return a
    | .carrying _ => .error (m.complain (here stop) (.wrongKind .bareName "newtype variant"))
  | _, .text _ (.error t) _ => .error t
  | .direct depth, .object start members ending => do
    let inner ← Mode.inside start (.direct depth)
    match members with
    | [] => .error (inner.mismatch nameOfAlternative (Doc.ofChars (start.drop 1)))
    | (key, doc) :: more => do
      let name ← key.text
      let payload ← chosen inner (here key.gap) alts name
      let a ← payload.read inner doc
      onlyMember doc more ending
      return a
  | .held, .object start members _ =>
    match members with
    | [(key, doc)] => do
      let name ← key.text
      let payload ← chosen .held (here key.gap) alts name
      payload.read .held doc
    | _ => .error (Mode.held.complain (here start) (.wrongValue .object "map with a single key"))
  | .held, doc => .error (Mode.held.mismatch "string or map" doc)
  | .direct _, .broken start read _ =>
    if start.isEmpty || start.head? = some '"' then .error read
    else .error (Fault.valueMissing.troubleAt (peeked start))
  | .direct _, doc => .error (Fault.valueMissing.troubleAt (peeked doc.start))

/-- The name of a tagged alternative. -/
def tagName {β : Type} (alts : List (String × β)) : Decoder β
  | m, .text _ (.ok name) stop => chosen m (here stop) alts name
  | m, doc => .error (m.mismatch nameOfAlternative doc)

/-- Sets the member with the tag apart from the others, all of which are read. -/
def splitTag {β : Type} (depth : Nat) (tag : String) (alts : List (String × β)) (found : Option β) :
    List (Key × Doc) → Except Trouble (Option β × List (Key × Doc))
  | [] => .ok (found, [])
  | (key, doc) :: rest => do
    let name ← key.text
    if name = tag then
      match found with
      | some _ => .error ⟨.complaint (.memberRepeated tag), some (repeatPlace key.gap)⟩
      | none => splitTag depth tag alts (some (← tagName alts (.direct depth) doc)) rest
    else
      let _ ← doc.json depth
      let (found, others) ← splitTag depth tag alts found rest
      return (found, (key, doc) :: others)

/-- Reads one of several records, told apart by the member `tag` of the object, or by the first
item of the array.  The rest of it is held until the tag is known. -/
def tagged {α : Type} (title tag : String) (alts : List (String × Decoder α)) (depth : Nat) :
    Doc → Except Trouble α
  | .object start members ending => do
    let inner ← Doc.deeper start depth
    let (found, others) ← splitTag inner tag alts none members
    ending.read
    match found with
    | none => .error ⟨.complaint (.memberMissing tag), some ending.place⟩
    | some d => d .held (.object start others ending)
  | .array start items ending => do
    let inner ← Doc.deeper start depth
    match items with
    | [] => do
      ending.read
      .error ⟨.complaint (.memberMissing tag), some ending.place⟩
    | first :: rest => do
      let d ← tagName alts (.direct inner) first
      let _ ← Doc.jsonItems inner rest
      ending.read
      d .held (.array start rest ending)
  | doc => .error ((Mode.direct depth).mismatch title doc)

/-- The value of a text, read directly. -/
def Decoder.readText {α : Type} (d : Decoder α) (text : String) : Except Error α :=
  readWith (d (.direct Doc.depthLimit)) text

end Lineage.Json
