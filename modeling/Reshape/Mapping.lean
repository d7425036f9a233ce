import Reshape.Entry
import Reshape.Journal

/-!
# Mappings

A mapping is an object whose keys are target paths and whose values are entries. `mapRecord` goes
through the entries in order: it evaluates an entry, and writes the cell that it comes to, if there
is one, to its target. What a path reads is copied first, but the cell that a transform answers with
is written as it is, so that later targets can lead into nodes of the record, of other parts of the
output, or of what a transform keeps. A transform that is unknown or fails costs its entry and gives
a warning. What stops a record (`Stop`) leaves the store as it is by then. `mapInput` maps a list
record by record, in order or on a pool of workers.
-/

namespace Reshape

/-- An entry was left out because its transform could not run. -/
structure Warning where
  target : Text
  name : Value
  message : Text
  deriving DecidableEq

def Warning.text (w : Warning) : Text :=
  w.target ++ ": " ++ w.message

/-- What one entry came to. -/
structure Evaluation where
  target : Text
  value : Option Cell := none
  warning : Option Warning := none
  deriving DecidableEq

namespace Directive

/-- What is said of a transform that is not there. -/
def unknownMessage (room : Nat) (d : Directive) : Except TextError Text :=
  return "Unknown transform: " ++ (← d.name.display room)

def failedMessage (room : Nat) (d : Directive) (e : TransformError) : Except TextError Text :=
  return "Transform " ++ (← d.name.display room) ++ " failed: " ++ (← e.text room)

/-- What a directive comes to that has no answer but a message. -/
def warn (d : Directive) (target : Text) (message : Except TextError Text) : Run Evaluation := do
  let message ← Run.ofExcept .unshown message
  return { target, warning := some { target, name := d.name, message } }

/-- The arguments of a call: what is not there is passed as `null`. -/
def arguments (room : Nat) (record : Cell) (d : Directive) : Run (List Cell) :=
  d.args.mapM fun s => return (← s.resolve room record).getD (.scalar .null)

/-- Arguments are looked up only for a transform that is registered. -/
def evaluate (room : Nat) (registry : Registry) (record : Cell) (target : Text) (d : Directive) :
    Run Evaluation :=
  match registry.lookup d.name with
  | none => d.warn target (d.unknownMessage room)
  | some found => do
    let args ← d.arguments (room - 3) record
    match ← Run.call found room args with
    | .value value => return { target, value }
    | .failed e => d.warn target (d.failedMessage room e)
    | .aborted => throw .aborted

end Directive

/-- The cell that a source is written as: what is read is copied. -/
def Source.produce (room : Nat) (record : Cell) : Source → Run (Option Cell)
  | .path text => do
    match ← Run.read record text with
    | some c => return some (← Run.copy room c)
    | none => return none
  | s => s.resolve (room - 2) record

def Entry.evaluate (room : Nat) (registry : Registry) (record : Cell) (target : Text) :
    Entry → Run Evaluation
  | source s => return { target, value := ← s.produce room record }
  | directive d => d.evaluate (room - 1) registry record target

/-- Evaluates one member of a mapping. -/
def evaluateMember (room : Nat) (registry : Registry) (record : Cell) (member : Text × Value) :
    Run Evaluation :=
  (Entry.ofValue member.2).evaluate room registry record member.1

/-! ### Records -/

/-- How far the mapping of a record has come: what has been written, and what the entries came to.
-/
structure Progress where
  canvas : Canvas
  evaluations : List Evaluation := []

namespace Progress

/-- A record on which nothing has been done yet. -/
def ofStore (s : Store) : Progress :=
  { canvas := { store := s } }

/-- Writes what an entry came to. -/
def add (p : Progress) (s : Store) (e : Evaluation) : Progress where
  canvas := { p.canvas with store := s }.writeOptional e.target e.value
  evaluations := p.evaluations ++ [e]

/-- Goes through members of a mapping, up to the first that stops the record. -/
def run (room : Nat) (registry : Registry) (record : Cell) (p : Progress) :
    Members → Option Stop × Progress
  | [] => (none, p)
  | member :: rest =>
    match (evaluateMember room registry record member).within p.canvas.store with
    | (.error stop, s) => (some stop, { p with canvas := { p.canvas with store := s } })
    | (.ok e, s) => run room registry record (p.add s e) rest

end Progress

/-- What an entry notes down. -/
def Evaluation.journal (e : Evaluation) : Journal :=
  match e.warning, e.value with
  | some w, _ => [⟨.warning, "[record-mapper] " ++ w.message⟩]
  | none, some _ => [⟨.debug, "Writing value at " ++ e.target⟩]
  | none, none => []

/-- What a mapping comes to, and all that it leaves. -/
structure Outcome (α : Type) where
  result : Except Stop α
  store : Store
  journal : Journal

/-- The output of a mapping, with the warnings in the order of the entries. -/
structure Mapped where
  output : Cell
  warnings : List Warning
  deriving DecidableEq

/-- `room` is how many calls fit where a record is mapped. -/
def mapRecord (room : Nat) (registry : Registry) (mapping : Members) (record : Cell) (s : Store) :
    Outcome Mapped :=
  let (stopped, p) := (Progress.ofStore s).run room registry record mapping
  let journal := p.evaluations.flatMap Evaluation.journal
  match stopped with
  | some stop => { result := .error stop, store := p.canvas.store, journal }
  | none =>
    { result := .ok { output := .ref p.canvas.store.size
                      warnings := p.evaluations.filterMap (·.warning) }
      store := p.canvas.store.push (.obj p.canvas.members)
      journal }

/-! ### Lists of records -/

/-- For a number of records, the positions that the workers of a pool take before they are waited
for, in the order in which they finish. -/
abbrev Schedule := Nat → List Nat

/-- Where a pool of workers maps, and how they happen to finish. -/
structure Workers where
  /-- How many calls fit where a worker maps a record. -/
  room : Nat
  schedule : Schedule

/-- What records have come to by now, under their positions. -/
structure Batch where
  finished : Keyed Nat (Except Stop Mapped) := []
  store : Store
  journal : Journal := []

namespace Batch

variable (work : Cell → Store → Outcome Mapped)

/-- What a record comes to, which is mapped once. -/
def take (p : Batch) (position : Nat) (record : Cell) : Except Stop Mapped × Batch :=
  match Keyed.get? p.finished position with
  | some result => (result, p)
  | none =>
    let o := work record p.store
    (o.result, { finished := Keyed.put p.finished position o.result, store := o.store,
                 journal := p.journal ++ o.journal })

/-- A worker takes the record at a position, if there is one. -/
def takeAt (records : List Cell) (p : Batch) (position : Nat) : Batch :=
  match records[position]? with
  | some record => (p.take work position record).2
  | none => p

/-- What the records from a position on come to, up to the first that is stopped. -/
def gather (position : Nat) (p : Batch) :
    List Cell → Except Stop (List Mapped) × Batch
  | [] => (.ok [], p)
  | record :: rest =>
    match p.take work position record with
    | (.error stop, p) => (.error stop, p)
    | (.ok m, p) =>
      let (more, p) := gather (position + 1) p rest
      (more.map (m :: ·), p)

end Batch

/-- Maps records, of which some are taken first in this order. -/
def mapRecords (work : Cell → Store → Outcome Mapped) (order : List Nat) (records : List Cell)
    (s : Store) : Outcome (List Mapped) :=
  let p := order.foldl (Batch.takeAt work records) { store := s }
  let (result, p) := p.gather work 0 records
  { result, store := p.store, journal := p.journal }

/-- A list of records gives the list of their outputs, and their warnings in order. -/
def Outcome.ofRecords (o : Outcome (List Mapped)) : Outcome Mapped :=
  match o.result with
  | .error stop => { o with result := .error stop }
  | .ok records =>
    { o with
      result := .ok { output := .ref o.store.size, warnings := records.flatMap (·.warnings) }
      store := o.store.push (.list (records.map (·.output))) }

/-- What is noted down of a list before its records are mapped. -/
def listJournal (records : List Cell) : Journal :=
  [⟨.debug, s!"Mapping {records.length} records"⟩]

/-- A list is mapped record by record, anything else is one record. `room` is how many calls fit
where the input is mapped. The records of a list are mapped in a loop or by workers. -/
def mapInput (room : Nat) (workers : Option Workers) (registry : Registry) (mapping : Members)
    (input : Cell) (s : Store) : Outcome Mapped :=
  match s.elements? input with
  | none => mapRecord (room - 1) registry mapping input s
  | some records =>
    let (room, order) : Nat × List Nat := match workers with
      | none => (room - 2, [])
      | some w => (w.room, w.schedule records.length)
    let o := (mapRecords (mapRecord room registry mapping) order records s).ofRecords
    { o with journal := listJournal records ++ o.journal }

/-- What a mapping that is no object is refused with. -/
def wrongMapping (mapping : Value) : String :=
  s!"Mapping spec must be a JSON object, got {mapping.typeName}"

end Reshape
