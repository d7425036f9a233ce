import Reshape.Document
import Reshape.Profile
import Reshape.Storage.Workspace
import Reshape.Transform.Country

/-!
# Sessions

A session maps documents, one after the other, with the same settings, and keeps a store, a
workspace, a journal and, if it is told to, a profile. `run` maps what a cell of the store leads to,
`runTexts` reads documents from texts and `runFiles` from files. A session with a pool maps the
records of a list on it.
-/

namespace Reshape

structure Settings where
  registry : Registry := .builtin
  parallel : Bool := false
  workers : Option Int := none
  /-- How many calls fit where an input is mapped. The few that lie between the ways to get there do
  not count. -/
  room : Nat := Json.nestingLimit + 6
  /-- How many calls fit where a worker maps a record. -/
  workerRoom : Nat := Json.nestingLimit + 9
  /-- How the workers of the pool happen to finish. -/
  schedule : Schedule := fun _ => []
  profiling : Bool := false
  /-- How far files are indented, if they are not written on one line. -/
  indent : Option Int := some 2
  gauge : Gauge := {}
  /-- What the clock reads, one time after the other. -/
  clock : Nat → Int := fun n => n + 1

/-- What a run came to. Its output is in the store of the session. -/
inductive Report where
  | mapped (output : Cell) (records : Nat) (warnings : List Warning) (file : Option Text)
  | refused (message : String)
  deriving DecidableEq

def Report.warnings : Report → List Warning
  | mapped _ _ warnings _ => warnings
  | refused _ => []

/-- Why a step came to nothing at all. -/
inductive StepError where
  | stopped (stop : Stop)
  | wrongMapping (message : String)
  | storage (e : StorageError)
  | misnamed (flaw : NameFlaw)
  | indent (e : Json.IndentError)
  | depth (e : Json.DepthError)
  deriving DecidableEq

def StepError.message : StepError → Text
  | stopped stop => stop.message
  | wrongMapping message => message
  | storage e => e.message
  | misnamed flaw => flaw.message
  | indent e => e.message
  | depth e => e.message

def ReadFailure.toStepError : ReadFailure → StepError
  | storage e => .storage e
  | misnamed flaw => .misnamed flaw

def WriteFailure.toStepError : WriteFailure → StepError
  | storage e => .storage e
  | indent e => .indent e
  | depth e => .depth e

structure Session where
  settings : Settings
  /-- Whether a pool of workers is held. -/
  pool : Bool
  profile : Option Profile
  store : Store := {}
  workspace : Workspace
  journal : Journal := []
  /-- How often the clock has been read. -/
  readings : Nat := 0

/-- Where results go when no file is named. -/
def defaultOutput : Text := "output.json"

/-- The number of records in an input. -/
def recordCount (s : Store) (input : Cell) : Nat :=
  match s.elements? input with
  | some records => records.length
  | none => 1

namespace Settings

/-- What is said of a pool without workers. -/
def noWorkers : String := "max_workers must be greater than 0"

/-- A pool needs one worker at least. -/
def canOpen (s : Settings) : Bool :=
  !s.parallel || s.workers.all (0 < ·)

end Settings

namespace Session

/-- A new session, unless its pool would have no workers. -/
def open? (settings : Settings) (workspace : Workspace) : Option Session :=
  if settings.canOpen then
    some { settings, pool := settings.parallel, workspace,
           profile := if settings.profiling then some {} else none }
  else none

def note (s : Session) (lines : Journal) : Session :=
  { s with journal := s.journal ++ lines }

@[simp] theorem settings_note (s : Session) (lines : Journal) :
    (s.note lines).settings = s.settings := rfl

/-- What every run is called in the profile. -/
def operation : Text := "transform"

/-- What the clock reads now. -/
def now (s : Session) : Int :=
  s.settings.clock s.readings

/-- Opens an operation in the profile, if there is one. -/
def start (s : Session) (inputSize : Nat) : Session :=
  match s.profile with
  | none => s
  | some p =>
    { s with profile := some (p.start s.now operation inputSize), readings := s.readings + 1 }.note
      [⟨.debug, "Started profiling: " ++ operation⟩]

/-- Closes the open operation, if there is one. A list has too few records to have no rate or no
text. -/
def finish (s : Session) (outputSize records : Nat) : Session :=
  match s.profile with
  | none => s
  | some p =>
    match p.closable? with
    | none => s
    | some (name, since) =>
      let entry := { name, inputSize := p.inputSize, outputSize, records }
      let g := s.settings.gauge
      let closed := (p.count (s.now - since) entry).idle
      { s with profile := some closed, readings := s.readings + 1 }.note
        [⟨.info, name ++ s!": {records} records in {g.seconds}s" ++
          s!" ({g.recordsPerSecond records}/s), peak {g.peakMegabytes} MB" ++
          s!", CPU {g.processorPercent}%"⟩]

def sample (s : Session) : Session :=
  { s with profile := s.profile.map Profile.sample }

/-- The size of what a cell leads to, which only a profile asks for. -/
def profiledSize (s : Session) (c : Cell) : Except Json.DepthError Nat :=
  if s.profile.isSome then documentSize s.store c else .ok 0

/-- The workers of the pool, if there is one. -/
def workers (s : Session) : Option Workers :=
  if s.pool then some { room := s.settings.workerRoom, schedule := s.settings.schedule } else none

/-- Maps an input, on the pool if there is one. -/
def map (s : Session) (mapping : Members) (input : Cell) : Except Stop Mapped × Session :=
  let o := mapInput s.settings.room s.workers s.settings.registry mapping input s.store
  (o.result, { s with store := o.store }.note o.journal)

/-- Maps an input and gives only its output. -/
def transform (s : Session) (input : Cell) (mapping : Value) : Except StepError Cell × Session :=
  match mapping with
  | .obj ms =>
    match s.map ms input with
    | (.ok mapped, s) => (.ok mapped.output, s)
    | (.error stop, s) => (.error (.stopped stop), s)
  | v => (.error (.wrongMapping (wrongMapping v)), s)

def skipJournal (warnings : List Warning) : Journal :=
  if warnings.isEmpty then []
  else [⟨.info, s!"Mapping finished with {warnings.length} skipped entries"⟩]

/-- Maps an input and reports on it. An operation is profiled even if it is stopped, with
nothing given out. -/
def run (s : Session) (input : Cell) (mapping : Value) : Except StepError Report × Session :=
  match mapping with
  | .obj ms =>
    match s.profiledSize input with
    | .error e => (.error (.depth e), s)
    | .ok inputSize =>
      let records := recordCount s.store input
      match (s.start inputSize).map ms input with
      | (.error stop, s) => (.error (.stopped stop), s.finish 0 0)
      | (.ok mapped, s) =>
        let s := s.sample
        match s.profiledSize mapped.output with
        | .error e => (.error (.depth e), s.finish 0 0)
        | .ok outputSize =>
          (.ok (.mapped mapped.output records mapped.warnings none),
            (s.finish outputSize records).note (skipJournal mapped.warnings))
  | v => (.ok (.refused (wrongMapping v)), s)

/-- A document of its own in the store. -/
def load (s : Session) (v : Value) : Cell × Session :=
  let (c, store) := Reshape.load v s.store
  (c, { s with store })

/-- Reads the two documents and maps the one by the other. A text that gives no document is
reported. -/
def runTexts (s : Session) (input mapping : Text) : Except StepError Report × Session :=
  let s := s.note (inputJournal input)
  match readDocument .input input with
  | .error e => (.ok (.refused e.message), s)
  | .ok value =>
    let s := s.note (mappingJournal (some s.settings.registry) mapping)
    match readMapping (some s.settings.registry) mapping with
    | .error (.document e) => (.ok (.refused e.message), s)
    | .error (.unshown .tooManyDigits) => (.ok (.refused TextError.tooManyDigits.message), s)
    | .error (.unshown .tooDeep) => (.error (.stopped (.unshown .tooDeep)), s)
    | .ok ms =>
      let s := s.note [⟨.debug, s!"Mapping {(RootKind.ofValue value).label} input"⟩]
      let (input, s) := s.load value
      s.run input (.obj ms)

/-- Writes the output of a report to a file, and answers with the name of the file. -/
def save (s : Session) (output : Cell) (name : Text) : Except WriteFailure Text × Session :=
  match s.workspace.writeDrawing name s.settings.indent (Json.cellDrawing s.store output) with
  | (workspace, .error e) => (.error e, { s with workspace })
  | (workspace, .ok size) =>
    (.ok (workspace.absoluteText name),
      { s with workspace }.note
        [⟨.info, s!"Wrote {size} bytes to " ++ (PathName.ofText name).text⟩])

/-- Reads the two documents from files and maps the one by the other. -/
def mapFiles (s : Session) (input mapping : Text) : Except StepError Report × Session :=
  match s.workspace.readText input, s.workspace.readText mapping with
  | .error e, _ => (.error e.toStepError, s)
  | _, .error e => (.error e.toStepError, s)
  | .ok inputText, .ok mappingText => s.runTexts inputText mappingText

/-- Maps two files and writes the output to a third. -/
def runFiles (s : Session) (input mapping output : Text) : Except StepError Report × Session :=
  match s.mapFiles input mapping with
  | (.ok (.mapped value records warnings _), s) =>
    match s.save value output with
    | (.ok file, s) => (.ok (.mapped value records warnings (some file)), s)
    | (.error e, s) => (.error e.toStepError, s)
  | stopped => stopped

/-- Lets the pool go. -/
def close (s : Session) : Session :=
  { s with pool := false }

def summary (s : Session) : Option Summary :=
  s.profile.map Summary.ofProfile

end Session

end Reshape
