import Reshape.CommandLine.Arguments
import Reshape.Session

/-!
# The command line

`CommandLine.run` carries out a command line in a workspace: it maps an input file by a mapping
file into an output file, and says how that went on the two output streams. Nothing here touches
the real file system; the workspace left behind is part of the outcome.
-/

namespace Reshape

namespace ControlSequence

def isParameter (c : Char) : Bool :=
  c.isDigit || c == ';' || c == '?'

/-- Whether what follows an escape makes a control sequence of it. -/
def follows : Text → Bool
  | .char '[' :: rest =>
    (rest.dropWhile (Symbol.satisfies isParameter)).head?.any (Symbol.satisfies Char.isAlpha)
  | _ => false

/-- A text without its control sequences, from inside of one or outside. What comes together
where a sequence was left out is not looked at again. -/
def leaveOut : (inside : Bool) → Text → Text
  | _, [] => []
  | true, s :: rest => leaveOut (!s.satisfies Char.isAlpha) rest
  | false, s :: rest =>
    if s = .char '\x1b' ∧ follows rest then leaveOut true rest else s :: leaveOut false rest

end ControlSequence

/-- A text without its control sequences: an escape, a bracket, parameters and a letter, which a
terminal takes for an instruction. -/
def plain (t : Text) : Text :=
  ControlSequence.leaveOut false t

end Reshape

namespace Reshape.CommandLine

/-- What a command leaves behind. An error that is none of storage escapes it. -/
structure Outcome where
  exitCode : Nat
  stdout : Text := []
  stderr : Text := []
  escaped : Option StepError := none
  workspace : Workspace

def programName : String := "main"

def version : String := "1.0.0"

def usageLine : String :=
  s!"Usage: {programName} [OPTIONS] INPUT_FILE MAPPING_FILE [OUTPUT_FILE]\n"

def helpLines : List String :=
  ["",
   "  Transform INPUT_FILE with MAPPING_FILE and write OUTPUT_FILE (default:",
   "  output.json).",
   "",
   "Options:",
   "  --version              Show the version and exit.",
   "  --indent INTEGER       JSON indentation of the output file  [default: 2]",
   "  -w, --workers INTEGER  Map the records of a list input on this many threads",
   "  --profile              Log timing and memory usage",
   "  -v, --verbose          Enable verbose output",
   "  --help                 Show this message and exit."]

def helpText : String :=
  usageLine ++ String.join (helpLines.map (· ++ "\n"))

/-- Whose notes the journal shows. -/
def loggerName : String := "record_mapper.record_mapper"

def showLine (line : Line) : Text :=
  s!"{line.level.label} {loggerName}: " ++ line.message ++ "\n"

def leastLevel (a : Arguments) : Level :=
  if a.verbose then .debug else if a.profile then .info else .error

def showJournal (a : Arguments) (journal : Journal) : Text :=
  (journal.atLeast (leastLevel a)).flatMap showLine

/-- What a name given on the command line leads to. -/
inductive Found where
  | file
  | directory
  | nothing
  deriving DecidableEq, Repr

/-- Names are looked up as they were given, so that a slash at the end asks for a directory. -/
def find (w : Workspace) (name : Text) : Found :=
  let here := FileTree.startingAt w.home (.ofText name)
  if name = [] ∨ FileTree.maxName ≤ nameSize name then .nothing
  else match w.tree.resolve here (PathName.rawSteps name) with
    | .error _ => .nothing
    | .ok place => match w.tree.get? place with
      | some (.file _) => .file
      | some .directory => .directory
      | none => .nothing

/-- Why the names on a command line cannot be used. -/
inductive NameProblem where
  | usage
  | misnamed (flaw : NameFlaw)
  deriving DecidableEq, Repr

/-- A file that has to be there. -/
def needFile (w : Workspace) (name : Text) : Except NameProblem Unit :=
  match nameFlaw? name with
  | some flaw => .error (.misnamed flaw)
  | none => match find w name with
    | .file => .ok ()
    | .directory | .nothing => .error .usage

/-- A file that may be there. -/
def mayBeFile (w : Workspace) (name : Text) : Except NameProblem Unit :=
  match nameFlaw? name with
  | some flaw => .error (.misnamed flaw)
  | none => match find w name with
    | .directory => .error .usage
    | .file | .nothing => .ok ()

/-- The three files of a run. -/
structure Files where
  input : Text
  mapping : Text
  output : Text
  deriving DecidableEq, Repr

/-- The names are looked at one after the other, and only then counted. -/
def chooseFiles (w : Workspace) : List Text → Except NameProblem Files
  | [] => .error .usage
  | [input] => do
    needFile w input
    .error .usage
  | input :: mapping :: more => do
    needFile w input
    needFile w mapping
    match more with
    | [] =>
      mayBeFile w defaultOutput
      return ⟨input, mapping, defaultOutput⟩
    | output :: extra =>
      mayBeFile w output
      if extra.isEmpty then return ⟨input, mapping, output⟩ else .error .usage

def settings (a : Arguments) (gauge : Gauge) : Settings where
  parallel := a.workers.any (1 < ·)
  workers := a.workers
  profiling := a.profile
  indent := some a.indent
  gauge := gauge

/-- A line of output. Neither stream leads to a terminal, so what only a terminal takes is left
out. -/
def echo (message : Text) : Text :=
  plain message ++ [.char '\n']

/-- What a profile counted. -/
def summaryText (gauge : Gauge) (totals : Summary.Totals) : Text :=
  s!"📊 {totals.records} records in {gauge.seconds}s, peak memory {gauge.peakMegabytes} MB"

def summaryLine (gauge : Gauge) (s : Option Summary) : Text :=
  match s.bind Summary.totals? with
  | none => []
  | some totals => echo (summaryText gauge totals)

def conclude (a : Arguments) (gauge : Gauge) (files : Files) :
    Except StepError Report × Session → Outcome
  | (result, s) =>
    let shown := showJournal a s.journal
    match result with
    | .error (.storage e) =>
      { exitCode := 1
        stderr := shown ++ echo ("❌ Error: " ++ e.message)
        workspace := s.workspace }
    | .error e =>
      { exitCode := 1, stderr := shown, escaped := some e, workspace := s.workspace }
    | .ok (.refused message) =>
      { exitCode := 1
        stderr := shown ++ echo "❌ Transformation failed:" ++ echo s!"   • {message}"
        workspace := s.workspace }
    | .ok report =>
      { exitCode := 0
        stdout := echo ("Transformation completed → " ++ (PathName.ofText files.output).text) ++
          summaryLine gauge s.summary
        stderr := shown ++ report.warnings.flatMap fun w => echo ("⚠️  " ++ w.text)
        workspace := s.workspace }

/-- Maps files as the arguments say. -/
def map (w : Workspace) (gauge : Gauge) (a : Arguments) : Outcome :=
  match chooseFiles w a.names with
  | .error .usage => { exitCode := 2, stderr := usageLine, workspace := w }
  | .error (.misnamed flaw) => { exitCode := 1, escaped := some (.misnamed flaw), workspace := w }
  | .ok files =>
    match Session.open? (settings a gauge) w with
    | none => { exitCode := 2, stderr := usageLine, workspace := w }
    | some s => conclude a gauge files (s.runFiles files.input files.mapping files.output)

/-- Carries out a command line. -/
def run (w : Workspace) (gauge : Gauge) (words : List Text) : Outcome :=
  match Invocation.parse words with
  | .version => { exitCode := 0, stdout := s!"{programName}, version {version}\n", workspace := w }
  | .help => { exitCode := 0, stdout := helpText, workspace := w }
  | .unusable => { exitCode := 2, stderr := usageLine, workspace := w }
  | .map a => map w gauge a

end Reshape.CommandLine
