import Reshape.CommandLine

/-!
# The command

Carries out a command line on the real files. It looks at what the named files lead past, runs
the command line in a workspace of just that, and then makes and writes what the run has made
and written in the workspace.
-/

namespace Reshape

namespace Command

/-- The name of a place from the root. -/
def absoluteName (place : Location) : String :=
  (PathName.mk .root place).text.shown

/-- What stands in a directory under one name. -/
def look (place : Location) : IO (Option FileNode) := do
  try
    return some (.file (← IO.FS.readBinFile (absoluteName place)))
  catch
    | .inappropriateType .. => return some .directory
    | _ => return none

/-- Adds what steps from a directory lead past. -/
def explore (t : FileTree) (here : Location) : List Text → IO FileTree
  | [] => return t
  | step :: rest => do
    if PathName.staysPut step then explore t here rest
    else if PathName.goesUp step then explore t here.dropLast rest
    else
      let place := here ++ [step]
      match ← look place with
      | some .directory => explore (t.put place .directory) place rest
      | some file => return t.put place file
      | none => return t

/-- The file names that a command line gives or leaves to be understood. -/
def fileNames (words : List Text) : List Text :=
  match Invocation.parse words with
  | .map a => a.names.take 3 ++ [defaultOutput]
  | _ => []

/-- A workspace of what a command line can reach. -/
def survey (words : List Text) : IO Workspace := do
  let home := (PathName.ofText (toString (← IO.currentDir))).steps
  let around ← explore {} [] home
  let tree ← (fileNames words).foldlM (fun t name =>
    explore t (FileTree.startingAt home (.ofText name)) (PathName.rawSteps name)) around
  return { tree, home }

/-- Makes and writes what the second tree has and the first has not. -/
def save (before after : FileTree) : IO Unit := do
  for (place, node) in after.nodes do
    if before.get? place ≠ some node then
      match node with
      | .directory => IO.FS.createDir (absoluteName place)
      | .file bytes => IO.FS.writeBinFile (absoluteName place) bytes

/-- The most memory that the process has held, where the system tells. -/
def peakKilobytes : IO Nat := do
  try
    let status ← IO.FS.readFile "/proc/self/status"
    let peak := (status.splitOn "\n").find? (·.startsWith "VmHWM:")
    return Nat.ofDigitChars 10 ((peak.getD "").toList.filter Char.isDigit) 0
  catch
    | _ => return 0

/-- What a first run of a command line takes. -/
def measure (w : Workspace) (words : List Text) : IO Gauge := do
  let start ← IO.monoMsNow
  let trial := CommandLine.run w {} words
  if trial.exitCode = 0 then
    let milliseconds := (← IO.monoMsNow) - start
    return { milliseconds, peakKilobytes := ← peakKilobytes,
             processorMilliseconds := milliseconds }
  else return {}

/-- Carries out a command line and answers with the exit code. -/
def carryOut (words : List Text) : IO UInt32 := do
  let w ← survey words
  let gauge ← measure w words
  let outcome := CommandLine.run w gauge words
  save w.tree outcome.workspace.tree
  IO.eprint (Text.shown outcome.stderr)
  IO.print (Text.shown outcome.stdout)
  if let some e := outcome.escaped then
    IO.eprintln s!"{CommandLine.programName}: {e.message.shown}"
  return outcome.exitCode.toUInt32

end Command

end Reshape

def main (words : List String) : IO UInt32 :=
  Reshape.Command.carryOut (words.map Reshape.Text.ofString)
