import Reshape.Number.Double
import Reshape.Number.Numeral
import Reshape.Text.Symbol

/-!
# The profile of a run

A profile counts what a run takes in and gives out. One operation is open at a time, from a reading
of the clock on; closing it adds an entry to the history. An operation without a name is as good as
none, and so is a reading of zero: it cannot be closed. Records are counted per second once time has
passed, and a count that no double is near has no rate. What was closed is noted down last, so that
a count of too many digits is in the history although the operation stays open.
-/

namespace Reshape

/-- Why an operation is not closed, or why there is no summary. -/
inductive ProfileError where
  | nothingOpen
  | tooManyRecords
  /-- The records have too many digits to be noted down. -/
  | unshown
  deriving DecidableEq, Repr

def ProfileError.message : ProfileError → String
  | nothingOpen => "No active profiling session"
  | tooManyRecords => "int too large to convert to float"
  | unshown => tooManyToWrite

/-- Whether a finite double is near a count. -/
def hasRate (count : Int) : Bool :=
  !(Double.ofQuotient false count.natAbs 1 matches .infinity _)

structure ProfileEntry where
  name : Text
  inputSize : Int
  outputSize : Int
  records : Int
  deriving DecidableEq, Repr

structure Profile where
  current : Option Text := none
  /-- The reading of the clock when the operation was opened. -/
  since : Option Int := none
  inputSize : Int := 0
  /-- How often the operation opened last was sampled. -/
  samples : Nat := 0
  history : List ProfileEntry := []
  /-- The time that passed in all that was closed. -/
  elapsed : Int := 0
  deriving DecidableEq, Repr

namespace Profile

/-- The name of the operation that can be sampled. -/
def active? (p : Profile) : Option Text :=
  p.current.filter (· ≠ [])

/-- Opens an operation, in place of the one that is open. -/
def start (p : Profile) (now : Int) (name : Text) (inputSize : Int) : Profile :=
  { p with current := some name, since := some now, inputSize, samples := 0 }

def sample (p : Profile) : Profile :=
  if p.active?.isSome then { p with samples := p.samples + 1 } else p

/-- The name and the beginning of the operation that can be closed. -/
def closable? (p : Profile) : Option (Text × Int) :=
  match p.active?, p.since.filter (· ≠ 0) with
  | some name, some since => some (name, since)
  | _, _ => none

/-- The profile with one entry more. -/
def count (p : Profile) (elapsed : Int) (entry : ProfileEntry) : Profile :=
  { p with history := p.history ++ [entry], elapsed := p.elapsed + elapsed }

/-- The profile with no operation open. -/
def idle (p : Profile) : Profile :=
  { p with current := none, since := none }

/-- Closes the open operation. -/
def stop (p : Profile) (now outputSize records : Int) :
    Except ProfileError ProfileEntry × Profile :=
  match p.closable? with
  | none => (.error .nothingOpen, p)
  | some (name, since) =>
    let entry := { name, inputSize := p.inputSize, outputSize, records }
    let counted := p.count (now - since) entry
    if since < now ∧ ¬ hasRate records then (.error .tooManyRecords, p)
    else if Numeral.maxDigits < digitCount records then (.error .unshown, counted)
    else (.ok entry, counted.idle)

/-- Closes what a block has left open, with nothing given out. -/
def leave (p : Profile) (now : Int) : Except ProfileError Unit × Profile :=
  if p.active?.isSome then (p.stop now 0 0).map (Except.map fun _ => ()) id else (.ok (), p)

/-- A block under a name, from one reading of the clock to another. It is left however it ends, and
what stops the leaving is raised in place of its result. -/
def within {ε α : Type} (p : Profile) (now : Int) (name : Text) (inputSize : Int)
    (block : Profile → Except ε α × Profile) (later : Int) :
    Except (ProfileError ⊕ ε) α × Profile :=
  let (result, p) := block (p.start now name inputSize)
  match p.leave later with
  | (.ok (), p) => (result.mapError .inr, p)
  | (.error e, p) => (.error (.inl e), p)

end Profile

structure Summary where
  operations : List ProfileEntry
  deriving DecidableEq, Repr

namespace Summary

/-- What the operations add up to. -/
structure Totals where
  records : Int
  input : Int
  output : Int
  deriving DecidableEq, Repr

def ofProfile (p : Profile) : Summary :=
  ⟨p.history⟩

/-- The sum of a count over the operations. -/
def total (s : Summary) (count : ProfileEntry → Int) : Int :=
  s.operations.foldr (fun e sum => count e + sum) 0

def totalRecords (s : Summary) : Int :=
  s.total (·.records)

def totalInput (s : Summary) : Int :=
  s.total (·.inputSize)

def totalOutput (s : Summary) : Int :=
  s.total (·.outputSize)

/-- A summary of no operations has no totals. -/
def totals? (s : Summary) : Option Totals :=
  if s.operations.isEmpty then none
  else some { records := s.totalRecords, input := s.totalInput, output := s.totalOutput }

end Summary

/-- The summary of all that was closed. If any time has passed, its records need a rate. -/
def Profile.summary (p : Profile) : Except ProfileError Summary :=
  let s := Summary.ofProfile p
  if 0 < p.elapsed ∧ ¬ hasRate s.totalRecords then .error .tooManyRecords else .ok s

/-! ### What the instruments read -/

/-- The text of `num / den`, where nothing is zero over nothing. -/
def fixedPlaces (places num den : Nat) : String :=
  let digits := Nat.toDigits 10 (if den = 0 then 0 else roundQuotient (scale 10 num places) den)
  let padded := List.replicate (places + 1 - digits.length) '0' ++ digits
  let whole := padded.length - places
  String.ofList (padded.take whole ++ '.' :: padded.drop whole)

/-- What the instruments read during a run. Nothing but the figures reported of it depends on the
readings. -/
structure Gauge where
  milliseconds : Nat := 0
  peakKilobytes : Nat := 0
  processorMilliseconds : Nat := 0
  deriving DecidableEq, Repr

namespace Gauge

def seconds (g : Gauge) : String :=
  fixedPlaces 3 g.milliseconds 1000

def recordsPerSecond (g : Gauge) (records : Nat) : String :=
  fixedPlaces 1 (records * 1000) g.milliseconds

def peakMegabytes (g : Gauge) : String :=
  fixedPlaces 1 g.peakKilobytes 1024

/-- The share of the time in which the processor was busy, in hundredths. -/
def processorPercent (g : Gauge) : String :=
  fixedPlaces 1 (g.processorMilliseconds * 100) g.milliseconds

end Gauge

end Reshape
