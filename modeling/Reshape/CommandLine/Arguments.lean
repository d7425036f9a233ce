import Reshape.Text.Integer

/-!
# Command line arguments

`Invocation.parse` reads the words of a command line: options anywhere, with a value in the
same word or in the next one, and up to three file names. A word `--` ends the options. The
last of repeated options wins.
-/

namespace Reshape

/-- An option as it was given. -/
inductive Given where
  | indent (value : Text)
  | workers (value : Text)
  | profile
  | verbose
  | version
  | help
  deriving DecidableEq, Repr

/-- An option that takes a value, or one that does not. -/
inductive OptionKind where
  | valued (give : Text → Given)
  | flag (given : Given)

def longOption? (name : Text) : Option OptionKind :=
  match Text.string? name with
  | some "--indent" => some (.valued .indent)
  | some "--workers" => some (.valued .workers)
  | some "--profile" => some (.flag .profile)
  | some "--verbose" => some (.flag .verbose)
  | some "--version" => some (.flag .version)
  | some "--help" => some (.flag .help)
  | _ => none

def shortOption? : Symbol → Option OptionKind
  | .char 'w' => some (.valued .workers)
  | .char 'v' => some (.flag .verbose)
  | _ => none

/-- The words of a command line, sorted. -/
structure Words where
  options : List Given := []
  names : List Text := []
  deriving DecidableEq, Repr

/-- The part of a word before the first `=` and the part after it, if there is one. -/
def splitAtEquals (word : Text) : Text × Option Text :=
  match word.span (· != .char '=') with
  | (name, _ :: value) => (name, some value)
  | (_, []) => (word, none)

/-- Options of one letter in one word, the last of which may take the rest of the word or the
next word as its value. The second part of the answer is whether the next word was taken. -/
def readLetters (next : Option Text) : Text → Option (List Given × Bool)
  | [] => some ([], false)
  | s :: rest =>
    match shortOption? s, rest, next with
    | none, _, _ => none
    | some (.flag given), rest, next => do
      let (more, taken) ← readLetters next rest
      return (given :: more, taken)
    | some (.valued give), [], some value => some ([give value], true)
    | some (.valued _), [], none => none
    | some (.valued give), rest, _ => some ([give rest], false)

/-- What the names of long options start with; alone it ends the options. -/
def dashes : Text := [.char '-', .char '-']

/-- The options in one word, and whether the next word was taken as a value. -/
def readOption (word : Text) (next : Option Text) : Option (List Given × Bool) :=
  let (name, value) := splitAtEquals word
  match longOption? name, value, next with
  | some (.valued give), some value, _ => some ([give value], false)
  | some (.valued give), none, some value => some ([give value], true)
  | some (.valued _), none, none => none
  | some (.flag given), none, _ => some ([given], false)
  | some (.flag _), some _, _ => none
  | none, _, next => if dashes.isPrefixOf word then none else readLetters next word.tail

def isOption (word : Text) : Bool :=
  word.head? == some (.char '-') && word.length > 1

/-- Sorts words, unless one of them is an option that is not known or has no value. -/
def Words.sort (w : Words) : List Text → Option Words
  | [] => some w
  | [word] =>
    if word = dashes then some w
    else if isOption word then do
      let (given, _) ← readOption word none
      return { w with options := w.options ++ given }
    else some { w with names := w.names ++ [word] }
  | word :: next :: rest =>
    if word = dashes then some { w with names := w.names ++ next :: rest }
    else if isOption word then
      match readOption word (some next) with
      | none => none
      | some (given, true) => sort { w with options := w.options ++ given } rest
      | some (given, false) => sort { w with options := w.options ++ given } (next :: rest)
    else sort { w with names := w.names ++ [word] } (next :: rest)

/-- What a command line asks for, its file names not yet looked at. -/
structure Arguments where
  names : List Text
  indent : Int := 2
  workers : Option Int := none
  profile : Bool := false
  verbose : Bool := false
  deriving DecidableEq, Repr

inductive Invocation where
  | version
  | help
  | unusable
  | map (arguments : Arguments)
  deriving DecidableEq, Repr

namespace Invocation

/-- Adds an option to what was asked for, unless its value is no integer. -/
def add (a : Arguments) : Given → Option Arguments
  | .indent value => (Integer.ofText? value).map fun n => { a with indent := n }
  | .workers value => (Integer.ofText? value).map fun n => { a with workers := some n }
  | .profile => some { a with profile := true }
  | .verbose => some { a with verbose := true }
  | .version => some a
  | .help => some a

/-- The last value given for each option; only this one has to be an integer. -/
def lastValues (options : List Given) : List Given :=
  let indents := options.filter (· matches .indent _)
  let workers := options.filter (· matches .workers _)
  let flags := options.filter fun g => !(g matches .indent _) && !(g matches .workers _)
  indents.getLast?.toList ++ workers.getLast?.toList ++ flags

/-- A question about the program is answered whatever else is asked for. -/
def ofWords (w : Words) : Invocation :=
  match w.options.find? fun g => g matches .version || g matches .help with
  | some .version => version
  | some _ => help
  | none =>
    match (lastValues w.options).foldlM add { names := w.names } with
    | some a => map a
    | none => unusable

def parse (words : List Text) : Invocation :=
  match ({} : Words).sort words with
  | some w => ofWords w
  | none => unusable

end Invocation

end Reshape
