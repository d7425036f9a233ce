import Reshape.Mapping
import Reshape.Verdict

/-!
# Checking a mapping

`checkMapping` foretells what a run will make of a mapping. Only a mapping that is no object
is in error; what the run tolerates is remarked on. A remark on what stands for a name shows it, and
there is no verdict where it has no text.
-/

namespace Reshape

/-- Whether digits between brackets stand somewhere in a text. -/
def hasBracketedDigits : Text → Bool
  | [] => false
  | .char '[' :: rest =>
    let digits := rest.takeWhile (Symbol.satisfies Char.isDigit)
    (!digits.isEmpty && rest[digits.length]? == some (.char ']')) || hasBracketedDigits rest
  | _ :: rest => hasBracketedDigits rest

/-- The name of a directive, where it can name a transform at all. -/
def usableName? : Value → Option Text
  | .str s => if s = [] then none else some s
  | _ => none

/-- Why the name of a directive will find no transform. Without a registry every usable name
may find one. -/
def nameCaution? (room : Nat) (registry : Option Registry) (name : Value) :
    Except TextError (Option Caution) :=
  match usableName? name with
  | none => return some (.unusableName (← name.quoted room))
  | some s => return if registry.all (·.contains s) then none else some (.unknownTransform s)

/-- Whether a value is an object with a transform's name in it. -/
def isDirective : Value → Bool
  | .obj ms => (Keyed.get? ms Keyword.transform).isSome
  | _ => false

/-- Directives among the listed arguments of a directive. -/
def argumentCautions (ms : Members) : List Caution :=
  match Keyed.get? ms Keyword.args with
  | none => []
  | some _ => (Directive.argumentValues ms).zipIdx.filterMap fun (arg, position) =>
    if isDirective arg then some (.nestedTransform position) else none

/-- Arguments that are given twice, or not at all. -/
def argumentSourceCaution? (name : Text) (ms : Members) : Option Caution :=
  match Keyed.get? ms Keyword.args, Keyed.get? ms Keyword.path with
  | some _, some _ => some .pathIgnored
  | none, none => some (.noArguments name)
  | _, _ => none

/-- What is to be said where there is a usable name. -/
def namedCautions (name : Value) (ms : Members) : List Caution :=
  match usableName? name with
  | none => []
  | some s => (argumentSourceCaution? s ms).toList ++ argumentCautions ms

def directiveCautions (room : Nat) (registry : Option Registry) (ms : Members) :
    Except TextError (List Caution) :=
  match Keyed.get? ms Keyword.transform with
  | none => return []
  | some name =>
    return (← nameCaution? room registry name).toList ++ namedCautions name ms

def targetCautions (target : Text) : List Caution :=
  (if target = [] then [.emptyTarget] else []) ++
    (if hasBracketedDigits target then [.indexedTarget] else [])

def valueCautions (room : Nat) (registry : Option Registry) :
    Value → Except TextError (List Caution)
  | .obj ms => directiveCautions room registry ms
  | _ => return []

/-- `room` is how many calls fit where a mapping is checked. -/
def memberRemarks (room : Nat) (registry : Option Registry) (member : Text × Value) :
    Except TextError (List Remark) := do
  let cautions := targetCautions member.1 ++ (← valueCautions (room - 1) registry member.2)
  return cautions.map fun caution => { target := member.1, caution }

def checkMapping (room : Nat) (registry : Option Registry) (mapping : Value) :
    Except TextError Verdict :=
  match mapping with
  | .obj ms => return { warnings := (← ms.mapM (memberRemarks room registry)).flatten }
  | v => return { errors := [.notAnObject v.typeName] }

end Reshape
