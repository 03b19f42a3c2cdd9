import CypherGremlin.Fault
import CypherGremlin.Number.Layout
import CypherGremlin.Program.Instruction
import CypherGremlin.Traversal.Walk

/-!
# Which traversals are programs

Not every traversal can be written down.  A program begins with a step that needs no input; some
steps need an argument; numbers must be finite, parameters must be identifiers, and custom symbols
must be in the registry.  All of it is checked in one go, step by step in the order of
`Traversal.walk`, so that writing cannot fail.
-/

namespace CypherGremlin

namespace Value

mutual

def check (step : String) : Value → Except EmissionFault Unit
  | .float x =>
    if x.isFinite then .ok () else .error (.unsupportedStep step ("non-finite float " ++ x.text))
  | .parameter name =>
    if isIdentifier name then .ok ()
    else .error (.unsupportedStep step ("'" ++ name ++ "' is not a valid binding identifier"))
  | .list items => checkAll step items
  | .map entries => checkEntries step entries
  | _ => .ok ()

def checkAll (step : String) : List Value → Except EmissionFault Unit
  | [] => .ok ()
  | v :: rest => do
    v.check step
    checkAll step rest

def checkEntries (step : String) : List (String × Value) → Except EmissionFault Unit
  | [] => .ok ()
  | (_, v) :: rest => do
    v.check step
    checkEntries step rest

end

end Value

def Predicate.checkSymbol (registry : Registry) : Predicate → Except EmissionFault Unit
  | .custom test _ =>
    if registry.predicates.contains test then .ok () else .error (.unknownSymbol test.symbol)
  | _ => .ok ()

def Predicate.check (registry : Registry) (step : String) (p : Predicate) :
    Except EmissionFault Unit := do
  p.checkSymbol registry
  Value.checkAll step p.operands

namespace Step

def ownValues : Step → List Value
  | .property _ v | .constant v => [v]
  | .inject vs => vs
  | _ => []

def ownPredicate? : Step → Option Predicate
  | .has _ p | .is p | .choose (.predicate p) _ _ => some p
  | _ => none

/-- Checks what the step needs apart from constants and predicates. -/
def checkShape (registry : Registry) (s : Step) : Except EmissionFault Unit :=
  match s with
  | .project [] => .error (.unsupportedStep s.name "no keys")
  | .union [] | .coalesce [] => .error (.unsupportedStep s.name "no branches")
  | .apply f => if registry.functions.contains f then .ok () else .error (.unknownSymbol f.symbol)
  | _ => .ok ()

def check (registry : Registry) (s : Step) : Except EmissionFault Unit := do
  s.checkShape registry
  Value.checkAll s.name s.ownValues
  match s.ownPredicate? with
  | some p => p.check registry s.name
  | none => return ()

end Step

def Traversal.checkStart : Traversal → Except EmissionFault Unit
  | [] => .error (.unsupportedStep "traversal" "root traversal is empty")
  | s :: _ =>
    if s.isStart then .ok ()
    else .error (.unsupportedStep s.name
      "root traversal must begin with V(), E(), addV() or inject()")

def Traversal.check (registry : Registry) (t : Traversal) : Except EmissionFault Unit := do
  Traversal.checkStart t
  (Traversal.walk t).forM (Step.check registry)

end CypherGremlin
