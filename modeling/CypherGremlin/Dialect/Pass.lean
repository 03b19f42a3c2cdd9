import CypherGremlin.Fault
import CypherGremlin.Traversal.Walk

/-!
# Passes

A pass changes a traversal or checks it.  Each is a function on one traversal, with a name under
which it is listed.  Most look at the steps of that traversal alone and rely on being run on every
nested traversal too; those that look at all steps, `Pass.unusedLabels` and `Pass.customSymbols`,
are meant for whole programs.
-/

namespace CypherGremlin

inductive PassAction where
  | change (f : Traversal → Traversal)
  | check (f : Traversal → Except QueryFault Unit)

structure Pass where
  name : String
  action : PassAction

namespace Pass

/-! ## Cleaning up -/

def isIdentity : Step → Bool
  | .identity => true
  | _ => false

def dropIdentity (t : Traversal) : Traversal := t.filter (!isIdentity ·)

def gathers : Step → Bool
  | .barrier | .fold | .order _ | .group _ _ | .count _ => true
  | _ => false

/-- Drops a barrier in front of a step that waits for everything by itself. -/
def dropBarriers : Traversal → Traversal
  | [] => []
  | .barrier :: next :: rest =>
    if gathers next then dropBarriers (next :: rest) else .barrier :: dropBarriers (next :: rest)
  | s :: rest => s :: dropBarriers rest

/-- The step gives elements.  A label that follows it is then read as a label, never as the key of a
map. -/
def givesElement : Step → Bool
  | .V | .E | .addV _ | .addE _ _ _ | .outE _ | .inE _ | .bothE _ | .inV | .outV | .otherV
    | .hasLabel _ => true
  | _ => false

/-- The step selects one label, and this label was put on an element just now.  The steps so far are
given from the last one on. -/
def selectsJustLabelled (before : List Step) (s : Step) : Bool :=
  match before, s with
  | .as label :: element :: _, .select [selected] => selected == label && givesElement element
  | _, _ => false

/-- Drops a step that selects the label just put on an element, where the kept steps so far are
given from the last one on. -/
def dropReselectAfter (before : List Step) : Traversal → Traversal
  | [] => []
  | s :: rest =>
    if selectsJustLabelled before s then dropReselectAfter before rest
    else s :: dropReselectAfter (s :: before) rest

/-- Drops a step that selects the label just put on an element. -/
def dropReselect (t : Traversal) : Traversal := dropReselectAfter [] t

def uses : Step → List Label
  | .select labels => labels
  | .whereLabel _ l => [l]
  | .addE _ source target => [source, target]
  | _ => []

def putsUnused (used : List Label) : Step → Bool
  | .as l => l.isSynthetic && !used.contains l
  | _ => false

/-- Drops numbered labels that nothing uses, in the program and in every traversal inside it. -/
def dropUnusedLabels (t : Traversal) : Traversal :=
  let used := (Traversal.walk t).flatMap uses
  Traversal.mapBottomUp (fun t => t.filter (!putsUnused used ·)) t

/-! ## What a dialect lacks -/

def viaProperties : Step → List Step
  | .values [key] => [.properties [key], .hasKey key, .value]
  | .values keys => [.properties keys, .value]
  | s => [s]

def readViaProperties (t : Traversal) : Traversal := t.flatMap viaProperties

def nativeTest? : CustomPredicate → Option TextPredicate
  | .startsWith => some .startingWith
  | .endsWith => some .endingWith
  | .contains => some .containing
  | .isNode | .isRelationship | .isString => none

def nativePredicate : Predicate → Predicate
  | .custom p (some argument) =>
    match nativeTest? p with
    | some test => .text test argument
    | none => .custom p (some argument)
  | p => p

/-- The step with a built-in test in place of a custom one.  The condition of a choice is left as it
is. -/
def nativeStep : Step → Step
  | .is p => .is (nativePredicate p)
  | .has key p => .has key (nativePredicate p)
  | s => s

/-- Uses built-in tests in place of custom ones. -/
def useNativeTests (t : Traversal) : Traversal := t.map nativeStep

/-! ## Refusing custom symbols -/

def customPredicateName? : Predicate → Option String
  | .custom p _ => some p.name
  | _ => none

def customName? : Step → Option String
  | .apply f => some f.name
  | .is p | .has _ p | .choose (.predicate p) _ _ => customPredicateName? p
  | _ => none

/-- Puts a name into its place in a list of increasing names, unless it is there. -/
def insertName (name : String) : List String → List String
  | [] => [name]
  | first :: rest =>
    if name < first then name :: first :: rest
    else if name == first then first :: rest
    else first :: insertName name rest

def customNames (t : Traversal) : List String :=
  ((Traversal.walk t).filterMap customName?).foldr insertName []

def refuseCustomSymbols (t : Traversal) : Except QueryFault Unit :=
  match customNames t with
  | [] => .ok ()
  | names => .error (.customSymbols names)

/-! ## The passes -/

def identitySteps : Pass := ⟨"remove_identity_steps", .change dropIdentity⟩

/-- Drops steps that select the label just put on an element. -/
def reselection : Pass := ⟨"remove_immediate_reselect", .change dropReselect⟩

/-- Drops barriers in front of steps that wait for everything by themselves. -/
def barriers : Pass := ⟨"collapse_barriers", .change dropBarriers⟩

/-- Drops numbered labels that nothing uses. -/
def unusedLabels : Pass := ⟨"remove_unused_aliases", .change dropUnusedLabels⟩

def propertyAccess : Pass := ⟨"cosmos_property_access", .change readViaProperties⟩

/-- Uses built-in tests in place of custom ones. -/
def nativeTests : Pass := ⟨"native_text_predicates", .change useNativeTests⟩

def customSymbols : Pass := ⟨"no_custom_functions", .check refuseCustomSymbols⟩

def all : List Pass :=
  [identitySteps, reselection, barriers, unusedLabels, propertyAccess, nativeTests, customSymbols]

end Pass

end CypherGremlin
