import CypherGremlin.Json.Basic

/-!
# Records and variants as JSON

The building blocks for writing domain types as JSON and reading them back.  A record is an object,
or an array of its parts in order; a variant is its name, or an object with one field from the name
to the content.  Reading gives `none` for anything that does not fit.
-/

namespace CypherGremlin

namespace Json

/-! ## Building blocks for writing -/

def variant (tag : String) (content : Json) : Json := .object [(tag, content)]

def orNull : Option Json → Json
  | none => .null
  | some j => j

def strings (texts : List String) : Json := .array (texts.map .string)

/-! ## Building blocks for reading -/

/-- A truth value. -/
def asBool? : Json → Option Bool
  | .bool b => some b
  | _ => none

/-- A text. -/
def asString? : Json → Option String
  | .string s => some s
  | _ => none

def asList? {α : Type} (read : Json → Option α) : Json → Option (List α)
  | .array items => items.mapM read
  | _ => none

/-- An optional part: `null` when it is absent. -/
def asOptional? {α : Type} (read : Json → Option α) : Json → Option (Option α)
  | .null => some none
  | j => (read j).map some

/-- Two parts. -/
def asPair? : Json → Option (Json × Json)
  | .array [a, b] => some (a, b)
  | _ => none

/-- Three parts. -/
def asTriple? : Json → Option (Json × Json × Json)
  | .array [a, b, c] => some (a, b, c)
  | _ => none

def asEntries? {α : Type} (read : Json → Option α) : Json → Option (List (String × α)) :=
  asList? fun j => do
    let (key, value) ← asPair? j
    return (← key.asString?, ← read value)

/-- An integer of 64 bits. -/
def asInt64? : Json → Option Int64
  | .int i =>
    if Int64.minValue.toInt ≤ i ∧ i ≤ Int64.maxValue.toInt then some (Int64.ofInt i) else none
  | _ => none

/-- A natural of 32 bits. -/
def asUInt32? : Json → Option UInt32
  | .int i => if 0 ≤ i ∧ i < UInt32.size then some i.toNat.toUInt32 else none
  | _ => none

/-- A double-precision number, which may be written as an integer.  It must not be too large. -/
def asFloat? : Json → Option Binary64
  | .float x => if x.isFinite then some x else none
  | .int i => some (Binary64.ofInt i)
  | _ => none

/-- The parts of a record, in the order of their names: from an object by name, from an array by
position.  A part that is missing is `none`.  At least `least` parts have to be there in an array.
-/
def parts? (names : List String) (least : Nat) : Json → Option (List (Option Json))
  | .object fields =>
    if names.any fun name => 1 < (fields.filter fun entry => entry.1 == name).length then none
    else some (names.map (field? fields))
  | .array items =>
    if items.length < least ∨ names.length < items.length then none
    else some (items.map some ++ List.replicate (names.length - items.length) none)
  | _ => none

/-- A part that may be missing: what it stands for then. -/
def orDefault? {α : Type} (default : α) (read : Json → Option α) : Option Json → Option α
  | none => some default
  | some j => read j

/-- A variant: its name and its content, if it has one. -/
def variant? : Json → Option (String × Option Json)
  | .string tag => some (tag, none)
  | .object [(tag, content)] => some (tag, some content)
  | _ => none

def bareVariant? (j : Json) : Option String :=
  match variant? j with
  | some (tag, none) | some (tag, some .null) => some tag
  | _ => none

def choice? {α : Type} (choices : List (String × α)) (j : Json) : Option α :=
  (bareVariant? j).bind fun tag => choices.lookup tag

end Json

end CypherGremlin
