import CypherGremlin.Proofs.Program.Instructions
import CypherGremlin.Proofs.Program.Validity

/-!
# What programs are made of

The check of `Program.Validity` looks at the steps of a traversal, while a program is written from
instructions.  Here is what holds of the instructions of a valid traversal, at any depth.

* `Signature operator kinds` says which kinds of arguments an operator is called with.
* `Part.IsProper registry part` says it of a call, and says of an argument that its number is
  finite, its parameter an identifier, its symbol installed.
* `Traversal.allProper_instructions` is the result: whatever is printed has been checked.

The formats of programs do not matter to any of it, since both are written from the same
instructions.  `Program.emit_covers` says what follows for programs.
-/

namespace CypherGremlin

open Instruction List Traversal

/-! ## Kinds of arguments -/

inductive ArgumentKind where
  | bool
  | int
  | float
  | string
  | list
  | map
  | token
  | binding
  | predicate
  | traversal
  | constant
  | function
deriving DecidableEq, Repr

namespace ArgumentKind

/-- The kinds of constants of a traversal. -/
def isValue : ArgumentKind → Bool
  | bool | int | float | string | list | map | token | binding => true
  | predicate | traversal | constant | function => false

end ArgumentKind

variable {ι : Type} {p : Predicate} {operator : String} {t : Traversal} {registry : Registry}
  {kinds : List ArgumentKind} {code : List (Instruction ι)}

def Argument.kind : Argument ι → ArgumentKind
  | .bool _ => .bool
  | .int _ => .int
  | .float _ => .float
  | .string _ => .string
  | .list _ => .list
  | .map _ => .map
  | .token _ => .token
  | .binding _ => .binding
  | .predicate _ _ => .predicate
  | .traversal _ => .traversal
  | .constant _ _ => .constant
  | .function _ => .function

inductive Signature : String → List ArgumentKind → Prop
  | plain {operator : String} (mem : operator ∈ ["V", "E", "drop", "inV", "outV", "otherV", "id",
    "label", "key", "value",
      "order", "group", "dedup", "count", "fold", "unfold", "sum", "mean", "min", "max", "barrier",
      "identity"]) :
    Signature operator []
  | text {operator : String}
    (mem : operator ∈ ["addE", "from", "to", "hasNot", "hasKey", "as", "select", "aggregate",
    "cap"]) : Signature operator [.string]
  | texts {operator : String} {kinds : List ArgumentKind}
    (mem : operator ∈ ["addV", "outE", "inE", "bothE", "hasLabel", "select", "values",
    "properties"]) (all : ∀ kind ∈ kinds, kind = .string) : Signature operator kinds
  | project {kinds : List ArgumentKind} (all : ∀ kind ∈ kinds, kind = .string) (some : kinds ≠ []) :
    Signature "project" kinds
  | property {kind : ArgumentKind} (value : kind.isValue = true ∨ kind = .traversal) :
    Signature "property" [.string, kind]
  | has : Signature "has" [.string, .predicate]
  | test {operator : String} (mem : operator ∈ ["is", "where"]) : Signature operator [.predicate]
  | nested {operator : String} (mem : operator ∈ ["where", "not", "sideEffect", "map", "flatMap",
    "by"]) : Signature operator [.traversal]
  | connective {operator : String} {kinds : List ArgumentKind} (mem : operator ∈ ["and", "or"])
    (all : ∀ kind ∈ kinds, kind = .traversal) : Signature operator kinds
  | branches {operator : String} {kinds : List ArgumentKind}
    (mem : operator ∈ ["coalesce", "union"])
    (all : ∀ kind ∈ kinds, kind = .traversal) (some : kinds ≠ []) : Signature operator kinds
  | choose {kind : ArgumentKind} (condition : kind = .predicate ∨ kind = .traversal) :
    Signature "choose" [kind, .traversal, .traversal]
  | value {kind : ArgumentKind} (value : kind.isValue = true) : Signature "constant" [kind]
  | values {kinds : List ArgumentKind} (all : ∀ kind ∈ kinds, kind.isValue = true) : Signature
    "inject" kinds
  | valueMap : Signature "valueMap" [.bool]
  | column {operator : String} (mem : operator ∈ ["select", "count"]) : Signature operator
    [.constant]
  | sort : Signature "by" [.traversal, .constant]
  | bound {operator : String} (mem : operator ∈ ["limit", "skip"]) : Signature operator [.int]
  | range : Signature "range" [.int, .int]
  | function : Signature "map" [.function]

def operators : List String :=
  ["V", "E", "addV", "addE", "from", "to", "property", "drop", "outE", "inE", "bothE", "inV",
    "outV", "otherV", "has",
    "hasLabel", "hasNot", "hasKey", "is", "where", "and", "or", "not", "as", "select", "choose",
    "coalesce", "union",
    "constant", "inject", "id", "label", "values", "valueMap", "properties", "key", "value",
    "project", "by", "order",
    "group", "dedup", "count", "fold", "unfold", "sum", "mean", "min", "max", "aggregate", "cap",
    "limit", "skip", "range", "barrier", "sideEffect", "map", "flatMap", "identity"]

lemma Signature.operator_mem (h : Signature operator kinds) : operator ∈ operators := by
  have hsub (some : List String) (hsome : ∀ o ∈ some, o ∈ operators) (hmem : operator ∈ some) :
      operator ∈ operators := hsome operator hmem
  cases h with
  | plain mem | text mem | texts mem | test mem | nested mem | connective mem | branches mem
  | column mem | bound mem =>
    exact hsub _ (by decide) mem
  | _ => decide

/-! ## Parts -/

/-- Something that a program is made of. -/
inductive Part (ι : Type) where
  | call (i : Instruction ι)
  | argument (a : Argument ι)

mutual

/-- An instruction and everything inside it. -/
def Instruction.parts : Instruction ι → List (Part ι)
  | .call operator arguments => .call (.call operator arguments) :: Argument.partsAll arguments

/-- An argument and everything inside it. -/
def Argument.parts (a : Argument ι) : List (Part ι) :=
  .argument a :: match a with
    | .list items => Argument.partsAll items
    | .map entries => Argument.entryParts entries
    | .predicate _ arguments => Argument.partsAll arguments
    | .traversal instructions => Instruction.partsAll instructions
    | _ => []

/-- Some arguments and everything inside them. -/
def Argument.partsAll : List (Argument ι) → List (Part ι)
  | [] => []
  | a :: rest => a.parts ++ Argument.partsAll rest

/-- The values of a map and everything inside them. -/
def Argument.entryParts : List (String × Argument ι) → List (Part ι)
  | [] => []
  | (_, a) :: rest => a.parts ++ Argument.entryParts rest

/-- Some instructions and everything inside them. -/
def Instruction.partsAll : List (Instruction ι) → List (Part ι)
  | [] => []
  | i :: rest => i.parts ++ Instruction.partsAll rest

end

lemma Argument.partsAll_eq_flatMap (as : List (Argument ι)) :
    Argument.partsAll as = as.flatMap Argument.parts :=
  eq_flatMap_of_cons rfl (fun _ _ => rfl) as

lemma Instruction.partsAll_eq_flatMap (is : List (Instruction ι)) :
    partsAll is = is.flatMap parts :=
  eq_flatMap_of_cons rfl (fun _ _ => rfl) is

lemma Argument.argument_mem_parts (a : Argument ι) : .argument a ∈ a.parts := by
  cases a <;> exact mem_cons_self

/-- The predicates that every engine has. -/
def nativePredicates : List String :=
  ["eq", "neq", "lt", "lte", "gt", "gte", "within", "without", "startingWith", "endingWith",
    "containing"]

def programConstants : List (String × String) :=
  [("Column", "keys"), ("Column", "values"), ("Order", "asc"), ("Order", "desc"),
    ("Scope", "local")]

/-- The argument by itself is one that a program may have. -/
def Argument.IsProper (registry : Registry) : Argument ι → Prop
  | .float x => x.isFinite = true
  | .list items => ∀ item ∈ items, item.kind.isValue = true
  | .map entries => ∀ entry ∈ entries, entry.2.kind.isValue = true
  | .binding name => isIdentifier name = true
  | .predicate operator arguments =>
    (operator ∈ nativePredicates ∨ operator ∈ registry.predicates.map (·.symbol)) ∧
      ∀ argument ∈ arguments, argument.kind.isValue = true
  | .constant kind name => (kind, name) ∈ programConstants
  | .function symbol => symbol ∈ registry.functions.map (·.symbol)
  | _ => True

/-- The part by itself is one that a program may have. -/
def Part.IsProper (registry : Registry) : Part ι → Prop
  | .call (.call operator arguments) => Signature operator (arguments.map Argument.kind)
  | .argument a => a.IsProper registry

/-- All parts are such that a program may have them. -/
abbrev AllProper (registry : Registry) (parts : List (Part ι)) : Prop :=
  ∀ part ∈ parts, part.IsProper registry

section

lemma Argument.isProper {a : Argument ι} (h : AllProper registry a.parts) : a.IsProper registry :=
  h _ a.argument_mem_parts

lemma Instruction.allProper_iff {is : List (Instruction ι)} :
    AllProper registry (partsAll is) ↔ ∀ i ∈ is, AllProper registry (partsAll [i]) := by
  simp only [partsAll_eq_flatMap, flatMap_singleton]
  exact forall_mem_flatMap

lemma Instruction.allProper_call {arguments : List (Argument ι)}
    (hsig : Signature operator (arguments.map Argument.kind))
    (hargs : ∀ a ∈ arguments, AllProper registry a.parts) :
    AllProper registry (partsAll [.call operator arguments]) := by
  rw [partsAll_eq_flatMap, flatMap_singleton, parts, Argument.partsAll_eq_flatMap]
  exact forall_mem_cons.2 ⟨hsig, forall_mem_flatMap.2 hargs⟩

lemma Instruction.allProper_cons {i : Instruction ι} {rest : List (Instruction ι)}
    (hi : AllProper registry (partsAll [i])) (hrest : AllProper registry (partsAll rest)) :
    AllProper registry (partsAll (i :: rest)) :=
  allProper_iff.2 (forall_mem_cons.2 ⟨hi, allProper_iff.1 hrest⟩)

lemma Argument.allProper_traversal (h : AllProper registry (Instruction.partsAll code)) :
    AllProper registry (Argument.traversal code).parts :=
  forall_mem_cons.2 ⟨trivial, h⟩

/-! ## Constants and predicates -/

namespace Value

variable (ints : Integers ι)

lemma kind_argument (v : Value) : (v.argument ints).kind.isValue = true := by
  cases v <;> rfl

lemma kind_arguments (vs : List Value) : ∀ a ∈ arguments ints vs, a.kind.isValue = true := by
  rw [arguments_eq_map, forall_mem_map]
  exact fun v _ => kind_argument ints v

lemma kind_entryArguments (vs : List (String × Value)) :
    ∀ entry ∈ entryArguments ints vs, entry.2.kind.isValue = true := by
  rw [entryArguments_eq_map, forall_mem_map]
  exact fun entry _ => kind_argument ints entry.2

mutual

/-- A constant whose leaves can be written gives a proper argument. -/
theorem allProper_argument : ∀ v : Value, (∀ leaf ∈ v.leaves, leaf.IsWritable) →
    AllProper registry (v.argument ints).parts
  | .float x, h => forall_mem_singleton.2 (h (.float x) mem_cons_self)
  | .parameter name, h => forall_mem_singleton.2 (h (.parameter name) mem_cons_self)
  | .list items, h => forall_mem_cons.2 ⟨kind_arguments ints items, allProper_arguments items h⟩
  | .map entries, h =>
    forall_mem_cons.2 ⟨kind_entryArguments ints entries, allProper_entryArguments entries h⟩
  | .bool _, _ | .int _, _ | .string _, _ | .token _, _ => forall_mem_singleton.2 trivial

theorem allProper_arguments : ∀ vs : List Value, (∀ leaf ∈ allLeaves vs, leaf.IsWritable) →
    AllProper registry (Argument.partsAll (arguments ints vs))
  | [], _ => forall_mem_nil _
  | v :: rest, h => by
    obtain ⟨hv, hrest⟩ := forall_mem_append.1 h
    exact forall_mem_append.2 ⟨allProper_argument v hv, allProper_arguments rest hrest⟩

theorem allProper_entryArguments :
    ∀ vs : List (String × Value), (∀ leaf ∈ entryLeaves vs, leaf.IsWritable) →
    AllProper registry (Argument.entryParts (entryArguments ints vs))
  | [], _ => forall_mem_nil _
  | (_, v) :: rest, h => by
    obtain ⟨hv, hrest⟩ := forall_mem_append.1 h
    exact forall_mem_append.2 ⟨allProper_argument v hv, allProper_entryArguments rest hrest⟩

end

lemma allProper_of_mem_arguments {vs : List Value} (h : ∀ leaf ∈ allLeaves vs, leaf.IsWritable) :
    ∀ a ∈ arguments ints vs, AllProper registry a.parts := by
  rw [← forall_mem_flatMap, ← Argument.partsAll_eq_flatMap]
  exact allProper_arguments ints vs h

end Value

lemma Predicate.operator_mem
    (h : ∀ test argument, p = .custom test argument → test ∈ registry.predicates) :
    p.operator ∈ nativePredicates ∨ p.operator ∈ registry.predicates.map (·.symbol) := by
  cases p with
  | custom test argument => exact .inr (mem_map_of_mem (h test argument rfl))
  | text p _ =>
    cases p <;> exact .inl (by simp [Predicate.operator, TextPredicate.operator, nativePredicates])
  | _ => exact .inl (by simp [Predicate.operator, nativePredicates])

lemma Predicate.allProper_argument (ints : Integers ι)
    (hcustom : ∀ test argument, p = .custom test argument → test ∈ registry.predicates)
    (hleaves : ∀ leaf ∈ Value.allLeaves p.operands, leaf.IsWritable) :
    AllProper registry (p.argument ints).parts :=
  forall_mem_cons.2
    ⟨⟨Predicate.operator_mem hcustom, Value.kind_arguments ints _⟩,
    Value.allProper_arguments ints _ hleaves⟩

/-! ## Steps -/

namespace Step.IsValid

variable {s : Step}

lemma values (h : s.IsValid registry) : ∀ leaf ∈ Value.allLeaves s.ownValues, leaf.IsWritable :=
  (forall_mem_append.1 h.leaves).1

lemma allProper_predicate (h : s.IsValid registry) (hp : s.ownPredicate? = some p)
    (ints : Integers ι) : AllProper registry (p.argument ints).parts := by
  refine Predicate.allProper_argument ints (fun test argument heq => h.predicate test argument
    (heq ▸ hp)) ?_
  exact forall_mem_flatMap.1 (forall_mem_append.1 h.leaves).2 p (Option.mem_toList.2 hp)

end Step.IsValid

lemma Argument.allProper_string (text : String) :
    AllProper registry (Argument.string text : Argument ι).parts :=
  forall_mem_singleton.2 trivial

lemma SortOrder.allProper_argument (order : SortOrder) :
    AllProper registry (order.argument : Argument ι).parts := by
  have hmem : ∀ name ∈ ["asc", "desc"], ("Order", name) ∈ programConstants := by decide
  cases order <;> exact forall_mem_singleton.2 (hmem _ (by simp))

lemma Instruction.allProper_texts {α : Type} {items : List α} {f : α → Argument ι}
    (hf : ∀ item, ∃ text, f item = .string text)
    (hsig : (∀ kind ∈ (items.map f).map Argument.kind, kind = .string) →
      Signature operator ((items.map f).map Argument.kind)) :
    AllProper registry (partsAll [.call operator (items.map f)]) := by
  refine allProper_call (hsig ?_) ?_
  · simp only [map_map, forall_mem_map]
    intro item _
    obtain ⟨text, htext⟩ := hf item
    simp [htext, Argument.kind]
  · refine forall_mem_map.2 fun item _ => ?_
    obtain ⟨text, htext⟩ := hf item
    exact htext ▸ Argument.allProper_string text

namespace Traversal

variable (ints : Integers ι)

lemma allProper_modulator
    (h : AllProper registry (Argument.traversal (instructions ints t)).parts) :
    AllProper registry (partsAll [.call "by" [.traversal (instructions ints t)]]) :=
  allProper_call (.nested (by simp)) (forall_mem_singleton.2 h)

lemma allProper_entryModulators {entries : List (Label × Traversal)}
    (h : ∀ t ∈ entries.map Prod.snd, AllProper registry
      (Argument.traversal (instructions ints t)).parts) :
    AllProper registry (partsAll (entryModulators ints entries)) := by
  rw [entryModulators_eq_map, allProper_iff, forall_mem_map]
  exact fun entry hentry => allProper_modulator ints (h entry.2 (mem_map_of_mem hentry))

lemma allProper_keyModulators {keys : List (Traversal × SortOrder)}
    (h : ∀ t ∈ keys.map Prod.fst, AllProper registry
      (Argument.traversal (instructions ints t)).parts) :
    AllProper registry (partsAll (keyModulators ints keys)) := by
  rw [keyModulators_eq_map, allProper_iff, forall_mem_map]
  rintro ⟨t, order⟩ hkey
  refine allProper_call (by cases order <;> exact .sort)
    (forall_mem_cons.2 ⟨h t (mem_map_of_mem hkey), ?_⟩)
  exact forall_mem_singleton.2 order.allProper_argument

end Traversal

lemma Step.allProper_instructions (ints : Integers ι) {s : Step} (h : s.IsValid registry)
    (hchild : ∀ t ∈ s.children, AllProper registry (partsAll (Traversal.instructions ints t))) :
    AllProper registry (partsAll (s.instructions ints)) := by
  have hnested (t : Traversal) (ht : t ∈ s.children) :
      AllProper registry (Argument.traversal (Traversal.instructions ints t)).parts :=
    Argument.allProper_traversal (hchild t ht)
  have hbranches (ts : List Traversal) (hts : s.children = ts) :
      ∀ a ∈ branchArguments ints ts, AllProper registry a.parts := by
    rw [branchArguments_eq_map, forall_mem_map]
    exact fun t ht => hnested t (hts ▸ ht)
  have hkinds (ts : List Traversal) : ∀ kind ∈ (branchArguments ints ts).map Argument.kind,
      kind = .traversal := by
    simp [branchArguments_eq_map, Argument.kind]
  have htext (operator text : String) (hmem : Signature operator [.string]) :
      AllProper registry (partsAll [.call operator [.string text]] : List (Part ι)) :=
    allProper_call hmem (forall_mem_singleton.2 (Argument.allProper_string text))
  have hconst (operator kind name : String) (hmem : (kind, name) ∈ programConstants)
      (hsig : Signature operator [.constant]) :
      AllProper registry (partsAll [.call operator [.constant kind name]] : List (Part ι)) :=
    allProper_call hsig (forall_mem_singleton.2 (forall_mem_singleton.2 hmem))
  have hint (n : UInt64) : AllProper registry (Argument.int (ints.ofBound n)).parts :=
    forall_mem_singleton.2 trivial
  -- Each case is a signature of the operator and the arguments one by one.
  cases s with
  | V | E | drop | inV | outV | otherV | id | label | key | value | dedup | fold | unfold | sum
  | mean | min | max
  | barrier | identity => exact allProper_call (.plain (by simp [Step.name])) (forall_mem_nil _)
  | addV l => exact allProper_texts (fun text => ⟨text, rfl⟩) (.texts (by simp [Step.name]))
  | addE type source target =>
    refine allProper_cons (htext _ _ (.text (by simp [Step.name]))) ?_
    exact allProper_cons (htext _ _ (.text (by simp))) (htext _ _ (.text (by simp)))
  | property k v =>
    refine allProper_call (.property (.inl (Value.kind_argument ints v))) ?_
    refine forall_mem_cons.2 ⟨Argument.allProper_string k, forall_mem_singleton.2 ?_⟩
    exact Value.allProper_argument ints v
      (by simpa [Step.ownValues, Value.allLeaves] using h.values)
  | propertyFrom k t =>
    refine allProper_call (.property (.inr rfl))
      (forall_mem_cons.2 ⟨Argument.allProper_string k, ?_⟩)
    exact forall_mem_singleton.2 (hnested t (by simp [children]))
  | outE | inE | bothE | hasLabel | values | properties =>
    exact allProper_texts (fun text => ⟨text, rfl⟩) (.texts (by simp [Step.name]))
  | has k p =>
    refine allProper_call .has (forall_mem_cons.2 ⟨Argument.allProper_string k, ?_⟩)
    exact forall_mem_singleton.2 (h.allProper_predicate rfl ints)
  | hasNot | hasKey | as | selectKey | aggregate | cap =>
    exact htext _ _ (.text (by simp [Step.name]))
  | is p =>
    refine allProper_call (.test (by simp [Step.name])) ?_
    exact forall_mem_singleton.2 (h.allProper_predicate rfl ints)
  | filter t | not t | sideEffect t | map t | flatMap t =>
    refine allProper_call (.nested (by simp [Step.name])) ?_
    exact forall_mem_singleton.2 (hnested t (by simp [children]))
  | whereLabel comparison l =>
    refine allProper_call (.test (by simp [Step.name])) (forall_mem_singleton.2 ?_)
    refine forall_mem_cons.2 ⟨⟨.inl ?_, forall_mem_singleton.2 rfl⟩, Argument.allProper_string _⟩
    cases comparison <;> simp [LabelComparison.operator, nativePredicates]
  | and ts | or ts =>
    exact allProper_call (.connective (by simp [Step.name]) (hkinds ts)) (hbranches ts rfl)
  | coalesce ts | union ts =>
    refine allProper_call (.branches (by simp [Step.name]) (hkinds ts) ?_) (hbranches ts rfl)
    simp only [branchArguments_eq_map, ne_eq, map_eq_nil_iff]
    rintro rfl
    first | exact h.coalesce rfl | exact h.union rfl
  | select labels => exact allProper_texts (fun l => ⟨l.encode, rfl⟩) (.texts (by simp [Step.name]))
  | selectColumn column =>
    cases column <;> exact hconst _ _ _ (by simp [programConstants]) (.column (by simp [Step.name]))
  | choose c yes no =>
    have hyes := hnested yes (by cases c <;> simp [children])
    have hno := hnested no (by cases c <;> simp [children])
    cases c with
    | predicate p =>
      refine allProper_call (.choose (.inl rfl)) ?_
      exact forall_mem_cons.2 ⟨h.allProper_predicate rfl ints,
        forall_mem_cons.2 ⟨hyes, forall_mem_singleton.2 hno⟩⟩
    | traversal t =>
      refine allProper_call (.choose (.inr rfl)) ?_
      exact forall_mem_cons.2 ⟨hnested t (by simp [children]),
        forall_mem_cons.2 ⟨hyes, forall_mem_singleton.2 hno⟩⟩
  | constant v =>
    refine allProper_call (.value (Value.kind_argument ints v)) (forall_mem_singleton.2 ?_)
    exact Value.allProper_argument ints v
      (by simpa [Step.ownValues, Value.allLeaves] using h.values)
  | inject vs =>
    refine allProper_call (.values ?_) (Value.allProper_of_mem_arguments ints h.values)
    exact forall_mem_map.2 (Value.kind_arguments ints vs)
  | valueMap tokens =>
    exact allProper_call .valueMap (forall_mem_singleton.2 (forall_mem_singleton.2 trivial))
  | project entries =>
    have hsome : entries ≠ [] := fun heq => h.project (heq ▸ rfl)
    refine allProper_cons ?_ (allProper_entryModulators ints hnested)
    exact allProper_texts (fun entry => ⟨entry.1.encode, rfl⟩) fun hall =>
      .project hall (by simpa using hsome)
  | order keys =>
    refine allProper_cons ?_ (allProper_keyModulators ints hnested)
    exact allProper_call (.plain (by simp [Step.name])) (forall_mem_nil _)
  | group k v =>
    have hmodulator (t : Traversal) (ht : t ∈ [k, v]) := allProper_modulator ints (hnested t ht)
    refine allProper_cons ?_ (allProper_cons (hmodulator k (by simp)) (hmodulator v (by simp)))
    exact allProper_call (.plain (by simp [Step.name])) (forall_mem_nil _)
  | count scope =>
    cases scope with
    | global => exact allProper_call (.plain (by simp [Step.name])) (forall_mem_nil _)
    | «local» => exact hconst _ _ _ (by simp [programConstants]) (.column (by simp [Step.name]))
  | limit n | skip n =>
    exact allProper_call (.bound (by simp [Step.name])) (forall_mem_singleton.2 (hint n))
  | range low high =>
    exact allProper_call .range (forall_mem_cons.2 ⟨hint low, forall_mem_singleton.2 (hint high)⟩)
  | apply f =>
    refine allProper_call .function (forall_mem_singleton.2 (forall_mem_singleton.2 ?_))
    exact mem_map_of_mem (h.function f rfl)

/-- Whatever the program of a valid traversal is made of is proper. -/
theorem Traversal.allProper_instructions (ints : Integers ι)
    (h : ∀ s ∈ walk t, s.IsValid registry) :
    AllProper registry (partsAll (instructions ints t)) := by
  induction t using inductChildren with
  | nil => exact forall_mem_nil _
  | cons s rest hchild hrest =>
    rw [forall_mem_walk_cons] at h
    rw [instructions, partsAll_eq_flatMap, flatMap_append, ← partsAll_eq_flatMap,
      ← partsAll_eq_flatMap]
    refine forall_mem_append.2 ⟨Step.allProper_instructions ints h.1 fun t ht => ?_, hrest h.2.2⟩
    exact hchild t ht (h.2.1 t ht)

end

/-! ## Programs -/

/-- What has to hold of everything that a program is written from: custom symbols are installed,
numbers are finite, parameters are identifiers, and no call is left without an argument that needs
one. -/
structure Covers (registry : Registry) (code : List (Instruction ι)) : Prop where
  predicates : ∀ (test : CustomPredicate) arguments,
    .argument (.predicate test.symbol arguments) ∈ Instruction.partsAll code →
    test.symbol ∈ registry.symbols
  functions : ∀ symbol, .argument (.function symbol) ∈ Instruction.partsAll code →
    symbol ∈ registry.symbols
  floats : ∀ x, .argument (.float x) ∈ Instruction.partsAll code → x.isFinite = true
  parameters : ∀ name, .argument (.binding name) ∈ Instruction.partsAll code →
    isIdentifier name = true
  branches : ∀ operator arguments, .call (.call operator arguments) ∈ Instruction.partsAll code →
    operator ∈ ["project", "union", "coalesce"] → arguments ≠ []

lemma Signature.ne_nil (h : Signature operator kinds)
    (hmem : operator ∈ ["project", "union", "coalesce"]) : kinds ≠ [] := by
  have hdisj (operators : List String) (hoperators : ∀ o ∈ operators, o ∉ ["project", "union",
      "coalesce"]) (ho : operator ∈ operators) : False := hoperators operator ho hmem
  cases h with
  | plain mem | texts mem | connective mem => exact (hdisj _ (by decide) mem).elim
  | values => exact absurd hmem (by decide)
  | project _ hsome | branches _ _ hsome => exact hsome
  | _ => simp

lemma CustomPredicate.symbol_notMem_nativePredicates (test : CustomPredicate) :
    test.symbol ∉ nativePredicates := by
  cases test <;> decide

lemma AllProper.covers (h : AllProper registry (partsAll code)) : Covers registry code where
  predicates test arguments hmem := by
    rcases (h _ hmem).1 with hnative | hinstalled
    · exact absurd hnative test.symbol_notMem_nativePredicates
    · exact mem_append_left _ hinstalled
  functions _ hmem := mem_append_right _ (h _ hmem)
  floats _ hmem := h _ hmem
  parameters _ hmem := h _ hmem
  branches operator arguments hmem hoperator := by
    have hsome := Signature.ne_nil (h _ hmem) hoperator
    simpa using hsome

lemma Program.emit_eq_ok {format : Format} {p : Program} :
    Program.emit registry format t = .ok p ↔ Traversal.IsValid registry t ∧ p.format = format ∧
      (p = .groovy (Traversal.groovy t) ∨ p = .bytecode (Traversal.bytecode t)) := by
  rw [Program.emit.eq_def, check_bind_eq_ok, check_eq_ok]
  refine and_congr_right fun _ => ?_
  cases format with
  | groovy | bytecode =>
    refine pure_eq_ok.trans ⟨?_, ?_⟩
    · rintro rfl
      simp [Program.format]
    · rintro ⟨hformat, rfl | rfl⟩
      all_goals first | rfl | cases hformat

/-- Whatever is printed has been checked.  A program is written from the instructions of its
traversal, and in them, at any depth, all custom symbols are installed, all numbers are finite, all
parameters are identifiers, and no call is left without an argument that needs one. -/
theorem Program.emit_covers {registry : Registry} {format : Format} {t : Traversal} {p : Program}
    (h : Program.emit registry format t = .ok p) :
    (p = .groovy ("g" ++ Instruction.groovyChain (Traversal.instructions .unbounded t)) ∧
      format = .groovy ∧ Covers registry (Traversal.instructions .unbounded t)) ∨
      (p = .bytecode (Traversal.instructions .capped t) ∧ format = .bytecode ∧
        Covers registry (Traversal.instructions .capped t)) := by
  obtain ⟨hvalid, hformat, rfl | rfl⟩ := Program.emit_eq_ok.1 h
  · exact .inl ⟨rfl, hformat.symm,
      (Traversal.allProper_instructions .unbounded hvalid.steps).covers⟩
  · exact .inr ⟨rfl, hformat.symm, (Traversal.allProper_instructions .capped hvalid.steps).covers⟩

/-- Gives one and a half for texts, and the text of a parameter for everything else. -/
def Traversal.converting : Traversal :=
  [.V, .coalesce [[.is (.custom .isString none), .constant (.list [.float ⟨0x3FF8000000000000⟩])],
    [.constant (.parameter "p"), .apply .toString]]]

/-- The program can be written for an engine that has just the two symbols in it. -/
theorem Program.emit_covers_converting :
    Program.emit ⟨[.isString], [.toString]⟩ .bytecode Traversal.converting =
        .ok (.bytecode (Traversal.instructions .capped Traversal.converting)) ∧
      Covers ⟨[.isString], [.toString]⟩ (Traversal.instructions .capped Traversal.converting) := by
  have hemit : Program.emit ⟨[.isString], [.toString]⟩ .bytecode Traversal.converting =
      .ok (.bytecode (Traversal.instructions .capped Traversal.converting)) := rfl
  rcases Program.emit_covers hemit with ⟨-, hformat, -⟩ | ⟨-, -, hcovers⟩
  · cases hformat
  · exact ⟨hemit, hcovers⟩

end CypherGremlin
