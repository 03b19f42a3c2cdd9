import CypherGremlin.Program.Bytecode
import CypherGremlin.Program.Groovy
import CypherGremlin.Proofs.Traversal.Walk

/-!
# Instructions up to their text

Groovy text does not show everything that instructions hold.  A token is written like the string
that encodes it, a nested traversal without instructions like one that does nothing, and a parameter
named `true` or `false` like the truth value.  `Argument.identify` takes these for the same; it also
changes the integers, so that the instructions of the two formats can be compared.

Identified instructions have the same text (`Argument.groovy_identify`), and those of bytecode come
from those of text (`Traversal.identifyAll_bytecode`).
-/

namespace CypherGremlin

variable {ι κ μ : Type}

open Argument List Traversal

/-- What a name in a program stands for: a truth value, or else a parameter. -/
def Argument.ofName (name : String) : Argument ι :=
  if name = "true" then .bool true else if name = "false" then .bool false else .binding name

/-- A nested traversal as it is written: one without instructions does nothing. -/
def Instruction.orIdentity : List (Instruction ι) → List (Instruction ι)
  | [] => [.call "identity" []]
  | i :: rest => i :: rest

mutual

/-- The instruction with its arguments identified and its integers changed. -/
def Instruction.identify (f : ι → κ) : Instruction ι → Instruction κ
  | .call operator arguments => .call operator (Argument.identifyAll f arguments)

/-- The argument up to its text, with integers changed. -/
def Argument.identify (f : ι → κ) : Argument ι → Argument κ
  | .bool b => .bool b
  | .int i => .int (f i)
  | .float x => .float x
  | .string s => .string s
  | .list items => .list (Argument.identifyAll f items)
  | .map entries => .map (Argument.identifyEntries f entries)
  | .token encoded => .string encoded
  | .binding name => .ofName name
  | .predicate operator arguments => .predicate operator (Argument.identifyAll f arguments)
  | .traversal code => .traversal (Instruction.orIdentity (Instruction.identifyAll f code))
  | .constant kind name => .constant kind name
  | .function symbol => .function symbol

def Argument.identifyAll (f : ι → κ) : List (Argument ι) → List (Argument κ)
  | [] => []
  | a :: rest => a.identify f :: Argument.identifyAll f rest

/-- The entries of a map up to their text. -/
def Argument.identifyEntries (f : ι → κ) : List (String × Argument ι) → List (String × Argument κ)
  | [] => []
  | (k, a) :: rest => (k, a.identify f) :: Argument.identifyEntries f rest

def Instruction.identifyAll (f : ι → κ) : List (Instruction ι) → List (Instruction κ)
  | [] => []
  | i :: rest => i.identify f :: Instruction.identifyAll f rest

end

lemma Argument.identifyAll_eq_map (f : ι → κ) (as : List (Argument ι)) :
    identifyAll f as = as.map (identify f) :=
  eq_map_of_cons rfl (fun _ _ => rfl) as

lemma Instruction.identifyAll_eq_map (f : ι → κ) (is : List (Instruction ι)) :
    Instruction.identifyAll f is = is.map (Instruction.identify f) :=
  eq_map_of_cons rfl (fun _ _ => rfl) is

/-! ## Identifying twice -/

lemma Argument.identify_ofName (f : ι → κ) (name : String) :
    (ofName name : Argument ι).identify f = .ofName name := by
  unfold ofName
  split
  · rfl
  · split
    · rfl
    · rename_i htrue hfalse
      rw [identify, ofName, if_neg htrue, if_neg hfalse]

lemma Instruction.orIdentity_identifyAll (f : ι → κ) (code : List (Instruction ι)) :
    Instruction.orIdentity (Instruction.identifyAll f (Instruction.orIdentity code)) =
      Instruction.orIdentity (Instruction.identifyAll f code) := by
  cases code <;> rfl

mutual

theorem Instruction.identify_identify (g : κ → μ) (f : ι → κ) :
    ∀ i : Instruction ι, (i.identify f).identify g = i.identify (g ∘ f)
  | .call operator arguments => by
    rw [Instruction.identify, Instruction.identify, Instruction.identify,
      Argument.identifyAll_identifyAll g f arguments]

/-- Integers can be changed step by step. -/
theorem Argument.identify_identify (g : κ → μ) (f : ι → κ) :
    ∀ a : Argument ι, (a.identify f).identify g = a.identify (g ∘ f)
  | .list items => congrArg list (Argument.identifyAll_identifyAll g f items)
  | .map entries => congrArg Argument.map (Argument.identifyEntries_identifyEntries g f entries)
  | .binding name => identify_ofName g name
  | .predicate operator arguments =>
    congrArg (predicate operator) (Argument.identifyAll_identifyAll g f arguments)
  | .traversal code => by
    rw [identify, identify, Instruction.orIdentity_identifyAll,
      Instruction.identifyAll_identifyAll g f code, identify]
  | .bool _ | .int _ | .float _ | .string _ | .token _ | .constant _ _ | .function _ => rfl

theorem Argument.identifyAll_identifyAll (g : κ → μ) (f : ι → κ) :
    ∀ as : List (Argument ι), identifyAll g (identifyAll f as) = identifyAll (g ∘ f) as
  | [] => rfl
  | a :: rest =>
    congrArg₂ List.cons (Argument.identify_identify g f a)
    (Argument.identifyAll_identifyAll g f rest)

theorem Argument.identifyEntries_identifyEntries (g : κ → μ) (f : ι → κ) :
    ∀ as : List (String × Argument ι),
    identifyEntries g (identifyEntries f as) = identifyEntries (g ∘ f) as
  | [] => rfl
  | (k, a) :: rest => congrArg₂ List.cons (congrArg (Prod.mk k) (Argument.identify_identify g f a))
      (Argument.identifyEntries_identifyEntries g f rest)

theorem Instruction.identifyAll_identifyAll (g : κ → μ) (f : ι → κ) :
    ∀ is : List (Instruction ι), Instruction.identifyAll g (Instruction.identifyAll f is) =
      Instruction.identifyAll (g ∘ f) is
  | [] => rfl
  | i :: rest =>
    congrArg₂ List.cons (Instruction.identify_identify g f i)
    (Instruction.identifyAll_identifyAll g f rest)

end

/-! ## Text -/

lemma Argument.groovy_ofName (name : String) : (ofName name).groovy = name := by
  unfold ofName
  split
  · rename_i h
    exact h.symm
  · split
    · rename_i h
      exact h.symm
    · rfl

lemma Argument.groovy_traversal (code : List (Instruction Int)) :
    (traversal code).groovy = "__" ++ Instruction.groovyChain (Instruction.orIdentity code) := by
  cases code with
  | nil => decide
  | cons i rest => rfl

mutual

theorem Instruction.groovy_identify : ∀ i : Instruction Int, (i.identify id).groovy = i.groovy
  | .call operator arguments => by
    rw [Instruction.identify, Instruction.groovy, Instruction.groovy,
      Argument.groovyAll_identifyAll arguments]

/-- Identified arguments have the same text. -/
theorem Argument.groovy_identify : ∀ a : Argument Int, (a.identify id).groovy = a.groovy
  | .list items => by
    rw [identify, Argument.groovy, Argument.groovy, Argument.groovyAll_identifyAll items]
  | .map [] => rfl
  | .map ((k, a) :: rest) => by
    rw [identify, identifyEntries, Argument.groovy, Argument.groovy, groovyEntries,
      groovyEntries, Argument.groovy_identify a, Argument.groovyEntries_identifyEntries rest]
  | .binding name => groovy_ofName name
  | .predicate operator arguments => by
    rw [identify, Argument.groovy, Argument.groovy, Argument.groovyAll_identifyAll arguments]
  | .traversal [] => by decide
  | .traversal (i :: rest) => by
    rw [identify, Instruction.identifyAll, Instruction.orIdentity, Argument.groovy, Argument.groovy,
      Instruction.groovyChain, Instruction.groovyChain, Instruction.groovy_identify i,
      Instruction.groovyChain_identifyAll rest]
  | .bool _ | .int _ | .float _ | .string _ | .token _ | .constant _ _ | .function _ => rfl

theorem Argument.groovyAll_identifyAll :
    ∀ as : List (Argument Int), groovyAll (identifyAll id as) = groovyAll as
  | [] => rfl
  | a :: rest =>
    congrArg₂ List.cons (Argument.groovy_identify a) (Argument.groovyAll_identifyAll rest)

theorem Argument.groovyEntries_identifyEntries : ∀ as : List (String × Argument Int),
    groovyEntries (identifyEntries id as) = groovyEntries as
  | [] => rfl
  | (k, a) :: rest => by
    rw [identifyEntries, groovyEntries, groovyEntries, Argument.groovy_identify a,
      Argument.groovyEntries_identifyEntries rest]

theorem Instruction.groovyChain_identifyAll :
    ∀ is : List (Instruction Int), Instruction.groovyChain (Instruction.identifyAll id is) =
      Instruction.groovyChain is
  | [] => rfl
  | i :: rest =>
    congrArg₂ String.append (Instruction.groovy_identify i)
    (Instruction.groovyChain_identifyAll rest)

end

/-! ## The integers of the two formats -/

/-- The same integers in another type. -/
def Integers.map (f : ι → κ) (ints : Integers ι) : Integers κ where
  ofLiteral i := f (ints.ofLiteral i)
  ofBound n := f (ints.ofBound n)

/-- An integer of text as an integer of bytecode. -/
def capInteger (i : Int) : Int64 := Int64.ofInt (min i largestInt64)

lemma Integers.map_unbounded : Integers.unbounded.map capInteger = Integers.capped := by
  have hlit (i : Int64) : capInteger i.toInt = i := by
    have hle : i.toInt ≤ largestInt64 := i.toInt_le
    rw [capInteger, Int.min_eq_left hle, Int64.ofInt_toInt]
  have hbound (n : UInt64) : capInteger n.toNat = Int64.ofNat (min n.toNat largestInt64) := by
    have hmin : min (n.toNat : Int) largestInt64 = ((min n.toNat largestInt64 : Nat) : Int) := by
      omega
    rw [capInteger, hmin, Int64.ofInt_eq_ofNat]
  simp only [Integers.map, Integers.unbounded, Integers.capped, hlit, hbound]

variable (f : ι → κ) (ints : Integers ι)

namespace Value

mutual

/-- Integers of a constant can be changed before or after its argument is made. -/
theorem identify_argument :
    ∀ v : Value, (v.argument ints).identify f = (v.argument (ints.map f)).identify id
  | .list items => congrArg Argument.list (identifyAll_arguments items)
  | .map entries => congrArg Argument.map (identifyEntries_entryArguments entries)
  | .bool _ | .int _ | .float _ | .string _ | .token _ | .parameter _ => rfl

theorem identifyAll_arguments : ∀ vs : List Value,
    identifyAll f (arguments ints vs) = identifyAll id (arguments (ints.map f) vs)
  | [] => rfl
  | v :: rest => congrArg₂ List.cons (identify_argument v) (identifyAll_arguments rest)

theorem identifyEntries_entryArguments : ∀ vs : List (String × Value),
    identifyEntries f (entryArguments ints vs) = identifyEntries id (entryArguments (ints.map f) vs)
  | [] => rfl
  | (k, v) :: rest =>
    congrArg₂ List.cons (congrArg (Prod.mk k) (identify_argument v))
      (identifyEntries_entryArguments rest)

end

end Value

lemma Predicate.identify_argument (p : Predicate) :
    (p.argument ints).identify f = (p.argument (ints.map f)).identify id :=
  congrArg (predicate p.operator) (Value.identifyAll_arguments f ints p.operands)

lemma Argument.identifyAll_texts {α : Type} (text : α → String) (items : List α) :
    identifyAll f (items.map fun item => .string (text item)) =
      identifyAll id (items.map fun item => (.string (text item) : Argument κ)) := by
  simp [identifyAll_eq_map, identify]

/-- The integers of the traversal can be changed before or after its instructions are made. -/
def Traversal.Changes (t : Traversal) : Prop :=
  Instruction.identifyAll f (Traversal.instructions ints t) =
    Instruction.identifyAll id (Traversal.instructions (ints.map f) t)

section

variable {f ints}

lemma Traversal.Changes.argument {t : Traversal} (h : Traversal.Changes f ints t) :
    (traversal (instructions ints t)).identify f =
    (traversal (instructions (ints.map f) t)).identify id :=
  congrArg (fun code => traversal (Instruction.orIdentity code)) h

lemma Traversal.identifyAll_branchArguments {ts : List Traversal}
    (h : ∀ t ∈ ts, Traversal.Changes f ints t) :
    identifyAll f (branchArguments ints ts) = identifyAll id (branchArguments (ints.map f) ts) := by
  induction ts with
  | nil => rfl
  | cons t rest ih =>
    obtain ⟨ht, hrest⟩ := forall_mem_cons.1 h
    exact congrArg₂ List.cons ht.argument (ih hrest)

lemma Traversal.identifyAll_entryModulators {entries : List (Label × Traversal)}
    (h : ∀ t ∈ entries.map Prod.snd, Traversal.Changes f ints t) :
    Instruction.identifyAll f (entryModulators ints entries) =
      Instruction.identifyAll id (entryModulators (ints.map f) entries) := by
  induction entries with
  | nil => rfl
  | cons entry rest ih =>
    obtain ⟨hentry, hrest⟩ := forall_mem_cons.1 h
    exact congrArg₂ (fun a rest => .call "by" [a] :: rest) hentry.argument (ih hrest)

lemma Traversal.identifyAll_keyModulators {keys : List (Traversal × SortOrder)}
    (h : ∀ t ∈ keys.map Prod.fst, Traversal.Changes f ints t) :
    Instruction.identifyAll f (keyModulators ints keys) =
      Instruction.identifyAll id (keyModulators (ints.map f) keys) := by
  induction keys with
  | nil => rfl
  | cons key rest ih =>
    obtain ⟨hkey, hrest⟩ := forall_mem_cons.1 h
    obtain ⟨t, order⟩ := key
    have horder : (order.argument : Argument ι).identify f = (order.argument : Argument κ).identify
        id := by
      cases order <;> rfl
    exact congr (congrArg₂ (fun a o rest => .call "by" [a, o] :: rest) hkey.argument horder)
      (ih hrest)

lemma Instruction.identifyAll_step {s : Step} (h : ∀ t ∈ s.children, Traversal.Changes f ints t) :
    Instruction.identifyAll f (s.instructions ints) = Instruction.identifyAll id
    (s.instructions (ints.map f)) := by
  have hcall (operator : String) {arguments : List (Argument ι)} {arguments' : List (Argument κ)}
      (hargs : Argument.identifyAll f arguments = Argument.identifyAll id arguments') :
      Instruction.identifyAll f [.call operator arguments] = Instruction.identifyAll id
      [.call operator arguments'] :=
    congrArg (fun as => [Instruction.call operator as]) hargs
  have hone {a : Argument ι} {a' : Argument κ} (ha : a.identify f = a'.identify id) :
      Argument.identifyAll f [a] = Argument.identifyAll id [a'] := congrArg (fun a => [a]) ha
  -- Values, predicates and nested traversals have lemmas of their own; the rest is evaluation.
  cases s with
  | addV label => exact hcall _ (identifyAll_texts f _ _)
  | outE texts | inE texts | bothE texts | hasLabel texts | values texts | properties texts =>
    exact hcall _ (identifyAll_texts f _ texts)
  | select labels => exact hcall _ (identifyAll_texts f _ labels)
  | property k v =>
    exact hcall _ (congrArg (fun a => [string k, a]) (Value.identify_argument f ints v))
  | propertyFrom k t =>
    exact hcall _ (congrArg (fun a => [string k, a]) (h t (by simp [Step.children])).argument)
  | has k p =>
    exact hcall _ (congrArg (fun a => [string k, a]) (Predicate.identify_argument f ints p))
  | is p => exact hcall _ (hone (Predicate.identify_argument f ints p))
  | filter t | not t | sideEffect t | map t | flatMap t =>
    exact hcall _ (hone (h t (by simp [Step.children])).argument)
  | and ts | or ts | coalesce ts | union ts => exact hcall _ (identifyAll_branchArguments h)
  | selectColumn column => cases column <;> rfl
  | choose c yes no =>
    have hyes := (h yes (by cases c <;> simp [Step.children])).argument
    have hno := (h no (by cases c <;> simp [Step.children])).argument
    have hcond : (c.argument ints).identify f = (c.argument (ints.map f)).identify id := by
      cases c with
      | predicate p => exact Predicate.identify_argument f ints p
      | traversal t => exact (h t (by simp [Step.children])).argument
    exact hcall _ (congr (congrArg₂ (fun a b c => [a, b, c]) hcond hyes) hno)
  | constant v => exact hcall _ (hone (Value.identify_argument f ints v))
  | inject vs => exact hcall _ (Value.identifyAll_arguments f ints vs)
  | project entries =>
    exact congrArg₂ (fun as rest => .call "project" as :: rest)
      (identifyAll_texts f (fun entry : Label × Traversal => entry.1.encode) entries)
      (identifyAll_entryModulators h)
  | order keys => exact congrArg (.call "order" [] :: ·) (identifyAll_keyModulators h)
  | group k v =>
    exact congrArg₂ (fun a b => [Instruction.call "group" [], .call "by" [a], .call "by" [b]])
      (h k (by simp [Step.children])).argument (h v (by simp [Step.children])).argument
  | count scope => cases scope <;> rfl
  | _ => rfl

end

/-- The integers of a traversal can be changed before or after its instructions are made. -/
theorem Traversal.changes (t : Traversal) : Traversal.Changes f ints t := by
  induction t using inductChildren with
  | nil => rfl
  | cons s rest hchild hrest =>
    rw [Changes, instructions, instructions, Instruction.identifyAll_eq_map,
      Instruction.identifyAll_eq_map, map_append, map_append]
    simp only [← Instruction.identifyAll_eq_map]
    exact congrArg₂ (· ++ ·) (Instruction.identifyAll_step hchild) hrest

/-- Bytecode is determined, up to its text, by the instructions of the text. -/
theorem Traversal.identifyAll_bytecode (t : Traversal) : Instruction.identifyAll id (bytecode t) =
    Instruction.identifyAll capInteger
    (Instruction.identifyAll id (instructions .unbounded t)) := by
  rw [Instruction.identifyAll_identifyAll, Function.comp_id, changes capInteger .unbounded t,
    Integers.map_unbounded, bytecode]

end CypherGremlin
