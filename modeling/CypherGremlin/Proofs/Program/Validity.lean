import CypherGremlin.Program.Basic
import CypherGremlin.Proofs.Except
import CypherGremlin.Proofs.Traversal.Text

/-!
# What it takes to be a program

`Traversal.check` goes through a traversal step by step and stops at the first fault.  Here is what
it accepts, said without an order: a traversal is valid if it begins with a step that needs no input
and each of its steps is valid, and a step is valid if it has the arguments that it needs, its
symbols are installed, and the leaves of its constants can be written.

`Traversal.check_eq_ok` says that the check accepts exactly the valid traversals, and
`Program.exists_emit` that every one of them can be written in either format.
-/

namespace CypherGremlin

variable {registry : Registry} {s : Step} {t : Traversal}

/-! ## Constants -/

namespace Value

/-- The leaf of a constant can be written: a number is finite, and a parameter is an identifier. -/
def IsWritable : Value → Prop
  | .float x => x.isFinite = true
  | .parameter name => isIdentifier name = true
  | _ => True

mutual

/-- A constant is accepted if its leaves can be written. -/
theorem check_eq_ok (step : String) :
    ∀ v : Value, v.check step = .ok () ↔ ∀ leaf ∈ v.leaves, leaf.IsWritable
  | .float x | .parameter x => by
    simp only [check, leaves, List.forall_mem_singleton, IsWritable]
    split <;> simp_all
  | .list items => checkAll_eq_ok step items
  | .map entries => checkEntries_eq_ok step entries
  | .bool _ | .int _ | .string _ | .token _ => by simp [check, leaves, IsWritable]

theorem checkAll_eq_ok (step : String) :
    ∀ vs : List Value, checkAll step vs = .ok () ↔ ∀ leaf ∈ allLeaves vs, leaf.IsWritable
  | [] => by simp [checkAll, allLeaves]
  | v :: rest => by
    rw [checkAll, allLeaves, check_bind_eq_ok, List.forall_mem_append, check_eq_ok step v,
      checkAll_eq_ok step rest]

theorem checkEntries_eq_ok (step : String) :
    ∀ vs : List (String × Value), checkEntries step vs = .ok () ↔
      ∀ leaf ∈ entryLeaves vs, leaf.IsWritable
  | [] => by simp [checkEntries, entryLeaves]
  | (_, v) :: rest => by
    rw [checkEntries, entryLeaves, check_bind_eq_ok, List.forall_mem_append, check_eq_ok step v,
      checkEntries_eq_ok step rest]

end

end Value

/-! ## Steps -/

namespace Step

/-- The constants of a step and of its predicate, down to their leaves. -/
def leaves (s : Step) : List Value :=
  Value.allLeaves s.ownValues ++ s.ownPredicate?.toList.flatMap fun p => Value.allLeaves p.operands

structure IsValid (registry : Registry) (s : Step) : Prop where
  project : s ≠ .project []
  union : s ≠ .union []
  coalesce : s ≠ .coalesce []
  function : ∀ f, s = .apply f → f ∈ registry.functions
  predicate : ∀ test argument, s.ownPredicate? = some (.custom test argument) →
    test ∈ registry.predicates
  leaves : ∀ leaf ∈ s.leaves, leaf.IsWritable

lemma checkShape_eq_ok : s.checkShape registry = .ok () ↔
    s ≠ .project [] ∧ s ≠ .union [] ∧ s ≠ .coalesce [] ∧ ∀ f, s = .apply f →
      f ∈ registry.functions := by
  fun_cases checkShape registry s <;> simp_all

end Step

lemma Predicate.checkSymbol_eq_ok {p : Predicate} : p.checkSymbol registry = .ok () ↔
    ∀ test argument, p = .custom test argument → test ∈ registry.predicates := by
  fun_cases Predicate.checkSymbol registry p <;> simp_all

lemma Predicate.check_eq_ok {step : String} {p : Predicate} : p.check registry step = .ok () ↔
    (∀ test argument, p = .custom test argument → test ∈ registry.predicates) ∧
      ∀ leaf ∈ Value.allLeaves p.operands, leaf.IsWritable := by
  rw [Predicate.check, check_bind_eq_ok, checkSymbol_eq_ok, Value.checkAll_eq_ok]

lemma Step.isValid_iff : s.IsValid registry ↔
    (s ≠ .project [] ∧ s ≠ .union [] ∧ s ≠ .coalesce [] ∧ ∀ f, s = .apply f →
      f ∈ registry.functions) ∧
    (∀ leaf ∈ Value.allLeaves s.ownValues, leaf.IsWritable) ∧
    ∀ p, s.ownPredicate? = some p → p.check registry s.name = .ok () := by
  simp only [Predicate.check_eq_ok]
  constructor
  · intro h
    obtain ⟨hvals, hoperands⟩ := List.forall_mem_append.1 h.leaves
    refine ⟨⟨h.project, h.union, h.coalesce, h.function⟩, hvals,
      fun p hp => ⟨fun test argument heq => ?_, ?_⟩⟩
    · exact h.predicate test argument (heq ▸ hp)
    · exact List.forall_mem_flatMap.1 hoperands p (Option.mem_toList.2 hp)
  · rintro ⟨⟨hproj, hunion, hcoalesce, hfun⟩, hvals, hpred⟩
    refine ⟨hproj, hunion, hcoalesce, hfun, fun test argument heq => ?_, ?_⟩
    · exact (hpred _ heq).1 test argument rfl
    · refine List.forall_mem_append.2 ⟨hvals, List.forall_mem_flatMap.2 fun p hp => ?_⟩
      exact (hpred p (Option.mem_toList.1 hp)).2

theorem Step.check_eq_ok : s.check registry = .ok () ↔ s.IsValid registry := by
  rw [isValid_iff, check, check_bind_eq_ok, check_bind_eq_ok, checkShape_eq_ok,
    Value.checkAll_eq_ok]
  cases s.ownPredicate? with
  | none => simp [pure, Except.pure]
  | some p => simp

/-- The traversal can be written as a program. -/
structure Traversal.IsValid (registry : Registry) (t : Traversal) : Prop where
  start : ∃ s rest, t = s :: rest ∧ s.isStart = true
  steps : ∀ s ∈ Traversal.walk t, s.IsValid registry

lemma Traversal.checkStart_eq_ok : Traversal.checkStart t = .ok () ↔ ∃ s rest, t = s :: rest ∧
    s.isStart = true := by
  fun_cases Traversal.checkStart t <;> simp_all

/-- The check accepts exactly the valid traversals. -/
theorem Traversal.check_eq_ok :
    Traversal.check registry t = .ok () ↔ Traversal.IsValid registry t := by
  rw [check, check_bind_eq_ok, checkStart_eq_ok, forM_eq_ok]
  simp only [Step.check_eq_ok]
  exact ⟨fun ⟨hstart, hsteps⟩ => ⟨hstart, hsteps⟩, fun h => ⟨h.start, h.steps⟩⟩

theorem Program.exists_emit (h : Traversal.IsValid registry t) (format : Format) :
    ∃ program, Program.emit registry format t = .ok program ∧ program.format = format := by
  have hcheck := Traversal.check_eq_ok.2 h
  cases format with
  | groovy => exact ⟨.groovy (Traversal.groovy t), by rw [emit, hcheck]; rfl, rfl⟩
  | bytecode => exact ⟨.bytecode (Traversal.bytecode t), by rw [emit, hcheck]; rfl, rfl⟩

end CypherGremlin
