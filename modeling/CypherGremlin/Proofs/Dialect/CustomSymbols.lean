import CypherGremlin.Dialect.Pass
import CypherGremlin.Proofs.Traversal.Walk
import Mathlib.Data.String.Basic

/-!
# Which symbols a dialect refuses

A dialect without custom functions and predicates names the ones that a traversal uses and refuses
it.  Where they can stand is said here without a walk over steps: `Step.Holds` lists the places of a
step at which it holds a traversal, `Traversal.Occurs` follows them to any depth, and
`Step.UsesSymbol` lists the steps that use a custom symbol.

`Pass.refuseCustomSymbols_names` says that the refusal names exactly the symbols that are used, each
once and in increasing order.
-/

namespace CypherGremlin

open List

/-! ## Where a step can stand -/

/-- The step holds the traversal at one of its places. -/
inductive Step.Holds (c : Traversal) : Step → Prop
  | propertyFrom (key : String) : Holds c (.propertyFrom key c)
  | filter : Holds c (.filter c)
  | not : Holds c (.not c)
  | sideEffect : Holds c (.sideEffect c)
  | map : Holds c (.map c)
  | flatMap : Holds c (.flatMap c)
  | and {ts : List Traversal} (h : c ∈ ts) : Holds c (.and ts)
  | or {ts : List Traversal} (h : c ∈ ts) : Holds c (.or ts)
  | coalesce {ts : List Traversal} (h : c ∈ ts) : Holds c (.coalesce ts)
  | union {ts : List Traversal} (h : c ∈ ts) : Holds c (.union ts)
  | condition (yes no : Traversal) : Holds c (.choose (.traversal c) yes no)
  | yes (condition : Condition) (no : Traversal) : Holds c (.choose condition c no)
  | no (condition : Condition) (yes : Traversal) : Holds c (.choose condition yes c)
  | project {entries : List (Label × Traversal)} {l : Label} (h : (l, c) ∈ entries) : Holds c
    (.project entries)
  | order {keys : List (Traversal × SortOrder)} {o : SortOrder} (h : (c, o) ∈ keys) : Holds c
    (.order keys)
  | groupKey (value : Traversal) : Holds c (.group c value)
  | groupValue (key : Traversal) : Holds c (.group key c)

/-- The step is one of the traversal's own or one of a traversal that its steps hold, at any depth.
-/
inductive Traversal.Occurs (s : Step) : Traversal → Prop
  | own {t : Traversal} (h : s ∈ t) : Occurs s t
  | inside {t c : Traversal} {holder : Step} (h : holder ∈ t) (hholds : holder.Holds c)
    (hs : Occurs s c) : Occurs s t

/-- The step uses a custom function or predicate, which queries know by the name. -/
inductive Step.UsesSymbol : Step → String → Prop
  | apply (f : CustomFunction) : UsesSymbol (.apply f) f.name
  | is (p : CustomPredicate) (argument : Option Value) : UsesSymbol
    (.is (.custom p argument)) p.name
  | has (key : String) (p : CustomPredicate) (argument : Option Value) :
    UsesSymbol (.has key (.custom p argument)) p.name
  | choose (p : CustomPredicate) (argument : Option Value) (yes no : Traversal) :
    UsesSymbol (.choose (.predicate (.custom p argument)) yes no) p.name

variable {t t' c : Traversal} {s : Step} {name : String}

lemma Step.mem_children_iff : c ∈ s.children ↔ s.Holds c := by
  constructor
  · intro h
    cases s with
    | choose condition yes no =>
      cases condition <;> simp only [children, mem_cons, not_mem_nil, or_false] at h
      case predicate => rcases h with rfl | rfl; exacts [.yes _ _, .no _ _]
      case traversal => rcases h with rfl | rfl | rfl; exacts [.condition _ _, .yes _ _, .no _ _]
    | group key value =>
      simp only [children, mem_cons, not_mem_nil, or_false] at h
      rcases h with rfl | rfl
      exacts [.groupKey _, .groupValue _]
    | project entries =>
      obtain ⟨⟨l, _⟩, hmem, rfl⟩ := mem_map.1 h
      exact .project hmem
    | order keys =>
      obtain ⟨⟨_, o⟩, hmem, rfl⟩ := mem_map.1 h
      exact .order hmem
    | propertyFrom | filter | not | sideEffect | map | flatMap =>
      obtain rfl := mem_singleton.1 h
      constructor
    | and | or | coalesce | union => constructor; exact h
    | _ => exact absurd h not_mem_nil
  · intro h
    cases h with
    | yes condition | no condition => cases condition <;> simp [children]
    | project h => exact mem_map_of_mem h
    | order h => exact mem_map_of_mem h
    | _ => simp_all [children]

namespace Traversal

lemma Occurs.mono (h : Occurs s t) (hsub : t ⊆ t') : Occurs s t' := by
  cases h with
  | own h => exact .own (hsub h)
  | inside h hholds hs => exact .inside (hsub h) hholds hs

lemma occurs_of_mem_walk (t : Traversal) : ∀ s ∈ walk t, Occurs s t := by
  induction t using inductChildren with
  | nil => simp [walk]
  | cons first rest inside ih =>
    rw [walk, Step.walk_eq]
    intro s hs
    rcases mem_append.1 hs with h | h
    · rcases mem_cons.1 h with rfl | h
      · exact .own mem_cons_self
      · obtain ⟨c, hc, hs⟩ := mem_flatMap.1 h
        exact .inside mem_cons_self (Step.mem_children_iff.1 hc) (inside c hc s hs)
    · exact (ih s h).mono (subset_cons_self _ _)

lemma Occurs.mem_walk (h : Occurs s t) : s ∈ walk t := by
  induction h with
  | own h => exact (forall_mem_walk_iff.1 (fun _ hx => hx) _ h).1
  | inside h hholds _ ih =>
    exact (forall_mem_walk_iff.1 (fun _ hx => hx) _ h).2 _ (Step.mem_children_iff.2 hholds) _ ih

end Traversal

/-! ## Names in order -/

lemma separated_eq_intercalate (separator : String) (texts : List String) :
    separated separator texts = separator.intercalate texts := by
  fun_induction separated separator texts with
  | case1 => rfl
  | case2 text => rw [String.intercalate_singleton]
  | case3 text rest hne ih =>
    obtain ⟨next, more, rfl⟩ := exists_cons_of_ne_nil hne
    rw [ih, String.intercalate_cons_cons]

namespace Pass

open Traversal

lemma mem_insertName (name x : String) (names : List String) :
    x ∈ insertName name names ↔ x = name ∨ x ∈ names := by
  fun_induction insertName name names <;> simp_all [or_left_comm]

/-- Inserting a name keeps the names in increasing order. -/
lemma pairwise_insertName {names : List String} (h : names.Pairwise (· < ·)) :
    (insertName name names).Pairwise (· < ·) := by
  fun_induction insertName name names with
  | case1 => exact pairwise_singleton _ _
  | case2 first rest hlt =>
    refine .cons ?_ h
    rintro x (_ | ⟨_, hx⟩)
    · exact hlt
    · exact String.lt_trans hlt (rel_of_pairwise_cons h hx)
  | case3 first rest => exact h
  | case4 first rest hlt hne ih =>
    refine .cons (fun x hx => ?_) (ih h.of_cons)
    rcases (mem_insertName name x rest).1 hx with rfl | hx
    · exact lt_of_le_of_ne (String.not_lt.1 hlt) (Ne.symm (by simpa using hne))
    · exact rel_of_pairwise_cons h hx

lemma pairwise_customNames (t : Traversal) : (customNames t).Pairwise (· < ·) := by
  rw [customNames]
  induction (walk t).filterMap customName? with
  | nil => exact .nil
  | cons name names ih => exact pairwise_insertName ih

lemma customName?_eq_some_iff : customName? s = some name ↔ s.UsesSymbol name := by
  constructor
  · intro h
    rw [customName?.eq_def] at h
    split at h
    case h_1 => obtain rfl := Option.some.inj h; exact .apply _
    case h_5 => cases h
    all_goals
      rw [customPredicateName?.eq_def] at h
      split at h <;> cases h
      constructor
  · rintro (_ | _ | _ | _) <;> rfl

lemma mem_customNames_iff : name ∈ customNames t ↔ ∃ s, Occurs s t ∧ s.UsesSymbol name := by
  have hfold : ∀ names : List String, name ∈ names.foldr insertName [] ↔ name ∈ names :=
    fun names => by
    induction names with
    | nil => rfl
    | cons first rest ih => rw [foldr_cons, mem_insertName, ih, mem_cons]
  rw [customNames, hfold, mem_filterMap]
  constructor
  · rintro ⟨s, hs, hname⟩
    exact ⟨s, occurs_of_mem_walk t s hs, customName?_eq_some_iff.1 hname⟩
  · rintro ⟨s, hs, hname⟩
    exact ⟨s, hs.mem_walk, customName?_eq_some_iff.2 hname⟩

lemma refuseCustomSymbols_eq_error {fault : QueryFault} :
    refuseCustomSymbols t = .error fault ↔ customNames t ≠ [] ∧
      fault = .customSymbols (customNames t) := by
  rw [refuseCustomSymbols]
  cases customNames t <;> simp [eq_comm]

lemma not_usesSymbol_of_refuseCustomSymbols (h : refuseCustomSymbols t = .ok ()) (hs : s ∈ walk t) :
    ¬ s.UsesSymbol name := by
  intro hname
  have hmem : name ∈ customNames t := mem_customNames_iff.2 ⟨s, occurs_of_mem_walk t s hs, hname⟩
  have hrefused := refuseCustomSymbols_eq_error.2 ⟨ne_nil_of_mem hmem, rfl⟩
  rw [h] at hrefused
  cases hrefused

lemma message_customSymbols (names : List String) :
    (QueryFault.customSymbols names).message =
      "Custom functions and predicates are not supported on target implementation: " ++
      ", ".intercalate names :=
  congrArg (_ ++ ·) (separated_eq_intercalate ", " names)

/-- A traversal is refused if and only if a custom function or predicate is used somewhere in it,
and the refusal names the ones used, each once and in increasing order. -/
theorem refuseCustomSymbols_names (t : Traversal) :
    ((∃ fault, refuseCustomSymbols t = .error fault) ↔ ∃ s name, Occurs s t ∧ s.UsesSymbol name) ∧
      ∀ fault, refuseCustomSymbols t = .error fault →
        ∃ names : List String,
          fault = .customSymbols names ∧
          fault.message =
          "Custom functions and predicates are not supported on target implementation: " ++
            ", ".intercalate names ∧
          names.Pairwise (· < ·) ∧
          ∀ name, name ∈ names ↔ ∃ s, Occurs s t ∧ s.UsesSymbol name := by
  constructor
  · constructor
    · rintro ⟨fault, h⟩
      obtain ⟨name, hname⟩ := exists_mem_of_ne_nil _ (refuseCustomSymbols_eq_error.1 h).1
      obtain ⟨s, hs, huses⟩ := mem_customNames_iff.1 hname
      exact ⟨s, name, hs, huses⟩
    · rintro ⟨s, name, hs, hname⟩
      have hmem : name ∈ customNames t := mem_customNames_iff.2 ⟨s, hs, hname⟩
      exact ⟨_, refuseCustomSymbols_eq_error.2 ⟨ne_nil_of_mem hmem, rfl⟩⟩
  · intro fault h
    obtain ⟨-, rfl⟩ := refuseCustomSymbols_eq_error.1 h
    exact ⟨customNames t, rfl, message_customSymbols _, pairwise_customNames t,
      fun name => mem_customNames_iff⟩

end Pass

end CypherGremlin
