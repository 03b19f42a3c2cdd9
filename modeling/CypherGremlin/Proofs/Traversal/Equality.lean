import CypherGremlin.Proofs.Program.Validity
import CypherGremlin.Traversal.Equality

/-!
# Equality of traversals is reflexive without not-a-number

Equality of traversals compares numbers by value, so it is not reflexive: a dialect could go on for
ever with a program that holds not-a-number.  `Traversal.same_self` says that nothing else stands in
the way.
-/

namespace CypherGremlin

open List

def Value.IsFinite : Value → Prop
  | .float x => x.isFinite = true
  | _ => True

lemma Binary64.equal_self {x : Binary64} (h : x.isFinite = true) : x.equal x = true := by
  have hfield : ¬ x.exponentField = 2047 := by
    rw [Binary64.isFinite, decide_eq_true_eq] at h
    exact Nat.ne_of_lt h
  simp [Binary64.equal, Binary64.isNaN, hfield]

namespace Value

mutual

theorem same_self : ∀ v : Value, (∀ leaf ∈ v.leaves, leaf.IsFinite) → v.same v = true
  | .float x => fun h => Binary64.equal_self (h (.float x) (by simp [leaves]))
  | .list items => sameItems_self items
  | .map entries => sameEntries_self entries
  | .bool _ | .int _ | .string _ | .token _ | .parameter _ => fun _ => by simp [same]

theorem sameItems_self : ∀ vs : List Value, (∀ leaf ∈ allLeaves vs, leaf.IsFinite) →
    sameItems vs vs = true
  | [] => fun _ => rfl
  | v :: rest => fun h => by
    rw [allLeaves, forall_mem_append] at h
    rw [sameItems, same_self v h.1, sameItems_self rest h.2]
    rfl

theorem sameEntries_self :
    ∀ entries : List (String × Value), (∀ leaf ∈ entryLeaves entries, leaf.IsFinite) →
      sameEntries entries entries = true
  | [] => fun _ => rfl
  | (k, v) :: rest => fun h => by
    rw [entryLeaves, forall_mem_append] at h
    rw [sameEntries, same_self v h.1, sameEntries_self rest h.2, beq_self_eq_true]
    rfl

end

end Value

lemma Predicate.same_self {p : Predicate} (h : ∀ leaf ∈ Value.allLeaves p.operands, leaf.IsFinite) :
    p.same p = true := by
  cases p with
  | within vs | without vs => exact Value.sameItems_self vs h
  | custom test argument =>
    cases argument with
    | none => simp [Predicate.same, Value.sameOption]
    | some v =>
      have hv : v.same v = true := v.same_self fun leaf hleaf =>
        h leaf (by simp [operands, Value.allLeaves, hleaf])
      simp [Predicate.same, Value.sameOption, hv]
  | text test v =>
    have hv : v.same v = true := v.same_self fun leaf hleaf =>
      h leaf (by simp [operands, Value.allLeaves, hleaf])
    simp [Predicate.same, hv]
  | _ v => exact v.same_self fun leaf hleaf => h leaf (by simp [operands, Value.allLeaves, hleaf])

namespace Traversal

lemma sameAll_self {ts : List Traversal} (h : ∀ t ∈ ts, same t t = true) :
    sameAll ts ts = true := by
  induction ts with
  | nil => rfl
  | cons t rest ih =>
    obtain ⟨ht, hrest⟩ := forall_mem_cons.1 h
    rw [sameAll, ht, ih hrest]
    rfl

lemma sameEntries_self {entries : List (Label × Traversal)}
    (h : ∀ t ∈ entries.map Prod.snd, same t t = true) : sameEntries entries entries = true := by
  induction entries with
  | nil => rfl
  | cons entry rest ih =>
    obtain ⟨ht, hrest⟩ := forall_mem_cons.1 h
    rw [sameEntries, ht, ih hrest, beq_self_eq_true]
    rfl

lemma sameKeys_self {keys : List (Traversal × SortOrder)}
    (h : ∀ t ∈ keys.map Prod.fst, same t t = true) : sameKeys keys keys = true := by
  induction keys with
  | nil => rfl
  | cons key rest ih =>
    obtain ⟨ht, hrest⟩ := forall_mem_cons.1 h
    rw [sameKeys, ht, ih hrest, beq_self_eq_true]
    rfl

end Traversal

lemma Step.same_self {s : Step} (hleaves : ∀ leaf ∈ s.leaves, leaf.IsFinite)
    (hchild : ∀ t ∈ s.children, Traversal.same t t = true) : s.same s = true := by
  rw [Step.leaves, forall_mem_append, forall_mem_flatMap] at hleaves
  obtain ⟨hvals, hpred⟩ := hleaves
  have hp : ∀ p ∈ s.ownPredicate?, p.same p = true := fun p hp =>
    Predicate.same_self (hpred p (Option.mem_toList.2 hp))
  have hv : ∀ v ∈ s.ownValues, v.same v = true := by
    refine fun v hv => v.same_self fun leaf hleaf => hvals leaf ?_
    rw [Value.allLeaves_eq]
    exact mem_flatMap.2 ⟨v, hv, hleaf⟩
  cases s with
  | property key v => exact Bool.and_eq_true_iff.2 ⟨beq_self_eq_true key, hv v mem_cons_self⟩
  | constant v => exact hv v mem_cons_self
  | inject vs => exact Value.sameItems_self vs hvals
  | has key p => exact Bool.and_eq_true_iff.2 ⟨beq_self_eq_true key, hp p rfl⟩
  | is p => exact hp p rfl
  | propertyFrom key t =>
    exact Bool.and_eq_true_iff.2 ⟨beq_self_eq_true key, hchild t mem_cons_self⟩
  | choose c yes no =>
    have hyes : Traversal.same yes yes = true := hchild yes (by cases c <;> simp [Step.children])
    have hno : Traversal.same no no = true := hchild no (by cases c <;> simp [Step.children])
    have hc : c.same c = true := by
      cases c with
      | predicate p => exact hp p rfl
      | traversal t => exact hchild t mem_cons_self
    exact Bool.and_eq_true_iff.2 ⟨Bool.and_eq_true_iff.2 ⟨hc, hyes⟩, hno⟩
  | group key value =>
    exact Bool.and_eq_true_iff.2 ⟨hchild key mem_cons_self, hchild value (by simp [Step.children])⟩
  | filter t | not t | sideEffect t | map t | flatMap t => exact hchild t mem_cons_self
  | and ts | or ts | coalesce ts | union ts => exact Traversal.sameAll_self hchild
  | project entries => exact Traversal.sameEntries_self hchild
  | order keys => exact Traversal.sameKeys_self hchild
  | addE type source target =>
    have hends : (type == type && source == source) = true := by simp
    exact Bool.and_eq_true_iff.2 ⟨hends, beq_self_eq_true target⟩
  | whereLabel comparison label =>
    exact Bool.and_eq_true_iff.2 ⟨beq_self_eq_true comparison, beq_self_eq_true label⟩
  | range low high => exact Bool.and_eq_true_iff.2 ⟨beq_self_eq_true low, beq_self_eq_true high⟩
  | addV a | outE a | inE a | bothE a | hasLabel a | hasNot a | hasKey a | «as» a | select a
  | selectKey a
  | selectColumn a | values a | valueMap a | properties a | count a | aggregate a | cap a | limit a
  | skip a
  | apply a => exact beq_self_eq_true a
  | _ => rfl

/-- A traversal without not-a-number is equal to itself. -/
theorem Traversal.same_self {t : Traversal} (h : ∀ s ∈ walk t, ∀ leaf ∈ s.leaves, leaf.IsFinite) :
    same t t = true := by
  induction t using inductChildren with
  | nil => rfl
  | cons s rest hchild hrest =>
    obtain ⟨⟨hs, hinside⟩, hafter⟩ := forall_mem_cons.1 (forall_mem_walk_iff.1 h)
    rw [same, Step.same_self hs fun t ht => hchild t ht (hinside t ht),
      hrest (forall_mem_walk_iff.2 hafter)]
    rfl

end CypherGremlin
