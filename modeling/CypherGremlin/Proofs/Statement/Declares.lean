import CypherGremlin.Proofs.Statement.Lowers.Matching

/-!
# The variables that patterns declare

Patterns declare variables as they go along.  New variables stand behind the old ones in the scope,
whatever the patterns have in common with each other and with what was in scope before:
`Draft.Declares` says which they are, namely those that the patterns name and that were not in
scope, each where it stands first.  `Matching.MatchesAll.declares` and `Matching.All.declares` are
for the patterns of a clause.
-/

namespace CypherGremlin

variable {draft draft₁ draft₂ : Draft} {t : Traversal} {names : List String} {isOptional : Bool}

open List Table

/-! ## Names that are new -/

/-- The names that are not known yet, each where it stands first. -/
def firstNames (known : List String) : List String → List String
  | [] => []
  | v :: rest => if v ∈ known then firstNames known rest else v :: firstNames (known ++ [v]) rest

section

variable {known : List String} {v : String}

lemma firstNames_append (known a b : List String) :
    firstNames known (a ++ b) = firstNames known a ++ firstNames
    (known ++ firstNames known a) b := by
  fun_induction firstNames known a with
  | case1 => simp
  | case2 known v rest hknown ih => simpa [firstNames, hknown] using ih
  | case3 known v rest hnew ih => simpa [firstNames, hnew] using ih

lemma mem_firstNames : v ∈ firstNames known names ↔ v ∈ names ∧ v ∉ known := by
  fun_induction firstNames known names with
  | case1 => simp
  | case2 known w rest hknown ih => grind
  | case3 known w rest hnew ih => grind

lemma nodup_firstNames (known names : List String) : (firstNames known names).Nodup := by
  fun_induction firstNames known names with
  | case1 => exact nodup_nil
  | case2 known w rest hknown ih => exact ih
  | case3 known w rest hnew ih => exact nodup_cons.2 ⟨by simp [mem_firstNames], ih⟩

lemma Table.keys_put {α : Type} (table : Table String α) (key : String) (value : α) :
    keys (put table key value) = keys table ++ firstNames (keys table) [key] := by
  by_cases h : key ∈ keys table
  · simp [keys_put_of_mem value h, firstNames, h]
  · simp [put_of_notMem value h, firstNames, h]

end

/-! ## What patterns declare -/

def Hop.vars (hop : Hop) : List String := hop.rel.var.toList ++ hop.node.var.toList

/-- The names of a pattern, in the order in which they come into scope. -/
def Pattern.declared (p : Pattern) : List String :=
  p.start.var.toList ++ p.hops.flatMap Hop.vars ++ p.path.toList

namespace Draft

/-- What has been introduced stands behind the old variables. -/
lemma introduced_of_keys (h : Table.keys draft₁.scope.vars = Table.keys draft.scope.vars ++ names) :
    draft.introduced draft₁ = names := by
  have hlen : draft.scope.vars.length = (Table.keys draft.scope.vars).length := (length_map _).symm
  rw [introduced, h, hlen, drop_left]

/-- Behind the variables in scope stand those of the given names that are new, and the buckets in
use are the same.  In an optional match new variables may be null, the steps put their labels, and
nothing else comes into scope. -/
structure Declares (isOptional : Bool) (draft : Draft) (names : List String) (t : Traversal)
    (draft' : Draft) : Prop where
  keys : Table.keys draft'.scope.vars = Table.keys draft.scope.vars ++
    firstNames (Table.keys draft.scope.vars) names
  buckets : draft'.buckets = draft.buckets
  /-- A variable is what it was or is new, unless a path has taken its name. -/
  bindings : ∀ v binding, draft'.scope.binding? v = some binding → binding.kind = .path ∨
    draft.scope.binding? v = some binding ∨ v ∉ Table.keys draft.scope.vars ∧
    binding.nullable = isOptional
  optional : isOptional = true → ∃ new : Table String Binding,
    draft'.scope = { draft.scope with vars := draft.scope.vars ++ new } ∧
    (∀ entry ∈ new, entry.2.nullable = true) ∧ ∀ v ∈ Table.keys new, .as (.named v) ∈ t

namespace Declares

lemma refl (draft : Draft) (t : Traversal) : draft.Declares isOptional [] t draft :=
  ⟨by simp [firstNames], rfl, fun _ _ h => .inr (.inl h), fun _ => ⟨[], by simp, by simp, by simp⟩⟩

lemma append {names' : List String} {t' : Traversal} (h : draft.Declares isOptional names t draft₁)
    (h' : draft₁.Declares isOptional names' t' draft₂) :
    draft.Declares isOptional (names ++ names') (t ++ t') draft₂ := by
  refine ⟨?_, h'.buckets.trans h.buckets, fun v binding hv => ?_, fun hopt => ?_⟩
  · rw [h'.keys, h.keys, firstNames_append, append_assoc]
  · obtain hpath | hv | ⟨hnew, hnullable⟩ := h'.bindings v binding hv
    · exact .inl hpath
    · exact h.bindings v binding hv
    · exact .inr (.inr ⟨fun hold => hnew (h.keys ▸ mem_append_left _ hold), hnullable⟩)
  · obtain ⟨new, hscope, hnullable, hput⟩ := h.optional hopt
    obtain ⟨new', hscope', hnullable', hput'⟩ := h'.optional hopt
    refine ⟨new ++ new', by
      rw [hscope', hscope, append_assoc], forall_mem_append.2 ⟨hnullable, hnullable'⟩, ?_⟩
    rw [Table.keys_append]
    exact forall_mem_append.2 ⟨fun v hv => mem_append_left _ (hput v hv),
      fun v hv => mem_append_right _ (hput' v hv)⟩

/-- More steps, after which at most some numbers are taken. -/
lemma count (h : draft.Declares isOptional names t draft₁) (hcounts : draft₁.Counts draft₂)
    (t' : Traversal) : draft.Declares isOptional names (t ++ t') draft₂ := by
  have hnothing : draft₁.Declares isOptional [] t' draft₂ :=
    ⟨by simp [hcounts.scope, firstNames], hcounts.buckets,
      fun _ _ h => .inr (.inl (hcounts.scope ▸ h)),
      fun _ => ⟨[], by simp [hcounts.scope], by simp, by simp⟩⟩
  simpa using h.append hnothing

lemma introduced_eq (h : draft.Declares isOptional names t draft₁) :
    draft.introduced draft₁ = firstNames (Table.keys draft.scope.vars) names :=
  introduced_of_keys h.keys

end Declares

end Draft

namespace Matching

variable {ps : List Pattern} {matched : Matched}

lemma Element.declares {place : Place} {var : Option String} {tests : Traversal} {l : Label}
    {new : List Label} (h : Element isOptional draft place var tests l t new draft₁) :
    draft.Declares isOptional var.toList t draft₁ := by
  cases h with
  | @known v _ hvar hbound =>
    have hmem : v ∈ Table.keys draft.scope.vars := has_iff.1 (Scope.binds_of_binding? hbound)
    subst hvar
    exact ⟨by
      simp [firstNames, hmem], rfl, fun _ _ h => .inr (.inl h),
        fun _ => ⟨[], by simp, by simp, by simp⟩⟩
  | new hfree hl =>
    cases hl with
    | number => exact .count (.refl draft []) (.succ draft) _
    | @var v =>
      have hnew : v ∉ Table.keys draft.scope.vars := fun hmem => by
        simpa [Scope.binds, has_iff.2 hmem] using hfree v rfl
      refine ⟨keys_put _ _ _, rfl, fun u binding hu => .inr ?_,
        fun hopt => ⟨[(v, ⟨place.kind, true⟩)], ?_, by simp, ?_⟩⟩
      · obtain ⟨rfl, rfl⟩ | hu := of_get?_put hu
        · exact .inr ⟨hnew, rfl⟩
        · exact .inl hu
      · simp [Scope.declare, put_of_notMem _ hnew, hopt]
      · cases place <;> simp [Place.meet]

lemma CrossesAll.declares {path : Option String} {position : Nat} {hops : List Hop}
    {elements : List PathElement}
    (h : CrossesAll isOptional path position draft hops elements matched draft₁) :
    draft.Declares isOptional (hops.flatMap Hop.vars) matched.steps draft₁ := by
  induction h with
  | nil => exact .refl _ _
  | cons hhop _ ih =>
    obtain ⟨-, -, hrel, -, hnode⟩ := hhop
    exact (((hrel.declares.count (.refl _) _).count (.refl _) _).append hnode.declares).append ih

lemma MatchesAll.declares (h : MatchesAll isOptional draft ps matched draft₁) :
    draft.Declares isOptional (ps.flatMap Pattern.declared) matched.steps draft₁ := by
  induction h with
  | nil => exact .refl _ _
  | @cons _ _ _ p _ _ _ hp _ ih =>
    refine .append ?_ ih
    rw [Pattern.declared]
    cases hp with
    | unnamed hname hstart hhops =>
      obtain ⟨-, hstart⟩ := hstart
      rw [hname, Option.toList_none, append_nil]
      exact hstart.declares.append hhops.declares
    | named hname _ hreq hstart hhops =>
      obtain ⟨-, hstart⟩ := hstart
      have hall := hstart.declares.append hhops.declares
      rw [hname]
      refine ⟨(keys_put _ _ _).trans ?_, hall.buckets, fun u binding hu => ?_, by simp [hreq]⟩
      · rw [hall.keys, append_assoc, ← firstNames_append]
        rfl
      · obtain ⟨rfl, rfl⟩ | hu := of_get?_put hu
        · exact .inl rfl
        · exact hall.bindings u binding hu

lemma All.declares {condition : Option Expr} (h : All isOptional draft ps condition t draft₁) :
    draft.Declares isOptional (ps.flatMap Pattern.declared) t draft₁ := by
  obtain @⟨m, _, draft', _, hpats, htests⟩ := h
  exact (hpats.declares.count (.refl draft') _).count htests.counts _

end Matching

end CypherGremlin
