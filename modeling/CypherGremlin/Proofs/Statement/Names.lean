import CypherGremlin.Proofs.Statement.Adding
import CypherGremlin.Proofs.Statement.Lowers.OfQuery

/-!
# The names in scope

The names in scope are read off the clauses alone, one after another (`Clause.namesAfter`).

* `Draft.Gains draft names draft'` says that the given names have come into scope, and that nothing
  is deleted that was not before.
* `Clause.Lowers.knows` is the step from clause to clause.
-/

namespace CypherGremlin

variable {l : Label} {ps : List Pattern} {var : Option String} {p : Pattern} {v : String}
  {draft draft' : Draft} {t : Traversal}

open List

def Pattern.names (p : Pattern) : List String := p.nodeVars ++ p.relVars ++ p.path.toList

def Projection.columnNames (names : List String) (p : Projection) : List String :=
  (if p.star then names else []) ++ p.items.map (·.columnName)

def Clause.namesAfter (names : List String) : Clause → List String
  | .match _ ps _ | .create ps => names ++ ps.flatMap Pattern.names
  | .merge p => names ++ p.names
  | .unwind _ name => names ++ [name]
  | .with p => p.columnNames names
  | .return _ | .set _ | .remove _ | .delete _ _ => names

section

variable {names names' : List String}

lemma append_subset_append (h : names ⊆ names') (more : List String) :
    names ++ more ⊆ names' ++ more :=
  append_subset.2 ⟨subset_append_of_subset_left _ h, subset_append_right _ _⟩

lemma Projection.columnNames_subset (h : names ⊆ names') (p : Projection) :
    p.columnNames names ⊆ p.columnNames names' := by
  rw [columnNames, columnNames]
  split
  · exact append_subset_append h _
  · exact List.Subset.refl _

lemma Clause.namesAfter_subset (h : names ⊆ names') (clause : Clause) :
    clause.namesAfter names ⊆ clause.namesAfter names' := by
  cases clause with
  | «match» | create | merge | unwind => exact append_subset_append h _
  | «return» | set | remove | delete => exact h
  | «with» p => exact p.columnNames_subset h

end

/-! ## Drafts -/

namespace Draft

/-- The names are those of the variables in scope. -/
def Knows (names : List String) (draft : Draft) : Prop :=
  ∀ v, draft.scope.binds v = true ↔ v ∈ names

/-- The names have come into scope, if they were not there already.  The buckets in use are the
same. -/
structure Gains (draft : Draft) (names : List String) (draft' : Draft) : Prop where
  binds : ∀ v, draft'.scope.binds v = true ↔ draft.scope.binds v = true ∨ v ∈ names
  buckets : draft'.buckets = draft.buckets

variable {draft₁ draft₂ : Draft} {a b names : List String}

lemma knows_keys (draft : Draft) : draft.Knows (Table.keys draft.scope.vars) :=
  fun _ => Table.has_iff

lemma Counts.gains (h : draft.Counts draft₁) : draft.Gains [] draft₁ :=
  ⟨fun v => by simp [h.scope], h.buckets⟩

namespace Gains

lemma refl (draft : Draft) : draft.Gains [] draft := (Counts.refl draft).gains

lemma trans (ha : draft.Gains a draft₁) (hb : draft₁.Gains b draft₂) :
    draft.Gains (a ++ b) draft₂ :=
  ⟨fun v => by rw [hb.binds, ha.binds, mem_append, or_assoc], hb.buckets.trans ha.buckets⟩

lemma count (h : draft.Gains a draft₁) (hcounts : draft₁.Counts draft₂) : draft.Gains a draft₂ := by
  simpa using h.trans hcounts.gains

/-- The same names in another order. -/
lemma congr (h : draft.Gains a draft₁) (hab : ∀ v, v ∈ a ↔ v ∈ b) : draft.Gains b draft₁ :=
  ⟨fun v => by rw [h.binds, hab], h.buckets⟩

lemma of_bound (hvar : var = some v) (hbound : draft.scope.binds v = true) :
    draft.Gains var.toList draft := by
  subst hvar
  refine ⟨fun w => ⟨.inl, ?_⟩, rfl⟩
  rintro (hw | hw)
  · exact hw
  · obtain rfl := mem_singleton.1 hw
    exact hbound

lemma declare {scope : Scope} (kind : VarKind) (nullable : Bool)
    (h : scope.vars = (draft.scope.declare v kind nullable).vars) :
    draft.Gains [v] { draft with scope := scope } := by
  refine ⟨fun w => ?_, rfl⟩
  rw [Scope.binds, h, ← Scope.binds, Scope.binds_declare, or_comm, mem_singleton]

lemma knows (h : draft.Gains a draft₁) (hdraft : draft.Knows names) : draft₁.Knows (names ++ a) :=
  fun v => by
  rw [h.binds, hdraft, mem_append]

end Gains

lemma Labels.gains {kind : VarKind} {nullable : Bool}
    (h : draft.Labels kind nullable var l draft₁) : draft.Gains var.toList draft₁ := by
  cases h with
  | number => exact (Counts.succ draft).gains
  | var => exact .declare kind nullable rfl

end Draft

lemma Pattern.mem_declared_iff : v ∈ p.declared ↔ v ∈ p.names := by
  simp only [declared, names, nodeVars, relVars, Hop.vars, mem_append, mem_filterMap, mem_cons,
    mem_map, mem_flatMap, Option.mem_toList]
  grind

namespace Matching

variable {isOptional : Bool} {matched : Matched}

lemma MatchesAll.gains (h : MatchesAll isOptional draft ps matched draft') :
    draft.Gains (ps.flatMap Pattern.names) draft' := by
  refine ⟨fun v => ?_, h.declares.buckets⟩
  have hnames : v ∈ ps.flatMap Pattern.declared ↔ v ∈ ps.flatMap Pattern.names := by
    simp only [mem_flatMap, Pattern.mem_declared_iff]
  rw [Scope.binds, Table.has_iff, h.declares.keys, mem_append, mem_firstNames, hnames, Scope.binds,
    Table.has_iff]
  tauto

lemma All.gains {condition : Option Expr} (h : All isOptional draft ps condition t draft') :
    draft.Gains (ps.flatMap Pattern.names) draft' := by
  obtain ⟨hps, htests⟩ := h
  exact hps.gains.count htests.counts

lemma Tries.gains {condition : Option Expr} (h : Tries draft ps condition t draft') :
    draft.Gains (ps.flatMap Pattern.names) draft' := by
  cases h with
  | checks hall => exact hall.gains
  | binds hall => exact hall.gains.count (.succ _)

end Matching

/-! ## CREATE and MERGE -/

namespace Creating

lemma Node.gains {pattern : NodePattern} (h : Node draft pattern l t draft') :
    draft.Gains pattern.var.toList draft' := by
  cases h with
  | known hvar _ _ hbound => exact .of_bound hvar (Scope.binds_of_binding? hbound)
  | new _ _ _ hstores hl => exact hstores.counts.gains.trans hl.gains

lemma Relationship.gains {rel : RelPattern} {first second : Label}
    (h : Relationship draft rel first second t draft') : draft.Gains rel.var.toList draft' := by
  obtain ⟨-, -, -, hstores, hl⟩ := h
  exact hstores.counts.gains.trans hl.gains

lemma Hops.gains {hops : List Hop} {previous : Label} (h : Hops previous draft hops t draft') :
    draft.Gains (hops.flatMap Hop.vars) draft' := by
  induction h with
  | nil => exact .refl _
  | cons hnode hrel _ ih =>
    refine Draft.Gains.trans ((hnode.gains.trans hrel.gains).congr fun v => ?_) ih
    rw [Hop.vars, mem_append, mem_append, or_comm]

lemma Creates.gains (h : Creates draft p t draft') : draft.Gains p.names draft' := by
  obtain ⟨hname, hstart, hhops⟩ := h
  refine Draft.Gains.congr ?_ fun v => p.mem_declared_iff
  rw [Pattern.declared, hname, Option.toList_none, append_nil]
  exact hstart.gains.trans hhops.gains

lemma CreatesAll.gains (h : CreatesAll draft ps t draft') :
    draft.Gains (ps.flatMap Pattern.names) draft' := by
  induction h with
  | nil => exact .refl _
  | cons hp _ ih => exact hp.gains.trans ih

end Creating

lemma Merging.Endpoint.gains {pattern : NodePattern}
    (h : Endpoint draft.scope pattern l) : draft.Gains pattern.var.toList draft := by
  obtain ⟨hvar, hbound, -, -⟩ := h
  exact .of_bound hvar hbound

lemma Merging.Merges.gains (h : Merges draft p t draft') : draft.Gains p.names draft' := by
  refine Draft.Gains.congr ?_ fun v => p.mem_declared_iff
  cases h with
  | node hhops _ _ _ _ hl hname =>
    rw [Pattern.declared, hname, hhops, flatMap_nil, Option.toList_none, append_nil, append_nil]
    exact hl.gains
  | relationship hhops hstart hend _ _ _ _ hl hname =>
    rw [Pattern.declared, hname, hhops, flatMap_singleton, Option.toList_none, append_nil]
    refine (hstart.gains.trans (hend.gains.trans hl.gains)).congr fun v => ?_
    simp only [Hop.vars, mem_append, or_comm]

namespace Projecting

lemma Unwinds.gains {e : Expr} {name : String} (h : Unwinds draft e name t draft') :
    draft.Gains [name] draft' := by
  obtain ⟨-, hval⟩ := h
  exact hval.counts.gains.trans (.declare .value true rfl)

lemma Columns.map_name {scope : Scope} {p : Projection} {columns : List (Item Expr)}
    (h : Columns scope p columns) :
    columns.map (·.name) = p.columnNames (Table.keys scope.vars) := by
  obtain ⟨-, -, listed, rfl, hlisted⟩ := h
  have hitems : listed.map (·.name) = p.items.map (·.columnName) := by
    rw [← forall₂_eq_eq_eq, forall₂_map_left_iff, forall₂_map_right_iff]
    exact hlisted.flip.imp fun _ _ h => h.name
  rw [map_append, hitems, Projection.columnNames, starred]
  congr 1
  split
  · exact map_map.trans (map_id _)
  · rfl

lemma Carries.knows {p : Projection} {names : List String}
    (h : Carries draft p t draft') (hdraft : draft.Knows names) :
    draft'.Knows (p.columnNames names) := by
  obtain ⟨-, hcols, -, -, htests⟩ := h
  have hkeys (v : String) : v ∈ Table.keys draft.scope.vars ↔ v ∈ names :=
    Table.has_iff.symm.trans (hdraft v)
  intro v
  rw [htests.counts.scope, Scope.binds, Table.has_iff, keys_scopeAfter, hcols.map_name]
  exact ⟨fun h => p.columnNames_subset (fun w => (hkeys w).1) h,
    fun h => p.columnNames_subset (fun w => (hkeys w).2) h⟩

end Projecting

/-- What a clause leaves in scope. -/
theorem Clause.Lowers.knows {names : List String} {clause : Clause} {columns : List Column}
    (h : clause.Lowers draft columns t draft') (hdraft : draft.Knows names) :
    draft'.Knows (clause.namesAfter names) := by
  have hcounts {draft' : Draft} (h : draft.Counts draft') : draft'.Knows names :=
    fun v => by rw [h.scope, hdraft v]
  cases h with
  | «match» h | optionalMatch h | unwind h | create h | merge h => exact h.gains.knows hdraft
  | «with» h => exact h.knows hdraft
  | «return» h =>
    obtain ⟨-, -, hrows, hmods⟩ := h
    exact hcounts (hrows.counts.trans hmods.counts)
  | set h => exact hcounts h.counts
  | remove | delete => exact hdraft

end CypherGremlin
