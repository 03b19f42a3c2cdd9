import CypherGremlin.Proofs.Dialect.Validity
import CypherGremlin.Proofs.Statement.OfQuery

/-!
# Every statement can be written

Writing a traversal can fail, but it does not for the traversal of a query.  Three things come
together:

* every step that lowering produces is valid if the names of parameters are identifiers
  (`Lowered.isValid`);
* the traversal begins with a step that needs no input (`Query.yields_opens`).  This is up to the
  first clause: most clauses get a row to work on, MATCH and CREATE begin by themselves as nothing
  is in scope yet, and the others refuse variables that are not in scope;
* the dialects keep both.
-/

namespace CypherGremlin

variable {t : Traversal} {p : Pattern} {s : Step} {draft draft' : Draft}

/-! ## Steps -/

section

variable {T : Sources}

lemma Step.Own.leaves (own : s.Own T) : ∀ leaf ∈ s.leaves, leaf.Admissible T := by
  have hsound : ∀ vs : List Value, (∀ v ∈ vs, v.Sound T) →
      ∀ leaf ∈ Value.allLeaves vs, leaf.Admissible T := by
    intro vs hvs
    rw [Value.allLeaves_eq]
    exact List.forall_mem_flatMap.2 fun v hv => (hvs v hv).admissible
  have hvals : ∀ v ∈ s.ownValues, v.Sound T := by
    cases s <;> simp_all [Step.Own, Step.ownValues]
  have hpred : ∀ p ∈ s.ownPredicate?.toList, p.Sound T := by
    cases s with
    | choose c yes no => cases c <;> simp_all [Step.Own, Step.ownPredicate?]
    | _ => simp_all [Step.Own, Step.ownPredicate?]
  rw [Step.leaves, List.forall_mem_append, List.forall_mem_flatMap]
  exact ⟨hsound _ hvals, fun p hp => hsound _ (hpred p hp)⟩

lemma Value.Admissible.isWritable (hT : ∀ name, T.parameters name → isIdentifier name = true)
    {v : Value} (h : v.Admissible T) : v.IsWritable := by
  cases v with
  | parameter name => exact hT name h
  | _ => exact h

lemma Step.Own.isValid (hT : ∀ name, T.parameters name → isIdentifier name = true) (own : s.Own T) :
    s.IsValid Registry.standard where
  project := by
    rintro rfl
    exact own.1 rfl
  union := by
    rintro rfl
    exact own rfl
  coalesce := by
    rintro rfl
    exact own rfl
  function f _ := by cases f <;> decide
  predicate test _ _ := by cases test <;> decide
  leaves leaf hleaf := (own.leaves leaf hleaf).isWritable hT

/-- What lowering produces is made of valid steps. -/
theorem Lowered.isValid (hT : ∀ name, T.parameters name → isIdentifier name = true)
    (h : Lowered T t) : ∀ s ∈ Traversal.walk t, s.IsValid Registry.standard :=
  h.forall_mem_walk (fun _ own => own.isValid hT) (fun _ => .of_plain rfl rfl rfl) fun _ _ =>
    .of_plain rfl rfl rfl

end

/-! ## The beginning -/

/-- The traversal begins with all nodes, with a new node, or with given rows. -/
inductive Traversal.Opens : Traversal → Prop
  | V (rest : Traversal) : Opens (.V :: rest)
  | addV (label : Option String) (rest : Traversal) : Opens (.addV label :: rest)
  | inject (rows : List Value) (rest : Traversal) : Opens (.inject rows :: rest)

namespace Traversal.Opens

variable {t t' : Traversal}

lemma append (h : Opens t) (more : Traversal) : Opens (t ++ more) := by
  cases h with
  | V rest => exact .V _
  | addV label rest => exact .addV label _
  | inject rows rest => exact .inject rows _

lemma start (h : Opens t) : ∃ s rest, t = s :: rest ∧ s.isStart = true := by
  cases h <;> exact ⟨_, _, rfl, rfl⟩

/-- A dialect does not change how a program opens. -/
lemma staysValid {registry : Registry} (h : Opens t) (hvalid : StaysValid registry t t') :
    Opens t' := by
  cases h with
  | V rest =>
    obtain ⟨rest', rfl⟩ := hvalid.start _ rest rfl rfl
    exact .V rest'
  | addV label rest =>
    obtain ⟨rest', rfl⟩ := hvalid.start _ rest rfl rfl
    exact .addV label rest'
  | inject rows rest =>
    obtain ⟨rest', rfl⟩ := hvalid.start _ rest rfl rfl
    exact .inject rows rest'

end Traversal.Opens

section

variable {draft draft' : Draft} {t : Traversal}

lemma Scope.binding?_ne_some {scope : Scope} (hscope : scope = {}) (v : String)
    (binding : Binding) : scope.binding? v ≠ some binding := by
  subst hscope
  rintro ⟨⟩

/-- Where nothing is in scope, a pattern begins with all nodes. -/
lemma Matching.Matches.opens {m : Matched} (h : Matches false draft p m draft')
    (hscope : draft.scope = {}) : m.steps.Opens := by
  have hstart {t : Traversal} {draft₁ : Draft}
      (h : Starts false draft p.start t draft₁) : t.Opens := by
    obtain ⟨-, helem⟩ := h
    cases helem with
    | known _ hbound => exact absurd hbound (Scope.binding?_ne_some hscope _ _)
    | new => exact .V _
  cases h with
  | unnamed _ h => exact (hstart h).append _
  | named _ _ _ h => exact ((hstart h).append _).append _

/-- Where nothing is in scope, a node of a pattern is a new one. -/
lemma Creating.Creates.opens (h : Creates draft p t draft') (hscope : draft.scope = {}) :
    t.Opens := by
  obtain ⟨-, hnode, -⟩ := h
  cases hnode with
  | known _ _ _ hbound => exact absurd hbound (Scope.binding?_ne_some hscope _ _)
  | new => exact .addV _ _

end

/-- The clause has something to work on: MATCH and CREATE have a pattern, SET, REMOVE and DELETE an
item. -/
def Clause.isFilled : Clause → Bool
  | .match _ ps _ | .create ps => !ps.isEmpty
  | .set items => !items.isEmpty
  | .remove items => !items.isEmpty
  | .delete _ targets => !targets.isEmpty
  | .merge _ | .unwind _ _ | .with _ | .return _ => true

/-- A first clause that gets no row begins by itself, or needs a variable in scope and is refused.
-/
lemma Clause.Lowers.opens {clause : Clause} {columns : List Column}
    (h : clause.Lowers draft columns t draft') (hfilled : clause.isFilled = true)
    (hrow : clause.needsRow = false) (hscope : draft.scope = {}) : t.Opens := by
  cases h with
  | «match» hall =>
    obtain ⟨hpats, -⟩ := hall
    cases hpats with
    | nil => simp [isFilled] at hfilled
    | cons hp => exact (((hp.opens hscope).append _).append _).append _
  | create hcreates =>
    cases hcreates with
    | nil => simp [isFilled] at hfilled
    | cons hp => exact (hp.opens hscope).append _
  | set hsets =>
    cases hsets with
    | nil => simp [isFilled] at hfilled
    | cons htarget =>
      obtain ⟨hbound⟩ := htarget
      exact absurd hbound (Scope.binding?_ne_some hscope _ _)
  | remove hremoves =>
    cases hremoves with
    | nil => simp [isFilled] at hfilled
    | cons hitem =>
      obtain ⟨-, _, ⟨hbound⟩, -⟩ := hitem
      exact absurd hbound (Scope.binding?_ne_some hscope _ _)
  | delete hmarks =>
    cases hmarks with
    | nil => simp [isFilled] at hfilled
    | cons hmark =>
      cases hmark with
      | element hbound | path hbound | dynamic hbound =>
        exact absurd hbound (Scope.binding?_ne_some hscope _ _)
  | optionalMatch | unwind | «with» | «return» | merge => simp [needsRow] at hrow

lemma LowersAll.opens {root : Traversal} {clauses : List Clause} {statement : Statement}
    (h : LowersAll root draft clauses statement draft') (hroot : root.Opens) :
    statement.traversal.Opens := by
  induction h with
  | nil => exact hroot
  | cons _ _ _ ih =>
    refine ih (.append ?_ _)
    rw [Clause.started]
    split
    · exact .inject _ _
    · exact hroot

/-- The traversal of a query begins with a step that needs no input. -/
theorem Query.yields_opens {q : Query} (hclauses : ∀ clause ∈ q.clauses, clause.isFilled = true) :
    Yields q.statement fun s => s.traversal.Opens := by
  intro s hs
  have hne : q.clauses ≠ [] := by
    intro hnil
    rw [Query.statement, hnil] at hs
    cases hs
  obtain ⟨statement, draft, hlowers, -, htrav⟩ := Query.lowersAll hs
  obtain ⟨clause, rest, hq⟩ := List.exists_cons_of_ne_nil hne
  rw [hq] at hclauses hlowers
  rw [htrav]
  -- The first clause opens the program.
  cases hlowers with
  | cons _ hfirst hrest =>
    refine .append (hrest.opens ?_) _
    rw [Clause.started]
    cases hrow : clause.needsRow with
    | false => exact hfirst.opens (List.forall_mem_cons.1 hclauses).1 hrow rfl
    | true => exact .inject _ _

/-- Nothing that has been lowered fails to be written: what a dialect makes of the statement of a
query is a program in every format.  It opens with all nodes, a new node or given rows, no
projection, union or choice of alternatives is without branches, and no number is infinite or
undefined. -/
theorem Query.exists_program {q : Query} (hclauses : ∀ clause ∈ q.clauses, clause.isFilled = true)
    (hparameters : ∀ name ∈ q.parameters, isIdentifier name = true) {s s' : Statement}
    (hs : q.statement = .ok s) (name : DialectName) (hs' : (Dialect.ofName name).apply s = .ok s') :
    (∀ format, ∃ program, Program.emit Registry.standard format s'.traversal = .ok program ∧
      program.format = format) ∧
    s'.traversal.Opens ∧
    ∀ step ∈ Traversal.walk s'.traversal, step ≠ .project [] ∧ step ≠ .union [] ∧
      step ≠ .coalesce [] ∧ ∀ x, .float x ∈ step.leaves → x.isFinite = true := by
  obtain ⟨t, ht, heq⟩ := bind_eq_ok.1 hs'
  obtain rfl := pure_eq_ok.1 heq
  have hstays : StaysValid Registry.standard s.traversal t := Dialect.staysValid_applyTo name _ t ht
  have hopens : t.Opens := (yields_opens hclauses s hs).staysValid hstays
  have hsteps : ∀ step ∈ Traversal.walk t, step.IsValid Registry.standard :=
    hstays.steps ((q.yields_lowered s hs).1.isValid hparameters)
  refine ⟨Program.exists_emit ⟨hopens.start, hsteps⟩, hopens, fun step hstep => ?_⟩
  have hvalid := hsteps step hstep
  exact ⟨hvalid.project, hvalid.union, hvalid.coalesce, fun x hx => hvalid.leaves _ hx⟩

/-- A query with a parameter, alternatives, a projection and a number that is not whole:

    MATCH (n {name: $name})
    OPTIONAL MATCH (n)-[:KNOWS]->(m) WHERE m.score > 0.5
    RETURN n.name AS name, m.name AS friend -/
def Query.friends : Query := ⟨[
  .match false
  [{ start := { var := some "n", properties := [("name", .parameter "name")] }, hops := [] }] none,
  .match true
  [{ start := { var := some "n" }, hops := [⟨{ types := ["KNOWS"] }, { var := some "m" }⟩] }]
    (some (.compare .gt (.property (.var "m") "score") (.literal (.float ⟨0x3FE0000000000000⟩)))),
  .return
  { items
  := [⟨.property (.var "n") "name", some "name"⟩, ⟨.property (.var "m") "name", some "friend"⟩] }]⟩

/-- The query can be sent to Cosmos DB in both formats. -/
theorem Query.exists_program_friends : ∃ s s', Query.friends.parameters = ["name"] ∧
    Query.friends.statement = .ok s ∧ (Dialect.ofName .cosmosdb).apply s = .ok s' ∧
      s'.traversal.Opens ∧
    (∃ program, Program.emit Registry.standard .groovy s'.traversal = .ok program) ∧
    ∃ program, Program.emit Registry.standard .bytecode s'.traversal = .ok program := by
  obtain ⟨s, hs, s', hs'⟩ : ∃ s, Query.friends.statement = .ok s ∧
    ∃ s', (Dialect.ofName .cosmosdb).apply s = .ok s' := by
    decide +kernel
  obtain ⟨hemit, hopens, -⟩ := Query.exists_program (by decide) (by decide) hs .cosmosdb hs'
  obtain ⟨groovy, hgroovy, -⟩ := hemit .groovy
  obtain ⟨bytecode, hbytecode, -⟩ := hemit .bytecode
  exact ⟨s, s', by decide, hs, hs', hopens, ⟨groovy, hgroovy⟩, bytecode, hbytecode⟩

end CypherGremlin
