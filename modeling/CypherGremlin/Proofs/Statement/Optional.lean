import CypherGremlin.Proofs.Statement.Names
import CypherGremlin.Proofs.Statement.Trail

/-!
# The variables of an optional match

One arm of an optional match looks for the patterns and declares variables as it goes, the other has
to make up for all of them.  Which they are is read off the end of the scope, whatever the patterns
have in common with each other and with what was in scope before.

* `Matching.optional_rebinds` says that both arms select these variables, that they are bound again
  behind the choice, and that the scope has grown by them.
-/

namespace CypherGremlin

variable {draft draft₁ : Draft} {t : Traversal} {ps : List Pattern} {condition : Option Expr}

open List Traversal

lemma Matching.MatchesAll.declared_eq {matched : Matched}
    (h : MatchesAll true draft ps matched draft₁) :
    ps.flatMap Pattern.declared = ps.flatMap Pattern.variables := by
  induction h with
  | nil => rfl
  | cons hp _ ih =>
    rw [flatMap_cons, flatMap_cons, ih, Pattern.declared]
    cases hp with
    | unnamed hname => rw [hname, Option.toList_none, append_nil]; rfl
    | named _ _ hreq => cases hreq

/-! ## The clause -/

/-- The variables of the patterns that are not in scope, in the order in which they are declared. -/
def Draft.newVars (draft : Draft) (ps : List Pattern) : List String :=
  firstNames (Table.keys draft.scope.vars) (ps.flatMap Pattern.variables)

lemma Draft.mem_newVars {v : String} :
    v ∈ draft.newVars ps ↔ v ∈ ps.flatMap Pattern.variables ∧ draft.scope.binds v = false := by
  rw [newVars, mem_firstNames, ← Table.has_iff, Bool.not_eq_true]
  rfl

lemma Matching.Tries.rebinds (h : Tries draft ps condition t draft₁) :
    ∃ (found : Traversal) (n : UInt32), t = choice found (draft.newVars ps) ::
        (if draft.newVars ps = [] then [] else rebinding (.token (.freshId n)) (draft.newVars ps)) ∧
      draft.Declares true (ps.flatMap Pattern.variables) found draft₁ := by
  have hdecl {found : Traversal} {draft' : Draft} (h : All true draft ps condition found draft') :
      draft.Declares true (ps.flatMap Pattern.variables) found draft' := by
    obtain ⟨hpats, -⟩ := id h
    exact hpats.declared_eq ▸ h.declares
  cases h with
  | @checks found _ hall hnone =>
    have hnew : _ = draft.newVars ps := (hdecl hall).introduced_eq
    exact ⟨found, 0, by rw [hnew, if_pos (hnew ▸ hnone)], hdecl hall⟩
  | @binds found draft' hall hsome =>
    have hnew : _ = draft.newVars ps := (hdecl hall).introduced_eq
    obtain ⟨hkeys, hbuckets, hbindings, hopt⟩ := hdecl hall
    exact ⟨found, draft'.next.toUInt32, by
      rw [hnew, if_neg (hnew ▸ hsome)], hkeys, hbuckets, hbindings, hopt⟩

/-- OPTIONAL MATCH gives a choice of two arms, each of which binds the variables that are new and
selects them at its end, in the order in which they are declared.  Behind it they are bound again,
one after another.  The scope is as before, with the new variables at its end, all of which may be
null. -/
theorem Matching.optional_rebinds {root : Traversal} {statement : Statement}
    (h : (lowerClauses root [.match true ps condition]).run draft = .ok (statement, draft₁)) :
    (draft.newVars ps).Nodup ∧
      (∀ v, v ∈ draft.newVars ps ↔ v ∈ ps.flatMap Pattern.variables ∧ draft.scope.binds v = false) ∧
      (∃ (found missing : Traversal) (n : UInt32),
      statement.traversal = (if root.isEmpty then oneRow else root) ++
          .coalesce [found ++ [.select (slots (draft.newVars ps))],
          missing ++ [.select (slots (draft.newVars ps))]] ::
            (if draft.newVars ps = [] then [] else rebinding (.token (.freshId n))
            (draft.newVars ps)) ∧
        ∀ l ∈ slots (draft.newVars ps), .as l ∈ found ∧ .as l ∈ missing) ∧
      ∃ new : Table String Binding,
        draft₁.scope = { draft.scope with vars := draft.scope.vars ++ new } ∧
        Table.keys new = draft.newVars ps ∧ ∀ entry ∈ new, entry.2.nullable = true := by
  have hlowers := (deliversFrom_lowerClauses root [.match true ps condition]).result _ h
  obtain _ | ⟨-, _ | htries, ⟨⟩⟩ := hlowers
  obtain ⟨found, n, rfl, hdecl⟩ := htries.rebinds
  obtain ⟨new, hscope, hnullable, hput⟩ := hdecl.optional rfl
  have hkeys : Table.keys new = draft.newVars ps := append_cancel_left
    ((Table.keys_append _ _).symm.trans
    ((congrArg (Table.keys ·.vars) hscope).symm.trans hdecl.keys))
  refine ⟨nodup_firstNames _ _, fun v => Draft.mem_newVars, ?_, new, hscope, hkeys, hnullable⟩
  -- Both branches put the new variables, the second one as nulls.
  refine ⟨found ++ [.as (.token .unused)],
    [.constant (.token .nonexistent), .as (.token .unused)] ++
    (draft.newVars ps).flatMap fun v => [.constant .null, .as (.named v)], n, ?_, ?_⟩
  · simp [choice, nulls, Clause.started, Clause.needsRow]
  · rw [slots, forall_mem_append, forall_mem_map, forall_mem_singleton]
    refine ⟨fun v hv => ?_, by simp⟩
    simpa using ⟨hput v (hkeys ▸ hv), hv⟩

/-- `(a)-[r]->(b), (b)-->(a)`. -/
def Pattern.thereAndBack : List Pattern :=
  [⟨none, ⟨some "a", [], []⟩, [⟨⟨some "r", [], .out, [], none⟩, ⟨some "b", [], []⟩⟩]⟩,
    ⟨none, ⟨some "b", [], []⟩, [⟨⟨none, [], .out, [], none⟩, ⟨some "a", [], []⟩⟩]⟩]

/-- `a` is in scope, and nothing else. -/
def Draft.ofNode : Draft where
  scope := { vars := [("a", ⟨.node, false⟩)] }

/-- Then `r` and `b` are new, each once. -/
theorem Matching.optional_rebinds_thereAndBack : ∃ statement draft,
    (lowerClauses [.V, .as (.named "a")] [.match true Pattern.thereAndBack none]).run .ofNode =
      .ok (statement, draft) ∧
      ∃ new : Table String Binding, draft.scope.vars = Draft.ofNode.scope.vars ++ new ∧
      Table.keys new = ["r", "b"] ∧ ∀ entry ∈ new, entry.2.nullable = true := by
  obtain ⟨⟨statement, draft⟩, hok⟩ : ∃ r,
      (lowerClauses [.V, .as (.named "a")] [.match true Pattern.thereAndBack none]).run .ofNode =
      .ok r := by
    decide +kernel
  obtain ⟨-, -, -, new, hscope, hkeys, hnullable⟩ := optional_rebinds hok
  exact ⟨statement, draft, hok, new, by rw [hscope], hkeys, hnullable⟩

end CypherGremlin
