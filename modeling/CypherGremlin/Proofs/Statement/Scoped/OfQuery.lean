import CypherGremlin.Proofs.Statement.OfQuery

/-!
# Labels in queries

The steps of a query refer to visible labels only, provided that the names of paths count as
visible.  They are the one exception: a path is in scope like any other variable, but no step puts
its name on anything, because a path is read through the labels of its elements.  A query that uses
a path where an element is asked for is refused for that label.  `Query.undefinedLabel_path` is the
result: no other label is ever reported.
-/

namespace CypherGremlin

variable {draft : Draft} {statement : Statement}

open Traversal

/-! ## The end of the program -/

lemma exists_checkScope_closing {visible filled : List Label} {buckets : Buckets}
    (hplain : buckets.plain = true → Deleting.plainBucket ∈ filled)
    (hdetached : buckets.detached = true → Deleting.detachedBucket ∈ filled) (returns : Bool) :
    ∃ out, checkScope visible filled (closing buckets returns) = .ok out := by
  refine ⟨filled, ?_⟩
  obtain ⟨plain, detached⟩ := buckets
  cases plain <;> cases detached <;> cases returns <;>
    simp_all [closing, Deleting.phase, Deleting.check, Deleting.removal, checkScope,
      Step.unresolved?, Step.references,
      Step.resolves, Step.checkInside, Step.visibleAfter, Step.bucketsAfter, bind, Except.bind]

/-- Where the names of paths count as visible, a query becomes a program that refers to visible
labels only. -/
theorem Query.deliversFrom_clauses (q : Query) :
    DeliversFrom {} (lowerClauses [] q.clauses) fun statement draft =>
      Continues q.sources q.pathLabels ∅ statement.traversal draft :=
  (deliversFrom_lowerClauses [] q.clauses).mono fun _ _ h =>
    (h.continues (continues_empty _ _ _) q.mem_pathLabels q.within_sources).1

/-- And then the check of labels accepts it. -/
theorem Query.exists_checkScope {q : Query}
    (h : (lowerClauses [] q.clauses).run {} = .ok (statement, draft)) :
    ∃ out, checkScope (q.pathNames.map .named) []
    (statement.traversal ++ closing draft.buckets q.returns) = .ok out := by
  have hlow : Continues q.sources q.pathLabels ∅ statement.traversal draft :=
    q.deliversFrom_clauses.result _ h
  obtain ⟨mid, hmid⟩ := hlow.formed.visible.exists_checkScope (fun l hl => hl) []
  have hfilled : ∀ l ∈ ∅ ∪ fills statement.traversal, l ∈ mid := fun l hl =>
    mem_of_checkScope hmid l (hl.imp_left fun hempty => absurd hempty (Set.notMem_empty l))
  obtain ⟨out, hout⟩ :=
    exists_checkScope_closing (fun hplain => hfilled _ (hlow.holds.plain hplain))
    (fun hdetached => hfilled _ (hlow.holds.detached hdetached)) q.returns
  exact ⟨out, by rw [checkScope_append, hmid]; exact hout⟩

/-- No label but the name of a path is ever reported as undefined.  Every other label that a program
refers to has been put on something, or filled, where it is visible. -/
theorem Query.undefinedLabel_path (q : Query) :
    (∀ text, q.statement = .error (.undefinedLabel text) → text ∈ q.pathNames) ∧
      ∀ statement draft, (lowerClauses [] q.clauses).run {} = .ok (statement, draft) →
        ∃ out, checkScope (q.pathNames.map .named) []
          (statement.traversal ++ closing draft.buckets q.returns) = .ok out := by
  refine ⟨fun text h => ?_, fun statement draft => q.exists_checkScope⟩
  rw [Query.statement] at h
  split at h
  · cases h
  · cases hrun : (lowerClauses [] q.clauses).run {} with
    | error e =>
      -- Before the check nothing reports a label.
      have hfault := q.deliversFrom_clauses.fault e hrun
      rw [hrun] at h
      obtain rfl : e = .undefinedLabel text := Except.error.inj h
      simp [QueryFault.reportsLabel] at hfault
    | ok result =>
      obtain ⟨statement, draft⟩ := result
      obtain ⟨out, hout⟩ := q.exists_checkScope hrun
      rw [hrun] at h
      change (checkLabels (statement.traversal ++ closing draft.buckets q.returns) >>=
        fun _ => pure _) = _ at h
      have hextra : ∀ l ∈ q.pathNames.map Label.named, l ∈ ([] : List Label) ∨ l ∈ q.pathLabels :=
        fun _ hl => .inr hl
      rcases checkScope_without hextra hout with hcheck | ⟨l, hl, hcheck⟩
      · rw [checkLabels, hcheck] at h
        cases h
      · obtain ⟨path, hpath, rfl⟩ := List.mem_map.1 hl
        rw [checkLabels, hcheck] at h
        obtain rfl : path = text := QueryFault.undefinedLabel.inj (Except.error.inj h)
        exact hpath

/-- `MATCH p = (a)-->(b) WHERE p:Person RETURN a`. -/
def Query.personPath : Query where
  clauses := [
    .match false
    [⟨some "p", ⟨some "a", [], []⟩, [⟨⟨none, [], .out, [], none⟩, ⟨some "b", [], []⟩⟩]⟩]
      (some (.hasLabels "p" ["Person"])),
    .return ⟨false, false, [⟨.var "a", none⟩], [], none, none, none⟩]

/-- A path has no labels of its own.  The other labels of the query are visible where they are used.
-/
theorem Query.undefinedLabel_path_personPath :
    Query.personPath.statement = .error (.undefinedLabel "p") ∧ "p" ∈ Query.personPath.pathNames ∧
      ∃ statement draft, (lowerClauses [] Query.personPath.clauses).run
      {} = .ok (statement, draft) ∧ ∃ out, checkScope (Query.personPath.pathNames.map .named) []
          (statement.traversal ++ closing draft.buckets Query.personPath.returns) = .ok out := by
  have hrefused : Query.personPath.statement = .error (.undefinedLabel "p") := by
    with_unfolding_all rfl
  obtain ⟨⟨statement, draft⟩, hok⟩ : ∃ r, (lowerClauses [] Query.personPath.clauses).run {} =
    .ok r := by decide +kernel
  obtain ⟨hpath, hvis⟩ := Query.personPath.undefinedLabel_path
  exact ⟨hrefused, hpath _ hrefused, statement, draft, hok, hvis statement draft hok⟩

end CypherGremlin
