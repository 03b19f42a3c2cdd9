import CypherGremlin.Proofs.Statement.Adding.OfQuery

/-!
# Labels across reducing steps in queries

A clause reads the variables in scope, and these have been put since the last reducing step: an
aggregate reduces, but it leaves nothing in scope except its columns, which are bound again behind
it.  The steps that delete at the end reduce as well, and read only what they have put themselves.

There are two exceptions.  A comparison of two expressions reads labels across what they reduce
(`Traversal.ComparesAcross`), and the name of a path can be the label of an earlier variable, since
no step puts it for the path.

* `Rooted P root draft` is the invariant along the clauses, where `P` is the names of paths.
* `Query.readsAcross` is the result, and `Query.readsAcross_exceptions` shows both exceptions.
-/

namespace CypherGremlin

open List Step Traversal

/-! ## The state between clauses -/

/-- Labels are read across the reducing steps of the program only if they are among the given ones,
and what is inside its steps is orderly. -/
structure Lasting (P : Set Label) (root : Traversal) : Prop where
  across : ∀ l, ReadsAcross l root → l ∈ P
  inside : ∀ s ∈ root, s.Orderly

/-- And the variables in scope have been put since the last reducing step, or are among the given
labels. -/
structure Rooted (P : Set Label) (root : Traversal) (draft : Draft) :
    Prop extends Lasting P root where
  holds : draft.Holds (P ∪ since root) Set.univ

variable {T : Sources} {P : Set Label} {root t : Traversal} {draft draft' : Draft}

lemma rooted_nil : Rooted P [] {} :=
  ⟨⟨fun _ hl => absurd hl not_readsAcross_nil, by simp⟩, Draft.holds_empty _ _⟩

/-- Steps after the program that read nothing but what is left. -/
lemma Lasting.append (h : Lasting P root) (ht : Neat t)
    (hreads : ∀ l, ReadsLabel l t → l ∈ P ∪ since root) : Lasting P (root ++ t) := by
  refine ⟨fun l hl => ?_, forall_mem_append.2 ⟨h.inside, ht.inside⟩⟩
  rcases readsAcross_append hl with hl | hl | ⟨-, hsince, hl⟩
  · exact h.across l hl
  · exact absurd hl (ht.settled l)
  · exact (hreads l hl).resolve_right hsince

lemma Rooted.append {F : Set Label} (h : Rooted P root draft) (hsteady : ∀ s ∈ t, s.Steady)
    (hscoped : Scoped false (P ∪ since root) t)
    (hholds : draft'.Holds (P ∪ since root ∪ puts t) F) : Rooted P (root ++ t) draft' := by
  refine ⟨h.toLasting.append (neat_of_steady hsteady) fun l hl => hscoped.mem_of_reads hl, ?_⟩
  refine hholds.mono ?_ (Set.subset_univ _)
  rw [Set.union_assoc]
  exact Set.union_subset_union_right P (since_append fun s hs => (hsteady s hs).1)

lemma Rooted.start (h : Rooted P root draft) (clause : Clause) :
    Rooted P (if root.isEmpty && clause.needsRow then oneRow else root) draft := by
  obtain ⟨row, heq, hquiet, hbland⟩ := exists_started root clause
  rw [heq]
  exact h.append (fun s hs => (hquiet s hs).steady) (.bland hbland)
    (h.holds.mono Set.subset_union_left subset_rfl)

/-! ## Projections -/

namespace Projecting

variable {columns : List (Item Expr)} {rows : Traversal}

lemma MakesRows.neat (h : MakesRows columns rows) : Neat rows := by
  refine ⟨?_, h.inside⟩
  cases haggs : columns.any (·.isAggregate) with
  | false => exact settled_of_forall (h.plain haggs)
  | true => exact (h.resets haggs).settled

lemma eq_of_reads_columns {l row : Label} {vars : List String}
    (h : ReadsLabel l (vars.flatMap fun var => [.select [row], .selectKey (.named var),
      .as (.named var)])) :
    l = row := by
  induction vars with
  | nil => exact absurd h not_reads_nil
  | cons var rest ih =>
    rcases reads_append.1 h with h | ⟨-, h⟩
    · simpa [reads_cons, not_reads_nil, reads, Step.children] using h
    · exact ih h

lemma not_reads_rebinding {l row : Label} {vars : List String} :
    ¬ ReadsLabel l (rebinding row vars) := by
  intro hl
  rcases reads_cons.1 hl with hl | ⟨c, hc, -⟩ | ⟨hne, hl⟩
  · simp [reads] at hl
  · simp [Step.children] at hc
  · exact hne (by rw [eq_of_reads_columns hl])

lemma holds_scopeAfter_of_aggregates {W : Set Label} {scope : Scope}
    (haggs : columns.any (·.isAggregate) = true) (hclean : (scopeAfter scope columns).Clean)
    (hcols : ∀ column ∈ columns, .named column.name ∈ W) (draft : Draft) :
    Draft.Holds W Set.univ { draft with scope := scopeAfter scope columns } := by
  have hpaths : (scopeAfter scope columns).paths = [] := if_pos haggs
  refine ⟨hclean, ⟨fun var hvar => ?_, by simp [hpaths]⟩, by
    simp [hpaths], fun _ => trivial, fun _ => trivial⟩
  obtain ⟨column, hcol, rfl⟩ := mem_map.1 (keys_scopeAfter _ _ ▸ hvar)
  exact hcols column hcol

end Projecting

lemma Rooted.replace {p : Projection} (h : Rooted P root draft)
    (hreplaces : Projecting.Replaces p draft t draft')
    (hcont : Continues T (P ∪ since root) Set.univ t draft') : Rooted P (root ++ t) draft' := by
  obtain @⟨columns, rows, condition, draft₁, draft', -, hrows, -, htests⟩ := hreplaces
  set rebound := rebinding (.token (.freshId draft₁.next.toUInt32)) (columns.map (·.name))
  have hsteady : ∀ s ∈ rebound ++ condition, s.Steady := forall_mem_append.2
    ⟨steady_rebinding _ _, fun s hs => (htests.allQuiet s hs).steady⟩
  rw [append_assoc] at hcont ⊢
  cases haggs : columns.any (·.isAggregate) with
  | false =>
    refine h.append (forall_mem_append.2 ⟨fun s hs => ?_, hsteady⟩) hcont.formed.visible hcont.holds
    exact ⟨hrows.plain haggs s hs, hrows.inside s hs⟩
  | true =>
    -- Everything that was put before is lost, and the condition reads the columns only.
    have hclean : (Projecting.scopeAfter draft.scope columns).Clean := by
      simpa only [htests.counts.scope] using hcont.holds.clean
    have hholds : Draft.Holds (P ∪ puts rebound) Set.univ
        { draft₁ with scope := Projecting.scopeAfter draft.scope columns, next := draft₁.next + 1 }
        :=
      Projecting.holds_scopeAfter_of_aggregates haggs hclean
        (fun column hcol => .inr (mem_puts_rebinding (mem_map_of_mem hcol)))
        { draft₁ with next := draft₁.next + 1 }
    have htested : Formed .any false _ condition := htests.formed hholds fun e _ => e.within_any
    have hlasting : Lasting P (root ++ rows) := h.toLasting.append hrows.neat fun l hl =>
      hcont.formed.visible.mem_of_reads (reads_append.2 (.inl hl))
    rw [← append_assoc]
    refine ⟨hlasting.append (neat_of_steady hsteady) fun l hl => ?_,
      (hholds.renumber htests.counts).mono ?_ subset_rfl⟩
    · rcases reads_append.1 hl with hl | ⟨hput, hl⟩
      · exact absurd hl Projecting.not_reads_rebinding
      · exact .inl ((htested.visible.mem_of_reads hl).resolve_right hput)
    · refine Set.union_subset_union_right P
        (subset_trans ?_ (since_append fun s hs => (hsteady s hs).1))
      exact (puts_subset_append _ _).trans Set.subset_union_right

lemma Rooted.step {clause : Clause} (h : Rooted P root draft)
    (heffect : clause.Effect draft t draft')
    (hcont : Continues T (P ∪ since root) Set.univ t draft') :
    Lasting P (root ++ t) ∧ (clause.isReturn = false → Rooted P (root ++ t) draft') := by
  cases heffect with
  | adds hadds =>
    have hroot := h.append hadds.steady hcont.formed.visible hcont.holds
    exact ⟨hroot.toLasting, fun _ => hroot⟩
  | introduces hadds _ =>
    have hroot := h.append hadds.steady hcont.formed.visible hcont.holds
    exact ⟨hroot.toLasting, fun _ => hroot⟩
  | replaces hreplaces =>
    have hroot := h.replace hreplaces hcont
    exact ⟨hroot.toLasting, fun _ => hroot⟩
  | returns hrows _ =>
    refine ⟨h.toLasting.append hrows.neat fun l hl => hcont.formed.visible.mem_of_reads hl,
      fun hreturn => ?_⟩
    simp [Clause.isReturn] at hreturn

theorem Drafted.lasting {clauses : List Clause} (h : Drafted clauses root draft)
    (hpaths : ∀ clause ∈ clauses, ∀ path ∈ clause.pathNames, .named path ∈ P) :
    Lasting P root ∧ ((∀ clause ∈ clauses, clause.isReturn = false) → Rooted P root draft) := by
  induction h with
  | nil => exact ⟨rooted_nil.toLasting, fun _ => rooted_nil⟩
  | @clause clauses root steps draft draft' clause columns hbefore hopen hlow ih =>
    obtain ⟨hbeforePaths, hclausePaths⟩ := forall_mem_append.1 hpaths
    have hroot := ((ih hbeforePaths).2 hopen).start clause
    have hcont := ((Clause.deliversFrom_lower clause).result _ hlow).continues hroot.holds
      (fun path hpath => .inl (hclausePaths clause mem_cons_self path hpath)) clause.within_any
    obtain ⟨hlasting, hrooted⟩ := hroot.step (Clause.effect_of_lower hlow) hcont.1
    exact ⟨hlasting, fun hret => hrooted (hret clause (by simp))⟩

namespace Deleting

lemma steady_removal (bucket : Label) : (removal bucket).Steady := by
  refine ⟨rfl, forall_mem_singleton.2 (Neat.orderly ⟨fun l => ?_, ?_⟩)⟩
  · simp [readsAcross_cons, not_readsAcross_nil, reads_cons, not_reads_nil, reads, Step.children]
  · simp [Step.Orderly, Step.children]

/-- A bucket is no step label, and so it can be compared with after a reducing step. -/
lemma steady_check (detached : Bool) : (check detached).Steady := by
  have hends : Orderly (.bothE [] :: if detached then
      [.whereLabel .without detachedBucket, .otherV, .whereLabel .without detachedBucket]
        else []) := by
    refine (neat_of_steady ?_).orderly
    cases detached <;> simp [Step.Steady, Step.isReducing, Step.Orderly, Step.children]
  refine ⟨rfl, forall_mem_singleton.2 (Neat.orderly ⟨fun l => ?_, ?_⟩)⟩
  · cases detached <;> simp [readsAcross_cons, not_readsAcross_nil, reads_cons,
      not_reads_nil, reads, Step.children, detachedBucket]
  · cases detached <;> simpa [Step.Orderly, Step.children] using hends

/-- The steps that delete start with a reducing step, and label the rows after it. -/
lemma exists_phase (buckets : Buckets) (returns : Bool) :
    ∃ rest, phase buckets returns = .fold :: rest ∧ (∀ s ∈ rest, s.Steady) ∧
      ∀ l, ¬ ReadsLabel l rest := by
  have hput : (as (.token .deleteOnce)).Steady := .leaf rfl rfl
  have hsel : (select [.token .deleteOnce]).Steady := .leaf rfl rfl
  have hunfold : unfold.Steady := .leaf rfl rfl
  have hlimit : (limit 0).Steady := .leaf rfl rfl
  obtain ⟨plain, detached⟩ := buckets
  refine ⟨_, rfl, ?_, fun l => ?_⟩
  · cases plain <;> cases detached <;> cases returns <;>
      simp [steady_check, steady_removal, hput, hsel, hunfold, hlimit]
  · cases plain <;> cases detached <;> cases returns <;>
      simp [check, removal, reads_cons, not_reads_nil, reads, Step.children, detachedBucket,
        eq_comm]

end Deleting

/-- The steps after the last clause read no label that they have not put since they reduced. -/
lemma neat_closing (buckets : Buckets) (returns : Bool) :
    Neat (closing buckets returns) ∧ ∀ l, ¬ ReadsLabel l (closing buckets returns) := by
  rw [closing]
  split
  · obtain ⟨rest, heq, hsteady, hreads⟩ := Deleting.exists_phase buckets returns
    have hrest := neat_of_steady hsteady
    rw [heq]
    refine ⟨⟨fun l => ?_, forall_mem_cons.2 ⟨by simp [Step.Orderly, Step.children], hrest.inside⟩⟩,
      fun l => ?_⟩
    · simpa [readsAcross_cons, hreads l] using hrest.settled l
    · simp [reads_cons, hreads l, reads, Step.children]
  · split
    · exact ⟨neat_of_isBland rfl, fun _ => not_reads_nil⟩
    · exact ⟨neat_of_isBland rfl, fun _ => not_reads_of_isBland rfl⟩

/-! ## Statements -/

/-- Labels are read across a reducing step in comparisons of two expressions only, except that the
clauses can read the name of a path. -/
theorem Query.readsAcross {q : Query} {s : Statement} (h : q.statement = .ok s) :
    ∀ t ∈ nested s.traversal, ∀ l, ReadsAcross l t → ComparesAcross l t ∨ t = s.traversal ∧
      l ∈ q.pathLabels := by
  obtain ⟨root, draft, hdrafted, heq⟩ := q.exists_drafted h
  obtain ⟨hneat, hreads⟩ := neat_closing draft.buckets q.returns
  have hlasting : Lasting q.pathLabels s.traversal := by
    rw [heq]
    exact (hdrafted.lasting q.mem_pathLabels).1.append hneat fun l hl => absurd hl (hreads l)
  refine forall_mem_nested_iff.2 ⟨fun l hl => .inr ⟨rfl, hlasting.across l hl⟩,
    fun step hstep c hc t ht l hl => ?_⟩
  exact .inl (hlasting.inside step hstep c hc t ht l hl)

/-- `MATCH (n)-->(m) WITH n.city AS city, collect(m.name) AS names WHERE size(names) > 1 RETURN
names`. -/
def Query.gathered : Query := ⟨[
  .match false [{ start := { var := some "n" }, hops := [⟨{}, { var := some "m" }⟩] }] none,
  .with {
    items := [⟨.property (.var "n") "city", some "city"⟩,
      ⟨.call "collect" false [.property (.var "m") "name"], some "names"⟩]
    condition := some (.compare .gt (.call "size" false [.var "names"]) (.literal (.int 1))) },
  .return { items := [⟨.var "names", none⟩] }]⟩

/-- Rows are grouped, and the condition reads the columns of the groups. -/
theorem Query.readsAcross_gathered : ∃ s, Query.gathered.statement = .ok s ∧
    HasReducing s.traversal ∧ ∀ t ∈ nested s.traversal, ∀ l, ReadsAcross l t →
      ComparesAcross l t ∨ t = s.traversal ∧ l ∈ Query.gathered.pathLabels := by
  obtain ⟨s, hs, hreduces⟩ : ∃ s, Query.gathered.statement = .ok s ∧
    s.traversal.any Step.isReducing = true := by
    decide +kernel
  exact ⟨s, hs, List.any_eq_true.1 hreduces, Query.readsAcross hs⟩

/-- `MATCH (n) WHERE [n.a] = [n.b] RETURN n`. -/
def Query.sameLists : Query := ⟨[
  .match false [{ start := { var := some "n" } }]
    (some (.compare .eq (.list [.property (.var "n") "a"]) (.list [.property (.var "n") "b"]))),
  .return { items := [⟨.var "n", none⟩] }]⟩

/-- `MATCH (p) WITH count(*) AS c MATCH p = (a)-->(b) WHERE p:Person RETURN c`. -/
def Query.namesake : Query := ⟨[
  .match false [{ start := { var := some "p" } }] none,
  .with { items := [⟨.countStar, some "c"⟩] },
  .match false
  [{ path := some "p", start := { var := some "a" }, hops := [⟨{}, { var := some "b" }⟩] }]
    (some (.hasLabels "p" ["Person"])),
  .return { items := [⟨.var "c", none⟩] }]⟩

/-- The list of one property of `n`, as an operand. -/
def Traversal.listOf (key : String) : Traversal :=
  [.union [[.select [.named "n"], .unlessNull [.coalesce [[.values [key]], Traversal.null]]]],
    .fold, .notNull]

/-- The comparison of two lists. -/
def Traversal.sameLists : Traversal :=
  listOf "b" ++ [.as (.token (.generated 1))] ++ listOf "a" ++
    [.whereLabel .eq (.token (.generated 1))]

/-- Both exceptions occur.  Where two lists are compared, the right one is read under a label that
the left one has lost, and the left one reads a variable that the right one has lost; and a node is
read by the name of a path after the nodes have been counted. -/
theorem Query.readsAcross_exceptions :
    (∃ s, Query.sameLists.statement = .ok s ∧ ∃ t ∈ nested s.traversal,
      ReadsAcross (.token (.generated 1)) t ∧ ReadsAcross (.named "n") t) ∧
    ∃ s, Query.namesake.statement = .ok s ∧ ReadsAcross (.named "p") s.traversal := by
  have hlists : Query.sameLists.statement = .ok ⟨[.V, .as (.named "n"), .filter Traversal.sameLists,
      .project [(.named "n", [.select [.named "n"], .unlessNull [ElementKind.tag .node]])]],
      [⟨"n", .node⟩]⟩ := by
    with_unfolding_all rfl
  have hpath : Query.namesake.statement = .ok ⟨[.V, .as (.named "p"), .fold,
      .project [(.named "c", [.count .local])], .as (.token (.freshId 1)),
      .select [.token (.freshId 1)],
      .selectKey (.named "c"), .as (.named "c"), .V, .as (.named "a"),
      .as (.token (.pathStart "p")), .outE [],
      .as (.token (.unnamed 2)), .as (.token (.pathEdge "p.1")), .inV, .as (.named "b"),
      .filter [.select [.named "p"], .hasLabel ["Person"]],
      .project [(.named "c", [.select [.named "c"]])]], [⟨"c", .value⟩]⟩ := by
    with_unfolding_all rfl
  refine ⟨⟨_, hlists, .sameLists, ?_, ?_, ?_⟩, _, hpath, ?_⟩
  · refine (forall_mem_nested_iff.1 fun u hu => hu).2 (.filter Traversal.sameLists) (by simp) _ ?_ _
      (mem_nested_self _)
    exact List.mem_singleton_self _
  · simp [Traversal.sameLists, Traversal.listOf, Step.notNull, readsAcross_cons, reads_cons,
      Step.reads, Step.isReducing]
  · simp [Traversal.sameLists, Traversal.listOf, Step.notNull, readsAcross_cons, reads_cons,
      Step.reads, Step.children, Step.isReducing]
  · simp [readsAcross_cons, reads_cons, Step.reads, Step.children, Step.isReducing]

end CypherGremlin
