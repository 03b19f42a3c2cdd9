import CypherGremlin.Proofs.Statement.Adding
import CypherGremlin.Proofs.Statement.Projecting

/-!
# What projections add to the program

A projection whose columns are values of the row has one step that makes a map of each row.  If a
column is an aggregate, the rows are gathered by a reducing step, and what comes after it computes
the columns from a group and has nothing to do with labels.

* `Projecting.MakesRows items t` says this of the steps that make the maps.
* `Projecting.Replaces p draft t draft'` takes WITH apart: these steps, the steps that bind the
  columns again, and a condition in the new scope.
-/

namespace CypherGremlin

variable {entries : List (Label × Traversal)}

open List Traversal

namespace Projecting

variable {mode : Mode} {draft draft' : Draft} {columns : List (Item Expr)} {p : Projection}
  {t : Traversal}

/-! ## Rows -/

lemma quiet_project (h : ∀ entry ∈ entries, Neat entry.2) : (Step.project entries).Quiet :=
  ⟨⟨rfl, forall_mem_map.2 fun entry hentry => (h entry hentry).orderly⟩, rfl⟩

/-- What the steps are like that make the maps: they put no label, what is inside them is orderly,
and they reduce if and only if some column is an aggregate. -/
structure MakesRows (items : List (Item Expr)) (t : Traversal) : Prop where
  inside : ∀ s ∈ t, s.Orderly
  puts : ∀ s ∈ t, s.isPut = false
  plain : items.any (·.isAggregate) = false → ∀ s ∈ t, s.isReducing = false
  resets : items.any (·.isAggregate) = true → Resets t

lemma groupRows_eq (h : ∀ entry ∈ entries, Neat entry.2) :
    ∃ before, groupRows entries = before ++ [.fold] ∧ AllQuiet before := by
  unfold groupRows
  split
  · exact ⟨[], rfl, .nil⟩
  · exact ⟨[.project entries], rfl, forall_mem_singleton.2 (quiet_project h)⟩

lemma makesRows_of_reducing {items : List (Item Expr)} {before after : Traversal} {s : Step}
    (haggs : items.any (·.isAggregate) = true) (hbefore : AllQuiet before)
    (hs : s.isReducing = true) (hinside : s.Orderly) (hafter : isBland after = true) :
    MakesRows items (before ++ s :: after) where
  inside := forall_mem_append.2 ⟨fun s hs => (hbefore s hs).steady.2,
    forall_mem_cons.2 ⟨hinside, (neat_of_isBland hafter).inside⟩⟩
  puts := forall_mem_append.2 ⟨fun s hs => (hbefore s hs).put, forall_mem_cons.2
    ⟨Step.isPut_of_isReducing hs, fun s hs => Step.isPut_of_isBland (isBland_of_mem hafter hs)⟩⟩
  plain hplain := by simp [haggs] at hplain
  resets _ := ⟨before, s, after, rfl, hs, fun s hs => (hbefore s hs).steady.1, hafter⟩

lemma isBland_project (h : ∀ entry ∈ entries, isBland entry.2 = true) :
    isBland [.project entries] = true :=
  isBland_cons.2 ⟨rfl, forall_mem_map.2 h, rfl⟩

lemma Makes.makesRows (h : Makes mode draft columns t draft') : MakesRows columns t := by
  cases h with
  | perRow hplain hvals =>
    have hquiet := quiet_project (hvals.forall_entries (·.neat))
    exact ⟨forall_mem_singleton.2 hquiet.steady.2, forall_mem_singleton.2 hquiet.put,
      fun _ => forall_mem_singleton.2 hquiet.steady.1, by simp [hplain]⟩
  | overall haggs hinputs =>
    obtain ⟨before, hrows, hbefore⟩ := groupRows_eq (hinputs.forall_entries (·.neat))
    rw [hrows, append_assoc]
    refine makesRows_of_reducing haggs hbefore rfl (by simp [Step.Orderly, Step.children]) ?_
    exact isBland_project (forall_mem_map.2 fun column _ => isBland_summary column.role)
  | @perGroup _ entries keys _ _ haggs hinputs _ _ hvals =>
    obtain ⟨before, hrows, hbefore⟩ := groupRows_eq (hinputs.forall_entries (·.neat))
    have hproj : Orderly [.project keys] :=
      (quiet_project (hvals.forall_entries (·.neat))).steady.neat.orderly
    have hfold : Orderly (groupRows entries) := by
      rw [hrows]
      exact ((neat_of_quiet hbefore).append_bland rfl).orderly
    change MakesRows columns ([] ++ .group [.project keys] (groupRows entries) :: _)
    refine makesRows_of_reducing haggs .nil rfl ?_ ?_
    · exact forall_mem_cons.2 ⟨hproj, forall_mem_singleton.2 hfold⟩
    · refine isBland_append (a := [.unfold]).2 ⟨rfl, isBland_project ?_⟩
      exact forall_mem_map.2 fun column _ => isBland_groupColumn _ mode column

/-! ## Order and pages -/

lemma Orders.neat {sorts : List SortItem} {keys : List (Traversal × SortOrder)}
    (h : Orders columns draft sorts keys draft') :
    ∀ key ∈ keys, Neat key.1 ∧ (columns.any (·.isAggregate) = true → isBland key.1 = true) := by
  induction h with
  | nil => exact forall_mem_nil _
  | @cons _ _ _ _ _ key _ hkey _ ih =>
    have hneat : Neat key ∧ (columns.any (·.isAggregate) = true → isBland key = true) := by
      cases hkey with
      | column => exact ⟨neat_of_isBland rfl, fun _ => rfl⟩
      | value _ hplain hval => exact ⟨hval.neat, by simp [hplain]⟩
    refine forall_mem_cons.2 ⟨⟨hneat.1.append_bland rfl, fun h => ?_⟩,
      forall_mem_cons.2 ⟨hneat, ih⟩⟩
    exact isBland_append.2 ⟨hneat.2 h, rfl⟩

lemma quiet_pageSteps (skip limit : Option UInt64) :
    AllQuiet (pageSteps skip limit) ∧ isBland (pageSteps skip limit) = true := by
  rw [pageSteps.eq_def]
  split
  case h_4 => exact ⟨.nil, rfl⟩
  all_goals exact ⟨forall_mem_singleton.2 (.bland rfl rfl), rfl⟩

/-- DISTINCT, ORDER BY, SKIP and LIMIT put no label and do not reduce.  After an aggregate they have
nothing to do with labels at all. -/
lemma Modifies.quiet (h : Modifies draft p columns t draft') :
    AllQuiet t ∧ (columns.any (·.isAggregate) = true → isBland t = true) := by
  obtain ⟨horder, hpage⟩ := h
  obtain ⟨skip, limit, -, rfl⟩ := (delivers_paging p).result _ hpage
  obtain ⟨hpage, hbland⟩ := quiet_pageSteps skip limit
  refine ⟨.append (.append ?_ ?_) hpage, fun haggs => isBland_append.2 ⟨isBland_append.2 ⟨?_, ?_⟩,
    hbland⟩⟩
  · split
    · exact forall_mem_singleton.2 (.bland rfl rfl)
    · exact .nil
  · split
    · exact .nil
    · refine forall_mem_singleton.2 ⟨⟨rfl, forall_mem_map.2 fun key hkey => ?_⟩, rfl⟩
      exact (horder.neat key hkey).1.orderly
  · split <;> rfl
  · split
    · rfl
    · exact isBland_cons.2 ⟨rfl, forall_mem_map.2 fun key hkey => (horder.neat key hkey).2 haggs,
        rfl⟩

lemma MakesRows.append {items : List (Item Expr)} {rows modifiers : Traversal}
    (h : MakesRows items rows) (hquiet : AllQuiet modifiers)
    (hbland : items.any (·.isAggregate) = true → isBland modifiers = true) :
    MakesRows items (rows ++ modifiers) where
  inside := forall_mem_append.2 ⟨h.inside, fun s hs => (hquiet s hs).steady.2⟩
  puts := forall_mem_append.2 ⟨h.puts, fun s hs => (hquiet s hs).put⟩
  plain hplain := forall_mem_append.2 ⟨h.plain hplain, fun s hs => (hquiet s hs).steady.1⟩
  resets haggs := (h.resets haggs).append_bland (hbland haggs)

/-- What WITH does: it makes rows, binds the columns again under a number, and tests a condition in
the scope of the columns. -/
inductive Replaces (p : Projection) (draft : Draft) : Traversal → Draft → Prop
  | intro {columns : List (Item Expr)} {rows condition : Traversal} {draft₁ draft' : Draft}
      (items : items draft.scope p = .ok columns)
      (makes : MakesRows columns rows)
      (counts : draft.Counts draft₁)
      (tests : Draft.Tests
      { draft₁ with scope := scopeAfter draft.scope columns, next := draft₁.next + 1 } p.condition
        condition draft') :
      Replaces p draft
        (rows ++ rebinding (.token (.freshId draft₁.next.toUInt32)) (columns.map (·.name)) ++
        condition) draft'

theorem Returns.makesRows {results : List Column} (h : Returns draft p results t draft') :
    (∃ columns, MakesRows columns t) ∧ draft.Counts draft' := by
  obtain ⟨-, -, hrows, hmods⟩ := h
  obtain ⟨hquiet, hbland⟩ := hmods.quiet
  exact ⟨⟨_, hrows.makesRows.append hquiet hbland⟩, hrows.counts.trans hmods.counts⟩

theorem Carries.replaces (h : Carries draft p t draft') : Replaces p draft t draft' := by
  obtain ⟨hcols, -, hrows, hmods, htests⟩ := h
  obtain ⟨hquiet, hbland⟩ := hmods.quiet
  exact .intro hcols (hrows.makesRows.append hquiet hbland) (hrows.counts.trans hmods.counts) htests

theorem Unwinds.addsOnly {e : Expr} {name : String} (h : Unwinds draft e name t draft') :
    AddsOnly {.named name} draft t draft' := by
  obtain @⟨_, draft₁, -, hval⟩ := h
  refine ⟨⟨?_, fun l hl => .inl ?_, hval.counts.next, fun var hvar => ?_⟩, ?_⟩
  · refine forall_mem_cons.2 ⟨⟨rfl, forall_mem_singleton.2 ?_⟩,
      forall_mem_singleton.2 (.leaf rfl rfl)⟩
    exact (hval.neat.append_bland rfl).orderly
  · simpa [mem_puts] using hl
  · rw [← hval.counts.scope] at hvar
    exact Scope.binds_declare.2 (.inr hvar)
  · change draft₁.scope.paths = draft.scope.paths
    rw [hval.counts.scope]

end Projecting

end CypherGremlin
