import CypherGremlin.Proofs.Statement.Adding
import CypherGremlin.Proofs.Statement.Lowers.Writing

/-!
# What updates add to the program

CREATE and MERGE label what they create.  A node gets a label only if its variable is not in scope,
but a relationship gets its variable as a label in any case, even where the variable is in scope
already.  SET, REMOVE and DELETE put no label at all.
-/

namespace CypherGremlin

variable {l : Label} {var : Option String} {scope : Scope} {kind : VarKind}
  {entries : List (String × Expr)} {key : String}

open List Traversal

variable {B : Set Label} {names : List String} {draft draft' : Draft} {t : Traversal}

lemma Step.Quiet.propertyFrom (h : Neat t) : (Step.propertyFrom key t).Quiet :=
  ⟨⟨rfl, forall_mem_singleton.2 h.orderly⟩, rfl⟩

lemma Step.Quiet.sideEffect (h : AllQuiet t) : (Step.sideEffect t).Quiet :=
  ⟨⟨rfl, forall_mem_singleton.2 (neat_of_quiet h).orderly⟩, rfl⟩

/-! ## CREATE -/

namespace Creating

lemma Stores.allQuiet (h : Stores draft entries t draft') : AllQuiet t := by
  induction h with
  | nil => exact .nil
  | null _ _ ih => exact ih
  | constant _ _ _ _ ih => exact forall_mem_cons.2 ⟨.leaf rfl rfl rfl, ih⟩
  | computed _ _ hval _ ih => exact forall_mem_cons.2 ⟨.propertyFrom hval.neat, ih⟩

/-- An element is created by a step, gets its properties, and then its label. -/
lemma Stores.addsOnly {s : Step}
    {draft₁ : Draft} (h : Stores draft entries t draft₁) (hs : s.Quiet)
    (hl : draft₁.Labels kind false var l draft') (hB : ∀ v ∈ var, .named v ∈ B) :
    AddsOnly B draft (s :: t ++ [.as l]) draft' :=
  (AddsOnly.of_quiet (forall_mem_cons.2 ⟨hs, h.allQuiet⟩) h.counts).append (hl.addsOnly hB)

lemma Node.addsOnly {pattern : NodePattern} (h : Node draft pattern l t draft')
    (hB : draft.Admits names B) (hvar : ∀ v ∈ pattern.var, v ∈ names) :
    AddsOnly B draft t draft' := by
  cases h with
  | known => exact .nil draft
  | new hfree _ _ hstores hl =>
    exact hstores.addsOnly (.leaf rfl rfl rfl) hl fun v hv => hB v (hvar v hv) (hfree v hv)

/-- The variable of a relationship is put whether or not it is in scope. -/
lemma Relationship.addsOnly {rel : RelPattern} {first second : Label}
    (h : Relationship draft rel first second t draft') (hB : ∀ v ∈ rel.var, .named v ∈ B) :
    AddsOnly B draft t draft' := by
  obtain ⟨-, -, -, hstores, hl⟩ := h
  exact hstores.addsOnly (.leaf rfl rfl rfl) hl hB

lemma Hops.addsOnly {hops : List Hop} {previous : Label} (h : Hops previous draft hops t draft')
    (hB : draft.Admits names B) (hnodes : ∀ hop ∈ hops, ∀ v ∈ hop.node.var, v ∈ names)
    (hrels : ∀ hop ∈ hops, ∀ v ∈ hop.rel.var, .named v ∈ B) : AddsOnly B draft t draft' := by
  induction h with
  | nil => exact .nil _
  | cons hnode hrel _ ih =>
    obtain ⟨hnodeVar, hnodes⟩ := forall_mem_cons.1 hnodes
    obtain ⟨hrelVar, hrels⟩ := forall_mem_cons.1 hrels
    have hsteps := (hnode.addsOnly hB hnodeVar).append (hrel.addsOnly hrelVar)
    exact hsteps.append (ih (hsteps.admits hB) hnodes hrels)

theorem CreatesAll.addsOnly {ps : List Pattern} (h : CreatesAll draft ps t draft')
    (hB : ∀ p ∈ ps, draft.Admits p.nodeVars B) (hrels : ∀ p ∈ ps, ∀ v ∈ p.relVars, .named v ∈ B) :
    AddsOnly B draft t draft' := by
  induction h with
  | nil => exact .nil _
  | @cons _ _ _ p _ _ _ hp _ ih =>
    obtain ⟨hpB, hB⟩ := forall_mem_cons.1 hB
    obtain ⟨hprels, hrels⟩ := forall_mem_cons.1 hrels
    obtain ⟨-, hstart, hhops⟩ := hp
    have hfirst := hstart.addsOnly hpB p.mem_nodeVars_start
    have hsteps :=
      hfirst.append (hhops.addsOnly (hfirst.admits hpB) p.mem_nodeVars fun hop hhop v hv =>
      hprels v (p.mem_relVars hop hhop v hv))
    exact hsteps.append (ih (fun p hp => hsteps.admits (hB p hp)) hrels)

end Creating

namespace Merging

lemma addsOnly_coalesce {find create : Traversal}
    (hfind : AllQuiet find) (hcreate : AllQuiet create) (hl : draft.Labels kind false var l draft')
    (hB : ∀ v ∈ var, .named v ∈ B) : AddsOnly B draft [.coalesce [find, create], .as l] draft' := by
  have hchoice : (Step.coalesce [find, create]).Quiet := by
    refine ⟨⟨rfl, forall_mem_cons.2 ⟨?_, forall_mem_singleton.2 ?_⟩⟩, rfl⟩
    · exact (neat_of_quiet hfind).orderly
    · exact (neat_of_quiet hcreate).orderly
  exact (AddsOnly.of_quiet (forall_mem_singleton.2 hchoice) (.refl _)).append (hl.addsOnly hB)

lemma allQuiet_assignments (values : List (String × Value)) :
    AllQuiet (values.map fun entry => .property entry.1 entry.2) :=
  forall_mem_map.2 fun _ _ => .leaf rfl rfl rfl

theorem Merges.addsOnly {p : Pattern} (h : Merges draft p t draft') (hB : draft.Admits p.nodeVars B)
    (hrels : ∀ v ∈ p.relVars, .named v ∈ B) : AddsOnly B draft t draft' := by
  cases h with
  | node _ hfree _ htests _ hl =>
    refine addsOnly_coalesce ?_ ?_ hl fun v hv => hB v (p.mem_nodeVars_start v hv) (hfree v hv)
    · exact forall_mem_cons.2 ⟨.leaf rfl rfl rfl, AllQuiet.of_isProbe htests.isProbe⟩
    · exact forall_mem_cons.2 ⟨.leaf rfl rfl rfl, allQuiet_assignments _⟩
  | @relationship hop type _ _ source target _ values _ hhops _ _ _ _ _ _ hl =>
    refine addsOnly_coalesce ?_ ?_ hl fun v hv => hrels v (p.mem_relVars hop (by simp [hhops]) v hv)
    · have hfront : AllQuiet [.select [source], .outE [type]] :=
        forall_mem_cons.2 ⟨.select _, forall_mem_singleton.2 (.leaf rfl rfl rfl)⟩
      have htests : AllQuiet (values.map fun entry => .has entry.1 (.eq entry.2)) :=
        forall_mem_map.2 fun _ _ => .leaf rfl rfl rfl
      have hend : AllQuiet [.inV, .whereLabel .eq target] :=
        forall_mem_cons.2 ⟨.leaf rfl rfl rfl, forall_mem_singleton.2 (.whereLabel _ _)⟩
      refine (hfront.append htests).append (forall_mem_singleton.2 ⟨⟨rfl, ?_⟩, rfl⟩)
      exact forall_mem_singleton.2 (neat_of_quiet hend).orderly
    · exact forall_mem_cons.2 ⟨.leaf rfl rfl rfl, allQuiet_assignments values⟩

end Merging

namespace Updating

lemma Targets.allQuiet {v : String} (h : Targets scope v t) : AllQuiet t := by
  obtain ⟨-⟩ := h
  exact .bindingSelect _ v

lemma allQuiet_removal (key : String) : AllQuiet (removal key) :=
  forall_mem_cons.2 ⟨.leaf rfl rfl rfl, forall_mem_singleton.2 (.leaf rfl rfl rfl)⟩

lemma Assigns.allQuiet {e : Expr} (h : Assigns draft key e t draft') : AllQuiet t := by
  cases h with
  | null => exact allQuiet_removal key
  | constant => exact forall_mem_singleton.2 (.leaf rfl rfl rfl)
  | computed _ hval => exact forall_mem_singleton.2 (.propertyFrom hval.neat)

theorem Sets.allQuiet {items : List Assignment} (h : Sets draft items t draft') : AllQuiet t := by
  induction h with
  | nil => exact .nil
  | cons htarget _ hwritten _ ih =>
    exact forall_mem_cons.2 ⟨.sideEffect (htarget.allQuiet.append hwritten.allQuiet), ih⟩

theorem Removes.allQuiet {items : List PropertyRef} (h : Removes scope items t) : AllQuiet t := by
  intro s hs
  obtain ⟨item, -, -, _, htarget, rfl⟩ := exists_mem_of_forall₂ h s hs
  exact .sideEffect (htarget.allQuiet.append (allQuiet_removal item.key))

end Updating

theorem Deleting.allQuiet_marks (marks : List Mark) : AllQuiet (marks.map Mark.step) :=
  forall_mem_map.2 fun _ _ => .sideEffect (forall_mem_cons.2 ⟨.select _, forall_mem_cons.2
    ⟨.leaf rfl rfl rfl, forall_mem_singleton.2 (.leaf rfl rfl rfl)⟩⟩)

end CypherGremlin
