import CypherGremlin.Proofs.Statement.Matching
import CypherGremlin.Proofs.Statement.Lowers.Writing

/-!
# Formed updates

The clauses that write to the graph.  CREATE and MERGE take the ends of a new relationship from
labels, of nodes in scope or of nodes that were created just before.  SET, REMOVE and DELETE select
the variables that they write to.  DELETE is the only clause that fills buckets, and whenever a
bucket is in use there is a step that fills it.  The labels of the buckets are put on no object.
-/

namespace CypherGremlin

variable {T : Sources} {F V : Set Label} {draft draft' : Draft} {t : Traversal} {k : String}
  {marks : List Mark}

open List Traversal

lemma Formed.property {start : Bool} {v : Value} (hk : Plain k) (hv : v.Sound T) :
    Formed T start V [.property k v] := .leaf rfl ⟨hk, hv⟩ rfl

lemma Formed.propertyFrom {start : Bool} (hk : Plain k) (ht : Formed T false V t) :
    Formed T start V [.propertyFrom k t] := .frame rfl hk (forall_mem_singleton.2 ht.inner)

/-! ## CREATE -/

namespace Creating

lemma Stores.formed {entries : List (String × Expr)} (h : Stores draft entries t draft')
    (hdraft : draft.Holds V F) (hT : ∀ entry ∈ entries, entry.2.Within T) : Formed T false V t := by
  induction h with
  | nil => exact .nil
  | null _ _ ih => exact ih hdraft (forall_mem_cons.1 hT).2
  | constant hkey _ hv _ ih =>
    obtain ⟨he, hrest⟩ := forall_mem_cons.1 hT
    exact .andThen (.property hkey (hv.sound he.supplied)) (ih hdraft hrest)
  | computed hkey _ hval _ ih =>
    obtain ⟨he, hrest⟩ := forall_mem_cons.1 hT
    exact .andThen (.propertyFrom hkey (hval.formed hdraft he))
      (ih (hdraft.renumber hval.counts) hrest)

lemma Node.continues {l : Label} {pattern : NodePattern} (h : Node draft pattern l t draft')
    (hdraft : draft.Holds V F)
    (hT : ∀ entry ∈ pattern.properties, entry.2.Within T) :
    l.IsVisibleIn (V ∪ puts t) ∧ Continues T V F t draft' := by
  cases h with
  | known _ _ _ hbound =>
    exact ⟨(hdraft.visible (Scope.binds_of_binding? hbound)).mono Set.subset_union_left,
      .of_holds .nil hdraft⟩
  | new _ hlabels hplain hstores hl =>
    refine ⟨hl.visible V _, hl.continues ?_ (hdraft.renumber hstores.counts)⟩
    refine .andThen (a := [.addV _]) (.leaf rfl (fun text htext => ?_) rfl)
      (hstores.formed hdraft hT)
    exact hplain text (hlabels ▸ htext)

lemma visible_of_ends? {first second source target : Label} {d : Direction}
    (h : ends? d first second = some (source, target)) (hfirst : first.IsVisibleIn V)
    (hsecond : second.IsVisibleIn V) : source.IsVisibleIn V ∧ target.IsVisibleIn V := by
  cases d <;> cases h
  · exact ⟨hfirst, hsecond⟩
  · exact ⟨hsecond, hfirst⟩

lemma formed_addE {source target : Label} {start : Bool} {type : String} (htype : Plain type)
    (hsource : source.IsVisibleIn V)
    (htarget : target.IsVisibleIn V) : Formed T start V [.addE type source target] :=
  ⟨.leaf ⟨htype, hsource.2, htarget.2⟩ rfl,
    .step trivial (by simp [Step.references, hsource.1, htarget.1]) (forall_mem_nil _)⟩

lemma Relationship.continues {first second : Label} {rel : RelPattern}
    (h : Relationship draft rel first second t draft')
    (hdraft : draft.Holds V F) (hT : ∀ entry ∈ rel.properties, entry.2.Within T)
    (hfirst : first.IsVisibleIn V) (hsecond : second.IsVisibleIn V) : Continues T V F t draft' := by
  obtain ⟨-, htype, hends, hstores, hl⟩ := h
  obtain ⟨hsource, htarget⟩ := visible_of_ends? hends hfirst hsecond
  refine hl.continues ?_ (hdraft.renumber hstores.counts)
  exact .andThen (formed_addE htype hsource htarget) (hstores.formed hdraft hT)

lemma Hops.continues {hops : List Hop} {previous : Label} (h : Hops previous draft hops t draft')
    (hdraft : draft.Holds V F)
    (hT : ∀ hop ∈ hops, (∀ entry ∈ hop.rel.properties, entry.2.Within T) ∧
      ∀ entry ∈ hop.node.properties, entry.2.Within T) (hprevious : previous.IsVisibleIn V) :
    Continues T V F t draft' := by
  induction h generalizing V F with
  | nil => exact .of_holds .nil hdraft
  | @cons _ next _ _ _ _ _ _ nodeSteps relSteps _ hnode hrel _ ih =>
    obtain ⟨hhop, hrest⟩ := forall_mem_cons.1 hT
    obtain ⟨hnext, hnode⟩ := hnode.continues hdraft hhop.2
    have hrel := hrel.continues hnode.holds hhop.1 (hprevious.mono Set.subset_union_left) hnext
    have hsteps := hrel.append hnode.formed
    have hvis : V ∪ puts nodeSteps ⊆ V ∪ puts (nodeSteps ++ relSteps) :=
      Set.union_subset_union_right V (puts_subset_append _ _)
    exact (ih hsteps.holds hrest (hnext.mono hvis)).append hsteps.formed

theorem CreatesAll.continues {ps : List Pattern} (h : CreatesAll draft ps t draft')
    (hdraft : draft.Holds V F) (hT : ∀ p ∈ ps, ∀ e ∈ p.values, e.Within T) :
    Continues T V F t draft' := by
  induction h generalizing V F with
  | nil => exact .of_holds .nil hdraft
  | cons hp _ ih =>
    obtain ⟨hpT, hrest⟩ := forall_mem_cons.1 hT
    obtain ⟨hstartT, hhopsT⟩ := Pattern.forall_mem_values.1 hpT
    obtain ⟨-, hstart, hhops⟩ := hp
    obtain ⟨hfirst, hstart⟩ := hstart.continues hdraft hstartT
    have hsteps := (hhops.continues hstart.holds hhopsT hfirst).append hstart.formed
    exact (ih hsteps.holds hrest).append hsteps.formed

end Creating

namespace Merging

lemma Constants.sound {values : List (String × Value)} {properties : List (String × Expr)}
    (h : Constants properties values) (hT : ∀ entry ∈ properties, entry.2.Supplied T) :
    ∀ entry ∈ values, Plain entry.1 ∧ entry.2.Sound T := by
  intro value hval
  obtain ⟨entry, hentry, hkey, heq, hv⟩ := exists_mem_of_forall₂ h value hval
  exact ⟨heq ▸ hkey, hv.sound (hT entry hentry)⟩

lemma formed_assignments {values : List (String × Value)}
    (h : ∀ entry ∈ values, Plain entry.1 ∧ entry.2.Sound T) :
    Formed T false V (values.map fun entry => .property entry.1 entry.2) :=
  .of_forall (forall_mem_map.2 fun entry hentry => .property (h entry hentry).1 (h entry hentry).2)

/-- What is found or created by one of two traversals gets a label. -/
lemma continues_coalesce {l : Label} {find create : Traversal} {kind : VarKind}
    {var : Option String} (hfind : Formed T true V find)
    (hcreate : Formed T true V create) (hl : draft.Labels kind false var l draft')
    (hdraft : draft.Holds V F) : Continues T V F [.coalesce [find, create], .as l] draft' :=
  hl.continues (a := [.coalesce _]) (.frame rfl (cons_ne_nil _ _)
    (forall_mem_cons.2 ⟨hfind, forall_mem_singleton.2 hcreate⟩)) hdraft

lemma Endpoint.visible {l : Label} {pattern : NodePattern} (h : Endpoint draft.scope pattern l)
    (hdraft : draft.Holds V F) :
    l.IsVisibleIn V := by
  obtain ⟨-, hbound, -, -⟩ := h
  exact hdraft.visible hbound

theorem Merges.continues {p : Pattern} (h : Merges draft p t draft') (hdraft : draft.Holds V F)
    (hT : ∀ e ∈ p.values, e.Supplied T) : Continues T V F t draft' := by
  obtain ⟨hstartT, hhopsT⟩ := Pattern.forall_mem_values.1 hT
  cases h with
  | node _ _ hlabels htests hvals hl =>
    have hsound := hvals.sound hstartT
    refine continues_coalesce ?_ (.andThen (a := [.addV _]) (.leaf rfl ?_ rfl) ?_) hl hdraft
    · exact .andThen (a := [.V]) (.leaf rfl trivial rfl)
        (hdraft.reads (Composed.nodeTests htests hstartT))
    · obtain ⟨hplain, -⟩ := htests
      exact fun text htext => hplain text (hlabels ▸ htext)
    · exact formed_assignments fun entry hentry => hsound entry (mem_of_mem_filter hentry)
  | relationship hhops hfirst hsecond _ htype hends hvals hl =>
    obtain ⟨hsource, htarget⟩ :=
      Creating.visible_of_ends? hends (hfirst.visible hdraft) (hsecond.visible hdraft)
    have hsound := hvals.sound (hhopsT _ (by simp [hhops])).1
    refine continues_coalesce ?_ ?_ hl hdraft
    · refine .andThen (.andThen (.andThen (.select hsource) (.leaf rfl ?_ rfl)) (.of_forall ?_)) ?_
      · exact forall_mem_singleton.2 (.inl htype)
      · exact forall_mem_map.2 fun entry hentry =>
          .leaf rfl ⟨(hsound entry hentry).1, forall_mem_singleton.2 (hsound entry hentry).2⟩ rfl
      · refine .frame rfl trivial (forall_mem_singleton.2 ?_)
        exact .andThen (a := [.inV]) (.leaf rfl trivial rfl) (.whereLabel htarget _)
    · exact .andThen (a := [_]) (Creating.formed_addE htype hsource htarget)
        (formed_assignments hsound)

end Merging

namespace Updating

variable (T) in
lemma Targets.formed {v : String} (h : Targets draft.scope v t) (hdraft : draft.Holds V F) :
    Formed T false V t := by
  obtain ⟨hbound⟩ := h
  exact hdraft.reads (Composed.bindingSelect hbound)

lemma formed_removal (hk : Plain k) : Formed T false V (removal k) :=
  .bland rfl (.append (a := [_]) (.leaf (forall_mem_singleton.2 hk) rfl)
    (.leaf (s := .drop) trivial rfl))

lemma Assigns.formed {e : Expr} (h : Assigns draft k e t draft') (hdraft : draft.Holds V F)
    (hk : Plain k) (hT : e.Within T) : Formed T false V t := by
  cases h with
  | null => exact formed_removal hk
  | constant _ hv => exact .property hk (hv.sound hT.supplied)
  | computed _ hval => exact .propertyFrom hk (hval.formed hdraft hT)

theorem Sets.formed {items : List Assignment} (h : Sets draft items t draft')
    (hdraft : draft.Holds V F) (hT : ∀ item ∈ items, item.value.Within T) : Formed T false V t := by
  induction h with
  | nil => exact .nil
  | cons htarget hkey hwritten _ ih =>
    obtain ⟨hitem, hrest⟩ := forall_mem_cons.1 hT
    have hwrite := (htarget.formed T hdraft).andThen (hwritten.formed hdraft hkey hitem)
    exact .andThen (.sideEffect hwrite.inner) (ih (hdraft.renumber hwritten.counts) hrest)

theorem Removes.formed {items : List PropertyRef} (h : Removes draft.scope items t)
    (hdraft : draft.Holds V F) : Formed T false V t := by
  refine .of_forall fun s hs => ?_
  obtain ⟨item, -, hkey, target, htarget, rfl⟩ := exists_mem_of_forall₂ h s hs
  exact .sideEffect ((htarget.formed T hdraft).andThen (formed_removal hkey)).inner

end Updating

namespace Deleting

/-- What is collected can be selected. -/
lemma MarksAll.visible {detach : Bool} {es : List Expr} (h : MarksAll draft.scope detach es marks)
    (hdraft : draft.Holds V F) :
    ∀ mark ∈ marks, mark.label.IsVisibleIn V ∧ mark.test.Sound T := by
  have hnull : (Predicate.neq .null).Sound T := forall_mem_singleton.2 .null
  have hcustom (test : CustomPredicate) : (Predicate.custom test none).Sound T := forall_mem_nil _
  induction h with
  | nil => exact forall_mem_nil _
  | cons hmarks _ ih =>
    refine forall_mem_append.2 ⟨?_, ih⟩
    cases hmarks with
    | element hbound =>
      exact forall_mem_singleton.2 ⟨hdraft.visible (Scope.binds_of_binding? hbound), hnull⟩
    | path _ _ hpath =>
      have hlabels := (hdraft.clean.path hpath).labels
      exact forall_mem_map.2 fun element helem =>
        ⟨⟨hdraft.scope.paths _ (Table.mem_of_get? hpath) element helem, hlabels element helem⟩,
          hnull⟩
    | dynamic hbound =>
      have hvis := hdraft.visible (Scope.binds_of_binding? hbound)
      exact forall_mem_cons.2 ⟨⟨hvis, hcustom _⟩, forall_mem_singleton.2 ⟨hvis, hcustom _⟩⟩

lemma isBucket_bucketOf (detach : Bool) : (bucketOf detach).IsBucket := by
  cases detach with
  | false => exact .inl rfl
  | true => exact .inr rfl

lemma formed_marks (h : ∀ mark ∈ marks, mark.label.IsVisibleIn V ∧ mark.test.Sound T) :
    Formed T false V (marks.map Mark.step) := by
  refine .of_forall (forall_mem_map.2
    fun mark hmark => .sideEffect ((Formed.select (h mark hmark).1).andThen ?_))
  exact .andThen (a := [_]) (.leaf rfl (h mark hmark).2 rfl) (.leaf rfl (isBucket_bucketOf _) rfl)

lemma holds_mark (hdraft : draft.Holds V F) (hfilled : ∀ mark ∈ marks, bucketOf mark.detach ∈ F) :
    (mark draft marks).Holds V F := by
  suffices h : ∀ buckets : Buckets, (buckets.plain = true → plainBucket ∈ F) →
      (buckets.detached = true → detachedBucket ∈ F) →
      ((marks.foldl Mark.use buckets).plain = true → plainBucket ∈ F) ∧
        ((marks.foldl Mark.use buckets).detached = true → detachedBucket ∈ F) from
    have hbuckets := h draft.buckets hdraft.plain hdraft.detached
    ⟨hdraft.clean, hdraft.scope, hdraft.marked, hbuckets.1, hbuckets.2⟩
  induction marks with
  | nil => exact fun _ hplain hdetached => ⟨hplain, hdetached⟩
  | cons mark rest ih =>
    obtain ⟨hmark, hrest⟩ := forall_mem_cons.1 hfilled
    intro buckets hplain hdetached
    cases hdetach : mark.detach with
    | true =>
      refine ih hrest (mark.use buckets) ?_ fun _ => ?_
      · simpa [Mark.use, hdetach] using hplain
      · simpa [bucketOf, hdetach] using hmark
    | false =>
      refine ih hrest (mark.use buckets) (fun _ => ?_) ?_
      · simpa [bucketOf, hdetach] using hmark
      · simpa [Mark.use, hdetach] using hdetached

theorem MarksAll.continues {detach : Bool} {es : List Expr}
    (h : MarksAll draft.scope detach es marks) (hdraft : draft.Holds V F) :
    Continues T V F (marks.map Mark.step) (mark draft marks) where
  formed := formed_marks (h.visible hdraft)
  holds := holds_mark (hdraft.mono Set.subset_union_left Set.subset_union_left) fun mark hmark => by
    refine .inr ?_
    rw [fills, Set.mem_ofPred_eq, walk_eq_flatMap]
    exact mem_flatMap.2 ⟨mark.step, mem_map_of_mem hmark, by simp [Mark.step, Step.walk, walk]⟩

/-! ### The end of the program -/

lemma lowered_staying : Lowered T [.whereLabel .without detachedBucket] :=
  .leaf (Label.clean_token .detachDelete) rfl

lemma lowered_capUnfoldDedup (t : Token) : Lowered T [.cap (.token t), .unfold, .dedup] :=
  .append (a := [_]) (.leaf (Label.clean_token t) rfl)
    (.append (a := [_]) (.leaf trivial rfl) (.leaf trivial rfl))

lemma lowered_check (detached : Bool) : Lowered T [check detached] := by
  have hraise : Lowered T [.constant (.string EngineFault.connectedNodeName), .apply .raise] := by
    exact .append (.constant (.string (by decide))) (.leaf trivial rfl)
  have hedges : Lowered T [.bothE []] := .leaf (by simp [Step.Own]) rfl
  refine Lowered.sideEffect ?_
  cases detached with
  | false =>
    refine .append (.append (lowered_capUnfoldDedup _) .nil) (.append (a := [_]) ?_ hraise)
    exact .step trivial (forall_mem_singleton.2 hedges)
  | true =>
    refine .append (.append (lowered_capUnfoldDedup _) lowered_staying)
      (.append (a := [_]) ?_ hraise)
    refine .step trivial (forall_mem_singleton.2 (.append (a := [_]) hedges ?_))
    exact .append (a := [_]) lowered_staying
      (.append (a := [_]) (.leaf trivial rfl) lowered_staying)

lemma lowered_removal (t : Token) : Lowered T [removal (.token t)] :=
  Lowered.sideEffect (.append (lowered_capUnfoldDedup t) (.leaf trivial rfl))

lemma lowered_phase (buckets : Buckets) (returns : Bool) : Lowered T (phase buckets returns) := by
  refine .append (.append (.append (.append ?_ (.ite (lowered_check _) .nil))
    (.ite (lowered_removal _) .nil)) (.ite (lowered_removal _) .nil)) (.ite ?_ ?_)
  · exact .append (a := [_]) (.leaf trivial rfl)
      (.as (Label.canStay_token (by simp) (by simp) (by simp)))
  · exact .append (.select (Label.clean_token _)) (.leaf (s := .unfold) trivial rfl)
  · exact .leaf (.inl rfl) rfl

end Deleting

end CypherGremlin
