import CypherGremlin.Proofs.Statement.Draft
import CypherGremlin.Proofs.Statement.Lowers.Projecting

/-!
# Formed projections

The columns of a projection have names that were checked, or those of variables.  The arguments of
aggregates are entries of a map under numbered labels, which are read from the map and never put on
an object.

A projection reads the variables in scope and ends in a map of its columns, and so the rows that
come after it are maps (`Projecting.EndsSolid`).  WITH numbers them and binds the columns as
variables; nothing else is in scope afterwards, although the old labels are still there.
-/

namespace CypherGremlin

variable {T : Sources} {entries : List (Label × Traversal)} {scope : Scope} {e : Expr}
  {F V : Set Label}

open List Traversal

namespace Projecting

variable {mode : Mode} {draft draft' : Draft} {columns : List (Item Expr)} {p : Projection}
  {t : Traversal}

variable (T) in
/-- The name of a column is plain, and its expressions test no other types and have no other
parameters than those given. -/
structure Checked (item : Item Expr) : Prop where
  name : Plain item.name
  within : item.expr.Within T
  argument : ∀ f distinct arg, item.role = .aggregate f distinct arg → arg.Within T

lemma Columns.checked (h : Columns scope p columns) (hscope : scope.Clean)
    (hT : ∀ column ∈ p.items, column.expr.Within T) : ∀ item ∈ columns, Checked T item := by
  obtain ⟨listed, rfl, hlisted⟩ := h.listed
  refine forall_mem_append.2 ⟨?_, fun column hcol => ?_⟩
  · rw [starred]
    split
    · refine forall_mem_map.2 fun var hvar => ⟨hscope.vars var hvar, ?_, by simp [variableItem]⟩
      constructor <;> simp [variableItem, Expr.predicateTypes, Expr.Supplied, Expr.parameters]
    · exact forall_mem_nil _
  · obtain ⟨item, hitem, hlists⟩ := exists_mem_of_forall₂ hlisted column hcol
    refine ⟨hlists.name ▸ hlists.plain, hlists.expr ▸ hT item hitem, fun f distinct arg hrole => ?_⟩
    -- The argument of an aggregate is a part of the column.
    have hwithin := hT item hitem
    have hplays := hlists.plays
    rw [hrole] at hplays
    generalize item.expr = e at hplays hwithin
    cases hplays
    exact Expr.Within.items hwithin.types hwithin.supplied _ mem_cons_self

/-! ## Aggregates -/

/-- The argument of an aggregate has the label of an intermediate result. -/
def Numbered (r : Role Label) : Prop :=
  ∀ f distinct l, r = .aggregate f distinct l → ∃ n, l = .token (.generated n)

lemma lowered_orElse {v : Value} (ht : Lowered T t) (hv : v.Sound T) : Lowered T (orElse t v) :=
  .coalesce (by simp) (by simpa using ⟨ht, .constant hv⟩)

lemma lowered_aggregated (f : Aggregate) {values : Traversal} (h : Lowered T values) :
    Lowered T (aggregated f values) := by
  have hend : ∀ s : Step, s.Own T → s.children = [] → Lowered T (values ++ [s]) :=
    fun s hs hchild => .append h (.leaf hs hchild)
  cases f with
  | count | collect => exact hend _ trivial rfl
  | sum => exact lowered_orElse (hend _ trivial rfl) (.int 0)
  | avg | min | max => exact lowered_orElse (hend _ trivial rfl) .null

lemma lowered_summary {r : Role Label} (h : Numbered r) : Lowered T (summary r) := by
  cases r with
  | key => exact .nil
  | countAll => exact .leaf trivial rfl
  | aggregate f distinct l =>
    obtain ⟨n, rfl⟩ := h f distinct l rfl
    refine lowered_aggregated f (.append ?_ (.ite (.leaf trivial rfl) .nil))
    refine .append (a := [_]) (.leaf trivial rfl) (.append (a := [_]) (.leaf ?_ rfl) .notNull)
    exact ⟨Label.clean_token _, .inr ⟨n, rfl⟩⟩

variable (T) in
/-- A column whose argument has been put under a label. -/
structure Labelled (item : Item Label) : Prop where
  name : Plain item.name
  within : item.expr.Within T
  numbered : Numbered item.role

lemma Inputs.formed {inputs : List (Item Label)}
    (h : Inputs mode draft columns inputs entries draft') (hdraft : draft.Holds V F)
    (hcols : ∀ item ∈ columns, Checked T item) : (inputs = [] → columns = []) ∧
      (∀ item ∈ inputs, Labelled T item) ∧ ∀ entry ∈ entries, entry.1.Clean ∧
      Formed T false V entry.2 := by
  induction h with
  | nil => simp
  | key _ ih | countAll _ ih =>
    obtain ⟨hitem, hrest⟩ := forall_mem_cons.1 hcols
    obtain ⟨-, hothers, hentries⟩ := ih hdraft hrest
    refine ⟨by simp, forall_mem_cons.2 ⟨⟨hitem.name, hitem.within, ?_⟩, hothers⟩, hentries⟩
    simp [Numbered]
  | aggregate hval _ ih =>
    obtain ⟨hitem, hrest⟩ := forall_mem_cons.1 hcols
    have hsucc := hdraft.renumber (.succ _)
    obtain ⟨-, hothers, hentries⟩ := ih (hsucc.renumber hval.counts) hrest
    refine ⟨by simp, forall_mem_cons.2 ⟨⟨hitem.name, hitem.within, ?_⟩, hothers⟩, ?_⟩
    · rintro _ _ _ ⟨⟩
      exact ⟨_, rfl⟩
    · exact forall_mem_cons.2 ⟨⟨Label.clean_token _, hval.formed hsucc (hitem.argument _ _ _ rfl)⟩,
        hentries⟩

lemma Entries.formed {α : Type} {items : List (Item α)}
    (h : Entries mode draft items entries draft') (hdraft : draft.Holds V F)
    (hitems : ∀ item ∈ items, Plain item.name ∧ item.expr.Within T) :
    (entries = [] → items = []) ∧ ∀ entry ∈ entries, entry.1.Clean ∧ Formed T false V entry.2 := by
  induction h with
  | nil => simp
  | cons hval _ ih =>
    obtain ⟨hitem, hrest⟩ := forall_mem_cons.1 hitems
    exact ⟨by simp, forall_mem_cons.2
      ⟨⟨hitem.1, hval.formed hdraft hitem.2⟩, (ih (hdraft.renumber hval.counts) hrest).2⟩⟩

lemma formed_groupRows (h : ∀ entry ∈ entries, entry.1.Clean ∧ Formed T false V entry.2) :
    Formed T false V (groupRows entries) := by
  unfold groupRows
  split
  · exact .leaf rfl trivial rfl
  · rename_i hne
    exact .andThen (.project (by simpa using hne) h) (.leaf rfl trivial rfl)

lemma lowered_keyTag (mode : Mode) (kind : ColumnKind) : Lowered T (keyTag mode kind) := by
  rw [keyTag.eq_def]
  split
  · exact .unlessNull (.kindTag _)
  · exact .unlessNull (.kindTag _)
  · exact .unlessNull (.idTag (.leaf trivial rfl))
  · exact .nil

lemma lowered_groupColumn (scope : Scope) (mode : Mode) {item : Item Label} (h : Labelled T item) :
    Lowered T (groupColumn scope mode item) := by
  refine .ite ?_ (.append (.append (a := [_]) ?_ (.selectKey h.name)) (lowered_keyTag _ _))
  · exact .append (a := [_]) (.leaf trivial rfl) (lowered_summary h.numbered)
  · exact .leaf trivial rfl

lemma isBland_summary (r : Role Label) : isBland (summary r) = true := by
  cases r with
  | key | countAll => rfl
  | aggregate f distinct l => cases f <;> cases distinct <;> rfl

lemma isBland_groupColumn (scope : Scope) (mode : Mode) (item : Item Label) :
    isBland (groupColumn scope mode item) = true := by
  rw [groupColumn]
  split
  · exact isBland_summary item.role
  · cases mode <;> cases item.expr.columnKind scope <;> rfl

/-- The last step gives maps. -/
def EndsSolid (t : Traversal) : Prop := ∃ a s, t = a ++ [s] ∧ s.isSolid = true

lemma EndsSolid.append {a b : Traversal} (ha : EndsSolid a) (hb : ∀ s ∈ b, s.isSolid = true) :
    EndsSolid (a ++ b) := by
  rcases b.eq_nil_or_concat with rfl | ⟨b', s, rfl⟩
  · rwa [append_nil]
  · exact ⟨a ++ b', s, by simp, hb s (by simp)⟩

lemma Makes.formed (h : Makes mode draft columns t draft') (hdraft : draft.Holds V F)
    (hne : columns ≠ []) (hcols : ∀ item ∈ columns, Checked T item) :
    Formed T false V t ∧ EndsSolid t := by
  cases h with
  | perRow _ hvals =>
    obtain ⟨hsome, hentries⟩ := hvals.formed hdraft fun item hitem =>
      ⟨(hcols item hitem).name, (hcols item hitem).within⟩
    exact ⟨.project (fun heq => hne (hsome heq)) hentries, [], _, rfl, rfl⟩
  | overall _ hinputs _ =>
    obtain ⟨hsome, hlabelled, hentries⟩ := hinputs.formed hdraft hcols
    refine ⟨(formed_groupRows hentries).andThen
      (.project (by simpa using fun heq => hne (hsome heq)) ?_), _, _, rfl, rfl⟩
    exact forall_mem_map.2 fun input hinput =>
      ⟨(hlabelled input hinput).name,
        .bland (isBland_summary _) (lowered_summary (hlabelled input hinput).numbered)⟩
  | @perGroup _ entries keys _ _ _ hinputs hsomeKey _ hvals =>
    obtain ⟨hsome, hlabelled, hentries⟩ := hinputs.formed hdraft hcols
    obtain ⟨hsomeKeys, hkeys⟩ := hvals.formed (hdraft.renumber hinputs.counts) fun input hinput =>
      ⟨(hlabelled input (mem_of_mem_filter hinput)).name,
        (hlabelled input (mem_of_mem_filter hinput)).within⟩
    -- Keys are made inside the group, and columns from its entries.
    have hproj : Formed T true V [.project keys] :=
      .project (fun heq => absurd (hsomeKeys heq) (by simpa using hsomeKey)) hkeys
    have hgroup : Formed T false V [.group [.project keys] (groupRows entries), .unfold] :=
      .andThen (a := [_]) (.frame rfl trivial (forall_mem_cons.2 ⟨hproj, forall_mem_singleton.2
        (formed_groupRows hentries).inner⟩)) (.leaf rfl trivial rfl)
    refine ⟨hgroup.andThen (b := [_]) (.project (by simpa using fun heq => hne (hsome heq)) ?_),
      [_, _], _, rfl, rfl⟩
    exact forall_mem_map.2 fun input hinput => ⟨(hlabelled input hinput).name,
      .bland (isBland_groupColumn _ mode input)
      (lowered_groupColumn _ mode (hlabelled input hinput))⟩

/-! ## Order and pages -/

lemma formed_nullRank {key : Traversal} (h : Formed T false V key) :
    Formed T false V (nullRank key) := by
  refine h.andThen (.bland rfl (.step (forall_mem_singleton.2 .null) ?_))
  have hint : ∀ i, Lowered T [.constant (.int i)] := fun i => .constant (.int i)
  simp [Step.children, hint]

lemma OrdersBy.formed (h : OrdersBy draft columns e t draft') (hdraft : draft.Holds V F)
    (hcols : ∀ item ∈ columns, Checked T item) (hT : e.Within T) : Formed T false V t := by
  cases h with
  | column hfound => exact .bland rfl (.selectKey (hcols _ (mem_of_find?_eq_some hfound)).name)
  | value _ _ hval => exact hval.formed hdraft hT

lemma Orders.formed {sorts : List SortItem} {keys : List (Traversal × SortOrder)}
    (h : Orders columns draft sorts keys draft') (hdraft : draft.Holds V F)
    (hcols : ∀ item ∈ columns, Checked T item) (hT : ∀ sort ∈ sorts, sort.expr.Within T) :
    ∀ key ∈ keys, Formed T false V key.1 := by
  induction h with
  | nil => simp
  | cons hkey _ ih =>
    obtain ⟨hsort, hrest⟩ := forall_mem_cons.1 hT
    have hformed := hkey.formed hdraft hcols hsort
    exact forall_mem_cons.2 ⟨formed_nullRank hformed,
      forall_mem_cons.2 ⟨hformed, ih (hdraft.renumber hkey.counts) hrest⟩⟩

lemma toNat_saturatingAdd {a b : UInt64} (ha : a.toInt64.toInt = a.toNat)
    (hb : b.toInt64.toInt = b.toNat) : (saturatingAdd a b).toNat = a.toNat + b.toNat := by
  have hsum : a.toNat + b.toNat < UInt64.size := by
    have := a.toInt64.toInt_lt
    have := b.toInt64.toInt_lt
    have : UInt64.size = 2 ^ 64 := rfl
    omega
  rw [saturatingAdd, if_pos hsum, UInt64.toNat_add]
  exact Nat.mod_eq_of_lt hsum

lemma Paged.natural? {skip limit : Option UInt64} (h : Paged p skip limit) :
    p.skip.bind Expr.natural? = skip.map (·.toNat) ∧ p.limit.bind Expr.natural? = limit.map
    (·.toNat) := by
  have hnatural (bound : Option UInt64) (hfits : ∀ n ∈ bound, n.toInt64.toInt = n.toNat) :
      (bound.map fun n => .literal (.int n.toInt64)).bind Expr.natural? = bound.map (·.toNat) := by
    cases bound with
    | none => rfl
    | some n => simp [Expr.natural?, hfits n rfl, -Int64.toNat_toInt]
  obtain ⟨hskip, hlimit⟩ := forall_mem_append.1 h.fits
  rw [h.skips, h.limits]
  exact ⟨hnatural skip (by simpa using hskip), hnatural limit (by simpa using hlimit)⟩

lemma formed_pageSteps {skip limit : Option UInt64} (hpaged : Paged p skip limit)
    (hT : ∀ n ∈ p.bounds, T.bounds n) :
    Formed T false V (pageSteps skip limit) ∧ ∀ s ∈ pageSteps skip limit, s.isSolid = true := by
  have hfits := hpaged.fits
  simp only [Projection.bounds, Projection.skipped, hpaged.natural?] at hT
  fun_cases pageSteps skip limit with
  | case1 s l =>
    simp only [Option.toList_some, singleton_append, forall_mem_cons] at hfits
    refine ⟨.leaf rfl ⟨hT _ (by simp), ?_⟩ rfl, forall_mem_singleton.2 rfl⟩
    rw [toNat_saturatingAdd hfits.1 hfits.2.1]
    exact hT _ (by simp)
  | case2 s => exact ⟨.leaf rfl (.inr (hT _ (by simp))) rfl, forall_mem_singleton.2 rfl⟩
  | case3 l => exact ⟨.leaf rfl (.inr (hT _ (by simp))) rfl, forall_mem_singleton.2 rfl⟩
  | case4 => exact ⟨.nil, forall_mem_nil _⟩

lemma Modifies.formed (h : Modifies draft p columns t draft') (hdraft : draft.Holds V F)
    (hcols : ∀ item ∈ columns, Checked T item) (hT : ∀ sort ∈ p.orderBy, sort.expr.Within T)
    (hbounds : ∀ n ∈ p.bounds, T.bounds n) : Formed T false V t ∧ ∀ s ∈ t, s.isSolid = true := by
  obtain ⟨horder, hpage⟩ := h
  obtain ⟨skip, limit, hpaged, rfl⟩ := (delivers_paging p).result _ hpage
  obtain ⟨hpage, hsolid⟩ := formed_pageSteps hpaged hbounds
  refine ⟨.andThen (.andThen (.ite (.leaf rfl trivial rfl) .nil) (.ite .nil ?_)) hpage,
    forall_mem_append.2 ⟨forall_mem_append.2 ⟨?_, ?_⟩, hsolid⟩⟩
  · exact .frame rfl trivial
      (forall_mem_map.2 fun key hkey => (horder.formed hdraft hcols hT key hkey).inner)
  · split <;> simp [Step.isSolid]
  · split <;> simp [Step.isSolid]

/-- After WITH the variables in scope are the columns, and a path among them has the elements that
it had. -/
lemma holds_scopeAfter {W G : Set Label} (h : draft.Holds V F) (hV : V ⊆ W) (hF : F ⊆ G)
    (hnext : draft.Counts draft') {items : List (Item Expr)}
    (hitems : ∀ item ∈ items, (Label.named item.name).IsVisibleIn W) :
    Draft.Holds W G { draft' with scope := scopeAfter draft.scope items } := by
  have hvars {P : String → Prop} (hitems : ∀ item ∈ items, P item.name) :
      ∀ var ∈ Table.keys (scopeAfter draft.scope items).vars, P var := by
    rw [keys_scopeAfter]
    exact forall_mem_map.2 hitems
  have hpaths {P : PathShape → Prop} (hold : ∀ entry ∈ draft.scope.paths, P entry.2) :
      ∀ entry ∈ (scopeAfter draft.scope items).paths, P entry.2 := by
    intro entry hentry
    obtain ⟨-, var, hvar⟩ := mem_paths_scopeAfter hentry
    exact hold (var, entry.2) (Table.mem_of_get? hvar)
  have h' := h.renumber hnext
  exact ⟨⟨hvars fun item hitem => (hitems item hitem).2, hpaths h.clean.paths⟩,
    ⟨hvars fun item hitem => (hitems item hitem).1, hpaths (h.scope.mono hV).paths⟩,
    hpaths h.marked,
    fun hplain => hF (h'.plain hplain), fun hdetached => hF (h'.detached hdetached)⟩

lemma Returns.continues {results : List Column} (h : Returns draft p results t draft')
    (hdraft : draft.Holds V F) (hitems : ∀ column ∈ p.items, column.expr.Within T)
    (horder : ∀ sort ∈ p.orderBy, sort.expr.Within T) (hbounds : ∀ n ∈ p.bounds, T.bounds n) :
    (∀ column ∈ results, Plain column.name) ∧ Continues T V F t draft' := by
  obtain ⟨-, hcols, hrows, hmods⟩ := h
  have hchecked := hcols.checked hdraft.clean hitems
  have hholds := hdraft.renumber hrows.counts
  refine ⟨forall_mem_map.2 fun item hitem => (hchecked item hitem).name,
    .of_holds ?_ (hholds.renumber hmods.counts)⟩
  exact (hrows.formed hdraft hcols.some hchecked).1.andThen
    (hmods.formed hholds hchecked horder hbounds).1

lemma Carries.continues (h : Carries draft p t draft') (hdraft : draft.Holds V F)
    (hitems : ∀ column ∈ p.items, column.expr.Within T)
    (horder : ∀ sort ∈ p.orderBy, sort.expr.Within T) (hcond : ∀ e ∈ p.condition, e.Within T)
    (hbounds : ∀ n ∈ p.bounds, T.bounds n) : Continues T V F t draft' := by
  obtain @⟨columns, rows, modifiers, _, _, draft₂, _, -, hcols, hrows, hmods, htests⟩ := h
  have hchecked := hcols.checked hdraft.clean hitems
  set steps := rows ++ modifiers ++ rebinding (.token (.freshId draft₂.next.toUInt32))
    (columns.map (·.name))
  obtain ⟨hrowSteps, hsolid⟩ := hrows.formed hdraft hcols.some hchecked
  obtain ⟨hmodifierSteps, hsolids⟩ :=
    hmods.formed (hdraft.renumber hrows.counts) hchecked horder hbounds
  have hsteps : Formed T false V steps := by
    obtain ⟨a, s, heq, hs⟩ := hsolid.append hsolids
    have hboth := hrowSteps.andThen hmodifierSteps
    rw [heq] at hboth
    simpa only [steps, heq] using hboth.rebinding hs _
      (forall_mem_map.2 fun item hitem => (hchecked item hitem).name)
  have hnames : ∀ item ∈ columns, (Label.named item.name).IsVisibleIn (V ∪ puts steps) := by
    intro item hitem
    rw [puts_append]
    exact ⟨.inr (.inr (mem_puts_rebinding (mem_map_of_mem hitem))), (hchecked item hitem).name⟩
  have hholds :=
    holds_scopeAfter (G := F ∪ fills steps) hdraft Set.subset_union_left Set.subset_union_left
    ((hrows.counts.trans hmods.counts).trans (.succ _)) hnames
  exact .append hsteps (.of_holds (htests.formed hholds hcond) (hholds.renumber htests.counts))

lemma Unwinds.continues {name : String} (h : Unwinds draft e name t draft')
    (hdraft : draft.Holds V F) (hT : e.Within T) : Continues T V F t draft' := by
  obtain ⟨hname, hval⟩ := h
  refine Draft.Labels.continues (a := [.flatMap _]) (.var hname) ?_ (hdraft.renumber hval.counts)
  refine .frame rfl trivial (forall_mem_singleton.2 ((hval.formed hdraft hT).andThen ?_).inner)
  exact .bland rfl (.append (a := [_]) .notNull (.leaf (s := .unfold) trivial rfl))

end Projecting

end CypherGremlin
