import CypherGremlin.Proofs.Statement.Aggregate
import CypherGremlin.Proofs.Statement.Lowers.Projecting

/-!
# Projections with aggregates

The steps of such a projection make the table that `Projecting.table` describes
(`Projecting.run_groups`).

The arguments of aggregates travel from the rows to the aggregates under numbered labels, so these
must be different names; `Prepared` says what is known of them.  Everything is indexed by the names
of the columns, which differ: the labels and traversals of the arguments, and the traversals of the
keys.

The steps have one of two shapes.  Without keys all rows are gathered in one list
(`exists_returns_oneGroup`).  With keys the engine groups them by maps of the keys, and a group is
an entry of such a map and a list (`exists_returns_keyGroups`).
-/

namespace CypherGremlin

variable {draft draft' : Draft} {entries : List (Label × Traversal)} {argument : String → Traversal}
  {label : String → Label} {mode : Mode} {scope : Scope} {value : Item Expr → Traverser → Obj}

open List Traversal

namespace Projecting

variable {w : World} {env : Env}

/-! ## Lowering -/

lemma yields_items_nodup (scope : Scope) (p : Projection) :
    Yields (items scope p) fun all => (all.map (·.name)).Nodup :=
  fun all h => ((delivers_items scope p).result all h).distinct

/-- The column with a label in the place of an aggregate's argument. -/
def labelled (item : Item Expr) (l : Label) : Item Label where
  name := item.name
  expr := item.expr
  role := match item.role with
    | .key => .key
    | .countAll => .countAll
    | .aggregate f distinct _ => .aggregate f distinct l

/-- The column is an aggregate of an argument. -/
def hasArgument (item : Item Expr) : Bool :=
  match item.role with
  | .aggregate _ _ _ => true
  | _ => false

/-- What the arguments of aggregates become, by the names of their columns: labels that differ, and
traversals. -/
structure Prepared (scope : Scope) (mode : Mode) (items : List (Item Expr)) (label : String → Label)
    (argument : String → Traversal) : Prop where
  lowered : ∀ item ∈ items, hasArgument item = true → ∀ input ∈ item.input? mode,
    ∃ n n', input.1.lower scope (.value input.2) n = .ok (argument item.name, n')
  distinct : ((items.filter hasArgument).map fun item => (label item.name).encode).Nodup

def inputEntries (label : String → Label) (argument : String → Traversal)
    (items : List (Item Expr)) : List (Label × Traversal) :=
  (items.filter hasArgument).map fun item => (label item.name, argument item.name)

/-- The names and traversals of the keys. -/
def keyEntries (key : String → Traversal) (items : List (Item Expr)) : List (Label × Traversal) :=
  (items.filter (!·.isAggregate)).map fun item => (.named item.name, key item.name)

/-- The columns with the labels of their arguments. -/
def labelledAll (label : String → Label) (items : List (Item Expr)) : List (Item Label) :=
  items.map fun item => labelled item (label item.name)

/-- Each column goes with the label and the traversal of its argument, if it has one, and with
something else if not. -/
lemma Inputs.exists_inputs {columns : List (Item Label)} {items : List (Item Expr)}
    (h : Inputs mode draft items columns entries draft') :
    ∃ inputs : List (Label × Traversal),
      List.Forall₂ (fun item input => hasArgument item = true → ∀ i ∈ item.input? mode,
        ∃ n n', i.1.lower draft.scope (.value i.2) n = .ok (input.2, n')) items inputs ∧
      columns = zipWith (fun item input => labelled item input.1) items inputs ∧
      entries = ((items.zip inputs).filter fun p => hasArgument p.1).map Prod.snd ∧
      (draft'.next ≤ UInt32.size → (entries.map (·.1.encode)).Nodup ∧
        ∀ n < draft.next, (Label.token (.generated n.toUInt32)).encode ∉ entries.map
        (·.1.encode)) := by
  induction h with
  | nil => exact ⟨[], .nil, rfl, rfl, by simp⟩
  | key _ ih | countAll _ ih =>
    obtain ⟨inputs, hinputs, rfl, rfl, hlabels⟩ := ih
    exact ⟨(.token .unused, []) :: inputs, .cons (by simp [hasArgument]) hinputs, rfl, rfl, hlabels⟩
  | @aggregate draft draft₁ _ _ _ _ _ _ _ _ t _ hval hrest ih =>
    obtain ⟨inputs, hinputs, rfl, rfl, hlabels⟩ := ih
    rw [hval.counts.scope] at hinputs
    refine ⟨(.token (.generated draft.next.toUInt32), t) :: inputs, .cons ?_ hinputs, rfl, rfl,
      fun hsize => ?_⟩
    · rintro - _ ⟨⟩
      exact ⟨_, _, hval.run⟩
    · obtain ⟨hnodup, hfree⟩ := hlabels hsize
      have hnext : draft.next < draft₁.next := hval.counts.next
      have hlast : draft.next < UInt32.size := hnext.trans_le (hrest.counts.next.trans hsize)
      refine ⟨nodup_cons.2 ⟨hfree _ hnext, hnodup⟩, fun n hn =>
        not_mem_cons_of_ne_of_not_mem (fun heq => ?_) (hfree n (hn.trans hnext))⟩
      have hwords : n.toUInt32 = draft.next.toUInt32 := by simpa using Token.encode_injective heq
      have hnats := congrArg UInt32.toNat hwords
      rw [UInt32.toNat_ofNat_of_lt' (hn.trans hlast), UInt32.toNat_ofNat_of_lt' hlast] at hnats
      exact hn.ne hnats

lemma exists_eq_map {α : Type} {β : Type} {R : α → β → Prop} {name : α → String} {as : List α}
    {bs : List β}
    (h : List.Forall₂ R as bs) (hnames : (as.map name).Nodup) (default : β) :
    ∃ f : String → β, bs = as.map (fun a => f (name a)) ∧ ∀ a ∈ as, R a (f (name a)) := by
  induction h with
  | nil => exact ⟨fun _ => default, rfl, by simp⟩
  | @cons a b rest bs hab _ ih =>
    obtain ⟨ha, hrest⟩ := nodup_cons.1 hnames
    obtain ⟨f, rfl, hf⟩ := ih hrest
    have hother (other : α) (hmem : other ∈ rest) : name other ≠ name a :=
      fun heq => ha (mem_map.2 ⟨other, hmem, heq⟩)
    refine ⟨Function.update f (name a) b, ?_, forall_mem_cons.2 ⟨?_, fun other hmem => ?_⟩⟩
    · rw [map_cons, Function.update_self]
      refine congrArg _ (map_congr_left fun other hmem => ?_)
      rw [Function.update_of_ne (hother other hmem)]
    · rwa [Function.update_self]
    · rw [Function.update_of_ne (hother other hmem)]
      exact hf other hmem

lemma Inputs.prepared {columns : List (Item Label)} {items : List (Item Expr)}
    (h : Inputs mode draft items columns entries draft')
    (hnames : (items.map (·.name)).Nodup) (hsize : draft'.next ≤ UInt32.size) : ∃ label argument,
      Prepared draft.scope mode items label argument ∧ columns = labelledAll label items ∧
        entries = inputEntries label argument items := by
  obtain ⟨inputs, hall, rfl, rfl, hlabels⟩ := h.exists_inputs
  obtain ⟨f, rfl, hf⟩ := exists_eq_map hall hnames (.token .unused, [])
  have hzip : items.zip (items.map fun item => f item.name) = items.map fun item =>
      (item, f item.name) := by
    simpa using zip_map' (l := items) (f := id) (g := fun item => f item.name)
  have hentries :
    ((items.zip (items.map fun item => f item.name)).filter fun p => hasArgument p.1).map Prod.snd =
      (items.filter hasArgument).map fun item => f item.name := by
    rw [hzip, filter_map, map_map]
    rfl
  rw [hentries, map_map] at hlabels
  rw [hentries]
  refine ⟨fun name => (f name).1, fun name => (f name).2, ⟨hf, (hlabels hsize).1⟩, ?_, rfl⟩
  rw [zipWith_map_right, zipWith_self, labelledAll]

@[simp] lemma isAggregate_labelled (item : Item Expr) (l : Label) :
    (labelled item l).isAggregate = item.isAggregate := by
  unfold labelled Item.isAggregate
  cases item.role <;> rfl

lemma Entries.forall₂ {α : Type} {items : List (Item α)}
    (h : Entries mode draft items entries draft') :
    List.Forall₂ (fun item entry => entry.1 = .named item.name ∧ ∃ n n',
      item.expr.lower draft.scope (.value mode) n = .ok (entry.2, n')) items entries := by
  induction h with
  | nil => exact .nil
  | cons hval _ ih => exact .cons ⟨rfl, _, _, hval.run⟩ (hval.counts.scope ▸ ih)

lemma Entries.exists_key {items : List (Item Expr)}
    (h : Entries .raw draft ((labelledAll label items).filter (!·.isAggregate)) entries draft')
    (hnames : (items.map (·.name)).Nodup) :
    ∃ key : String → Traversal, entries = keyEntries key items ∧
      ∀ item ∈ items.filter (!·.isAggregate), ∃ n n', item.expr.lower draft.scope (.value .raw) n =
        .ok (key item.name, n') := by
  have hentries := h.forall₂
  rw [labelledAll, filter_map, forall₂_map_left_iff] at hentries
  simp only [Function.comp_def, isAggregate_labelled] at hentries
  obtain ⟨f, rfl, hf⟩ := exists_eq_map hentries (hnames.sublist (filter_sublist.map _))
    (.token .unused, [])
  refine ⟨fun name => (f name).2, map_congr_left fun item hitem => ?_,
    fun item hitem => (hf item hitem).2⟩
  exact Prod.ext (hf item hitem).1 rfl

/-! ## Groups -/

section

variable {items : List (Item Expr)}

/-- What the rows of a group are reduced to: the arguments of the aggregates, if there are any. -/
def content (value : Item Expr → Traverser → Obj) (label : String → Label)
    (items : List (Item Expr)) (row : Traverser) : Obj :=
  if (items.filter hasArgument).isEmpty then row.obj
  else .map ((items.filter hasArgument).map fun item => (.string (label item.name).encode,
    value item row))

lemma get?_content {item : Item Expr}
    (hlabels : ((items.filter hasArgument).map fun item => (label item.name).encode).Nodup)
    (hitem : item ∈ items) (harg : hasArgument item = true) (row : Traverser) :
    Obj.get? (label item.name).encode (content value label items row) = some (value item row) := by
  have hmem : item ∈ items.filter hasArgument := mem_filter.2 ⟨hitem, harg⟩
  rw [content, if_neg (by simpa using ⟨item, hitem, harg⟩)]
  exact Obj.get?_map hlabels hmem

lemma returns_groupRows {rows : List Traverser}
    (h : ∀ row ∈ rows, ∀ item ∈ items.filter hasArgument,
      CypherGremlin.Returns w (Machine.value "project" (run env (argument item.name)) row)
      (value item row)) :
    CypherGremlin.Returns w (run env (groupRows (inputEntries label argument items)) rows)
      [.fresh (.list (rows.map (content value label items)))] := by
  unfold groupRows content inputEntries
  rw [isEmpty_map]
  split
  · exact .cons .fold .nil
  · have hproj :
      CypherGremlin.Returns w (Step.run env (.project ((items.filter hasArgument).map fun item =>
        (label item.name, argument item.name))) (rows.map fun row => row)) _ := .projectStep h
    rw [map_id'] at hproj
    refine hproj.cons (.cons ?_ .nil)
    have hfold : CypherGremlin.Returns w (Machine.fold (rows.map fun row => row.carry
        (.map ((items.filter hasArgument).map fun item => (.string (label item.name).encode,
        value item row))))) _ := .fold
    rwa [map_map] at hfold

lemma returnsFirst_summary {item : Item Expr} {g : Graph} {o : Obj} {t : Traverser}
    {rows : List Traverser}
    (hlabels : ((items.filter hasArgument).map fun item => (label item.name).encode).Nodup)
    (ht : t.obj = .list (rows.map (content value label items))) (hitem : item ∈ items)
    (hagg : item.isAggregate = true) (ho : column value g scope mode rows item = .ok o) :
    ReturnsFirst w (run env (summary (labelled item (label item.name)).role) [t]) o := by
  cases hrole : item.role with
  | key => simp [Item.isAggregate, hrole] at hagg
  | countAll =>
    have hnum : .ofNat rows.length = o := by simpa [column, hrole] using ho
    refine ⟨t.carry (.ofNat rows.length), [], ?_, hnum⟩
    rw [labelled, hrole, summary, run_singleton, Step.run]
    refine .emitOne_single ?_
    rw [ht]
    simp
  | aggregate f distinct argument =>
    have hof : f.of (counted distinct (rows.map (value item))) = .ok o := by
      simpa [column, hrole] using ho
    have harg : hasArgument item = true := by simp [hasArgument, hrole]
    rw [labelled, hrole, summary]
    exact returnsFirst_aggregated
      (returns_counted ht (fun row _ => get?_content hlabels hitem harg row) distinct) hof

/-- The values by which a row is grouped, with the names of their columns. -/
def keyObj (value : Item Expr → Traverser → Obj) (items : List (Item Expr))
    (row : Traverser) : Obj :=
  .map ((items.filter (!·.isAggregate)).map fun item => (.string item.name, value item row))

lemma same_keyObj (row other : Traverser) :
    (keyObj value items row).same (keyObj value items other) = sameKeys value items row other := by
  have hentries (keys : List (Item Expr)) :
      Obj.sameEntries (keys.map fun item => (.string item.name, value item row))
        (keys.map fun item => (.string item.name, value item other)) =
      keys.all fun item => (value item row).same (value item other) := by
    induction keys with
    | nil => rfl
    | cons item rest ih => simp [Obj.sameEntries, Obj.same, ih]
  exact hentries _

lemma returnsFirst_groupColumn {item : Item Expr} {row : Traverser} {o : Obj} {t : Traverser}
    {rows : List Traverser} (hnames : (items.map (·.name)).Nodup)
    (hlabels : ((items.filter hasArgument).map fun item => (label item.name).encode).Nodup)
    (ht : t.obj = .entry (keyObj value items row)
      (.list ((row :: rows).map (content value label items))))
    (hitem : item ∈ items) (ho : column value w.graph scope mode (row :: rows) item = .ok o) :
    ReturnsFirst w (run env (groupColumn scope mode (labelled item (label item.name))) [t]) o := by
  rw [groupColumn, isAggregate_labelled]
  -- A group is an entry: aggregates look at its contents, other columns at its key.
  by_cases hagg : item.isAggregate = true
  · have hvals : CypherGremlin.Returns w (Step.run env (.selectColumn .values) [t])
        [t.carry (.list ((row :: rows).map (content value label items)))] := by
      rw [Step.run]
      refine .emitOne_single ?_
      rw [ht]
      rfl
    rw [if_pos hagg]
    exact .cons hvals (returnsFirst_summary hlabels rfl hitem hagg ho)
  · have hrole : item.role = .key := by
      cases hrole : item.role with
      | key => rfl
      | _ => simp [Item.isAggregate, hrole] at hagg
    have hkeys : CypherGremlin.Returns w (Step.run env (.selectColumn .keys) [t])
        [t.carry (keyObj value items row)] := by
      rw [Step.run]
      refine .emitOne_single ?_
      rw [ht]
      rfl
    have hkey :
      CypherGremlin.Returns w (Step.run env (.selectKey (.named item.name))
      [t.carry (keyObj value items row)]) [t.carry (value item row)] := by
      have hmem : item ∈ items.filter (!·.isAggregate) := mem_filter.2 ⟨hitem, by simpa using hagg⟩
      have hentry : Obj.get? item.name (keyObj value items row) = some (value item row) :=
        Obj.get?_map (hnames.sublist (filter_sublist.map _)) hmem
      rw [Step.run]
      refine .selectOne ?_
      rw [Traverser.find?, show (t.carry (keyObj value items row)).obj =
        keyObj value items row from rfl]
      rw [show (Label.named item.name).encode = item.name from rfl, hentry]
      rfl
    have htag : (if mode = .raw || (value item row).isNull then .ok (value item row)
        else (item.expr.columnKind scope).tagged w.graph (value item row)) = .ok o := by
      simpa [column, hrole] using ho
    rw [if_neg hagg]
    exact .append (hkeys.cons (hkey.cons .nil)) (returnsFirst_keyTag htag)

end

/-! ## Projections -/

section

variable {items : List (Item Expr)} {input : List Traverser}

lemma table_eq_ok {g : Graph} {tbl : List (List Obj)}
    (h : table value g scope mode items input = .ok tbl) :
    ∃ cell : List Traverser → Item Expr → Obj,
      tbl = (groups value items input).map (fun group => items.map (cell group)) ∧
      ∀ group ∈ groups value items input, ∀ item ∈ items, column value g scope mode group item =
      .ok (cell group item) := by
  obtain ⟨rfl, hrows⟩ := eq_map_of_mapM_eq_ok [] h
  have hcells (group : List Traverser) (hgroup : group ∈ groups value items input) :=
    eq_map_of_mapM_eq_ok .null (hrows group hgroup)
  exact ⟨_, map_congr_left fun group hgroup => (hcells group hgroup).1,
    fun group hgroup => (hcells group hgroup).2⟩

lemma zip_names (cell : Item Expr → Obj) :
    (items.map fun item => Obj.string item.name).zip (items.map cell) = items.map fun item =>
    (.string item.name, cell item) :=
  zip_map' ..

lemma Prepared.returns {rows : List Traverser} (h : Prepared scope mode items label argument)
    (hval : Valued env w scope mode items input value) (hrows : ∀ row ∈ rows, row ∈ input) :
    ∀ row ∈ rows, ∀ item ∈ items.filter hasArgument,
      CypherGremlin.Returns w (Machine.value "project" (run env (argument item.name)) row)
      (value item row) := by
  intro row hrow item hitem
  obtain ⟨hitem, harg⟩ := mem_filter.1 hitem
  obtain ⟨i, hi⟩ : ∃ i, item.input? mode = some i := by
    unfold hasArgument at harg
    unfold Item.input?
    cases hrole : item.role with
    | aggregate f distinct argument => exact ⟨_, rfl⟩
    | _ => simp [hrole] at harg
  obtain ⟨n, n', hlower⟩ := h.lowered item hitem harg i hi
  exact ((hval item hitem i hi row (hrows row hrow)).returnsFirst hlower).value

lemma exists_returns_oneGroup (h : Prepared scope mode items label argument)
    (hval : Valued env w scope mode items input value) (hall : items.all (·.isAggregate) = true)
    {cell : Item Expr → Obj}
    (hcell : ∀ item ∈ items, column value w.graph scope mode input item = .ok (cell item)) :
    ∃ t, CypherGremlin.Returns w (run env (groupRows (inputEntries label argument items) ++
          [.project (items.map fun item => (.named item.name,
          summary (labelled item (label item.name)).role))]) input) [t] ∧
      t.obj = .map (items.map fun item => (.string item.name, cell item)) := by
  have hrows :
    CypherGremlin.Returns w (run env (groupRows (inputEntries label argument items)) input)
      [.fresh (.list (input.map (content value label items)))] :=
    returns_groupRows (h.returns hval fun _ hrow => hrow)
  refine ⟨_,
    hrows.append (.cons (.projectStep (l := [()]) (f := fun _ => .fresh _) (v := fun _ => cell) ?_)
    .nil), rfl⟩
  intro _ _ item hitem
  exact (returnsFirst_summary h.distinct rfl hitem (all_eq_true.1 hall item hitem)
    (hcell item hitem)).value

lemma returnsFirst_keyObj {row : Traverser} {key : String → Traversal}
    (hval : Valued env w scope mode items input value)
    (hkey : ∀ item ∈ items.filter (!·.isAggregate), ∃ n n', item.expr.lower scope (.value .raw) n =
      .ok (key item.name, n'))
    (hrow : row ∈ input) :
    ReturnsFirst w (run env [.project (keyEntries key items)] [row]) (keyObj value items row) := by
  have hvals : ∀ item ∈ items.filter (!·.isAggregate),
      CypherGremlin.Returns w (Machine.value "project" (run env (key item.name)) row)
      (value item row) := by
    intro item hitem
    obtain ⟨n, n', hlower⟩ := hkey item hitem
    obtain ⟨hitem, hkind⟩ := mem_filter.1 hitem
    have hinput : item.input? mode = some (item.expr, .raw) := by
      unfold Item.input?
      cases hrole : item.role with
      | key => rfl
      | _ => simp [Item.isAggregate, hrole] at hkind
    exact ((hval item hitem _ hinput row hrow).returnsFirst hlower).value
  have hproj : CypherGremlin.Returns w (Step.run env (.project (keyEntries key items)) [row])
      [row.carry (keyObj value items row)] :=
    .projectStep (l := [()]) (f := fun _ => row) (v := fun _ item => value item row) fun _ _ =>
      hvals
  exact ⟨_, [], hproj.cons .nil, rfl⟩

/-- With keys, rows with the same keys are a group. -/
lemma exists_returns_keyGroups {key : String → Traversal}
    (h : Prepared scope mode items label argument)
    (hnames : (items.map (·.name)).Nodup) (hval : Valued env w scope mode items input value)
    (hkey : ∀ item ∈ items.filter (!·.isAggregate), ∃ n n', item.expr.lower scope (.value .raw) n =
      .ok (key item.name, n'))
    {cell : List Traverser → Item Expr → Obj}
    (hcell : ∀ group ∈ groupsBy (sameKeys value items) input, ∀ item ∈ items,
      column value w.graph scope mode (group.1 :: group.2) item =
      .ok (cell (group.1 :: group.2) item)) :
    ∃ out, CypherGremlin.Returns w (run env [.group [.project (keyEntries key items)]
          (groupRows (inputEntries label argument items)), .unfold,
        .project (items.map fun item => (.named item.name,
        groupColumn scope mode (labelled item (label item.name))))] input)
        out ∧ out.map Traverser.obj = (groupsBy (sameKeys value items) input).map fun group =>
        .map (items.map fun item => (.string item.name, cell (group.1 :: group.2) item)) := by
  -- One map from keys to contents, its entries as traversers, and a row made of each.
  let reduced (rows : List Traverser) : Obj := .list (rows.map (content value label items))
  let found : Traverser := .fresh (.map ((groupsBy (sameKeys value items) input).map fun group =>
    (keyObj value items group.1, reduced (group.1 :: group.2))))
  have hgroup : CypherGremlin.Returns w (Step.run env (.group [.project (keyEntries key items)]
      (groupRows (inputEntries label argument items))) input) [found] := by
    have hsame : sameKeys value items = fun row other =>
        (keyObj value items row).same (keyObj value items other) :=
      funext fun row => funext fun other => (same_keyObj row other).symm
    rw [Step.run]
    simp only [found, hsame]
    refine .group (fun row hrow => returnsFirst_keyObj hval hkey hrow) fun members hmembers => ?_
    exact ⟨_, [], returns_groupRows (h.returns hval hmembers), rfl⟩
  have hunfold : CypherGremlin.Returns w (Step.run env .unfold [found])
      ((groupsBy (sameKeys value items) input).map fun group => found.carry
      (.entry (keyObj value items group.1) (reduced (group.1 :: group.2)))) := by
    have hentries : CypherGremlin.Returns w (Machine.unfold [found]) _ := .unfold_map rfl
    rwa [map_map] at hentries
  have hproj : CypherGremlin.Returns w (Step.run env (.project (items.map fun item =>
      (.named item.name, groupColumn scope mode (labelled item (label item.name)))))
      ((groupsBy (sameKeys value items) input).map fun group =>
        found.carry (.entry (keyObj value items group.1) (reduced (group.1 :: group.2))))) _ :=
    .projectStep fun group hgroup item hitem =>
      (returnsFirst_groupColumn hnames h.distinct rfl hitem (hcell group hgroup item hitem)).value
  refine ⟨_, hgroup.cons (hunfold.cons (hproj.cons .nil)), ?_⟩
  rw [map_map]
  rfl

end

/-- The steps of a projection with aggregates make a map of each row of the table: one for each
group, in the order of their first rows, with what each column holds for the group. -/
theorem run_groups {p : Projection} {mode : Mode} {its : List (Item Expr)} {draft draft' : Draft}
    {steps : Traversal} (hitems : items draft.scope p = .ok its)
    (haggregate : its.any (·.isAggregate) = true)
    (hsteps : rows mode its draft = .ok (steps, draft')) (hnext : draft'.next ≤ UInt32.size)
    {env : Env} {w : World} {input : List Traverser} {value : Item Expr → Traverser → Obj}
    {tbl : List (List Obj)} (hvalue : Valued env w draft.scope mode its input value)
    (htable : table value w.graph draft.scope mode its input = .ok tbl) :
    ∃ out, Bytecode.run env steps.bytecode input w = .ok (out, w) ∧
      out.map Traverser.obj = tbl.map fun values =>
      .map ((its.map fun item => .string item.name).zip values) := by
  have hnames := yields_items_nodup draft.scope p its hitems
  obtain ⟨cell, rfl, hcell⟩ := table_eq_ok htable
  simp only [List.map_map, Function.comp_def, zip_names]
  rw [Bytecode.run_bytecode]
  have hall (label : String → Label) : (labelledAll label its).all (·.isAggregate) =
      its.all (·.isAggregate) := by
    simp [labelledAll, Function.comp_def]
  -- Without an aggregate rows are not grouped; with nothing else there is one group.
  cases (deliversFrom_rows mode its).result _ hsteps with
  | perRow hplain => simp [haggregate] at hplain
  | overall _ hinputs hkeys =>
    obtain ⟨label, argument, hprepared, rfl, rfl⟩ := hinputs.prepared hnames hnext
    rw [hall] at hkeys
    have hgroups : groups value its input = [input] := if_pos hkeys
    rw [hgroups] at hcell ⊢
    obtain ⟨t, hrun, hobj⟩ :=
      exists_returns_oneGroup hprepared hvalue hkeys (hcell input List.mem_cons_self)
    rw [labelledAll, List.map_map]
    exact ⟨[t], hrun, by rw [List.map_singleton, List.map_singleton, hobj]⟩
  | perGroup _ hinputs hkeys _ hvals =>
    obtain ⟨label, argument, hprepared, rfl, rfl⟩ :=
      hinputs.prepared hnames (hvals.counts.next.trans hnext)
    obtain ⟨key, rfl, hkey⟩ := hvals.exists_key hnames
    rw [hinputs.counts.scope] at hkey
    rw [hall] at hkeys
    have hgroups : groups value its input = (groupsBy (sameKeys value its) input).map fun group =>
        group.1 :: group.2 :=
      if_neg (by simp [hkeys])
    rw [hgroups] at hcell ⊢
    obtain ⟨out, hrun, hobjs⟩ := exists_returns_keyGroups hprepared hnames hvalue hkey
      fun group hgroup => hcell _ (List.mem_map_of_mem hgroup)
    rw [labelledAll, List.map_map]
    exact ⟨out, hrun, by rw [hobjs, List.map_map]; rfl⟩

/-- The projection `city, count(*) AS people, collect(DISTINCT age) AS ages, sum(age) AS total`. -/
def censusProjection : Projection where
  items := [{ expr := .var "city" }, { expr := .countStar, givenName := some "people" },
    { expr := .call "collect" true [.var "age"], givenName := some "ages" },
    { expr := .call "sum" false [.var "age"], givenName := some "total" }]

/-- Its columns. -/
def censusItems : List (Item Expr) :=
  [⟨"city", .var "city", .key⟩, ⟨"people", .countStar, .countAll⟩,
    ⟨"ages", .call "collect" true [.var "age"], .aggregate .collect true (.var "age")⟩,
    ⟨"total", .call "sum" false [.var "age"], .aggregate .sum false (.var "age")⟩]

/-- A draft with a city and an age in scope. -/
def censusDraft : Draft :=
  { scope := (Scope.declare {} "city" .value true).declare "age" .value true }

def resident (city : String) (age : Obj) : Traverser :=
  ⟨.null, [("city", .string city), ("age", age)], none⟩

/-- The rows of a census.  One of them has no age. -/
def census : List Traverser :=
  [resident "Oslo" (.int 31), resident "Rome" (.int 40), resident "Oslo" .cypherNull,
    resident "Oslo" (.int 31)]

/-- What a row has under the variable that a column takes from it. -/
def censusValue (item : Item Expr) (row : Traverser) : Obj :=
  match item.input? .result with
  | some (.var var, _) => (row.label? var).getD .null
  | _ => .null

lemma hasValue_census {row : Traverser} {var : String} (hvar : var ∈ ["city", "age"]) (mode : Mode)
    (hrow : row ∈ census) :
    (Expr.var var).HasValue (Env.standard []) ⟨.empty, []⟩ censusDraft.scope mode row
    ((row.label? var).getD .null) := by
  intro n a n' h
  simp only [mem_cons, not_mem_nil, or_false] at hvar
  simp only [census, mem_cons, not_mem_nil, or_false] at hrow
  have hlower : (Expr.var var).lower censusDraft.scope (.value mode) n =
      .ok ([.select [.named var]], n) := by
    rcases hvar with rfl | rfl <;> cases mode <;> rfl
  obtain ⟨rfl, rfl⟩ := Prod.mk.inj (Except.ok.inj (hlower.symm.trans h))
  rcases hvar with rfl | rfl <;> rcases hrow with rfl | rfl | rfl | rfl <;> exact ⟨_, rfl, rfl⟩

lemma valued_census :
    Valued (Env.standard []) ⟨.empty, []⟩ censusDraft.scope .result censusItems census
      censusValue := by
  intro item hitem i hi row hrow
  simp only [censusItems, mem_cons, not_mem_nil, or_false] at hitem
  rcases hitem with rfl | rfl | rfl | rfl
  · cases hi
    exact hasValue_census (by simp) _ hrow
  · cases hi
  · cases hi
    exact hasValue_census (by simp) _ hrow
  · cases hi
    exact hasValue_census (by simp) _ hrow

/-- Both cities in the order of their first residents, each with its number of residents, the
different ages and their sum. -/
theorem run_groups_census :
    ∃ steps draft' out, items censusDraft.scope censusProjection = .ok censusItems ∧
    rows .result censusItems censusDraft = .ok (steps, draft') ∧ draft'.next ≤ UInt32.size ∧
    Valued (Env.standard []) ⟨.empty, []⟩ censusDraft.scope .result censusItems census censusValue ∧
    Bytecode.run (Env.standard []) steps.bytecode census ⟨.empty, []⟩ = .ok (out, ⟨.empty, []⟩) ∧
    out.map Traverser.obj =
      [.map [(.string "city", .string "Oslo"), (.string "people", .int 3),
      (.string "ages", .list [.int 31]), (.string "total", .int 62)],
        .map [(.string "city", .string "Rome"), (.string "people", .int 1),
        (.string "ages", .list [.int 40]), (.string "total", .int 40)]] := by
  have hitems : items censusDraft.scope censusProjection = .ok censusItems := by
    with_unfolding_all rfl
  have htable : table censusValue .empty censusDraft.scope .result censusItems census =
      .ok [[.string "Oslo", .int 3, .list [.int 31], .int 62],
      [.string "Rome", .int 1, .list [.int 40], .int 40]] := by
    with_unfolding_all rfl
  obtain ⟨out, hrun, hout⟩ := run_groups hitems rfl rfl (by decide) valued_census htable
  exact ⟨_, _, out, hitems, rfl, by decide, valued_census, hrun, hout⟩

end Projecting

end CypherGremlin
