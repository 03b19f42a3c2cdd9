import CypherGremlin.Proofs.Statement.Columns
import CypherGremlin.Proofs.Statement.Names
import CypherGremlin.Proofs.Statement.Selecting

/-!
# How WITH binds its columns

WITH makes a map of each row, keeps it under a number, and reads one column after another from it,
each of which is put under its name.  The names may be those of older variables, and what is read
may be a map as well; the next column is still read from the row, because nothing but the row is
found under the number.

* `Obj.IsRow` is what the maps are like, whatever the projection and its modifiers
  (`Projecting.Makes.ensures_isRow`).
* `Traverser.returns_rebind` is one column, and `Traverser.exists_rebound` all of them.
* `Projecting.with_rebinds` is the statement for every WITH of a query.
-/

namespace CypherGremlin

variable {entries : List (Label × Traversal)} {draft draft' : Draft}

open List Traversal

/-! ## Rows -/

/-- The object is a map with the given names for keys, in that order. -/
def Obj.IsRow (names : List String) (obj : Obj) : Prop :=
  ∃ entries, obj = .map entries ∧ entries.map Prod.fst = names.map .string

lemma Obj.get?_map_cons (name key : String) (v : Obj) (rest : List (Obj × Obj)) :
    Obj.get? key (.map ((.string name, v) :: rest)) = if name = key then some v else Obj.get? key
    (.map rest) := by
  by_cases h : name = key <;> simp [get?, h]

lemma Obj.IsRow.isSome_get? {names : List String} {obj : Obj} (h : obj.IsRow names) {key : String} :
    (obj.get? key).isSome = true ↔ key ∈ names := by
  obtain ⟨entries, rfl, hkeys⟩ := h
  induction names generalizing entries with
  | nil => simp [map_eq_nil_iff.1 hkeys, get?]
  | cons name names ih =>
    obtain ⟨⟨_, v⟩, rest, rfl, rfl, hrest⟩ := map_eq_cons_iff.1 hkeys
    rw [get?_map_cons, mem_cons, ← ih rest hrest]
    by_cases hname : name = key
    · simp [hname]
    · simp [hname, Ne.symm hname]

lemma Machine.ensures_project (entries : List (String × Transform)) (ts : List Traverser) :
    Ensures Always (project entries ts) fun out => ∀ o ∈ out, o.obj.IsRow
    (entries.map Prod.fst) := by
  refine .each (fun t => ?_) ts
  have hentries :
    Ensures Always (entries.mapM fun entry => do
    return (Obj.string entry.1, ← value "project" entry.2 t))
      _ := .mapM (R := fun entry pair => pair.1 = .string entry.1) fun entry _ =>
    (Ensures.trivial _).bind fun _ _ => .pure rfl
  refine hentries.bind fun pairs hpairs => .pure (forall_mem_singleton.2 ⟨pairs, rfl, ?_⟩)
  rw [map_map, ← forall₂_eq_eq_eq, forall₂_map_left_iff, forall₂_map_right_iff]
  exact hpairs.flip

lemma Machine.mem_of_mem_distinct {seen : List Obj} {ts : List Traverser} {t : Traverser}
    (h : t ∈ distinct seen ts) : t ∈ ts := by
  fun_induction distinct seen ts with
  | case1 => exact h
  | case2 seen first rest _ ih => exact mem_cons_of_mem _ (ih h)
  | case3 seen first rest _ ih => exact mem_cons.2 ((mem_cons.1 h).imp_right ih)

/-- What is sorted, or left on a page, has been there before. -/
lemma Step.IsModifier.ensures_mem {s : Step} (h : s.IsModifier) (env : Env) (ts : List Traverser) :
    Ensures Always (s.run env ts) fun out => ∀ o ∈ out, o ∈ ts := by
  cases h with
  | dedup => exact .pure fun o ho => Machine.mem_of_mem_distinct ho
  | order keys =>
    refine (Ensures.mapM (R := fun t keyed => keyed.2 = t) fun t _ =>
      (Ensures.trivial _).bind fun _ _ => .pure rfl).bind fun keyed hkeyed => .pure fun o ho => ?_
    obtain ⟨pair, hpair, rfl⟩ := mem_map.1 ho
    obtain ⟨t, ht, rfl⟩ := exists_mem_of_forall₂ hkeyed pair ((mem_insertionSort _).1 hpair)
    exact ht
  | skip n => exact .pure fun o ho => mem_of_mem_drop ho
  | limit n => exact .pure fun o ho => mem_of_mem_take ho
  | range low high => exact .pure fun o ho => mem_of_mem_drop (mem_of_mem_take ho)

lemma Traversal.ensures_mem_of_isModifier {t : Traversal} (h : ∀ s ∈ t, s.IsModifier) (env : Env)
    (ts : List Traverser) : Ensures Always (run env t ts) fun out => ∀ o ∈ out, o ∈ ts := by
  induction t generalizing ts with
  | nil => exact .pure fun o ho => ho
  | cons s rest ih =>
    obtain ⟨hs, hrest⟩ := forall_mem_cons.1 h
    exact (hs.ensures_mem env ts).bind fun mid hmid => (ih hrest mid).mono fun out hout o ho =>
      hmid o (hout o ho)

namespace Projecting

variable {mode : Mode} {draft draft' : Draft} {columns : List (Item Expr)} {t : Traversal}
  {p : Projection}

lemma Entries.map_fst {α : Type} {items : List (Item α)}
    (h : Entries mode draft items entries draft') :
    entries.map Prod.fst = items.map (.named ·.name) := by
  induction h with
  | nil => rfl
  | cons _ _ ih => rw [map_cons, map_cons, ih]

lemma Inputs.map_name {inputs : List (Item Label)}
    (h : Inputs mode draft columns inputs entries draft') :
    inputs.map (·.name) = columns.map (·.name) := by
  induction h with
  | nil => rfl
  | key _ ih | countAll _ ih | aggregate _ _ ih => rw [map_cons, map_cons, ih]

/-- Whatever is projected, the last step makes maps with the names of the columns. -/
lemma Makes.ends (h : Makes mode draft columns t draft') :
    ∃ before entries, t = before ++ [.project entries] ∧
    entries.map (·.1.encode) = columns.map (·.name) := by
  cases h with
  | perRow _ hvals =>
    exact ⟨[], _, rfl, by
      simpa [Function.comp_def, Label.encode] using congrArg (List.map Label.encode) hvals.map_fst⟩
  | overall _ hinputs => exact ⟨_, _, rfl, by rw [map_map, ← hinputs.map_name]; rfl⟩
  | perGroup _ hinputs => exact ⟨[_, _], _, rfl, by rw [map_map, ← hinputs.map_name]; rfl⟩

lemma Makes.ensures_isRow {modifiers : Traversal} {draft'' : Draft}
    (h : Makes mode draft columns t draft') (hmods : Modifies draft' p columns modifiers draft'')
    (env : Env) (ts : List Traverser) :
    Ensures Always (run env (t ++ modifiers) ts) fun out => ∀ o ∈ out, o.obj.IsRow
    (columns.map (·.name)) := by
  obtain ⟨before, entries, rfl, hnames⟩ := h.ends
  rw [run_append, run_append, run_singleton]
  refine ((Ensures.trivial _).bind fun mid _ => Machine.ensures_project _ mid).bind
    fun rows hrows => ?_
  refine (ensures_mem_of_isModifier hmods.isModifier env rows).mono fun out hout o ho => ?_
  have hrow := hrows o (hout o ho)
  rwa [runEntries_eq_map, map_map, Function.comp_def, hnames] at hrow

end Projecting

section

variable {w : World} {row : Label} {obj : Obj} {t : Traverser} {names : List String}

/-- One column: the row is looked up by its number, whatever the object at hand. -/
lemma Traverser.returns_rebind (env : Env) (hw : w.Bucketed) (hrow : ¬ IsBucketName row.encode)
    (hlabel : t.label? row.encode = some obj) (hfree : t.obj.get? row.encode = none) {name : String}
    {v : Obj} (hv : obj.get? name = some v) :
    Returns w (run env [.select [row], .selectKey (.named name), .as (.named name)] [t])
    [(t.carry v).mark name] := by
  have hsel : t.find? w.buckets row.encode = some obj :=
    (t.find?_eq_label? hw hrow hfree).trans hlabel
  have hread : (t.carry obj).find? w.buckets name = some v := by simp [find?, carry, hv]
  exact .cons (.selectOne hsel) (.cons (.selectOne hread) (.cons (.pure _) .nil))

/-- All columns, one after another.  Each label holds the entry of the row in the end, and the row
is still there. -/
lemma Traverser.exists_rebound (env : Env) (hw : w.Bucketed) (hrow : ¬ IsBucketName row.encode)
    (hlabel : t.label? row.encode = some obj) (hfree : t.obj.get? row.encode = none)
    (hnames : ∀ name ∈ names, name ≠ row.encode ∧ ∃ v, obj.get? name = some v ∧
      v.get? row.encode = none) :
    ∃ t', Returns w (run env (names.flatMap fun name =>
        [.select [row], .selectKey (.named name), .as (.named name)]) [t]) [t'] ∧
      (∀ name ∈ names, t'.label? name = obj.get? name) ∧ ∀ key, key ∉ names →
      t'.label? key = t.label? key := by
  induction names generalizing t with
  | nil => exact ⟨t, .nil, by simp, by simp⟩
  | cons name names ih =>
    obtain ⟨⟨hne, v, hv, hvfree⟩, hrest⟩ := forall_mem_cons.1 hnames
    set u := (t.carry v).mark name
    have hu : u.label? name = some v := label?_mark_self _ _
    have hkept : ∀ key, key ≠ name → u.label? key = t.label? key := fun key hkey =>
      label?_mark_of_ne hkey.symm _
    obtain ⟨t', hrun, hbound, hother⟩ := ih ((hkept _ hne.symm).trans hlabel) hvfree hrest
    refine ⟨t', (returns_rebind env hw hrow hlabel hfree hv).append hrun,
      forall_mem_cons.2 ⟨?_, hbound⟩, ?_⟩
    · by_cases hmem : name ∈ names
      · exact hbound name hmem
      · rw [hother name hmem, hu, hv]
    · intro key hkey
      obtain ⟨hkey, hmem⟩ := not_or.1 (mem_cons.not.1 hkey)
      rw [hother key hmem, hkept key hkey]

/-- The steps that bind the columns again give one traverser for a row whose values hold nothing
under a token. -/
lemma Traverser.exists_rebinding (env : Env) (hw : w.Bucketed) (n : UInt32)
    (hobj : t.obj.IsRow names) (hplain : ∀ name ∈ names, Plain name)
    (hvals : ∀ name ∈ names, ∀ v, t.obj.get? name = some v →
      ∀ token : Token, v.get? token.encode = none) :
    ∃ t', Returns w (run env (rebinding (.token (.freshId n)) names) [t]) [t'] ∧
      ∀ name ∈ names, t'.label? name = t.obj.get? name := by
  set token : Token := .freshId n
  have hne : ∀ name ∈ names, name ≠ token.encode := by
    rintro name hname rfl
    simpa [Plain] using hplain _ hname
  have hrow : ¬ IsBucketName (Label.token token).encode :=
    Lowered.not_isBucketName trivial (by simp [Label.IsBucket, token])
  have hfree : t.obj.get? token.encode = none := by
    rw [← Option.not_isSome_iff_eq_none, hobj.isSome_get?]
    exact fun hmem => hne _ hmem rfl
  obtain ⟨t', hrun, hbound, -⟩ := exists_rebound env hw hrow
    (label?_mark_self _ _) hfree fun name hname => by
      obtain ⟨v, hv⟩ := Option.isSome_iff_exists.1 (hobj.isSome_get?.2 hname)
      exact ⟨hne name hname, v, hv, hvals name hname v hv token⟩
  exact ⟨t', .cons (.pure _) hrun, hbound⟩

end

/-! ## WITH in a query -/

/-- WITH makes maps of the rows, whose keys are the names of its columns.  The steps that follow
give one traverser for each of these maps in which no value has an entry under a token, and there
the label of each column holds the entry of the row.  What is in scope afterwards is the columns, in
their order. -/
theorem Projecting.with_rebinds {front : List Clause} {p : Projection} {before : Statement}
    {t : Traversal} (hbefore : (lowerClauses [] front).run {} = .ok (before, draft))
    (h : withSteps p draft = .ok (t, draft')) :
    Table.keys draft'.scope.vars = p.columnNames (Table.keys draft.scope.vars) ∧
    (Table.keys draft'.scope.vars).Nodup ∧ ∃ (rows tests : Traversal) (n : UInt32),
        t = rows ++ rebinding (.token (.freshId n)) (Table.keys draft'.scope.vars) ++ tests ∧
        (∀ s ∈ tests, ∃ c, s = .filter c) ∧
        ∀ env ts w out w', run env rows ts w = .ok (out, w') → w'.Bucketed → ∀ row ∈ out,
          row.obj.IsRow (Table.keys draft'.scope.vars) ∧
          ((∀ name v, row.obj.get? name = some v → ∀ key, isReserved key = true →
          v.get? key = none) →
            ∃ bound, run env (rebinding (.token (.freshId n)) (Table.keys draft'.scope.vars))
            [row] w' = .ok ([bound], w') ∧
              ∀ name ∈ Table.keys draft'.scope.vars, ∃ v, row.obj.get? name = some v ∧
              bound.label? name = some v) := by
  have hclean := ((⟨front⟩ : Query).deliversFrom_clauses.result _ hbefore).holds.clean
  obtain @⟨columns, rows, modifiers, tests, _, draft₂, _, -, hcols, hrows, hmods, htests⟩ :=
    (deliversFrom_withSteps p).result _ h
  have hkeys : Table.keys draft'.scope.vars = columns.map (·.name) := by
    rw [htests.counts.scope, keys_scopeAfter]
  have hplain : ∀ name ∈ columns.map (·.name), Plain name := forall_mem_map.2 fun column hcol =>
    (hcols.checked hclean (fun column _ => column.expr.within_any) column hcol).name
  rw [hkeys]
  refine ⟨hcols.map_name, hcols.distinct, rows ++ modifiers, tests, _, rfl, ?_, ?_⟩
  · generalize p.condition = condition at htests
    cases htests <;> simp
  · intro env ts w out w' hrun hw row hrow
    have hisRow := ((hrows.ensures_isRow hmods env ts) w trivial out w' hrun).2 row hrow
    refine ⟨hisRow, fun hvals => ?_⟩
    -- The row is kept under a token, which no value of the row has as a key.
    obtain ⟨bound, hbound, hlabels⟩ :=
      Traverser.exists_rebinding env hw draft₂.next.toUInt32 hisRow hplain
      fun name _ v hv token => hvals name v hv _ token.isReserved_encode
    refine ⟨bound, hbound, fun name hname => ?_⟩
    obtain ⟨v, hv⟩ := Option.isSome_iff_exists.1 (hisRow.isSome_get?.2 hname)
    exact ⟨v, hv, (hlabels name hname).trans hv⟩

/-- `WITH 1 AS a, {a: 2} AS b`. -/
def Clause.twoValues : Clause :=
  .with { items := [⟨.literal (.int 1), some "a"⟩, ⟨.map [("a", .literal (.int 2))], some "b"⟩] }

/-- `a AS b, b AS a`. -/
def Projection.exchanged : Projection := { items := [⟨.var "a", some "b"⟩, ⟨.var "b", some "a"⟩] }

/-- Two variables exchange their values, one of which is a map with the name of a variable for a
key. -/
theorem Projecting.with_rebinds_exchanged : ∃ before draft t draft',
    (lowerClauses [] [.twoValues]).run {} = .ok (before, draft) ∧ withSteps .exchanged draft =
      .ok (t, draft') ∧
      ∃ (rows tests : Traversal) (n : UInt32), t = rows ++ rebinding (.token (.freshId n))
      ["b", "a"] ++ tests ∧
        ∀ env ts w out w', run env rows ts w = .ok (out, w') → w'.Bucketed → ∀ row ∈ out,
          (∀ name v, row.obj.get? name = some v → ∀ key, isReserved key = true →
          v.get? key = none) →
            ∃ bound, run env (rebinding (.token (.freshId n)) ["b", "a"])
            [row] w' = .ok ([bound], w') ∧
              ∀ name ∈ ["b", "a"], ∃ v, row.obj.get? name = some v ∧
              bound.label? name = some v := by
  obtain ⟨⟨before, draft⟩, hbefore, ⟨t, draft'⟩, h⟩ :
    ∃ r, (lowerClauses [] [.twoValues]).run {} = .ok r ∧
      ∃ r', withSteps .exchanged r.2 = .ok r' := by decide +kernel
  obtain ⟨hkeys, -, rows, tests, n, ht, -, hrows⟩ := with_rebinds hbefore h
  rw [show Table.keys draft'.scope.vars = ["b", "a"] from hkeys] at ht hrows
  exact ⟨before, draft, t, draft', hbefore, h, rows, tests, n, ht,
    fun env ts w out w' hrun hw row hrow =>
    (hrows env ts w out w' hrun hw row hrow).2⟩

end CypherGremlin
