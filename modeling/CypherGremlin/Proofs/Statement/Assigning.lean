import CypherGremlin.Proofs.Statement.Adding.OfQuery
import CypherGremlin.Proofs.Statement.NotNull
import CypherGremlin.Proofs.Statement.Reading

/-!
# What is written to properties

A clause that gives properties values says so in its pattern or in its items, and each of these
becomes at most one write of the program.  `Query.assigned` lists them and `Assigned.Becomes` says
what each becomes:

* a literal or a parameter is stored as a constant.  The only token in such a constant is null, and
  it is there only if the literal has a null inside;
* any other expression is computed, and its traversal does not emit null where `Expr.NotNullAt`
  holds;
* a null that is a literal is not stored by CREATE and by MERGE of a node, and SET removes the
  property.  MERGE of a relationship is the exception: it stores the null.

`Query.statement_stores` is the result for the whole program.
-/

namespace CypherGremlin

variable {draft draft' : Draft} {e : Expr} {key : String} {t : Traversal} {v : Value}
  {scope : Scope} {s : Step} {entries : List (String × Expr)} {element : Element}

open List Literal Traversal

/-! ## Writes of a program -/

/-- A write to a property of the element at hand. -/
inductive Write where
  | store (key : String) (v : Value)
  | compute (key : String) (t : Traversal)
  | remove (key : String)

/-- The property that a traversal removes at its end. -/
def Traversal.removed? (t : Traversal) : Option String :=
  match t.reverse with
  | .drop :: .properties [key] :: _ => some key
  | _ => none

def Step.writes : Step → List Write
  | .property name v => [.store name v]
  | .propertyFrom name t => [.compute name t]
  | .sideEffect t => (Traversal.removed? t).toList.map .remove
  | _ => []

/-- What a program writes to properties, at any depth. -/
def Traversal.writes (t : Traversal) : List Write := collect Step.writes t

namespace Traversal

variable {a b : Traversal}

lemma writes_nil : writes [] = [] := rfl

lemma writes_append : (a ++ b).writes = a.writes ++ b.writes := collect_append Step.writes a b

lemma writes_cons (s : Step) (rest : Traversal) :
    writes (s :: rest) = s.writes ++ (s.children.flatMap writes ++ writes rest) :=
  collect_cons Step.writes s rest

lemma Calm.writes (h : t.Calm) : t.writes = [] := by
  refine flatMap_eq_nil_iff.2 fun s hs => ?_
  have hcalm := h s hs
  cases s with
  | property | propertyFrom | sideEffect => cases hcalm
  | _ => rfl

lemma removed?_removal (t : Traversal) (key : String) :
    removed? (t ++ Updating.removal key) = some key := by
  simp [removed?, Updating.removal]

lemma removed?_concat (t : Traversal) (h : s ≠ .drop) : removed? (t ++ [s]) = none := by
  rw [removed?, reverse_append]
  cases s with
  | drop => exact absurd rfl h
  | _ => rfl

end Traversal

/-! ## What a query assigns -/

/-- How a property gets its value. -/
inductive Manner where
  | new
  /-- The element is a relationship, and would be new if MERGE had not found it. -/
  | merged
  /-- The element may have the property already. -/
  | update
deriving DecidableEq

def Manner.ofNull (key : String) : Manner → List Write
  | new => []
  | merged => [.store key .null]
  | update => [.remove key]

/-- A value that a query assigns to a property. -/
structure Assigned where
  manner : Manner
  key : String
  value : Expr

/-- The values that a pattern gives to the properties of an element. -/
def Manner.assigned (manner : Manner) (properties : List (String × Expr)) : List Assigned :=
  properties.map fun property => ⟨manner, property.1, property.2⟩

/-- The values that a pattern assigns, in the order in which its elements are added. -/
def PatternOf.assigned (manner : Manner) (p : Pattern) : List Assigned :=
  Manner.new.assigned p.start.properties ++
    p.hops.flatMap fun hop => Manner.new.assigned hop.node.properties ++
    manner.assigned hop.rel.properties

/-- The values that a clause assigns.  To remove a property is to assign null. -/
def Clause.assigned : Clause → List Assigned
  | .create ps => ps.flatMap (PatternOf.assigned .new)
  | .merge p => PatternOf.assigned .merged p
  | .set items => items.map fun item => ⟨.update, item.key, item.value⟩
  | .remove items => items.map fun item => ⟨.update, item.key, .literal .null⟩
  | .match _ _ _ | .unwind _ _ | .with _ | .return _ | .delete _ _ => []

/-- The values that a query assigns, in order. -/
def Query.assigned (q : Query) : List Assigned := q.clauses.flatMap Clause.assigned

mutual

def Literal.hasNull : Literal → Bool
  | .null => true
  | .list items => anyHasNull items
  | .map entries => entryHasNull entries
  | _ => false

def Literal.anyHasNull : List Literal → Bool
  | [] => false
  | l :: rest => l.hasNull || anyHasNull rest

/-- A value of an entry has a null inside. -/
def Literal.entryHasNull : List (String × Literal) → Bool
  | [] => false
  | (_, l) :: rest => l.hasNull || entryHasNull rest

end

/-- The traversal is that of the expression in some scope, and it emits something, and never null,
wherever the expression cannot be null. -/
def Expr.Computes (e : Expr) (t : Traversal) : Prop :=
  ∃ scope n next, e.lower scope (.value .raw) n = .ok (t, next) ∧
    ∀ env w row, e.NotNullAt scope env w row → Ensures (· = w) (Traversal.run env t [row]) Solid

inductive Assigned.Becomes : Assigned → List Write → Prop
  | null (manner : Manner) (key : String) : Becomes ⟨manner, key, .literal .null⟩
    (manner.ofNull key)
  | literal (manner : Manner) (key : String) {l : Literal} {v : Value} (notNull : l ≠ .null)
    (constant : l.toValue = .ok v)
    (tokens : ∀ token, .token token ∈ v.leaves ↔ token = .null ∧ l.hasNull = true) :
    Becomes ⟨manner, key, .literal l⟩ [.store key v]
  | parameter (manner : Manner) (key name : String) :
    Becomes ⟨manner, key, .parameter name⟩ [.store key (.parameter name)]
  | computed (manner : Manner) (key : String) {e : Expr} {t : Traversal}
    (varies : e.constant? = .ok none)
    (computes : e.Computes t) : Becomes ⟨manner, key, e⟩ [.compute key t]

/-- The writes of the program are what the assigned values become, one after another. -/
def Traversal.Stores (as : List Assigned) (t : Traversal) : Prop :=
  ∃ pieces, List.Forall₂ Assigned.Becomes as pieces ∧ t.writes = pieces.flatten

namespace Traversal.Stores

variable {as bs : List Assigned} {u : Traversal}

lemma append (ht : t.Stores as) (hu : u.Stores bs) : (t ++ u).Stores (as ++ bs) := by
  obtain ⟨pieces, hpieces, hwrites⟩ := ht
  obtain ⟨others, hothers, hwrites'⟩ := hu
  exact ⟨pieces ++ others, rel_append hpieces hothers, by
    rw [writes_append, hwrites, hwrites', flatten_append]⟩

lemma of_writes (h : t.writes = []) : t.Stores [] := ⟨[], .nil, h⟩

lemma of_calm (h : t.Calm) : t.Stores [] := of_writes h.writes

lemma single {a : Assigned} (h : a.Becomes t.writes) : t.Stores [a] := ⟨[_], .cons h .nil, by simp⟩

lemma of_writes_eq (ht : t.Stores as) (h : u.writes = t.writes) : u.Stores as := by
  obtain ⟨pieces, hpieces, hwrites⟩ := ht
  exact ⟨pieces, hpieces, h.trans hwrites⟩

end Traversal.Stores

/-! ## Constants -/

mutual

theorem Literal.yields_tokens : ∀ l : Literal, Yields l.toValue fun v =>
    ∀ token, .token token ∈ v.leaves ↔ token = .null ∧ l.hasNull = true
  | .null => .ok fun token => by simp [Value.null, Value.leaves, hasNull]
  | .bool _ | .int _ => .ok fun token => by simp [Value.leaves, hasNull]
  | .float x => .ite (fun _ => .ok fun token => by simp [Value.leaves, hasNull]) fun _ => .error
  | .string s =>
    (Yields.trivial _).bind fun _ _ => .pure fun token => by simp [Value.leaves, hasNull]
  | .list items => (yields_tokens_all items).bind fun _ h => .pure h
  | .map entries => (yields_tokens_entries entries).bind fun _ h => .pure h

theorem Literal.yields_tokens_all : ∀ ls : List Literal, Yields (toValues ls) fun vs =>
    ∀ token, .token token ∈ Value.allLeaves vs ↔ token = .null ∧ anyHasNull ls = true
  | [] => .ok fun token => by simp [Value.allLeaves, anyHasNull]
  | l :: rest =>
    (yields_tokens l).bind fun _ hv => (yields_tokens_all rest).bind fun _ hvs =>
      .pure fun token => by
      rw [Value.allLeaves, mem_append, hv token, hvs token, anyHasNull, Bool.or_eq_true,
        and_or_left]

theorem Literal.yields_tokens_entries : ∀ entries : List (String × Literal),
    Yields (toEntryValues entries) fun vs =>
      ∀ token, .token token ∈ Value.entryLeaves vs ↔ token = .null ∧ entryHasNull entries = true
  | [] => .ok fun token => by simp [Value.entryLeaves, entryHasNull]
  | (_, l) :: rest =>
    (Yields.trivial _).bind fun _ _ => (yields_tokens l).bind fun _ hv =>
      (yields_tokens_entries rest).bind fun _ hvs => .pure fun token => by
        rw [Value.entryLeaves, mem_append, hv token, hvs token, entryHasNull, Bool.or_eq_true,
          and_or_left]

end

lemma Literal.yields_isStored {l : Literal} (h : l ≠ .null) :
    Yields l.toValue fun v => Merging.isStored v = true := by
  cases l with
  | null => exact absurd rfl h
  | bool | int => exact .ok rfl
  | float => exact .ite (fun _ => .ok rfl) fun _ => .error
  | string | list | map => exact (Yields.trivial _).bind fun _ _ => .pure rfl

lemma Expr.Constant.becomes (h : e.Constant v) (hnull : e ≠ .literal .null) (manner : Manner)
    (key : String) :
    Merging.isStored v = true ∧ Assigned.Becomes ⟨manner, key, e⟩ [.store key v] := by
  cases h with
  | @literal l _ hv =>
    have hnull : l ≠ .null := fun hl => hnull (congrArg Expr.literal hl)
    exact ⟨yields_isStored hnull v hv, .literal manner key hnull hv (yields_tokens l v hv)⟩
  | parameter => exact ⟨rfl, .parameter manner key _⟩

lemma Draft.Computes.computes (h : draft.Computes (.value .raw) e t draft') : e.Computes t :=
  ⟨draft.scope, draft.next, draft'.next, h.run, fun _ _ _ hnotNull => hnotNull.solid h.lowers⟩

/-! ## CREATE -/

lemma Traversal.Stores.property {a : Assigned} (h : a.Becomes [.store key v]) :
    Stores [a] [.property key v] := .single (by rwa [writes_cons])

lemma Traversal.Stores.propertyFrom {manner : Manner}
    (hvaries : e.constant? = .ok none) (hcomputes : e.Computes t) :
    Stores [⟨manner, key, e⟩] [.propertyFrom key t] := by
  have hcalm : t.Calm := by
    obtain ⟨scope, n, next, hrun, -⟩ := hcomputes
    exact (Expr.ensures_lowers scope (.value .raw) e n trivial t next hrun).2.calm
  have hwrites : writes [.propertyFrom key t] = [.compute key t] := by
    simp [writes_cons, Step.writes, Step.children, hcalm.writes, writes_nil]
  exact .single (hwrites ▸ .computed manner key hvaries hcomputes)

namespace Creating

lemma Stores.assigned (h : Stores draft entries t draft') :
    t.Stores (Manner.new.assigned entries) := by
  induction h with
  | nil => exact .of_writes rfl
  | null _ _ ih => exact Traversal.Stores.append (t := []) (.single (.null .new _)) ih
  | constant _ hne hv _ ih =>
    exact Traversal.Stores.append (t := [_]) (.property (hv.becomes hne .new _).2) ih
  | computed _ hvaries hval _ ih =>
    exact Traversal.Stores.append (t := [_]) (.propertyFrom hvaries hval.computes) ih

lemma Node.assigned {pattern : NodePattern} {l : Label} (h : Node draft pattern l t draft') :
    t.Stores (Manner.new.assigned pattern.properties) := by
  cases h with
  | known _ _ hempty => exact hempty ▸ .of_writes rfl
  | new _ _ _ hstores =>
    exact hstores.assigned.of_writes_eq
      (by simp [writes_cons, writes_append, Step.writes, Step.children, writes_nil])

lemma Hops.assigned {hops : List Hop} {previous : Label} (h : Hops previous draft hops t draft') :
    t.Stores (hops.flatMap fun hop =>
      Manner.new.assigned hop.node.properties ++ Manner.new.assigned hop.rel.properties) := by
  induction h with
  | nil => exact .of_writes rfl
  | cons hnode hrel _ ih =>
    obtain ⟨-, -, -, hstores, -⟩ := hrel
    refine (hnode.assigned.append (hstores.assigned.of_writes_eq ?_)).append ih
    simp [writes_cons, writes_append, Step.writes, Step.children, writes_nil]

lemma CreatesAll.assigned {ps : List Pattern} (h : CreatesAll draft ps t draft') :
    t.Stores (ps.flatMap (PatternOf.assigned .new)) := by
  induction h with
  | nil => exact .of_writes rfl
  | cons hp _ ih =>
    obtain ⟨-, hstart, hhops⟩ := hp
    exact (hstart.assigned.append hhops.assigned).append ih

end Creating

namespace Merging

/-- The steps that store some constants. -/
def storing (values : List (String × Value)) : Traversal :=
  values.map fun entry => .property entry.1 entry.2

/-- A node that is merged stores the constants that are not null, and a relationship stores them
all. -/
lemma Constants.stores {values : List (String × Value)} (h : Constants entries values) :
    Stores (Manner.new.assigned entries) (storing (values.filter fun entry => isStored entry.2)) ∧
      Stores (Manner.merged.assigned entries) (storing values) := by
  have hentry (key : String) {e : Expr} {v : Value} (h : e.Constant v) :
      Stores [⟨.new, key, e⟩] (storing ([(key, v)].filter fun entry => isStored entry.2)) ∧
        Stores [⟨.merged, key, e⟩] (storing [(key, v)]) := by
    by_cases hnull : e = .literal .null
    · subst hnull
      cases h with
      | literal hv =>
        obtain rfl := Except.ok.inj hv
        exact ⟨.single (.null .new key), .property (.null .merged key)⟩
    · obtain ⟨hstored, hnew⟩ := h.becomes hnull .new key
      have hkept : [(key, v)].filter (fun entry => isStored entry.2) = [(key, v)] := by
        simp [hstored]
      rw [hkept]
      exact ⟨.property hnew, .property (h.becomes hnull .merged key).2⟩
  induction h with
  | nil => exact ⟨.of_writes rfl, .of_writes rfl⟩
  | @cons entry value rest others hval _ ih =>
    obtain ⟨key, v⟩ := value
    obtain ⟨-, rfl, hv⟩ := hval
    obtain ⟨hnew, hmerged⟩ := hentry entry.1 hv
    refine ⟨?_, hmerged.append ih.2⟩
    have happend := hnew.append ih.1
    rwa [storing, storing, ← map_append, ← filter_append] at happend

lemma Merges.assigned {p : Pattern} (h : Merges draft p t draft') :
    t.Stores (p.assigned .merged) := by
  cases h with
  | node hhops _ _ htests hvals =>
    have htests : Walks _ := Walks.of_isProbe htests.isProbe
    rw [PatternOf.assigned, hhops, flatMap_nil, append_nil]
    refine hvals.stores.1.of_writes_eq ?_
    simp [writes_cons, Step.writes, Step.children, writes_nil, htests.calm.writes, storing]
  | @relationship hop _ _ _ _ _ _ values _ hhops hstart hend _ _ _ hvals =>
    obtain ⟨-, -, -, hstart⟩ := hstart
    obtain ⟨-, -, -, hend⟩ := hend
    have hassigned : p.assigned .merged = Manner.merged.assigned hop.rel.properties := by
      simp [PatternOf.assigned, hhops, hstart, hend, Manner.assigned]
    rw [hassigned]
    refine hvals.stores.2.of_writes_eq ?_
    have htests : Calm (values.map fun entry => .has entry.1 (.eq entry.2)) :=
      allSteps_of_forall (forall_mem_map.2 fun _ _ => ⟨rfl, rfl⟩)
    simp [writes_cons, writes_append, Step.writes, Step.children, writes_nil, htests.writes,
      storing]

end Merging

namespace Updating

lemma Targets.calm {v : String} (h : Targets scope v t) : t.Calm := by
  obtain ⟨-⟩ := h
  exact (Walks.bindingSelect _ v).calm

lemma stores_removal (h : t.Calm) (key : String) :
    Stores [⟨.update, key, .literal .null⟩] [.sideEffect (t ++ removal key)] := by
  have hremoval : writes (removal key) = [] := rfl
  have hwrites : writes [.sideEffect (t ++ removal key)] = [.remove key] := by
    simp [writes_cons, Step.writes, Step.children, writes_nil, removed?_removal, writes_append,
      h.writes, hremoval]
  exact .single (hwrites ▸ .null .update key)

/-- A write to the element that a calm traversal leads to. -/
lemma stores_sideEffect (h : t.Calm) {as : List Assigned} (hs : s ≠ .drop)
    (hwrite : Stores as [s]) : Stores as [.sideEffect (t ++ [s])] := by
  refine hwrite.of_writes_eq ?_
  simp [writes_cons _ [], Step.writes, Step.children, writes_nil, removed?_concat t hs,
    writes_append, h.writes]

lemma Assigns.assigned {write : Traversal}
    (h : Assigns draft key e write draft') (ht : t.Calm) :
    Stores [⟨.update, key, e⟩] [.sideEffect (t ++ write)] := by
  cases h with
  | null hnull => exact hnull ▸ stores_removal ht key
  | constant hne hv =>
    exact stores_sideEffect ht (by simp) (.property (hv.becomes hne .update key).2)
  | computed hvaries hval =>
    exact stores_sideEffect ht (by simp) (.propertyFrom hvaries hval.computes)

lemma Sets.assigned {items : List Assignment} (h : Sets draft items t draft') :
    t.Stores (Clause.set items).assigned := by
  induction h with
  | nil => exact .of_writes rfl
  | cons htarget _ hwritten _ ih => exact Stores.append (hwritten.assigned htarget.calm) ih

lemma Removes.assigned {items : List PropertyRef} (h : Removes scope items t) :
    t.Stores (Clause.remove items).assigned := by
  induction h with
  | nil => exact .of_writes rfl
  | cons hstep _ ih =>
    obtain ⟨-, target, htarget, rfl⟩ := hstep
    exact Stores.append (stores_removal htarget.calm _) ih

end Updating

/-! ### What is removed is absent -/

/-- An element that was changed is the result of the change. -/
lemma Store.exists_of_get?_modify {α : Type} {store : Store α} {id : Int64} {f : α → α}
    {content : α} (h : (store.modify id f).get? id = some content) :
    ∃ before, content = f before := by
  obtain ⟨entry, -, hentry⟩ := mem_map.1 (Table.mem_of_get? h)
  split at hentry
  · exact ⟨entry.2, (Prod.mk.inj hentry).2.symm⟩
  · rename_i hne
    exact absurd (congrArg Prod.fst hentry) hne

lemma Graph.exists_of_element?_modify {g : Graph} {obj : Obj} {f : Element → Element}
    (h : (g.modify obj f).element? obj = some element) : ∃ before, element = f before := by
  cases obj with
  | vertex id => exact Store.exists_of_get?_modify h
  | edge id =>
    obtain ⟨edge, hedge, rfl⟩ := Option.map_eq_some_iff.1 h
    obtain ⟨before, rfl⟩ := Store.exists_of_get?_modify hedge
    exact ⟨before.toElement, rfl⟩
  | _ => cases h

lemma Element.get?_erase (element : Element) (key : String) :
    Table.get? (element.erase key).properties key = none := by
  refine Table.get?_eq_none fun hmem => ?_
  obtain ⟨property, hprop, rfl⟩ := mem_map.1 hmem
  simpa using (mem_filter.1 hprop).2

/-- After the steps of a removal the element at hand, if it is still one, has not got the property.
-/
lemma Updating.get?_of_run_removal {env : Env} {t : Traverser} {w w' : World} {out : List Traverser}
    (h : run env (removal key) [t] w = .ok (out, w'))
    (helem : w'.graph.element? t.obj = some element) :
    Table.get? element.properties key = none := by
  cases hbefore : w.graph.element t.obj with
  | error halt =>
    have hprops : (Step.properties [key]).run env [t] w = .error halt := by
      rw [Step.run, Machine.properties, Machine.emit, Machine.each_singleton]
      exact stateT_bind_error (by simp [Run.observe, hbefore, bind, Except.bind, Except.map])
    rw [removal, run_cons, stateT_bind_error hprops] at h
    cases h
  | ok before =>
    have hprops : Returns w ((Step.properties [key]).run env [t])
        (((before.select [key]).map fun property => .property t.obj property.1 property.2).map
        t.carry) := by
      rw [Step.run, Machine.properties, Machine.emit, Machine.each_singleton]
      exact .map (.observe (by simp [hbefore, bind, Except.bind]; rfl)) _
    rw [removal, run_cons, stateT_bind_eq hprops, run_singleton] at h
    have hlen := before.length_select_singleton_le key
    -- A property is there once or not at all.
    rcases hsel : before.select [key] with _ | ⟨property, _ | ⟨_, _⟩⟩
    · have hw : w = w' := by
        rw [hsel] at h
        exact (Prod.mk.inj (Except.ok.inj h)).2
      subst hw
      obtain rfl : before = element := by
        rw [Graph.element, helem] at hbefore
        exact (Except.ok.inj hbefore).symm
      refine Table.get?_eq_none fun hmem => ?_
      obtain ⟨property, hprop, rfl⟩ := mem_map.1 hmem
      have hfound : property ∈ before.select [property.1] := mem_filter.2 ⟨hprop, by simp⟩
      rw [hsel] at hfound
      cases hfound
    · obtain rfl : property.1 = key := by
        have hmem : property ∈ before.select [key] := hsel ▸ mem_singleton_self property
        simpa using (mem_filter.1 hmem).2
      rw [hsel] at h
      have hw : { w with graph := w.graph.modify t.obj (·.erase property.1) } = w' :=
        (Prod.mk.inj (Except.ok.inj h)).2
      subst hw
      obtain ⟨_, rfl⟩ := Graph.exists_of_element?_modify helem
      exact Element.get?_erase _ _
    · simp [hsel] at hlen

/-! ## Queries -/

/-- The steps that collect elements write to no property. -/
lemma Deleting.writes_marks (marks : List Mark) : writes (marks.map Mark.step) = [] := by
  induction marks with
  | nil => rfl
  | cons mark rest ih =>
    simpa [Mark.step, writes_cons, Step.writes, Step.children, writes_nil, removed?] using ih

lemma Clause.Lowers.assigned {clause : Clause} {columns : List Column}
    (h : clause.Lowers draft columns t draft') : t.Stores clause.assigned := by
  cases h with
  | create h | merge h | set h | remove h => exact h.assigned
  | delete => exact .of_writes (Deleting.writes_marks _)
  | «match» h => exact .of_calm (Clause.Lowers.calm (.match h) rfl)
  | optionalMatch h => exact .of_calm (Clause.Lowers.calm (.optionalMatch h) rfl)
  | unwind h => exact .of_calm (Clause.Lowers.calm (.unwind h) rfl)
  | «with» h => exact .of_calm (Clause.Lowers.calm (.with h) rfl)
  | «return» h => exact .of_calm (Clause.Lowers.calm (.return h) rfl)

lemma Drafted.stores {clauses : List Clause} {root : Traversal} (h : Drafted clauses root draft) :
    root.Stores (clauses.flatMap Clause.assigned) := by
  induction h with
  | nil => exact .of_writes rfl
  | @clause clauses root steps draft draft' clause columns _ _ hlow ih =>
    have hsteps := ((Clause.deliversFrom_lower clause).result _ hlow).assigned
    rw [flatMap_append, flatMap_singleton]
    refine .append ?_ hsteps
    split
    · rename_i hempty
      have hnil : root = [] := by simp_all
      exact ih.of_writes_eq (hnil ▸ rfl)
    · exact ih

/-- The steps after the last clause write to no property. -/
lemma writes_closing (buckets : Buckets) (returns : Bool) :
    (closing buckets returns).writes = [] := by
  obtain ⟨plain, detached⟩ := buckets
  cases plain <;> cases detached <;> cases returns <;> rfl

/-- What a query assigns is what its program writes, value by value.  A literal null is never stored
but by MERGE of a relationship; other constants hold no token but the nulls that stand inside their
literals; what is computed is not null where `Expr.NotNullAt` holds.  Where a null becomes a
removal, the property is absent afterwards. -/
theorem Query.statement_stores {q : Query} {s : Statement} (h : q.statement = .ok s) :
    s.traversal.Stores q.assigned ∧
      ∀ env key t w out w', Traversal.run env (Updating.removal key) [t] w = .ok (out, w') →
        ∀ element, w'.graph.element? t.obj = some element → Table.get? element.properties key =
        none := by
  refine ⟨?_, fun _ _ _ _ _ _ hrun _ helem => Updating.get?_of_run_removal hrun helem⟩
  obtain ⟨root, draft, hdrafted, htrav⟩ := Query.exists_drafted h
  refine hdrafted.stores.of_writes_eq ?_
  rw [htrav, writes_append, writes_closing, List.append_nil]

/-- `MATCH (a), (b) CREATE (c {x: null, y: [1, null], z: a.k}) MERGE (a)-[:KNOWS {since: null}]->(b)
SET a.x = null, b.y = $p`. -/
def Query.assigning : Query := ⟨[
  .match false [{ start := { var := some "a" } }, { start := { var := some "b" } }] none,
  .create [{ start := { var := some "c",
                        properties := [("x", .literal .null),
                          ("y", .literal (.list [.int 1, .null])),
                                       ("z", .property (.var "a") "k")] } }],
  .merge { start := { var := some "a" },
           hops := [⟨{ types := ["KNOWS"], properties := [("since", .literal .null)] },
             { var := some "b" }⟩] },
  .set [⟨"a", "x", .literal .null⟩, ⟨"b", "y", .parameter "p"⟩]]⟩

/-- Nulls that are dropped, stored inside a list, stored by MERGE, and turned into a removal. -/
theorem Query.statement_stores_assigning : ∃ s, Query.assigning.statement = .ok s ∧
    s.traversal.Stores [⟨.new, "x", .literal .null⟩, ⟨.new, "y", .literal (.list [.int 1, .null])⟩,
      ⟨.new, "z", .property (.var "a") "k"⟩, ⟨.merged, "since", .literal .null⟩,
      ⟨.update, "x", .literal .null⟩, ⟨.update, "y", .parameter "p"⟩] := by
  obtain ⟨s, hs⟩ : ∃ s, Query.assigning.statement = .ok s := by decide +kernel
  exact ⟨s, hs, (Query.statement_stores hs).1⟩

/-- `MATCH (a), (b) MERGE (a)-[:KNOWS {since: null}]->(b)`. -/
def Query.mergingNull : Query := ⟨[
  .match false [{ start := { var := some "a" } }, { start := { var := some "b" } }] none,
  .merge { start := { var := some "a" },
           hops := [⟨{ types := ["KNOWS"], properties := [("since", .literal .null)] },
             { var := some "b" }⟩] }]⟩

/-- The relationship is given the null as a property. -/
theorem Query.mergingNull_stores_null : ∃ s, Query.mergingNull.statement = .ok s ∧
    Step.property "since" (.token .null) ∈ walk s.traversal := by
  have hstmt : Query.mergingNull.statement = .ok ⟨[.V, .as (.named "a"), .V, .as (.named "b"),
      .coalesce [[.select [.named "a"], .outE ["KNOWS"], .has "since" (.eq .null),
          .filter [.inV, .whereLabel .eq (.named "b")]],
        [.addE "KNOWS" (.named "a") (.named "b"), .property "since" .null]],
      .as (.token (.unnamed 1)), .barrier, .limit 0], []⟩ := by
    with_unfolding_all rfl
  refine ⟨_, hstmt, ?_⟩
  simp [walk_eq_flatMap, Step.walk_eq, Step.children, Value.null]

end CypherGremlin
