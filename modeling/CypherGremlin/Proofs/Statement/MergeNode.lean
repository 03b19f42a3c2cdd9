import CypherGremlin.Proofs.Statement.Assigning
import CypherGremlin.Proofs.Traversal.Equality

/-!
# Merging a node twice

MERGE of a node looks for a node that fits the pattern and creates one if there is none.  The node
that it creates is given the properties in their order, and nothing for a null, so the last literal
for a key counts.  Merging again finds that node if and only if no property is null and each equals
the last one for its key (`NodePattern.Recovers`).

The main result is `Query.statement_merge_twice`: these are the patterns for which a second run
changes nothing, on any graph.
-/

namespace CypherGremlin

open List Traversal

variable {env : Env} {w : World} {t : Traverser} {g g' : Graph} {id : Int64} {element : Element}
  {node : NodePattern}

/-! ## What is created is found -/

namespace Literal

mutual

/-- The object of a literal that can be lowered has no number that differs from itself. -/
theorem yields_same_self : ∀ l : Literal, Yields l.toValue fun _ => l.obj.same l.obj = true
  | .null | .bool _ | .int _ => .ok (by simp [obj, Obj.same, Obj.cypherNull])
  | .float _ => .ite (fun h => .ok (Binary64.equal_self h)) fun _ => .error
  | .string _ => (Yields.trivial _).bind fun _ _ => .pure (by simp [obj, Obj.same])
  | .list items => (yields_sameItems_self items).bind fun _ h => .pure h
  | .map entries => (yields_sameEntries_self entries).bind fun _ h => .pure h

theorem yields_sameItems_self : ∀ ls : List Literal,
    Yields (toValues ls) fun _ => Obj.sameItems (objs ls) (objs ls) = true
  | [] => .ok rfl
  | l :: rest => (yields_same_self l).bind fun _ hl => (yields_sameItems_self rest).bind fun _ h =>
      .pure (by simp [objs, Obj.sameItems, hl, h])

theorem yields_sameEntries_self : ∀ ls : List (String × Literal),
    Yields (toEntryValues ls) fun _ => Obj.sameEntries (entryObjs ls) (entryObjs ls) = true
  | [] => .ok rfl
  | (k, l) :: rest => (Yields.trivial _).bind fun _ _ => (yields_same_self l).bind fun _ hl =>
      (yields_sameEntries_self rest).bind fun _ h =>
        .pure (by simp [entryObjs, Obj.sameEntries, Obj.same, hl, h])

end

lemma looselyEqual_self {l : Literal} {v : Value} (h : l.toValue = .ok v) :
    l.obj.looselyEqual l.obj = true := by
  have hsame := yields_same_self l v h
  cases l <;> exact hsame

end Literal

/-- The element with a property that a pattern gives it.  A null gives none. -/
def Element.given (property : String × Expr) (element : Element) : Element :=
  match property.2 with
  | .literal .null => element
  | .literal l => element.put property.1 l.obj
  | _ => element

lemma Element.given_literal {l : Literal} (h : l ≠ .null) (key : String) (element : Element) :
    element.given (key, .literal l) = element.put key l.obj := by
  cases l <;> first | rfl | exact absurd rfl h

namespace NodePattern

/-- The node that is created for the pattern. -/
def created (node : NodePattern) : Element :=
  node.properties.reverse.foldr Element.given (.bare (node.labels.head?.getD "vertex"))

/-- No property is null, and each equals the last one for its key. -/
structure Recovers (node : NodePattern) : Prop where
  notNull : ∀ property ∈ node.properties, property.2.isNullLiteral = false
  last : ∀ key l l', (key, .literal l) ∈ node.properties →
    Table.get? node.properties.reverse key = some (.literal l') → l' = l ∨
    l'.obj.looselyEqual l.obj = true

/-- All properties of the pattern are literals that can be lowered. -/
def IsLiteral (properties : List (String × Expr)) : Prop :=
  ∀ key e, (key, e) ∈ properties → ∃ l v, e = .literal l ∧ l.toValue = .ok v

lemma label_foldr_given (properties : List (String × Expr)) (element : Element) :
    (properties.foldr Element.given element).label = element.label := by
  induction properties with
  | nil => rfl
  | cons property rest ih =>
    rw [foldr_cons, Element.given]
    split <;> exact ih

/-- A property has the value of the first literal for its key that is not null. -/
lemma get?_foldr_given {properties : List (String × Expr)} (h : IsLiteral properties)
    (label key : String) {v : Obj} :
    Table.get? (properties.foldr Element.given (.bare label)).properties key = some v ↔
      ∃ l, Table.get? (properties.filter fun property => !property.2.isNullLiteral) key =
        some (.literal l) ∧ l.obj = v := by
  induction properties with
  | nil => simp [Element.bare, Table.get?]
  | cons property rest ih =>
    obtain ⟨k, e⟩ := property
    obtain ⟨l, -, rfl, -⟩ := h k e mem_cons_self
    have ih := ih fun k e hmem => h k e (mem_cons_of_mem _ hmem)
    cases l with
    | null => exact ih
    | bool | int | float | string | list | map =>
      simp only [foldr_cons, Element.given, Element.put]
      rw [filter_cons_of_pos rfl]
      by_cases hk : k = key
      · subst hk
        simp [Table.get?_put_self, Table.get?]
      · rw [Table.get?_put_of_ne _ (Ne.symm hk), ih, Table.get?, if_neg (by simpa using hk)]

/-- The node that is created fits the pattern if it can be recovered, and only then. -/
lemma all_meets_created_iff (h : IsLiteral node.properties) :
    node.properties.all node.created.meets = true ↔ node.Recovers := by
  have hget (key : String) {v : Obj} : Table.get? node.created.properties key = some v ↔ _ :=
    get?_foldr_given (fun k e hmem => h k e (mem_reverse.1 hmem))
      (node.labels.head?.getD "vertex") key
  have hmeets (key : String) (l : Literal) : node.created.meets (key, .literal l) = true ↔
      ∃ v, Table.get? node.created.properties key = some v ∧ v.looselyEqual l.obj = true :=
      Option.any_eq_true _ _
  -- Without a null the literal that counts is the last one.
  have hlast (hnotNull : ∀ property ∈ node.properties, property.2.isNullLiteral = false)
      {key : String} {l : Literal}
      (hl : Table.get? node.properties.reverse key = some (.literal l)) :
      Table.get? node.created.properties key = some l.obj := by
    refine (hget key).2 ⟨l, ?_, rfl⟩
    rwa [filter_eq_self.2 fun property hmem => by simp [hnotNull property (mem_reverse.1 hmem)]]
  rw [all_eq_true]
  constructor
  · intro hall
    have hnotNull : ∀ property ∈ node.properties, property.2.isNullLiteral = false := by
      rintro ⟨key, e⟩ hmem
      obtain ⟨l, _, rfl, -⟩ := h key e hmem
      cases l with
      | null =>
        -- What is stored is no null, so nothing that is stored equals it.
        obtain ⟨v, hv, hnull⟩ := (hmeets key .null).1 (hall _ hmem)
        obtain ⟨l, hl, rfl⟩ := (hget key).1 hv
        obtain ⟨hmem, hl⟩ := mem_filter.1 (Table.mem_of_get? hl)
        obtain ⟨_, v, ⟨⟩, hv⟩ := h key _ (mem_reverse.1 hmem)
        rw [← Literal.looselyEqual_null hv] at hl
        exact absurd hnull (by simpa [Literal.obj] using hl)
      | bool | int | float | string | list | map => rfl
    refine ⟨hnotNull, fun key l l' hmem hl' => .inr ?_⟩
    obtain ⟨v, hv, hequal⟩ := (hmeets key l).1 (hall _ hmem)
    rw [hlast hnotNull hl'] at hv
    exact Option.some.inj hv ▸ hequal
  · rintro ⟨hnotNull, hequal⟩ ⟨key, e⟩ hmem
    obtain ⟨l, _, rfl, hl⟩ := h key e hmem
    obtain ⟨e', he'⟩ : ∃ e', Table.get? node.properties.reverse key = some e' :=
      Option.isSome_iff_exists.1 (Table.has_iff.2 (mem_map.2 ⟨_, mem_reverse.2 hmem, rfl⟩))
    obtain ⟨l', _, rfl, -⟩ := h key e' (mem_reverse.1 (Table.mem_of_get? he'))
    refine (hmeets key l).2 ⟨l'.obj, hlast hnotNull he', ?_⟩
    rcases hequal key l l' hmem he' with rfl | hequal
    · exact Literal.looselyEqual_self hl
    · exact hequal

end NodePattern

/-! ## A new node -/

/-- The second graph has one more node than the first. -/
structure Graph.Grows (g : Graph) (id : Int64) (element : Element) (g' : Graph) : Prop where
  entries : g'.vertices.entries = g.vertices.entries ++ [(id, element)]
  lastId : g'.lastId = id
  new : ∀ entry ∈ g.vertices.entries, entry.1 ≠ id

namespace Graph.Grows

lemma get? (h : g.Grows id element g') : g'.vertices.get? id = some element :=
  Store.get?_of_mem (h.entries ▸ mem_append_right _ mem_cons_self)

lemma modify (h : g.Grows id element g') (f : Element → Element) :
    g.Grows id (f element) (g'.modify (.vertex id) f) where
  entries := by
    have hold :
      g.vertices.entries.map (fun entry => if entry.1 = id then (entry.1, f entry.2) else entry) =
        g.vertices.entries := (map_congr_left fun entry hentry => if_neg (h.new entry hentry)).trans
        (map_id _)
    show g'.vertices.entries.map _ = _
    rw [h.entries, map_append, hold]
    simp
  lastId := h.lastId
  new := h.new

lemma of_addVertex? (h : g.lastId < Int64.maxValue) (label : String) :
    ∃ g', g.addVertex? label = some (g.lastId + 1, g') ∧ g.Grows (g.lastId + 1)
    (.bare label) g' := by
  rw [Graph.addVertex?, dif_pos h]
  refine ⟨_, rfl, rfl, rfl, fun entry hentry => ?_⟩
  exact (Int64.ne_of_lt (Int64.lt_add_one_of_le (g.vertices_le entry hentry) h))

end Graph.Grows

/-- A node of the graph fits the pattern. -/
def NodePattern.hasFit (g : Graph) (node : NodePattern) : Bool :=
  (g.vertices.entries.map Prod.fst).any (NodePattern.fits g node)

lemma NodePattern.fits_of_grows {kind : Option String} (hlabels : node.labels = kind.toList)
    (h : g.Grows id node.created g') :
    NodePattern.fits g' node id = node.properties.all node.created.meets := by
  have hlabel : node.created.label = node.labels.head?.getD "vertex" := label_foldr_given _ _
  rw [fits, h.get?, hlabels]
  cases kind <;> simp [hlabel, hlabels]

namespace Merging

lemma run_property {key : String} {v : Value} {obj : Obj} (heval : v.eval env = .ok obj)
    (helem : w.graph.element? t.obj = some element) :
    (Step.property key v).run env
    [t] w = .ok ([t], ⟨w.graph.modify t.obj (·.put key obj), w.buckets⟩) := by
  have hmodify : Run.modifyElement t.obj (·.put key obj) w =
      .ok ((), ⟨w.graph.modify t.obj (·.put key obj), w.buckets⟩) := by
    simp only [Run.modifyElement, Run.update, Graph.element, helem]
    rfl
  rw [Step.run, Machine.property, Machine.each_singleton, stateT_bind_eq (Returns.result heval),
    stateT_bind_eq hmodify]
  rfl

lemma Constants.isLiteral {properties : List (String × Expr)} {values : List (String × Value)}
    (h : Constants properties values)
    (hlit : ∀ property ∈ properties, ∃ l, property.2 = .literal l) :
    NodePattern.IsLiteral properties := by
  intro key e hmem
  obtain ⟨l, rfl⟩ : ∃ l, e = .literal l := hlit _ hmem
  obtain ⟨_, -, -, -, ⟨hv⟩⟩ := exists_mem_of_forall₂ h.flip _ hmem
  exact ⟨l, _, rfl, hv⟩

variable (env) in
/-- The steps that give the new node its properties. -/
lemma run_properties {properties : List (String × Expr)} {values : List (String × Value)}
    (hvals : Constants properties values)
    (hlit : ∀ property ∈ properties, ∃ l, property.2 = .literal l)
    (hgrows : g.Grows id element w.graph) (t : Traverser) :
    ∃ g', run env (storing (values.filter fun entry => isStored entry.2))
        [t.carry (.vertex id)] w = .ok ([t.carry (.vertex id)], ⟨g', w.buckets⟩) ∧
      g.Grows id (properties.foldl (fun element property => element.given property) element)
      g' := by
  induction hvals generalizing w element with
  | nil => exact ⟨w.graph, rfl, hgrows⟩
  | @cons property value properties values hval _ ih =>
    obtain ⟨⟨l, hl⟩, hrest⟩ := forall_mem_cons.1 hlit
    obtain ⟨⟨_, _⟩, ⟨key, v⟩⟩ := property, value
    obtain rfl := hl
    obtain ⟨-, rfl, ⟨hv⟩⟩ := hval
    by_cases hnull : l = .null
    · subst hnull
      obtain rfl := Except.ok.inj hv
      exact ih hrest hgrows
    · have hput : (Step.property key v).run env [t.carry (.vertex id)] w = _ :=
        run_property (Literal.yields_eval env l v hv) hgrows.get?
      obtain ⟨g', hrun, hgrows⟩ := ih hrest (w := ⟨_, w.buckets⟩) (hgrows.modify (·.put key l.obj))
      refine ⟨g', ?_, by rwa [foldl_cons, Element.given_literal hnull]⟩
      have hstored : isStored v = true := Literal.yields_isStored hnull v hv
      rw [filter_cons_of_pos (by exact hstored), storing, map_cons, run_cons, stateT_bind_eq hput]
      exact hrun

variable (env) in
lemma run_addV (kind : Option String) (t : Traverser) : (Step.addV kind).run env [t] w =
    (Machine.added (w.graph.addVertex? (kind.getD "vertex"))).map fun r =>
      ([t.carry (.vertex r.1)], ⟨r.2, w.buckets⟩) := by
  rw [Step.run, Machine.addV, Machine.emit, Machine.each_singleton]
  simp only [bind, StateT.bind, Run.update]
  cases Machine.added _ <;> rfl

/-- The first row of a query. -/
def row : Traverser := .fresh (.string Token.start.encode)

/-- A statement that puts a label on what a step gives for the first row, and returns nothing. -/
def statement (s : Step) (l : Label) : Traversal := oneRow ++ [s, .as l] ++ [.barrier, .limit 0]

lemma execute_statement (s : Step) (l : Label) (g : Graph) : execute env g (statement s l) =
    (s.run env [row] (World.start g (buckets (statement s l)))).map fun r => ([], r.2.graph) := by
  have hrun (w : World) : runProgram env (statement s l) w =
      (s.run env [row] >>= fun _ => pure []) w := by
    have hseed : Returns w (Run.result (Step.inject [.token .start]).seed) [] := rfl
    have hinject : Returns w ((Step.inject [.token .start]).run env []) [row] := rfl
    rw [statement, oneRow, cons_append, cons_append, runProgram, stateT_bind_eq hseed, run_cons,
      stateT_bind_eq hinject]
    rfl
  rw [execute, StateT.run, hrun]
  cases h : s.run env [row] (World.start g (buckets (statement s l))) with
  | error halt => rw [stateT_bind_error h]; rfl
  | ok r => rw [stateT_bind_eq h]; rfl

/-- The steps that create a node. -/
def creation (kind : Option String) (values : List (String × Value)) : Traversal :=
  .addV kind :: storing (values.filter fun entry => isStored entry.2)

/-- What a run of the statement gives: the graph as it is if a node fits, or a graph with a new
node. -/
inductive Outcome (node : NodePattern) (g : Graph) : Except Halt (List RawRow × Graph) → Prop
  | found (hfit : node.hasFit g = true) : Outcome node g (.ok ([], g))
  | created {g' : Graph} (hfit : node.hasFit g = false) (hid : g.lastId < Int64.maxValue)
    (hgrows : g.Grows (g.lastId + 1) node.created g') : Outcome node g (.ok ([], g'))
  | full (hfit : node.hasFit g = false) (hid : ¬ g.lastId < Int64.maxValue) : Outcome node g
    (.error .overflow)

section

variable {kind : Option String} {tests : Traversal} {values : List (String × Value)}
  (htests : NodePattern.TestedBy node tests)
  (hlit : ∀ property ∈ node.properties, ∃ l, property.2 = .literal l)

include htests hlit

lemma returns_find (t : Traverser) : Returns w (run env (.V :: tests) [t])
    (((w.graph.vertices.entries.map Prod.fst).filter fun id => NodePattern.fits w.graph node id).map
      fun id =>
      t.carry (.vertex id)) :=
  (Matching.returns_V t).cons (Matching.returns_nodeTests htests hlit fun _ _ => rfl)

variable (env) in
lemma outcome (hvals : Constants node.properties values) (hlabels : node.labels = kind.toList)
    (l : Label) (g : Graph) :
    Outcome node g
    (execute env g (statement (.coalesce [.V :: tests, creation kind values]) l)) := by
  rw [execute_statement]
  generalize hw : World.start g _ = w
  obtain rfl : w.graph = g := hw ▸ rfl
  have hfind : Returns w (run env (.V :: tests) [row]) _ := returns_find htests hlit row
  cases hany : node.hasFit w.graph with
  | true =>
    have hrun : (Step.coalesce [.V :: tests, creation kind values]).run env [row] w = _ :=
      hfind.coalesce_first (by simpa [NodePattern.hasFit] using hany)
    rw [hrun]
    exact .found hany
  | false =>
    have hnone :
      ((w.graph.vertices.entries.map Prod.fst).filter fun id => NodePattern.fits w.graph
        node id).map
        (fun id => row.carry (.vertex id)) = [] := by simpa [NodePattern.hasFit] using hany
    have hcreate : (Step.coalesce [.V :: tests, creation kind values]).run env [row] w =
        Machine.firstBranch [run env (creation kind values)] row w := by
      rw [Step.run, Machine.coalesce, Machine.each_singleton]
      exact stateT_bind_eq (hnone ▸ hfind).branch
    have hadd := run_addV env (w := w) kind row
    rw [hcreate, Machine.firstBranch]
    -- A node can be added as long as there are identifiers left.
    by_cases hid : w.graph.lastId < Int64.maxValue
    · obtain ⟨g₁, hadded, hgrows⟩ := Graph.Grows.of_addVertex? hid (kind.getD "vertex")
      obtain ⟨g', hrun, hgrows⟩ := run_properties env (w := ⟨g₁, w.buckets⟩) hvals hlit hgrows row
      rw [hadded] at hadd
      rw [stateT_bind_eq (stateT_bind_eq ((stateT_bind_eq hadd).trans hrun))]
      refine .created hany hid ?_
      rw [NodePattern.created, foldr_reverse, hlabels]
      cases kind <;> exact hgrows
    · have hfull : w.graph.addVertex? (kind.getD "vertex") = none := dif_neg hid
      rw [hfull] at hadd
      have herror : (Machine.branch (run env (creation kind values)) row) w = .error .overflow :=
        stateT_bind_error (stateT_bind_error hadd)
      rw [stateT_bind_error herror]
      exact .full hany hid

end

end Merging

/-- The statement of a query that merges a node. -/
lemma Query.exists_mergeNode {p : Pattern} {s : Statement}
    (h : Query.statement ⟨[.merge p]⟩ = .ok s) (hhops : p.hops = []) : ∃ kind tests values l,
      s.traversal = Merging.statement (.coalesce [.V :: tests, Merging.creation kind values]) l ∧
      p.start.labels = kind.toList ∧
      NodePattern.TestedBy p.start tests ∧ Merging.Constants p.start.properties values := by
  obtain ⟨statement, draft, hall, -, htrav⟩ := Query.lowersAll h
  cases hall with
  | cons _ hfirst hrest =>
    cases hrest
    cases hfirst with
    | merge hmerges =>
      cases hmerges with
      | @node kind tests values l _ _ _ hlabels htests hvals hlabel _ =>
        have hclosing : closing draft.buckets false = [.barrier, .limit 0] := by
          generalize p.start.var = var at hlabel
          cases hlabel <;> rfl
        refine ⟨kind, tests, values, l, ?_, hlabels, htests, hvals⟩
        rw [htrav]
        exact congrArg _ hclosing
      | relationship hhop => exact absurd (hhops.symm.trans hhop) (by simp)

/-- Merging a node succeeds while there is an identity left.  A second run changes nothing, whatever
the graph, if and only if no property of the pattern is null and each equals the last one for its
key. -/
theorem Query.statement_merge_twice {p : Pattern} {s : Statement}
    (h : Query.statement ⟨[.merge p]⟩ = .ok s) (hhops : p.hops = [])
    (hliteral : ∀ property ∈ p.start.properties, ∃ l, property.2 = .literal l) (env : Env) :
    (∀ g : Graph, g.lastId < Int64.maxValue → ∃ g', execute env g s.traversal = .ok ([], g')) ∧
      ((∀ g rows g', execute env g s.traversal = .ok (rows, g') → execute env g' s.traversal =
      .ok ([], g')) ↔ NodePattern.Recovers p.start) := by
  obtain ⟨kind, tests, values, l, htrav, hlabels, htests, hvals⟩ := exists_mergeNode h hhops
  have houtcome := Merging.outcome env htests hliteral hvals hlabels l
  rw [← htrav] at houtcome
  rw [← NodePattern.all_meets_created_iff (hvals.isLiteral hliteral)]
  refine ⟨fun g hid => ?_, fun htwice => ?_, fun hmeets g rows g' hrun => ?_⟩
  · have hg := houtcome g
    generalize execute env g s.traversal = r at hg
    cases hg with
    | found => exact ⟨g, rfl⟩
    | created => exact ⟨_, rfl⟩
    | full _ hfull => exact absurd hid hfull
  -- The empty graph has no node that fits, and after the first run it has only the new one.
  · have hg := houtcome .empty
    generalize hrun : execute env .empty s.traversal = r at hg
    cases hg with
    | found hfit => cases hfit
    | full _ hfull => exact absurd (by decide) hfull
    | @created g' _ _ hgrows =>
      have hg' := houtcome g'
      rw [htwice _ _ _ hrun] at hg'
      cases hg' with
      | found hfit =>
        rw [← NodePattern.fits_of_grows hlabels hgrows]
        simpa [NodePattern.hasFit, hgrows.entries, Graph.empty, Store.empty] using hfit
      | created _ _ hagain => simpa using congrArg length hagain.entries
  · have hg := houtcome g
    rw [hrun] at hg
    cases hg with
    | found => exact hrun
    | created _ _ hgrows =>
      have hfit : NodePattern.hasFit g' p.start = true :=
        any_eq_true.2
          ⟨_, by simp [hgrows.entries], (NodePattern.fits_of_grows hlabels hgrows).trans hmeets⟩
      have hg' := houtcome g'
      generalize execute env g' s.traversal = r at hg'
      cases hg' with
      | found => rfl
      | created hnone | full hnone => exact absurd hfit (by simp [hnone])

/-- `MERGE ({k: 1})` creates at most one node. -/
theorem Query.statement_merge_twice_one : ∃ s : Statement,
    Query.statement ⟨[.merge { start := { properties := [("k", .literal (.int 1))] } }]⟩ = .ok s ∧
      ∀ g rows g', execute (.standard []) g s.traversal = .ok (rows, g') →
        execute (.standard []) g' s.traversal = .ok ([], g') := by
  have h : Query.statement ⟨[.merge { start := { properties := [("k", .literal (.int 1))] } }]⟩ =
      .ok ⟨[.inject [.token .start],
      .coalesce [[.V, .has "k" (.eq (.int 1))], [.addV none, .property "k" (.int 1)]],
        .as (.token (.unnamed 1)), .barrier, .limit 0], []⟩ := by
    with_unfolding_all rfl
  refine ⟨_, h, (statement_merge_twice h rfl (by simp) (.standard [])).2.2
    ⟨by simp [Expr.isNullLiteral], ?_⟩⟩
  intro key l l' hl hl'
  obtain ⟨rfl, rfl⟩ : key = "k" ∧ l = .int 1 := by simpa using hl
  exact .inl (Expr.literal.inj (Option.some.inj hl')).symm

/-- `MERGE ({k: null})` creates a node in every run. -/
theorem Query.statement_merge_null : ∃ (s : Statement) (g g' : Graph),
    Query.statement ⟨[.merge { start := { properties := [("k", .literal .null)] } }]⟩ = .ok s ∧
      execute (.standard []) .empty s.traversal = .ok ([], g) ∧ g.vertices.entries.length = 1 ∧
      execute (.standard []) g s.traversal = .ok ([], g') ∧ g'.vertices.entries.length = 2 := by
  refine ⟨⟨[.inject [.token .start], .coalesce [[.V, .has "k" (.eq .null)], [.addV none]],
    .as (.token (.unnamed 1)),
    .barrier, .limit 0], []⟩, _, _, by with_unfolding_all rfl, rfl, rfl, rfl, rfl⟩

end CypherGremlin
