import CypherGremlin.Proofs.Engine.Removal

/-!
# Trails

What a pattern stands for in a graph, said without a traversal: a `Trail` is a vertex and a list of
hops, each an edge and the vertex that it leads to.  A trail of a pattern satisfies what the pattern
asks of each element, one hop after the other, and passes no edge twice.

An edge of a graph can have an end that is not in the graph any more.  Such an end satisfies no
label and no property, and else is a vertex like any other; `Pattern.IsTrail.mem_graph` says that
there is none in the trails of a graph whose edges have their ends in it.

The labels under which a match holds the elements of a trail are the variables of the pattern, and
numbers where there is no variable (`Pattern.labels`).
-/

namespace CypherGremlin

/-! ## Constraints -/

mutual

/-- The object that a literal of a query stands for.  Its null is the null of Cypher. -/
def Literal.obj : Literal → Obj
  | .null => .cypherNull
  | .bool b => .bool b
  | .int i => .int i
  | .float x => .float x
  | .string s => .string s
  | .list items => .list (Literal.objs items)
  | .map entries => .map (Literal.entryObjs entries)

/-- The objects that some literals stand for. -/
def Literal.objs : List Literal → List Obj
  | [] => []
  | l :: rest => l.obj :: Literal.objs rest

/-- The entries that the entries of a map literal stand for. -/
def Literal.entryObjs : List (String × Literal) → List (Obj × Obj)
  | [] => []
  | (k, l) :: rest => (.string k, l.obj) :: Literal.entryObjs rest

end

/-- The element has the property, and its value equals the literal. -/
def Element.meets (element : Element) (property : String × Expr) : Bool :=
  match property.2 with
  | .literal l => (Table.get? element.properties property.1).any (·.looselyEqual l.obj)
  | _ => false

/-- A vertex has each label and each property that the pattern asks for. -/
def NodePattern.fits (g : Graph) (node : NodePattern) (id : Int64) : Bool :=
  node.labels.all (fun l => (g.vertices.get? id).any (·.label == l)) &&
    node.properties.all fun property => (g.vertices.get? id).any (·.meets property)

/-- An edge has one of the types, if there are any, and each property that the pattern asks for. -/
def RelPattern.fits (rel : RelPattern) (edge : Edge) : Bool :=
  (rel.types.isEmpty || rel.types.contains edge.label) && rel.properties.all edge.meets

/-- In the direction, the edge leads from one vertex to the other. -/
def Direction.Joins (d : Direction) (edge : Edge) (a b : Int64) : Prop :=
  match d with
  | .out => edge.source = a ∧ edge.target = b
  | .in => edge.target = a ∧ edge.source = b
  | .both => edge.source = a ∧ edge.target = b ∨ edge.target = a ∧ edge.source = b

/-- From a vertex, the hop can go along the edge to the other vertex. -/
def Hop.Joins (g : Graph) (hop : Hop) (a r b : Int64) : Prop :=
  (∃ edge, g.edges.get? r = some edge ∧ RelPattern.fits hop.rel edge = true ∧
    hop.rel.direction.Joins edge a b) ∧ NodePattern.fits g hop.node b = true

/-! ## Trails -/

/-- A vertex, and hops of an edge and the vertex that it leads to. -/
structure Trail where
  start : Int64
  hops : List (Int64 × Int64)
deriving DecidableEq

namespace Trail

/-- The vertex where the trail ends. -/
def last (trail : Trail) : Int64 := (trail.hops.getLast?.map Prod.snd).getD trail.start

def extend (trail : Trail) (more : List (Int64 × Int64)) : Trail :=
  ⟨trail.start, trail.hops ++ more⟩

@[simp] lemma extend_nil (trail : Trail) : trail.extend [] = trail := by simp [extend]

@[simp] lemma extend_extend (trail : Trail) (more rest : List (Int64 × Int64)) :
    (trail.extend more).extend rest = trail.extend (more ++ rest) := by simp [extend]

@[simp] lemma last_extend (trail : Trail) (r b : Int64) : (trail.extend [(r, b)]).last = b := by
  simp [last, extend]

lemma extend_inj {trail trail' : Trail} {hop hop' : Int64 × Int64} :
    trail.extend [hop] = trail'.extend [hop'] ↔ trail = trail' ∧ hop = hop' := by
  cases trail
  cases trail'
  simp only [extend, mk.injEq, ← List.concat_eq_append, List.concat_inj, and_assoc]

end Trail

/-- From a vertex, the pattern's hops can go along the edges to the vertices. -/
inductive Follows (g : Graph) : Int64 → List Hop → List (Int64 × Int64) → Prop where
  | nil (a : Int64) : Follows g a [] []
  | cons {a r b : Int64} {hop : Hop} {hops : List Hop} {rest : List (Int64 × Int64)}
    (hjoins : Hop.Joins g hop a r b)
    (hrest : Follows g b hops rest) : Follows g a (hop :: hops) ((r, b) :: rest)

/-- The trail satisfies what the pattern asks of its elements, and passes no edge twice. -/
structure Pattern.IsTrail (g : Graph) (p : Pattern) (trail : Trail) : Prop where
  start : (g.vertices.get? trail.start).isSome
  fits : NodePattern.fits g p.start trail.start = true
  follows : Follows g trail.start p.hops trail.hops
  distinct : (trail.hops.map Prod.fst).Nodup

/-- Every edge has its ends in the graph. -/
def Graph.Closed (g : Graph) : Prop :=
  ∀ r edge, g.edges.get? r = some edge →
    (g.vertices.get? edge.source).isSome ∧ (g.vertices.get? edge.target).isSome

lemma Direction.Joins.mem_ends {d : Direction} {edge : Edge} {a b : Int64} (h : d.Joins edge a b) :
    b ∈ [edge.source, edge.target] := by
  cases d with
  | out => simp [h.2]
  | «in» => simp [h.2]
  | both => rcases h with h | h <;> simp [h.2]

lemma Follows.mem_graph {g : Graph} (hg : g.Closed) {a : Int64} {hops : List Hop}
    {more : List (Int64 × Int64)} (h : Follows g a hops more) :
    ∀ hop ∈ more, (g.vertices.get? hop.2).isSome := by
  induction h with
  | nil => simp
  | cons hjoins _ ih =>
    obtain ⟨⟨edge, hedge, -, hends⟩, -⟩ := hjoins
    refine List.forall_mem_cons.2 ⟨?_, ih⟩
    have hmem := hends.mem_ends
    simp only [List.mem_cons, List.not_mem_nil, or_false] at hmem
    rcases hmem with hb | hb
    · exact hb ▸ (hg _ edge hedge).1
    · exact hb ▸ (hg _ edge hedge).2

lemma Pattern.IsTrail.mem_graph {g : Graph} (hg : g.Closed) {p : Pattern} {trail : Trail}
    (h : Pattern.IsTrail g p trail) :
    ∀ id ∈ trail.start :: trail.hops.map Prod.snd, (g.vertices.get? id).isSome := by
  refine List.forall_mem_cons.2 ⟨h.start, List.forall_mem_map.2 ?_⟩
  exact h.follows.mem_graph hg

/-! ## Labels -/

def Pattern.variables (p : Pattern) : List String :=
  p.start.var.toList ++ p.hops.flatMap fun hop => hop.rel.var.toList ++ hop.node.var.toList

/-- The values that a pattern gives to properties, with their keys. -/
def Pattern.properties (p : Pattern) : List (String × Expr) :=
  p.start.properties ++ p.hops.flatMap fun hop => hop.rel.properties ++ hop.node.properties

/-- The label of an element: its variable, or the given number. -/
def elementLabel (n : Nat) : Option String → Label
  | some var => .named var
  | none => .token (.unnamed n.toUInt32)

/-- The next number, after the label of an element. -/
def afterElement (n : Nat) : Option String → Nat
  | some _ => n
  | none => n + 1

/-- The labels of the relationships and nodes of hops, numbered from the given number on. -/
def hopLabels : Nat → List Hop → List (Label × Label)
  | _, [] => []
  | n, hop :: rest =>
    let n' := afterElement n hop.rel.var
    (elementLabel n hop.rel.var, elementLabel n' hop.node.var) ::
    hopLabels (afterElement n' hop.node.var) rest

/-- The labels of a pattern's first node and of the relationships and nodes of its hops. -/
def Pattern.labels (n : Nat) (p : Pattern) : Label × List (Label × Label) :=
  (elementLabel n p.start.var, hopLabels (afterElement n p.start.var) p.hops)

/-- The traverser holds the elements of the trail under the labels. -/
structure Trail.HeldBy (trail : Trail) (labels : Label × List (Label × Label)) (t : Traverser) :
    Prop where
  start : t.label? labels.1.encode = some (.vertex trail.start)
  hops : List.Forall₂ (fun pair hop => t.label? pair.1.encode = some (.edge hop.1) ∧
    t.label? pair.2.encode = some (.vertex hop.2)) labels.2 trail.hops

end CypherGremlin
