import CypherGremlin.Proofs.Engine.Bridge
import CypherGremlin.Proofs.Statement.Expression
import CypherGremlin.Proofs.Statement.Trail
import CypherGremlin.Statement.Matching

/-!
# One hop of a match

The steps of a hop take a stream of traversers, each at the end of a trail, to the stream of those
that have gone on along an edge.  `Matching.returns_hopSteps` says which stream this is.  It is the
stream of all trails with one hop more, each once, if the stream before was that of all trails
(`Traced.onward`).

Where an edge is followed in both directions, the vertex that it leads to depends on the vertex from
which it was reached; `Direction.farEnd` says how, and `Direction.joins_iff` that it is right for
loops too.
-/

namespace CypherGremlin

variable {g : Graph} {hop : Hop} {nodeLabel relLabel : Label} {pairs : List (Trail × Traverser)}
  {marks : List Label}

open List Traversal

/-! ## Directions -/

namespace Direction

/-- The edge can be followed from the vertex in the direction. -/
def incident (d : Direction) (v : Int64) (edge : Edge) : Bool :=
  match d with
  | .out => edge.source == v
  | .in => edge.target == v
  | .both => edge.source == v || edge.target == v

/-- The end of an edge that is reached from the vertex in the direction. -/
def farEnd (d : Direction) (v : Int64) (edge : Edge) : Int64 :=
  match d with
  | .out => edge.target
  | .in => edge.source
  | .both => if v = edge.source then edge.target else edge.source

/-- An edge that can be followed joins the vertex with the end that is reached, and with no other.
Of a loop both ends are the vertex itself. -/
lemma joins_iff (d : Direction) (edge : Edge) (a b : Int64) :
    d.Joins edge a b ↔ d.incident a edge = true ∧ d.farEnd a edge = b := by
  cases d with
  | out | «in» => simp [Joins, incident, farEnd]
  | both =>
    simp only [Joins, incident, farEnd, Bool.or_eq_true, beq_iff_eq]
    by_cases h : a = edge.source
    · subst h
      simp only [if_true, true_and, true_or]
      constructor
      · rintro (h | ⟨h, rfl⟩)
        · exact h
        · exact h
      · exact .inl
    · simp only [h, if_false, Ne.symm h, false_and, false_or]

end Direction

/-! ## Tests of an element -/

mutual

/-- The constant of a literal is evaluated to the object of the literal. -/
theorem Literal.yields_eval (env : Env) : ∀ l : Literal, Yields l.toValue fun v =>
    v.eval env = .ok l.obj
  | .null | .bool _ | .int _ => .ok rfl
  | .float x => .ite (fun _ => .ok rfl) fun _ => .error
  | .string s => (Yields.trivial _).bind fun _ _ => .pure rfl
  | .list items => (Literal.yields_evals env items).bind fun vs hvs => .pure (by
      simp only [Value.eval, Value.argument, Env.value, hvs]
      rfl)
  | .map entries => (Literal.yields_entryEvals env entries).bind fun vs hvs => .pure (by
      simp only [Value.eval, Value.argument, Env.value, hvs]
      rfl)

theorem Literal.yields_evals (env : Env) :
    ∀ ls : List Literal, Yields (Literal.toValues ls) fun vs =>
    env.values (Value.arguments .capped vs) = .ok (Literal.objs ls)
  | [] => .ok rfl
  | l :: rest => (Literal.yields_eval env l).bind fun v hv =>
      (Literal.yields_evals env rest).bind fun vs hvs => .pure (by
        simp only [Value.eval] at hv
        simp only [Value.arguments, Env.values, hv, hvs]
        rfl)

theorem Literal.yields_entryEvals (env : Env) : ∀ ls : List (String × Literal),
    Yields (Literal.toEntryValues ls) fun vs =>
      env.entryValues (Value.entryArguments .capped vs) = .ok (Literal.entryObjs ls)
  | [] => .ok rfl
  | (k, l) :: rest =>
    (Yields.trivial _).bind fun _ _ => (Literal.yields_eval env l).bind fun v hv =>
      (Literal.yields_entryEvals env rest).bind fun vs hvs => .pure (by
        simp only [Value.eval] at hv
        simp only [Value.entryArguments, Env.entryValues, hv, hvs]
        rfl)

end

namespace Matching

variable {ι : Type} {l : List ι} {f : ι → Traverser} {x : ι → Option Element} {w : World}
  {env : Env}

lemma returns_labelSteps (labels : List String) (hx : ∀ i ∈ l, w.graph.element? (f i).obj = x i) :
    Returns w (run env (labelSteps labels) (l.map f))
      ((l.filter fun i => labels.all fun name => (x i).any (·.label == name)).map f) := by
  refine .tests (forall₂_map_right_iff.2 (forall₂_same.2 fun name _ l hl => ?_)) hx
  rw [Step.run]
  refine .keep fun i hi => ?_
  rw [hl i hi]
  cases x i <;> simp [Bool.beq_eq_decide_eq]

lemma holds_eq_constant {literal : Literal} {v : Value} (h : (Expr.literal literal).Constant v)
    (obj : Obj) : (Predicate.eq v).holds env obj = .ok (obj.looselyEqual literal.obj) := by
  obtain ⟨hv⟩ := h
  exact Predicate.holds_eq (Literal.yields_eval env literal v hv) obj

lemma returns_propertyTests {properties : List (String × Expr)} {tests : Traversal}
    (htests : PropertyTests properties tests)
    (hlit : ∀ property ∈ properties, ∃ l, property.2 = .literal l)
    (hx : ∀ i ∈ l, w.graph.element? (f i).obj = x i) :
    Returns w (run env tests (l.map f))
    ((l.filter fun i => properties.all fun property => (x i).any (·.meets property)).map f) := by
  have hsteps :
    List.Forall₂ (fun property s => ∀ l : List ι, (∀ i ∈ l, w.graph.element? (f i).obj = x i) →
      Returns w (Step.run env s (l.map f)) ((l.filter fun i => (x i).any (·.meets property)).map f))
      properties tests := by
    refine ((forall₂_and_left _ _).2 ⟨hlit, htests⟩).imp ?_
    rintro ⟨key, e⟩ s ⟨⟨literal, rfl⟩, -, v, hv, rfl⟩ l hl
    rw [Step.run]
    refine .keep fun i hi => ?_
    rw [hl i hi]
    cases x i with
    | none => rfl
    | some element =>
      simp only [Option.bind_some, Option.any_some, Element.meets]
      cases Table.get? element.properties key with
      | none => rfl
      | some value => exact holds_eq_constant hv value
  exact .tests hsteps hx

lemma returns_nodeTests {node : NodePattern} {tests : Traversal}
    (htests : NodePattern.TestedBy node tests)
    (hlit : ∀ property ∈ node.properties, ∃ l, property.2 = .literal l) {v : ι → Int64}
    (hv : ∀ i ∈ l, (f i).obj = .vertex (v i)) :
    Returns w (run env tests (l.map f))
    ((l.filter fun i => NodePattern.fits w.graph node (v i)).map f) := by
  obtain @⟨properties, -, hprops⟩ := htests
  have helem : ∀ i ∈ l, w.graph.element? (f i).obj = w.graph.vertices.get? (v i) := fun i hi => by
    rw [hv i hi]
    rfl
  have hfirst : Returns w (run env (labelSteps node.labels) (l.map f)) _ :=
    returns_labelSteps node.labels helem
  have hsecond : Returns w (run env properties ((l.filter fun i => node.labels.all fun name =>
      (w.graph.vertices.get? (v i)).any (·.label == name)).map f)) _ :=
    returns_propertyTests hprops hlit fun i hi => helem i (mem_filter.1 hi).1
  have hboth := hfirst.append hsecond
  rw [filter_filter] at hboth
  simpa only [NodePattern.fits, Bool.and_comm] using hboth

lemma returns_V (t : Traverser) : Returns w (Step.V.run env [t])
    ((w.graph.vertices.entries.map Prod.fst).map fun id => t.carry (.vertex id)) := by
  have hall :
    Returns w
      (Run.observe fun w => .ok (w.graph.vertices.entries.map fun entry => Obj.vertex entry.1)) _ :=
    .observe rfl
  rw [Step.run, Machine.V, Machine.emit, Machine.each_singleton]
  simpa only [map_map, Function.comp_def] using hall.map fun objs => objs.map t.carry

/-! ## Hops -/

lemma returns_edgeStep (d : Direction) (types : List String) {v : ι → Int64}
    (hv : ∀ i ∈ l, (f i).obj = .vertex (v i)) :
    Returns w ((d.edgeStep types).run env (l.map f)) ((l.flatMap fun i =>
      (w.graph.edges.entries.filter fun entry => d.incident (v i) entry.2 &&
        (types.isEmpty || types.contains entry.2.label)).map fun entry => (i, entry)).map fun p =>
          { (f p.1).carry (.edge p.2.1) with origin := some (v p.1) }) := by
  have hedges (operator : String) : Returns w (Machine.edges operator d.incident types (l.map f))
      _ := .edges hv
  simp only [map_flatMap, map_map, Function.comp_def]
  cases d with
  | out => exact hedges "outE"
  | «in» => exact hedges "inE"
  | both => exact hedges "bothE"

lemma returns_nodeStep (d : Direction) {r v : ι → Int64} {edge : ι → Edge}
    (hobj : ∀ i ∈ l, (f i).obj = .edge (r i))
    (hedge : ∀ i ∈ l, w.graph.edges.get? (r i) = some (edge i))
    (horigin : ∀ i ∈ l, (f i).origin = some (v i)) :
    Returns w (d.nodeStep.run env (l.map f))
    (l.map fun i => (f i).carry (.vertex (d.farEnd (v i) (edge i)))) := by
  have hread (operator : String) : ∀ i ∈ l, w.graph.edge operator (f i).obj = .ok (edge i) :=
    fun i hi => by
    simp only [Graph.edge, hobj i hi, hedge i hi]
  cases d with
  | out =>
    rw [Direction.nodeStep, Step.run]
    refine .emitOne fun i hi => ?_
    rw [hread "inV" i hi]
    rfl
  | «in» =>
    rw [Direction.nodeStep, Step.run]
    refine .emitOne fun i hi => ?_
    rw [hread "outV" i hi]
    rfl
  | both => exact .otherV hobj hedge horigin

/-- All labels of a pattern's elements. -/
def allLabels (labels : Label × List (Label × Label)) : List Label :=
  labels.1 :: labels.2.flatMap fun pair => [pair.1, pair.2]

/-- The traversers hold the given trails, each once, and stand at the end of theirs. -/
structure Traced (labels : Label × List (Label × Label)) (S : Trail → Prop)
    (pairs : List (Trail × Traverser)) : Prop where
  nodup : (pairs.map Prod.fst).Nodup
  mem : ∀ trail, trail ∈ pairs.map Prod.fst ↔ S trail
  held : ∀ pair ∈ pairs, pair.1.HeldBy labels pair.2
  obj : ∀ pair ∈ pairs, pair.2.obj = .vertex pair.1.last

/-- The trails after a hop: those before it, gone on along an edge. -/
def Onward (g : Graph) (hop : Hop) (S : Trail → Prop) (trail : Trail) : Prop :=
  ∃ before r b, S before ∧ Hop.Joins g hop before.last r b ∧ trail = before.extend [(r, b)]

/-- The steps of a hop that binds its elements. -/
def hopSteps (hop : Hop) (relTests nodeTests : Traversal) (relLabel nodeLabel : Label)
    (marks : List Label) : Traversal :=
  hop.rel.direction.edgeStep hop.rel.types :: (relTests ++ (.as relLabel :: (marks.map .as ++
    (hop.rel.direction.nodeStep :: (nodeTests ++ [.as nodeLabel])))))

/-- The vertex at which a trail arrives if it goes on along an edge. -/
def landing (hop : Hop) (next : (Trail × Traverser) × (Int64 × Edge)) : Int64 :=
  hop.rel.direction.farEnd next.1.1.last next.2.2

/-- Trails with the edges of the hop's direction and types at their ends. -/
def branches (g : Graph) (hop : Hop) (pairs : List (Trail × Traverser)) :
    List ((Trail × Traverser) × (Int64 × Edge)) :=
  pairs.flatMap fun pair =>
    (g.edges.entries.filter fun entry => hop.rel.direction.incident pair.1.last entry.2 &&
    (hop.rel.types.isEmpty || hop.rel.types.contains entry.2.label)).map fun entry => (pair, entry)

/-- The ways in which trails can go on: each with an edge that fits the hop and leads to a node that
fits. -/
def ways (g : Graph) (hop : Hop) (pairs : List (Trail × Traverser)) :
    List ((Trail × Traverser) × (Int64 × Edge)) :=
  ((branches g hop pairs).filter fun next => hop.rel.properties.all next.2.2.meets).filter
    fun next =>
    NodePattern.fits g hop.node (landing hop next)

lemma mem_branches {next : (Trail × Traverser) × (Int64 × Edge)} :
    next ∈ branches g hop pairs ↔ next.1 ∈ pairs ∧ g.edges.get? next.2.1 = some next.2.2 ∧
      hop.rel.direction.incident next.1.1.last next.2.2 = true ∧
      (hop.rel.types.isEmpty || hop.rel.types.contains next.2.2.label) = true := by
  obtain ⟨pair, r, edge⟩ := next
  simp only [branches, mem_flatMap, mem_map, mem_filter, Prod.mk.injEq, Bool.and_eq_true]
  constructor
  · rintro ⟨pair, hpair, entry, ⟨hentry, htest⟩, rfl, rfl⟩
    exact ⟨hpair, Store.get?_of_mem hentry, htest⟩
  · rintro ⟨hpair, hentry, htest⟩
    exact ⟨pair, hpair, (r, edge), ⟨Store.mem_iff_get?.2 hentry, htest⟩, rfl, rfl⟩

/-- The trail that has gone on, and the traverser that holds it. -/
def arrive (hop : Hop) (relLabel nodeLabel : Label) (marks : List Label)
    (next : (Trail × Traverser) × (Int64 × Edge)) : Trail × Traverser :=
  let onEdge : Traverser := { next.1.2.carry (.edge next.2.1) with origin := some next.1.1.last }
  let marked := marks.foldl (fun t mark => t.mark mark.encode) (onEdge.mark relLabel.encode)
  (next.1.1.extend [(next.2.1, landing hop next)],
    (marked.carry (.vertex (landing hop next))).mark nodeLabel.encode)

lemma returns_marks (marks : List Label) : Returns w (run env (marks.map .as) (l.map f))
      (l.map fun i => marks.foldl (fun t mark => t.mark mark.encode) (f i)) := by
  induction marks generalizing f with
  | nil => exact .nil
  | cons mark rest ih => exact (Returns.as mark).cons ih

lemma foldl_mark (marks : List Label) (t : Traverser) :
    (marks.foldl (fun t mark => t.mark mark.encode) t).obj = t.obj ∧
      (marks.foldl (fun t mark => t.mark mark.encode) t).origin = t.origin ∧
      ∀ key, (∀ mark ∈ marks, mark.encode ≠ key) →
        (marks.foldl (fun t mark => t.mark mark.encode) t).label? key = t.label? key := by
  induction marks generalizing t with
  | nil => exact ⟨rfl, rfl, fun _ _ => rfl⟩
  | cons mark rest ih =>
    obtain ⟨hobj, horigin, hlabel⟩ := ih (t.mark mark.encode)
    refine ⟨hobj, horigin, fun key hkey => ?_⟩
    obtain ⟨hfirst, hrest⟩ := forall_mem_cons.1 hkey
    exact (hlabel key hrest).trans (Traverser.label?_mark_of_ne hfirst t)

lemma returns_hopSteps {relTests nodeTests : Traversal}
    (hrel : PropertyTests hop.rel.properties relTests)
    (hnode : NodePattern.TestedBy hop.node nodeTests)
    (hlit : ∀ property ∈ hop.rel.properties ++ hop.node.properties, ∃ l, property.2 = .literal l)
    (hobj : ∀ pair ∈ pairs, pair.2.obj = .vertex pair.1.last) :
    Returns w
    (run env (hopSteps hop relTests nodeTests relLabel nodeLabel marks) (pairs.map Prod.snd))
    (((ways w.graph hop pairs).map (arrive hop relLabel nodeLabel marks)).map Prod.snd) := by
  obtain ⟨hrelLiteral, hnodeLiteral⟩ := forall_mem_append.1 hlit
  let onEdge (next : (Trail × Traverser) × (Int64 × Edge)) : Traverser :=
    { next.1.2.carry (.edge next.2.1) with origin := some next.1.1.last }
  let marked (next : (Trail × Traverser) × (Int64 × Edge)) : Traverser :=
    marks.foldl (fun t mark => t.mark mark.encode) ((onEdge next).mark relLabel.encode)
  let found := branches w.graph hop pairs
  let fitting := found.filter fun next => hop.rel.properties.all next.2.2.meets
  have hedge : ∀ next ∈ found, w.graph.edges.get? next.2.1 = some next.2.2 := fun next hnext =>
    (mem_branches.1 hnext).2.1
  -- Along the edges, which are tested and marked, to the nodes at their other ends.
  have hedges : Returns w ((hop.rel.direction.edgeStep hop.rel.types).run env (pairs.map Prod.snd))
      (found.map onEdge) :=
    returns_edgeStep hop.rel.direction hop.rel.types hobj
  have hprops : Returns w (run env relTests (found.map onEdge)) (fitting.map onEdge) := by
    have htests : Returns w (run env relTests (found.map onEdge)) _ :=
      returns_propertyTests (x := fun next => some next.2.2.toElement) hrel hrelLiteral
        fun next hnext => by
        simp [onEdge, Traverser.carry, Graph.element?, hedge next hnext]
    simpa only [Option.any_some] using htests
  have hmarked : Returns w (run env (marks.map .as)
      (fitting.map fun next => (onEdge next).mark relLabel.encode)) (fitting.map marked) :=
      returns_marks marks
  have hland : Returns w (hop.rel.direction.nodeStep.run env (fitting.map marked))
      (fitting.map fun next => (marked next).carry (.vertex (landing hop next))) := by
    refine returns_nodeStep _ (fun next _ => ?_)
      (fun next hnext => hedge next (mem_filter.1 hnext).1) fun next _ => ?_
    · exact (foldl_mark marks _).1
    · exact (foldl_mark marks _).2.1
  have htests : Returns w (run env nodeTests
      (fitting.map fun next => (marked next).carry (.vertex (landing hop next)))) _ :=
    returns_nodeTests hnode hnodeLiteral fun _ _ => rfl
  rw [map_map]
  exact hedges.cons (hprops.append ((Returns.as relLabel).cons (hmarked.append
    (hland.cons (htests.append ((Returns.as nodeLabel).cons .nil))))))

lemma nodup_branches (h : (pairs.map Prod.fst).Nodup) :
    (branches g hop pairs).Pairwise fun a b => (a.1.1, a.2.1) ≠ (b.1.1, b.2.1) := by
  have hids : (g.edges.entries.map Prod.fst).Nodup := g.edges.increasing.imp Int64.ne_of_lt
  rw [List.Nodup, pairwise_map] at h hids
  refine pairwise_flatMap.2 ⟨fun pair _ => ?_, h.imp fun hne => ?_⟩
  · rw [pairwise_map]
    refine (hids.sublist filter_sublist).imp fun hne heq => ?_
    exact hne (Prod.mk.inj heq).2
  · intro a ha b hb heq
    obtain ⟨_, -, rfl⟩ := mem_map.1 ha
    obtain ⟨_, -, rfl⟩ := mem_map.1 hb
    exact hne (Prod.mk.inj heq).1

lemma label?_arrive {key : String}
    (hrel : relLabel.encode ≠ key) (hnode : nodeLabel.encode ≠ key)
    (hmarks : ∀ mark ∈ marks, mark.encode ≠ key) (next : (Trail × Traverser) × (Int64 × Edge)) :
    (arrive hop relLabel nodeLabel marks next).2.label? key = next.1.2.label? key := by
  rw [arrive, Traverser.label?_mark_of_ne hnode, Traverser.label?_carry,
    (foldl_mark marks _).2.2 key hmarks, Traverser.label?_mark_of_ne hrel]
  rfl

lemma allLabels_append (labels : Label × List (Label × Label)) (pair : Label × Label) :
    allLabels (labels.1, labels.2 ++ [pair]) = allLabels labels ++ [pair.1, pair.2] := by
  simp [allLabels]

lemma Traced.onward {labels : Label × List (Label × Label)} {S : Trail → Prop}
    (h : Traced labels S pairs)
    (hnodup : ((allLabels (labels.1, labels.2 ++ [(relLabel, nodeLabel)])).map Label.encode).Nodup)
    (hmarks : ∀ mark ∈ marks,
      mark.encode ∉ (allLabels (labels.1, labels.2 ++ [(relLabel, nodeLabel)])).map Label.encode) :
    Traced (labels.1, labels.2 ++ [(relLabel, nodeLabel)]) (Onward g hop S)
      ((ways g hop pairs).map (arrive hop relLabel nodeLabel marks)) where
  nodup := by
    rw [map_map, List.Nodup, pairwise_map]
    have hsublist : (ways g hop pairs).Sublist (branches g hop pairs) :=
      filter_sublist.trans filter_sublist
    refine ((nodup_branches h.nodup).sublist hsublist).imp fun hne heq => hne ?_
    obtain ⟨htrail, hhop⟩ := Trail.extend_inj.1 heq
    rw [htrail, (Prod.mk.inj hhop).1]
  mem trail := by
    simp only [map_map, mem_map, Function.comp_apply]
    constructor
    · rintro ⟨next, hnext, rfl⟩
      obtain ⟨hnext, hnode⟩ := mem_filter.1 hnext
      obtain ⟨hnext, hprops⟩ := mem_filter.1 hnext
      obtain ⟨hpair, hedge, hincident, htypes⟩ := mem_branches.1 hnext
      refine ⟨next.1.1, next.2.1, landing hop next, (h.mem _).1 (mem_map_of_mem hpair),
        ⟨⟨next.2.2, hedge, ?_, ?_⟩, hnode⟩, rfl⟩
      · rw [RelPattern.fits, htypes, hprops, Bool.and_self]
      · exact (Direction.joins_iff _ _ _ _).2 ⟨hincident, rfl⟩
    · rintro ⟨before, r, b, hbefore, ⟨⟨edge, hedge, hfits, hjoins⟩, hnode⟩, rfl⟩
      obtain ⟨pair, hpair, rfl⟩ := mem_map.1 ((h.mem before).2 hbefore)
      obtain ⟨hincident, rfl⟩ := (Direction.joins_iff _ _ _ _).1 hjoins
      rw [RelPattern.fits, Bool.and_eq_true] at hfits
      have hbranch : (pair, (r, edge)) ∈ branches g hop pairs :=
        mem_branches.2 ⟨hpair, hedge, hincident, hfits.1⟩
      exact ⟨_, mem_filter.2 ⟨mem_filter.2 ⟨hbranch, hfits.2⟩, hnode⟩, rfl⟩
  held := by
    rw [allLabels_append, map_append, nodup_append] at hnodup
    simp only [allLabels_append, map_append, mem_append, not_or] at hmarks
    obtain ⟨-, hnew, hold⟩ := hnodup
    -- What was held before is not hidden by the new labels.
    have hkeep (key : String) (hkey : key ∈ (allLabels labels).map Label.encode)
        (next : (Trail × Traverser) × (Int64 × Edge)) :
        (arrive hop relLabel nodeLabel marks next).2.label? key = next.1.2.label? key := by
      refine label?_arrive ?_ ?_ (fun mark hmark heq => (hmarks mark hmark).1 (heq ▸ hkey)) next
      · exact (hold key hkey _ (by simp)).symm
      · exact (hold key hkey _ (by simp)).symm
    have hdiffer : nodeLabel.encode ≠ relLabel.encode := by
      simp only [map_cons, map_nil, nodup_cons, mem_singleton] at hnew
      exact Ne.symm hnew.1
    refine forall_mem_map.2 fun next hnext => ?_
    have hpair : next.1 ∈ pairs := by
      exact (mem_branches.1 (mem_filter.1 (mem_filter.1 hnext).1).1).1
    have hheld := h.held next.1 hpair
    refine ⟨(hkeep _ (by simp [allLabels]) next).trans hheld.start, rel_append ?_ ?_⟩
    · refine ((forall₂_and_left _ _).2 ⟨fun pair hpair => hpair, hheld.hops⟩).imp ?_
      rintro pair hop' ⟨hpair, hrel, hnode⟩
      have hmem : pair.1 ∈ allLabels labels ∧ pair.2 ∈ allLabels labels := by
        simp only [allLabels, mem_cons, mem_flatMap]
        exact ⟨.inr ⟨pair, hpair, by simp⟩, .inr ⟨pair, hpair, by simp⟩⟩
      exact ⟨(hkeep _ (mem_map_of_mem hmem.1) next).trans hrel,
        (hkeep _ (mem_map_of_mem hmem.2) next).trans hnode⟩
    · refine .cons ⟨?_, ?_⟩ .nil
      · have hmarked : ∀ mark ∈ marks, mark.encode ≠ relLabel.encode := fun mark hmark heq =>
          (hmarks mark hmark).2 (by simp [heq])
        rw [arrive, Traverser.label?_mark_of_ne hdiffer, Traverser.label?_carry,
          (foldl_mark marks _).2.2 _ hmarked, Traverser.label?_mark_self]
        rfl
      · rw [arrive, Traverser.label?_mark_self]
        rfl
  obj := by
    refine forall_mem_map.2 fun next _ => ?_
    simp [arrive, Traverser.mark, Traverser.carry]

end Matching

end CypherGremlin
