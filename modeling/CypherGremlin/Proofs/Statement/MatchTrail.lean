import CypherGremlin.Proofs.Statement.Adding.Matching
import CypherGremlin.Proofs.Statement.Hop

/-!
# MATCH finds the trails

A match of one pattern with new variables gives one traverser for each trail of the pattern in the
graph.  Every element of such a pattern gets a label that none before it has (`Labelled`).  Running
the hops leads from the trails of the pattern's beginning to those of the whole pattern, by
induction on the hops (`CrossesAll.exists_returns`).  The filters at the end compare every two
relationships, and so keep the trails that pass no edge twice.
-/

namespace CypherGremlin

variable {draft draft' : Draft} {g : Graph} {hops : List Hop} {S : Trail → Prop} {steps : Traversal}
  {env : Env} {l : Label} {labels : Label × List (Label × Label)} {trail : Trail} {w : World}

open List Traversal

namespace Matching

/-! ## The labels of a pattern -/

/-- The label of an element has been given: it is a variable in scope that cannot be taken for a
token, or a number that is taken. -/
def Given (draft : Draft) : Label → Prop
  | .named v => Plain v ∧ draft.scope.binds v = true
  | .token t => ∃ n < draft.next, t = .unnamed n.toUInt32

lemma Given.clean (h : Given draft l) : l.Clean := by
  cases l with
  | named v => exact h.1
  | token t => exact trivial

lemma Given.encode_ne_token (h : Given draft l) {t : Token} (ht : ∀ n, t ≠ .unnamed n) :
    l.encode ≠ t.encode := by
  intro heq
  obtain rfl : l = .token t := Label.encode_inj h.clean (Label.clean_token t) heq
  obtain ⟨n, -, hn⟩ := h
  exact ht _ hn

lemma Given.mono (h : Given draft l)
    (hbinds : ∀ v, draft.scope.binds v = true → draft'.scope.binds v = true)
    (hnext : draft.next ≤ draft'.next) : Given draft' l := by
  cases l with
  | named v => exact ⟨h.1, hbinds v h.2⟩
  | token t =>
    obtain ⟨n, hn, rfl⟩ := h
    exact ⟨n, hn.trans_le hnext, rfl⟩

/-- Different labels, which have all been given. -/
structure Apart (draft : Draft) (ls : List Label) : Prop where
  nodup : ls.Nodup
  given : ∀ l ∈ ls, Given draft l

lemma Apart.nodup_encode {ls : List Label} (h : Apart draft ls) : (ls.map Label.encode).Nodup :=
  h.nodup.map_on fun l hl l' hl' heq =>
    Label.encode_inj (h.given l hl).clean (h.given l' hl').clean heq

lemma Apart.concat {ls : List Label} (h : Apart draft ls) (hold : ¬ Given draft l)
    (hl : Given draft' l)
    (hbinds : ∀ v, draft.scope.binds v = true → draft'.scope.binds v = true)
    (hnext : draft.next ≤ draft'.next) : Apart draft' (ls ++ [l]) := by
  refine ⟨nodup_append.2 ⟨h.nodup, nodup_singleton l,
    fun l' hl' => forall_mem_singleton.2 fun heq => ?_⟩,
    forall_mem_append.2 ⟨fun l' hl' => (h.given l' hl').mono hbinds hnext,
    forall_mem_singleton.2 hl⟩⟩
  exact hold (heq ▸ h.given l' hl')

/-! ## Lowering a pattern with new variables -/

/-- The variables are different and not in scope. -/
structure New (scope : Scope) (vars : List String) : Prop where
  nodup : vars.Nodup
  unbound : ∀ var ∈ vars, scope.binds var = false

/-- What is left is still new when an element has declared its variable. -/
lemma New.declare {rest : List String} {scope : Scope} {v : String} (h : New scope (v :: rest))
    (kind : VarKind)
    (nullable : Bool) : New (scope.declare v kind nullable) rest := by
  obtain ⟨hne, hnodup⟩ := nodup_cons.1 h.nodup
  refine ⟨hnodup, fun v' hv' => Bool.eq_false_iff.2 fun hbinds => ?_⟩
  rcases Scope.binds_declare.1 hbinds with rfl | hbound
  · exact hne hv'
  · exact Bool.eq_false_iff.1 (h.unbound v' (mem_cons_of_mem _ hv')) hbound

/-- An element has got a label that was not given before, and the variables that are left are still
new. -/
structure Labelled (var : Option String) (rest : List String) (draft : Draft) (l : Label)
    (draft' : Draft) : Prop where
  label : l = elementLabel draft.next var
  next : draft'.next = afterElement draft.next var
  new : New draft'.scope rest
  apart : ∀ ls, Apart draft ls → draft'.next ≤ UInt32.size → Apart draft' (ls ++ [l])

lemma Element.labelled {tests : Traversal} {rest : List String} {place : Place}
    {var : Option String} {new : List Label}
    (h : Element false draft place var tests l steps new draft')
    (hnew : New draft.scope (var.toList ++ rest)) :
    steps = place.meet tests l ∧ new = [l] ∧ Labelled var rest draft l draft' := by
  cases h with
  | known hvar hbound =>
    subst hvar
    exact absurd (Scope.binds_of_binding? hbound) (by simp [hnew.unbound _ mem_cons_self])
  | new _ hl =>
    refine ⟨rfl, rfl, ?_⟩
    cases hl with
    | number =>
      refine ⟨rfl, rfl, hnew, fun ls h hsize => h.concat ?_ ⟨_, Nat.lt_succ_self _, rfl⟩
        (fun _ hv => hv) (Nat.le_succ _)⟩
      rintro ⟨n, hn, heq⟩
      exact Label.taken_unnamed hn ⟨draft.next, le_rfl, hsize, .inl (congrArg Label.token heq.symm)⟩
    | @var v hplain =>
      refine ⟨rfl, rfl, hnew.declare _ _,
        fun ls h _ => h.concat ?_ ⟨hplain, Scope.binds_declare.2 (.inl rfl)⟩
        (fun _ hv => Scope.binds_declare.2 (.inr hv)) le_rfl⟩
      exact fun hgiven => absurd hgiven.2 (by simp [hnew.unbound v mem_cons_self])

lemma Element.next_le {tests : Traversal} {place : Place} {var : Option String} {new : List Label}
    (h : Element false draft place var tests l steps new draft') : draft.next ≤ draft'.next := by
  cases h with
  | known => exact le_rfl
  | new _ hl => cases hl <;> simp

lemma CrossesAll.next_le {matched : Matched} {path : Option String} {elements : List PathElement}
    {position : Nat} (h : CrossesAll false path position draft hops elements matched draft') :
    draft.next ≤ draft'.next := by
  induction h with
  | nil => exact le_rfl
  | cons hhop _ ih =>
    obtain ⟨-, -, hrel, -, hnode⟩ := hhop
    exact (hrel.next_le.trans hnode.next_le).trans ih

/-! ## Running the hops -/

lemma follows_cons {a : Int64} {hop : Hop} {more : List (Int64 × Int64)} :
    Follows g a (hop :: hops) more ↔
      ∃ r b rest, more = (r, b) :: rest ∧ Hop.Joins g hop a r b ∧ Follows g b hops rest := by
  constructor
  · rintro (_ | ⟨hjoins, hrest⟩)
    exact ⟨_, _, _, rfl, hjoins, hrest⟩
  · rintro ⟨r, b, rest, rfl, hjoins, hrest⟩
    exact .cons hjoins hrest

def OnwardAll (g : Graph) (hops : List Hop) (S : Trail → Prop) (trail : Trail) : Prop :=
  ∃ before more, S before ∧ Follows g before.last hops more ∧ trail = before.extend more

lemma onwardAll_nil : OnwardAll g [] S trail ↔ S trail := by
  constructor
  · rintro ⟨before, more, hbefore, hfollows, rfl⟩
    cases hfollows
    rwa [Trail.extend_nil]
  · intro h
    exact ⟨trail, [], h, .nil _, (Trail.extend_nil trail).symm⟩

lemma onwardAll_cons {hop : Hop} : OnwardAll g hops (Onward g hop S) trail ↔
    OnwardAll g (hop :: hops) S trail := by
  constructor
  · rintro ⟨_, more, ⟨before, r, b, hbefore, hjoins, rfl⟩, hfollows, rfl⟩
    rw [Trail.last_extend] at hfollows
    exact ⟨before, (r, b) :: more, hbefore, .cons hjoins hfollows, Trail.extend_extend _ _ _⟩
  · rintro ⟨before, more, hbefore, hfollows, rfl⟩
    obtain ⟨r, b, rest, rfl, hjoins, hrest⟩ := follows_cons.1 hfollows
    refine ⟨before.extend [(r, b)], rest, ⟨before, r, b, hbefore, hjoins, rfl⟩, ?_, ?_⟩
    · rwa [Trail.last_extend]
    · rw [Trail.extend_extend, singleton_append]

lemma Traced.congr {pairs : List (Trail × Traverser)} {S' : Trail → Prop}
    (h : Traced labels S pairs) (hS : ∀ trail, S trail ↔ S' trail) : Traced labels S' pairs :=
  { h with mem := fun trail => (h.mem trail).trans (hS trail) }

/-- The hops lead from the trails before them to those that have gone on along all of them. -/
lemma CrossesAll.exists_returns {pairs : List (Trail × Traverser)} {matched : Matched}
    {path : Option String} {elements : List PathElement} {position : Nat}
    (h : CrossesAll false path position draft hops elements matched draft')
    (hnew : New draft.scope (hops.flatMap fun hop => hop.rel.var.toList ++ hop.node.var.toList))
    (hlit : ∀ hop ∈ hops, ∀ property ∈ hop.rel.properties ++ hop.node.properties,
      ∃ l, property.2 = .literal l)
    (hsize : draft'.next ≤ UInt32.size) (htraced : Traced labels S pairs)
    (hapart : Apart draft (allLabels labels)) :
    matched.relationships = (hopLabels draft.next hops).map Prod.fst ∧
      Apart draft' (allLabels (labels.1, labels.2 ++ hopLabels draft.next hops)) ∧
      ∃ pairs', Returns w (run env matched.steps (pairs.map Prod.snd)) (pairs'.map Prod.snd) ∧
        Traced (labels.1, labels.2 ++ hopLabels draft.next hops)
        (OnwardAll w.graph hops S) pairs' := by
  -- Along the hops, labels stay apart and traversers hold what the trails have passed.
  induction h generalizing labels S pairs with
  | nil =>
    rw [hopLabels, append_nil]
    exact ⟨rfl, hapart, pairs, .nil, htraced.congr fun trail => onwardAll_nil.symm⟩
  | @cons position draft draft₁ _ hop rest _ _ _ _ hhop hhops ih =>
    rw [flatMap_cons, append_assoc] at hnew
    obtain ⟨hlit, hothers⟩ := forall_mem_cons.1 hlit
    obtain @⟨relTests, _, nodeTests, _, relLabel, nodeLabel, _, _, _, _, -, hrelTests, hrel,
      hnodeTests, hnode⟩ := hhop
    have hnext := hhops.next_le.trans hsize
    obtain ⟨rfl, rfl, hrelLabelled⟩ := hrel.labelled hnew
    have hrels := hrelLabelled.apart _ hapart (hnode.next_le.trans hnext)
    obtain ⟨rfl, -, hnodeLabelled⟩ := hnode.labelled hrelLabelled.new
    have hapart : Apart draft₁ (allLabels (labels.1, labels.2 ++ [(relLabel, nodeLabel)])) := by
      simpa [allLabels_append] using hnodeLabelled.apart _ hrels hnext
    have hlabels : hopLabels draft.next (hop :: rest) = [(relLabel, nodeLabel)] ++
        hopLabels draft₁.next rest := by
      rw [hopLabels, hrelLabelled.label, hnodeLabelled.label, hnodeLabelled.next, hrelLabelled.next]
      rfl
    let marks : List Label := path.toList.map fun path =>
      .token (.pathEdge (path ++ "." ++ toString position))
    -- Marks of a path are tokens, and cover no label given before.
    have honward : Traced (labels.1, labels.2 ++ [(relLabel, nodeLabel)]) (Onward w.graph hop S)
        ((ways w.graph hop pairs).map (arrive hop relLabel nodeLabel marks)) := by
      refine htraced.onward hapart.nodup_encode fun mark hmark hmem => ?_
      obtain ⟨name, -, rfl⟩ := mem_map.1 hmark
      obtain ⟨l, hl, heq⟩ := mem_map.1 hmem
      exact (hapart.given l hl).encode_ne_token (by simp) heq
    have hrun :
      Returns w (run env (hopSteps hop relTests nodeTests relLabel nodeLabel marks)
      (pairs.map Prod.snd)) _ :=
      returns_hopSteps hrelTests hnodeTests hlit htraced.obj
    obtain ⟨hrelationships, hall, pairs', hmore, hpairs⟩ :=
      ih hnodeLabelled.new hothers hsize honward hapart
    rw [hlabels, ← append_assoc]
    refine ⟨by simp [Matched.append, hrelationships], hall, pairs', ?_,
      hpairs.congr fun trail => onwardAll_cons⟩
    have hboth := hrun.append hmore
    cases path <;> simpa [Matched.append, hopSteps, marks, marking, Place.meet] using hboth

/-! ## Different relationships -/

def edgeAt (t : Traverser) (l : Label) : Option Int64 :=
  match t.label? l.encode with
  | some (.edge r) => some r
  | _ => none

section

/-- The labels hold edges, at a vertex and not hidden by a bucket. -/
structure HoldsEdges (w : World) (ls : List Label) (t : Traverser) : Prop where
  vertex : ∃ v, t.obj = .vertex v
  unbucketed : ∀ l ∈ ls, Table.get? w.buckets l.encode = none
  edge : ∀ l ∈ ls, ∃ r, t.label? l.encode = some (.edge r)

lemma HoldsEdges.tail {ls : List Label} {t : Traverser} (h : HoldsEdges w (l :: ls) t) :
    HoldsEdges w ls t where
  vertex := h.vertex
  unbucketed l' hl' := h.unbucketed l' (mem_cons_of_mem _ hl')
  edge l' hl' := h.edge l' (mem_cons_of_mem _ hl')

/-- A comparison of two labels keeps the traversers that hold different edges under them. -/
lemma returns_difference {ι : Type} {is : List ι} {f : ι → Traverser} {ls : List Label} {l' : Label}
    (h : ∀ i ∈ is, HoldsEdges w (l :: ls) (f i)) (hl' : l' ∈ ls) :
    Returns w ((Step.filter [.select [l], .whereLabel .neq l']).run env (is.map f))
      ((is.filter fun i => edgeAt (f i) l != edgeAt (f i) l').map f) := by
  let onEdge (i : ι) : Traverser := (f i).carry (.edge ((edgeAt (f i) l).getD 0))
  let kept (i : ι) : List Traverser :=
    ([i].filter fun i => edgeAt (f i) l != edgeAt (f i) l').map onEdge
  have hchild : ∀ i ∈ is, Returns w (run env [.select [l], .whereLabel .neq l'] [f i])
      (kept i) := by
    intro i hi
    obtain ⟨v, hv⟩ := (h i hi).vertex
    obtain ⟨r, hr⟩ := (h i hi).edge l mem_cons_self
    obtain ⟨r', hr'⟩ := (h i hi).edge l' (mem_cons_of_mem _ hl')
    -- At the edge of the first label, the second one is still held.
    have hsel : (f i).find? w.buckets l.encode = some (onEdge i).obj := by
      simp [Traverser.find?, hv, Obj.get?, (h i hi).unbucketed l mem_cons_self, hr, onEdge, edgeAt,
        Traverser.carry]
    have hfind : (onEdge i).find? w.buckets l'.encode = some (.edge r') := by
      have hlabel : (onEdge i).label? l'.encode = some (.edge r') := hr'
      have hentry : Obj.get? l'.encode (onEdge i).obj = none := rfl
      simp [Traverser.find?, hentry, hlabel, (h i hi).unbucketed l' (mem_cons_of_mem _ hl')]
    have hwhere : Returns w ((Step.whereLabel .neq l').run env ([i].map onEdge)) (kept i) := by
      rw [Step.run]
      refine .whereLabel (fun _ => .edge r') (forall_mem_singleton.2 hfind)
        (forall_mem_singleton.2 ?_)
      simp [onEdge, edgeAt, hr, hr', Traverser.carry, comparesWith, LabelComparison.operator,
        Obj.looselyEqual, Obj.number?, Obj.same, bne]
    exact (Returns.selectOne hsel).cons (hwhere.cons .nil)
  have hfilter :
    Returns w (Machine.filter (run env [.select [l], .whereLabel .neq l']) (is.map f)) _ :=
    .filter hchild
  have hempty (i : ι) : (!(kept i).isEmpty) = (edgeAt (f i) l != edgeAt (f i) l') := by
    cases hne : edgeAt (f i) l != edgeAt (f i) l' <;> simp [kept, hne]
  rw [Step.run]
  simpa only [hempty] using hfilter

/-- The comparisons keep the traversers whose labels all hold different edges. -/
lemma returns_differences {ι : Type} {is : List ι} {f : ι → Traverser} {ls : List Label}
    (h : ∀ i ∈ is, HoldsEdges w ls (f i)) : Returns w (run env (differences ls) (is.map f))
      ((is.filter fun i => decide (ls.map (edgeAt (f i))).Nodup).map f) := by
  induction ls generalizing is with
  | nil =>
    simp only [map_nil, nodup_nil, decide_true, filter_true]
    exact .nil
  | cons l rest ih =>
    have hfirst : Returns w (run env (rest.map fun l' => .filter [.select [l], .whereLabel .neq l'])
        (is.map f))
        ((is.filter fun i => rest.all fun l' => edgeAt (f i) l != edgeAt (f i) l').map f) := by
      refine .tests ?_ h
      rw [forall₂_map_right_iff, forall₂_same]
      exact fun l' hl' is his => returns_difference his hl'
    have hrest : Returns w (run env (differences rest)
        ((is.filter fun i => rest.all fun l' => edgeAt (f i) l != edgeAt (f i) l').map f)) _ :=
      ih fun i hi => (h i (mem_filter.1 hi).1).tail
    have hboth := hfirst.append hrest
    rw [filter_filter] at hboth
    have hnodup (i : ι) : decide ((l :: rest).map (edgeAt (f i))).Nodup =
        (decide (rest.map (edgeAt (f i))).Nodup && rest.all fun l' => edgeAt (f i) l != edgeAt
        (f i) l') := by
      rw [Bool.eq_iff_iff]
      simp only [map_cons, nodup_cons, mem_map, not_exists, not_and, decide_eq_true_eq,
        Bool.and_eq_true, all_eq_true, bne_iff_ne, ne_eq]
      exact ⟨fun ⟨ha, hb⟩ => ⟨hb, fun l' hl' heq => ha l' hl' heq.symm⟩,
        fun ⟨hb, ha⟩ => ⟨fun l' hl' heq => ha l' hl' heq.symm, hb⟩⟩
    simp only [differences, hnodup]
    exact hboth

end

/-! ## The whole pattern -/

/-- The trail is a vertex at which a pattern can start. -/
def Begins (g : Graph) (node : NodePattern) (trail : Trail) : Prop :=
  (g.vertices.get? trail.start).isSome ∧ NodePattern.fits g node trail.start = true ∧
    trail.hops = []

lemma isTrail_iff {p : Pattern} : Pattern.IsTrail g p trail ↔
    OnwardAll g p.hops (Begins g p.start) trail ∧ (trail.hops.map Prod.fst).Nodup := by
  constructor
  · rintro ⟨hin, hfits, hfollows, hnodup⟩
    exact ⟨⟨⟨trail.start, []⟩, trail.hops, ⟨hin, hfits, rfl⟩, hfollows, rfl⟩, hnodup⟩
  · rintro ⟨⟨⟨start, _⟩, more, ⟨hin, hfits, rfl⟩, hfollows, rfl⟩, hnodup⟩
    exact ⟨hin, hfits, hfollows, hnodup⟩

lemma exists_returns_start {tests : Traversal} {marks : List Label} {node : NodePattern}
    {label : Label} (htests : NodePattern.TestedBy node tests)
    (hlit : ∀ property ∈ node.properties, ∃ l, property.2 = .literal l)
    (hmarks : ∀ mark ∈ marks, mark.encode ≠ label.encode) :
    ∃ pairs, Returns w (run env (.V :: (tests ++ (.as label :: marks.map .as))) [.fresh .null])
        (pairs.map Prod.snd) ∧ Traced (label, []) (Begins w.graph node) pairs := by
  let found := w.graph.vertices.entries.map Prod.fst
  let fitting := found.filter fun id => NodePattern.fits w.graph node id
  let placed (id : Int64) : Traverser := (Traverser.fresh .null).carry (.vertex id)
  let marked (id : Int64) : Traverser :=
    marks.foldl (fun t mark => t.mark mark.encode) ((placed id).mark label.encode)
  have hfound : Returns w (Step.V.run env [.fresh .null]) (found.map placed) := returns_V _
  have hfitting : Returns w (run env tests (found.map placed)) (fitting.map placed) :=
    returns_nodeTests htests hlit fun _ _ => rfl
  have hmarked : Returns w (run env (.as label :: marks.map .as) (fitting.map placed))
      (fitting.map marked) :=
    (Returns.as label).cons (returns_marks marks)
  refine ⟨fitting.map fun id => (⟨id, []⟩, marked id), ?_, ?_⟩
  · rw [map_map]
    exact hfound.cons (hfitting.append hmarked)
  · have hids : found.Nodup := w.graph.vertices.increasing.imp Int64.ne_of_lt
    constructor
    · rw [map_map]
      exact (hids.filter _).map fun a b hab => (Trail.mk.inj hab).1
    · rintro ⟨start, hops⟩
      simp only [map_map, mem_map, Function.comp_apply, Trail.mk.injEq, fitting, found, mem_filter]
      constructor
      · rintro ⟨_, ⟨⟨entry, hentry, rfl⟩, hfits⟩, rfl, rfl⟩
        have hget : w.graph.vertices.get? entry.1 = some entry.2 := Store.get?_of_mem hentry
        exact ⟨by rw [hget]; rfl, hfits, rfl⟩
      · rintro ⟨hstart, hfits, rfl⟩
        obtain ⟨element, hget⟩ := Option.isSome_iff_exists.1 hstart
        exact ⟨start, ⟨⟨(start, element), Store.mem_iff_get?.2 hget, rfl⟩, hfits⟩, rfl, rfl⟩
    · refine forall_mem_map.2 fun id _ => ⟨?_, .nil⟩
      have hlabel : (marked id).label? label.encode = _ := (foldl_mark marks _).2.2 _ hmarks
      rw [hlabel, Traverser.label?_mark_self]
      rfl
    · exact forall_mem_map.2 fun id _ => (foldl_mark marks _).1

section

lemma edgesAt_eq {t : Traverser} (h : trail.HeldBy labels t) :
    (labels.2.map Prod.fst).map (edgeAt t) = (trail.hops.map Prod.fst).map some := by
  rw [map_map, map_map]
  refine forall₂_eq_eq_eq ▸ forall₂_map_left_iff.2 (forall₂_map_right_iff.2 (h.hops.imp ?_))
  rintro pair hop ⟨hrel, -⟩
  simp [edgeAt, hrel]

lemma holdsEdges {t : Traverser} (hw : w.Bucketed) (hlabels : ∀ l ∈ allLabels labels, Given draft l)
    (h : trail.HeldBy labels t) (hobj : t.obj = .vertex trail.last) :
    HoldsEdges w (labels.2.map Prod.fst) t where
  vertex := ⟨_, hobj⟩
  unbucketed := by
    refine forall_mem_map.2 fun pair hpair => Table.get?_eq_none fun hkey => ?_
    have hlabel : Given draft pair.1 :=
      hlabels _ (mem_cons_of_mem _ (mem_flatMap.2 ⟨pair, hpair, by simp⟩))
    rcases hw _ hkey with heq | heq
    · exact hlabel.encode_ne_token (by simp) heq
    · exact hlabel.encode_ne_token (by simp) heq
  edge := by
    refine forall_mem_map.2 fun pair hpair => ?_
    obtain ⟨hop, -, hrel, -⟩ := exists_mem_of_forall₂ h.hops.flip pair hpair
    exact ⟨hop.1, hrel⟩

lemma Traced.distinct {pairs : List (Trail × Traverser)} (h : Traced labels S pairs) :
    Traced labels (fun trail => S trail ∧ (trail.hops.map Prod.fst).Nodup)
      (pairs.filter fun pair => decide ((labels.2.map Prod.fst).map (edgeAt pair.2)).Nodup) where
  nodup := h.nodup.sublist (filter_sublist.map _)
  mem trail := by
    have hdist : ∀ pair ∈ pairs, ((labels.2.map Prod.fst).map (edgeAt pair.2)).Nodup ↔
        (pair.1.hops.map Prod.fst).Nodup := by
      intro pair hpair
      rw [edgesAt_eq (h.held pair hpair), nodup_map_iff (Option.some_injective _)]
    rw [← h.mem]
    simp only [mem_map, mem_filter, decide_eq_true_eq]
    constructor
    · rintro ⟨pair, ⟨hpair, hnodup⟩, rfl⟩
      exact ⟨⟨pair, hpair, rfl⟩, (hdist pair hpair).1 hnodup⟩
    · rintro ⟨⟨pair, hpair, rfl⟩, hnodup⟩
      exact ⟨pair, ⟨hpair, (hdist pair hpair).2 hnodup⟩, rfl⟩
  held pair hpair := h.held pair (mem_filter.1 hpair).1
  obj pair hpair := h.obj pair (mem_filter.1 hpair).1

end

/-- The first node, its marks and the hops, and then the comparisons of the relationships. -/
lemma Starts.exists_returns {matched : Matched} {p : Pattern} {path : Option String}
    {elements : List PathElement} {draft₁ : Draft} (marks : List Label)
    (hstart : Starts false draft p.start steps draft₁)
    (hhops : CrossesAll false path 1 draft₁ p.hops elements matched draft')
    (hnew : New draft.scope p.variables)
    (hmarks : ∀ mark ∈ marks, ∃ name, mark = .token (.pathStart name))
    (hlit : ∀ property ∈ p.properties, ∃ l, property.2 = .literal l)
    (hsize : draft'.next ≤ UInt32.size) (env : Env) (hw : w.Bucketed) :
    ∃ pairs rest, steps = .V :: rest ∧
      Returns w
      (run env (steps ++ marks.map .as ++ matched.steps ++ differences matched.relationships)
      [.fresh .null]) (pairs.map Prod.snd) ∧
      Traced (Pattern.labels draft.next p) (Pattern.IsTrail w.graph p) pairs := by
  obtain @⟨tests, _, label, _, _, htests, helem⟩ := hstart
  obtain ⟨rfl, -, hlabelled⟩ := helem.labelled hnew
  obtain ⟨hstartLiteral, hhopLiteral⟩ := forall_mem_append.1 hlit
  have hfirst : Apart draft₁ (allLabels (label, [])) :=
    hlabelled.apart [] ⟨nodup_nil, forall_mem_nil _⟩ (hhops.next_le.trans hsize)
  have hmarked : ∀ mark ∈ marks, mark.encode ≠ label.encode := by
    intro mark hmark heq
    obtain ⟨name, rfl⟩ := hmarks mark hmark
    exact (hfirst.given label mem_cons_self).encode_ne_token (by simp) heq.symm
  obtain ⟨starts, hstart, hstarts⟩ : ∃ pairs, Returns w (run env _ _) _ ∧ Traced _ _ pairs :=
    exists_returns_start htests hstartLiteral hmarked
  obtain ⟨hrels, hall, pairs, hrun, hpairs⟩ : _ ∧ _ ∧
    ∃ pairs, Returns w (run env matched.steps _) _ ∧ _ :=
    hhops.exists_returns hlabelled.new (forall_mem_flatMap.1 hhopLiteral) hsize hstarts hfirst
  have hlabels : Pattern.labels draft.next p = (label, [] ++ hopLabels draft₁.next p.hops) := by
    rw [Pattern.labels, hlabelled.label, hlabelled.next]
    rfl
  -- Edges are compared last, when every relationship has its label.
  have hdiffer :
    Returns w (run env (differences ((hopLabels draft₁.next p.hops).map Prod.fst))
    (pairs.map Prod.snd)) _ :=
    returns_differences fun pair hpair =>
      holdsEdges hw hall.given (hpairs.held pair hpair) (hpairs.obj pair hpair)
  rw [hlabels, hrels]
  refine ⟨_, _, rfl, ?_, hpairs.distinct.congr fun trail => isTrail_iff.symm⟩
  have hrun := (hstart.append hrun).append hdiffer
  simp only [Place.meet, cons_append, append_assoc, nil_append] at hrun ⊢
  exact hrun

/-- The steps of a match lead from nowhere to the trails of its pattern. -/
lemma exists_returns_matchSteps {p : Pattern}
    (hlower : matchSteps false [p] none draft = .ok (steps, draft'))
    (hnew : New draft.scope p.variables)
    (hlit : ∀ property ∈ p.properties, ∃ l, property.2 = .literal l)
    (hnumbers : draft'.next ≤ UInt32.size) (env : Env) (hw : w.Bucketed) :
    ∃ pairs rest, steps = .V :: rest ∧
      Returns w (run env steps [.fresh .null]) (pairs.map Prod.snd) ∧
      Traced (Pattern.labels draft.next p) (Pattern.IsTrail w.graph p) pairs := by
  have hall : All false draft [p] none steps draft' :=
    (deliversFrom_all false [p] none).result _ hlower
  obtain ⟨_ | ⟨hpat, _ | _⟩, _ | _⟩ := hall
  cases hpat with
  | unnamed _ hstart hhops =>
    obtain ⟨pairs, rest, rfl, hrun, htraced⟩ :=
      hstart.exists_returns [] hhops hnew (forall_mem_nil _) hlit hnumbers env hw
    exact ⟨pairs, _, rfl, by simpa [Matched.append] using hrun, htraced⟩
  | named _ _ _ hstart hhops =>
    obtain ⟨pairs, rest, rfl, hrun, htraced⟩ :=
      hstart.exists_returns [_] hhops hnew (forall_mem_singleton.2 ⟨_, rfl⟩) hlit hnumbers env hw
    exact ⟨pairs, _, rfl, by simpa [Matched.append] using hrun, htraced⟩

/-- A match of one pattern with new variables ends in one traverser for each trail of the pattern,
which holds the elements of the trail under the labels of the pattern.  Elements without a variable
are told apart by numbers of 32 bits. -/
theorem run_trails {p : Pattern} {draft draft' : Draft} {steps : Traversal}
    (hlower : matchSteps false [p] none draft = .ok (steps, draft')) (hvars : p.variables.Nodup)
    (hnew : ∀ var ∈ p.variables, draft.scope.binds var = false)
    (hliteral : ∀ property ∈ p.properties, ∃ l, property.2 = .literal l)
    (hnumbers : draft'.next ≤ UInt32.size) (env : Env) {w : World} (hw : w.Bucketed) :
    ∃ trails out, Bytecode.runProgram env steps.bytecode w = .ok (out, w) ∧
      List.Forall₂ (fun trail t => trail.HeldBy (Pattern.labels draft.next p) t) trails out ∧
      trails.Nodup ∧ (∀ trail, trail ∈ trails ↔ Pattern.IsTrail w.graph p trail) ∧
      (w.graph.Closed → ∀ trail ∈ trails, ∀ id ∈ trail.start :: trail.hops.map Prod.snd,
        (w.graph.vertices.get? id).isSome) := by
  obtain ⟨pairs, rest, rfl, hrun, htraced⟩ :=
    exists_returns_matchSteps hlower ⟨hvars, hnew⟩ hliteral hnumbers env hw
  refine ⟨pairs.map Prod.fst, pairs.map Prod.snd, ?_, ?_, htraced.nodup, htraced.mem,
    fun hclosed trail htrail => ?_⟩
  · rw [Bytecode.runProgram_bytecode]
    exact Returns.bind (.result rfl) hrun
  · rw [List.forall₂_map_left_iff, List.forall₂_map_right_iff, List.forall₂_same]
    exact htraced.held
  · exact ((htraced.mem trail).1 htrail).mem_graph hclosed

/-- Two people.  The first knows themself, and the second knows the first. -/
def company : Graph where
  vertices :=
    ⟨[(1, ⟨"Person", [("name", .string "ann")], by decide⟩), (2, .bare "Person")], by decide⟩
  edges := ⟨[(3, ⟨.bare "KNOWS", 1, 1⟩), (4, ⟨.bare "KNOWS", 2, 1⟩)], by decide⟩
  lastId := 4
  vertices_le := by decide
  edges_le := by decide

/-- From the person with the name, two relationships in any direction. -/
def rounds : Pattern where
  path := some "p"
  start :=
    { var := some "a", labels := ["Person"], properties := [("name", .literal (.string "ann"))] }
  hops := [⟨{ var := some "r", types := ["KNOWS"], direction := .both }, {}⟩,
    ⟨{ direction := .both }, { var := some "b", labels := ["Person"] }⟩]

/-- One can go round the loop and then to the other person, but not round the loop twice. -/
theorem run_trails_company :
    ∃ steps draft', matchSteps false [rounds] none {} = .ok (steps, draft') ∧
    ∃ trails out, Bytecode.runProgram (Env.standard []) (Traversal.bytecode steps) ⟨company, []⟩ =
      .ok (out, ⟨company, []⟩) ∧
      List.Forall₂ (fun trail t => trail.HeldBy (Pattern.labels 1 rounds) t) trails out ∧
      trails.Nodup ∧
      (⟨1, [(3, 1), (4, 2)]⟩ : Trail) ∈ trails ∧ (⟨1, [(3, 1), (3, 1)]⟩ : Trail) ∉ trails := by
  obtain ⟨⟨steps, draft'⟩, hlower, hnumbers⟩ : ∃ r, matchSteps false [rounds] none {} = .ok r ∧
    r.2.next ≤ UInt32.size :=
    ⟨_, rfl, by decide⟩
  obtain ⟨trails, out, hrun, hheld, hnodup, hmem, -⟩ :=
    run_trails hlower (by decide) (fun _ _ => rfl)
    (by simp [rounds, Pattern.properties]) hnumbers (Env.standard []) (w := ⟨company, []⟩)
    (by simp [World.Bucketed])
  refine ⟨steps, draft', hlower, trails, out, hrun, hheld, hnodup,
    (hmem _).2 ⟨rfl, by decide, ?_, by decide⟩, fun h => ?_⟩
  · refine .cons ⟨⟨_, rfl, by decide, .inl ⟨rfl, rfl⟩⟩, by decide⟩
      (.cons ⟨⟨_, rfl, by decide, .inr ⟨rfl, rfl⟩⟩, by decide⟩ (.nil _))
  · exact absurd ((hmem _).1 h).distinct (by decide)

end Matching

end CypherGremlin
