import CypherGremlin.Proofs.Engine.Simulation
import CypherGremlin.Proofs.Traversal.Mention

/-!
# Changing all traversals of a program

Every step stands in for itself where it reads only certain labels and keeps the invariant of worlds
(`Step.Respects`), and so does a traversal of such steps: `Traversal.simulates_self`.

A change of single traversals that runs cannot tell from the original can be made to all traversals
of a program: `Traversal.simulates_mapBottomUp`.  It needs to know that only certain labels are read
and that only buckets of deletions are filled; `Mention.Allowed` says what a step may do with a
label.

`Traversal.execute_of_simulates` is what a simulation is good for.  A program that stands in for
another one gives the same rows and leaves the same graph.
-/

namespace CypherGremlin

variable {s : Step} {t rest t' : Traversal} {f : Traversal → Traversal}

open List Machine Step Traversal

variable {env : Env} {I : World → Prop} {K : String → Prop}

/-! ## Steps that keep an invariant -/

def Step.changesGraph : Step → Bool
  | .addV _ | .addE _ _ _ | .property _ _ | .propertyFrom _ _ | .drop => true
  | _ => false

/-- What is read is in `K`. -/
def Mention.ReadsIn (K : String → Prop) : Mention → Prop
  | .read l | .compared l | .keyed l => K l.encode
  | .put _ | .filled _ => True

/-- The step reads only the given labels, and what it does itself to the world keeps the invariant.
-/
structure Step.Respects (I : World → Prop) (K : String → Prop) (s : Step) : Prop where
  reads : ∀ m ∈ s.mentions, m.ReadsIn K
  graph : s.changesGraph = true → IgnoresGraph I
  fills : ∀ l ∈ s.fills, AllowsFill I l.encode

lemma Traversal.simulates_runAll {ts : List Traversal}
    (h : ∀ t ∈ ts, Simulates I K (run env t) (run env (mapBottomUp f t))) :
    List.Forall₂ (Simulates I K) (runAll env ts) (runAll env (mapInsideAll f ts)) := by
  rw [runAll_eq_map, runAll_eq_map, mapInsideAll_eq, map_map]
  exact forall₂_map_left_iff.2 (forall₂_map_right_iff.2 (forall₂_same.2 h))

lemma Step.simulates_mapInside (hs : s.Respects I K)
    (h : ∀ t ∈ s.children, Simulates I K (Traversal.run env t)
      (Traversal.run env (mapBottomUp f t))) :
    Simulates I K (s.run env) ((s.mapInside f).run env) := by
  -- What the step respects is needed where it reads labels, fills buckets or changes the graph.
  cases s with
  | V => exact .V
  | E => exact .E
  | addV label => exact .addV (hs.graph rfl) label
  | addE type source target =>
    exact .addE (hs.graph rfl) type (hs.reads (.read source) (by simp [Step.mentions]))
      (hs.reads (.read target) (by simp [Step.mentions]))
  | property k v => exact .property (hs.graph rfl) k fun _ _ _ => .result_self _
  | propertyFrom k t =>
    exact .property (hs.graph rfl) k fun _ _ ht => (h t (by simp [children])).value ht "property"
  | drop => exact .drop (hs.graph rfl)
  | outE types => exact .outE types
  | inE types => exact .inE types
  | bothE types => exact .bothE types
  | inV | outV | id | label | valueMap _ | key | value | apply _ =>
    simp only [mapInside, run, propertyValue]
    exact .emitOne _
  | otherV => exact .otherV
  | has _ _ | hasLabel _ | hasNot _ | hasKey _ | is _ =>
    simp only [mapInside, run]
    exact .keep _
  | filter t => exact (h t (by simp [children])).filter
  | whereLabel c l => exact .whereLabel _ (hs.reads (.compared l) (by simp [Step.mentions]))
  | and ts => exact .and (simulates_runAll h)
  | or ts => exact .or (simulates_runAll h)
  | not t => exact (h t (by simp [children])).not
  | as l => exact .as _
  | select labels =>
    refine .select fun k hk => ?_
    obtain ⟨l, hl, rfl⟩ := mem_map.1 hk
    exact hs.reads (.read l) (mem_map_of_mem hl)
  | selectKey l => exact .selectOne (hs.reads (.keyed l) (by simp [Step.mentions]))
  | selectColumn column =>
    cases column <;>
      (simp only [mapInside, run]
       exact .emitOne _)
  | choose c yes no =>
    cases c with
    | predicate p =>
      refine .choose (fun t t' ht => ?_) (h yes (by simp [children])) (h no (by simp [children]))
      simp only [Condition.mapInside, Condition.run, ht.obj]
      exact .result_self _
    | traversal t =>
      exact .choose (fun _ _ ht => (h t (by simp [children])).produces ht)
        (h yes (by simp [children])) (h no (by simp [children]))
  | coalesce ts => exact .coalesce (simulates_runAll h)
  | union ts => exact .union (simulates_runAll h)
  | constant v => exact .constant _
  | inject vs => exact .inject _
  | values keys | properties keys =>
    simp only [mapInside, run]
    exact .emit fun _ => .observe_self _
  | project entries =>
    refine .project ?_
    simp only [runEntries_eq_map, mapInsideEntries_eq, map_map]
    refine forall₂_map_left_iff.2 (forall₂_map_right_iff.2 (forall₂_same.2 ?_))
    exact fun entry hentry => ⟨rfl, h _ (mem_map_of_mem hentry)⟩
  | order keys =>
    refine .order ?_
    simp only [runKeys_eq_map, mapInsideKeys_eq, map_map]
    refine forall₂_map_left_iff.2 (forall₂_map_right_iff.2 (forall₂_same.2 ?_))
    exact fun key hkey => ⟨h _ (mem_map_of_mem hkey), rfl⟩
  | group k v => exact .group (h k (by simp [children])) (h v (by simp [children]))
  | dedup => exact .dedup
  | count scope =>
    cases scope <;> simp only [mapInside, run, countLocal]
    · exact .gather _
    · exact .emitOne _
  | fold | sum | mean | min | max | cap _ =>
    simp only [mapInside, run, reduce]
    exact .gather _
  | unfold => exact .unfold
  | aggregate l => exact .aggregate (hs.fills l (by simp [Step.fills]))
  | limit n => exact .limit _
  | skip n => exact .skip _
  | range low high => exact .range _ _
  | barrier | identity => exact .identity
  | sideEffect t => exact (h t (by simp [children])).sideEffect
  | map t => exact (h t (by simp [children])).map
  | flatMap t => exact (h t (by simp [children])).flatMap

/-- A traversal of steps that keep the invariant stands in for itself. -/
lemma Traversal.simulates_self (h : ∀ s ∈ walk t, s.Respects I K) :
    Simulates I K (run env t) (run env t) := by
  induction t using inductChildren with
  | nil => exact .identity
  | cons s rest hchild hrest =>
    obtain ⟨hs, hinner, hafter⟩ := forall_mem_walk_cons.1 h
    have hstep : Simulates I K (s.run env) ((s.mapInside fun t => t).run env) :=
      Step.simulates_mapInside hs fun t' ht' => by
        simpa only [mapBottomUp, mapInside_id] using hchild t' ht' (hinner t' ht')
    have hid : (s.mapInside fun t => t) = s := mapInside_eq_self fun t' _ => mapInside_id t'
    rw [hid] at hstep
    exact .comp hstep (hrest hafter)

/-! ## What may be done with labels -/

/-- What may be done with labels: those in `K` can be read, buckets of deletions can be filled, and
no label is named like one of these. -/
def Mention.Allowed (K : String → Prop) : Mention → Prop
  | .put l => ¬ IsBucketName l.encode
  | .read l | .compared l | .keyed l => K l.encode
  | .filled l => IsBucketName l.encode

lemma Step.mem_fills {l : Label} : l ∈ s.fills ↔ Mention.filled l ∈ s.mentions := by
  cases s <;> simp [Step.fills, Step.mentions]

lemma Step.respects (h : ∀ m ∈ s.mentions, m.Allowed K) : s.Respects World.Bucketed K where
  reads m hm := by
    have := h m hm
    cases m <;> first | exact this | exact trivial
  graph _ _ _ hw := hw
  fills l hl := .allowsFill (h _ (mem_fills.1 hl))

/-- A traversal whose mentions of labels are all allowed. -/
def Traversal.Allowed (K : String → Prop) (t : Traversal) : Prop := ∀ m ∈ mentions t, m.Allowed K

lemma Traversal.Allowed.cons (h : Traversal.Allowed K (s :: rest)) :
    (∀ m ∈ s.mentions, m.Allowed K) ∧ (∀ t ∈ s.children, Traversal.Allowed K t) ∧
      Traversal.Allowed K rest := by
  simp only [Traversal.Allowed, mentions_cons, forall_mem_append, mem_flatMap] at h
  exact ⟨h.1, fun t ht m hm => h.2.1 m ⟨t, ht, hm⟩, h.2.2⟩

lemma Traversal.Allowed.head (h : Traversal.Allowed K (s :: rest)) : Traversal.Allowed K [s] := by
  intro m hm
  refine h m ?_
  rw [← singleton_append, mentions_append]
  exact mem_append_left _ hm

lemma Traversal.Allowed.respects (h : Traversal.Allowed K t) :
    ∀ s ∈ walk t, s.Respects World.Bucketed K :=
  fun s hs => Step.respects fun m hm => h m (mem_flatMap.2 ⟨s, hs, hm⟩)

lemma Step.simulates_self (hs : Traversal.Allowed K [s]) :
    Simulates World.Bucketed K (s.run env) (s.run env) :=
  run_singleton env s ▸ Traversal.simulates_self hs.respects

lemma Traversal.Allowed.of_subset (h : Traversal.Allowed K t)
    (hsub : mentions t' ⊆ mentions t) : Traversal.Allowed K t' :=
  fun m hm => h m (hsub hm)

lemma Traversal.simulates_mapInside {program : Traversal} (hallowed : Traversal.Allowed K program)
    (hthins : ∀ t, Thins (mentions t) (mentions (f t)))
    (hf : ∀ t, mentions t ⊆ mentions program →
      Simulates World.Bucketed K (run env t) (run env (f t)))
    (t : Traversal) (ht : mentions t ⊆ mentions program) :
    Simulates World.Bucketed K (run env t) (run env (mapInside f t)) := by
  induction t using inductChildren with
  | nil => exact .identity
  | cons s rest hchild hrest =>
    rw [mentions_cons, append_subset, append_subset] at ht
    have hinner : ∀ t' ∈ s.children, mentions t' ⊆ mentions program :=
      fun t' ht' m hm => ht.2.1 (mem_flatMap.2 ⟨t', ht', hm⟩)
    refine .comp (Step.simulates_mapInside (Step.respects fun m hm => hallowed m (ht.1 hm))
      fun t' ht' => ?_) (hrest ht.2.2)
    have hinside := List.Subset.trans (thins_mapInside hthins t').subset (hinner t' ht')
    exact (hchild t' ht' (hinner t' ht')).trans (hf _ hinside)

theorem Traversal.simulates_mapBottomUp
    (ht : Traversal.Allowed K t) (hthins : ∀ t, Thins (mentions t) (mentions (f t)))
    (hf : ∀ t', mentions t' ⊆ mentions t → Simulates World.Bucketed K (run env t')
      (run env (f t'))) :
    Simulates World.Bucketed K (run env t) (run env (mapBottomUp f t)) :=
  (simulates_mapInside ht hthins hf t (List.Subset.refl _)).trans
    (hf _ (thins_mapInside hthins t).subset)

lemma Traversal.buckets_eq (t : Traversal) :
    buckets t = ((mentions t).filterMap Mention.bucket?).map Label.encode := by
  have hfills : Step.fills = fun s => s.mentions.filterMap Mention.bucket? := by
    funext s
    cases s <;> simp [Step.fills, Step.mentions, Mention.bucket?, filterMap_map]
  simp only [buckets, mentions, collect, hfills, filterMap_flatMap]

lemma Traversal.Allowed.bucketed_start (h : Traversal.Allowed K t) (graph : Graph) :
    (World.start graph (buckets t)).Bucketed := by
  intro key hkey
  simp only [World.start, Table.mem_keys_ofEntries, buckets_eq, map_map, mem_map,
    mem_filterMap] at hkey
  obtain ⟨l, ⟨m, hm, hl⟩, rfl⟩ := hkey
  cases m with
  | filled l' =>
    obtain rfl : l' = l := Option.some.inj hl
    exact h _ hm
  | _ => simp [Mention.bucket?] at hl

lemma Step.isStart_of_seed {seed : List Traverser} (h : s.seed = .ok seed) : s.isStart = true := by
  cases s <;> first | rfl | simp [Step.seed] at h

/-- A program gives what another one gives if it stands in for it, fills the same buckets and starts
alike. -/
theorem Traversal.execute_of_simulates (hallowed : Traversal.Allowed K t)
    (hthins : Thins (mentions t) (mentions t'))
    (hstart : ∀ s rest, t = s :: rest → s.isStart = true → ∃ rest', t' = s :: rest')
    (hsim : Simulates World.Bucketed K (run env t) (run env t')) {graph : Graph}
    {r : List RawRow × Graph} (h : execute env graph t = .ok r) : execute env graph t' = .ok r := by
  have hbuckets : buckets t' = buckets t := by
    rw [buckets_eq, buckets_eq, hthins.filterMap_bucket?]
  obtain ⟨⟨ts, w⟩, hrun, h⟩ := bind_eq_ok.1 h
  obtain ⟨rows, hrows, h⟩ := bind_eq_ok.1 h
  -- The same first step starts from the same stream.
  have hrun' : ∃ ts', runProgram env t' (World.start graph (buckets t')) = .ok (ts', w) ∧
      AgreeAll K ts ts' := by
    cases t with
    | nil => exact absurd hrun Run.throw_ne_ok
    | cons s rest =>
      obtain ⟨_, _, hresult, hrun⟩ := stateT_bind_eq_ok.1 hrun
      obtain ⟨seed, hseed, heq⟩ := Run.observe_eq_ok.1 hresult
      obtain ⟨rfl, rfl⟩ := Prod.mk.inj heq
      obtain ⟨rest', rfl⟩ := hstart s rest rfl (isStart_of_seed hseed)
      obtain ⟨-, ts', hrun', hts⟩ := hsim _ _ (.refl _) _ (hallowed.bucketed_start graph) ts w hrun
      refine ⟨ts', stateT_bind_eq_ok.2 ⟨_, _, Run.observe_eq_ok.2 ⟨_, hseed, rfl⟩, ?_⟩, hts⟩
      rwa [hbuckets]
  obtain ⟨ts', hrun', hts⟩ := hrun'
  refine bind_eq_ok.2 ⟨(ts', w), hrun', bind_eq_ok.2 ⟨rows, ?_, h⟩⟩
  have hmap (ts : List Traverser) : (ts.mapM fun t => w.graph.rawRow t.obj) =
      (ts.map Traverser.obj).mapM w.graph.rawRow := by rw [mapM_map]; rfl
  rwa [hmap, hts.objs_eq, ← hmap]

end CypherGremlin
