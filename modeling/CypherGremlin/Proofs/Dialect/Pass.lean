import CypherGremlin.Proofs.Dialect.Edits
import CypherGremlin.Proofs.Engine.Congruence
import CypherGremlin.Proofs.Token

/-!
# Passes keep the meaning

What becomes of a traversal by edits stands in for it (`Pass.Edits.refines`), and mentions of labels
are only thinned out (`Pass.Edits.thins`).

Most edits keep the run exactly as it is: they drop steps that do nothing, read properties by
another way, and use other names of text tests.  Two do not.  A traverser that selects what it has
just labelled forgets where its edge was reached from, and one that is not labelled lacks the label;
this does no harm where nothing reads it.
-/

namespace CypherGremlin

variable {env : Env} {before after : List Step} {spare : Label → Prop} {r t t' : Traversal}
  {ts : List Traverser} {s : Step} {w : World}

open List Machine Traversal

namespace Pass

/-! ## Mentions -/

lemma Edit.thins (h : Edit spare before s r after) :
    Thins (Traversal.mentions [s]) (Traversal.mentions r) := by
  cases h with
  | label | reselect =>
    exact .drop (by simp [mentions_cons, Step.mentions, Step.children, Mention.isLasting])
  | _ => exact .refl _

lemma Edits.thins (h : Edits spare before t t') :
    Thins (Traversal.mentions t) (Traversal.mentions t') := by
  induction h with
  | nil => exact .refl _
  | keep s _ ih => exact ih.cons s
  | edit hedit _ ih =>
    rw [← singleton_append, mentions_append, mentions_append]
    exact hedit.thins.append ih

def propertyValue? : Obj → Option Obj
  | .property _ _ v => some v
  | _ => none

lemma properties_value (keys : List String) (ts : List Traverser) :
    (properties keys ts >>= propertyValue) = Machine.values keys ts := by
  rw [properties, propertyValue, emitOne, Machine.values, emit_observe, emit_observe, emit_observe]
  refine (each_observe_bind (k := fun o => (propertyValue? o.obj).toList.map o.carry) ?_ ts).trans
    ?_
  · intro w t out hout o ho
    simp only [bind_eq_ok, pure_eq_ok] at hout
    obtain ⟨_, ⟨element, _, rfl⟩, rfl⟩ := hout
    simp only [map_map, mem_map] at ho
    obtain ⟨⟨k, v⟩, _, rfl⟩ := ho
    rfl
  · congr 1
    funext t
    congr 1
    funext w
    cases w.graph.element t.obj with
    | error halt => rfl
    | ok element =>
      change Except.ok _ = Except.ok _
      rw [map_map, map_map, flatMap_map]
      exact congrArg _ map_eq_flatMap.symm

lemma properties_hasKey (k : String) (ts : List Traverser) :
    (properties [k] ts >>= hasKey k) = properties [k] ts := by
  rw [properties, hasKey, emit_observe, keep_eq]
  refine (each_observe_bind (k := fun o => [o]) ?_ ts).trans ?_
  · intro w t out hout o ho
    simp only [bind_eq_ok, pure_eq_ok] at hout
    obtain ⟨_, ⟨element, _, rfl⟩, rfl⟩ := hout
    simp only [map_map, mem_map, Element.select, mem_filter] at ho
    obtain ⟨⟨k', v⟩, ⟨_, hk⟩, rfl⟩ := ho
    obtain rfl : k' = k := by simpa using hk
    simp [Traverser.carry, bind, Except.bind, pure, Except.pure]
  · simp

lemma test_standard (parameters : Parameters) {operator : String}
    (h : beginsWith "cypher" operator = true → Registry.standard.symbols.contains operator = true)
    (args : List (Argument Int64)) (obj : Obj) :
    (Env.standard parameters).test (.predicate operator args) obj = (Env.standard parameters).values
      args >>= (passes operator · obj) := by
  simp only [Env.test]
  cases hbegins : beginsWith "cypher" operator with
  | false => rfl
  | true =>
    have hrequire : (Env.standard parameters).require operator = .ok () := by
      simp only [Env.require, Env.standard, h hbegins, if_true]
    rw [if_pos rfl, hrequire]
    rfl

/-- A built-in test accepts what the custom test accepts. -/
lemma holds_nativePredicate (parameters : Parameters) (p : Predicate) :
    (nativePredicate p).holds (Env.standard parameters) = p.holds (Env.standard parameters) := by
  fun_cases nativePredicate p with
  | case1 p argument test htest =>
    have hcustom : Registry.standard.symbols.contains p.symbol = true := by cases p <;> decide
    have hnative : beginsWith "cypher" test.operator = false := by cases test <;> decide
    funext obj
    simp only [Predicate.holds, Predicate.argument, Predicate.operator, Predicate.operands]
    rw [test_standard parameters (by simp [hnative]), test_standard parameters fun _ => hcustom]
    refine congrArg _ (funext fun args => ?_)
    cases p <;> simp only [nativeTest?, Option.some.injEq, reduceCtorEq] at htest <;>
      subst htest <;> rfl
  | case2 => rfl
  | case3 => rfl

/-! ## Selecting what was just labelled -/

lemma ensures_isElement (hs : givesElement s = true) (ts : List Traverser) :
    Ensures Always (s.run env ts) fun out => ∀ t ∈ out, t.obj.isElement = true := by
  cases s with
  | V | E =>
    simp only [Step.run, Machine.V, Machine.E]
    refine .emit (Q := fun obj => obj.isElement = true)
      (fun _ => .observe fun w objs hobjs => ?_) ts
    rw [← Except.ok.inj hobjs]
    exact forall_mem_map.2 fun _ _ => rfl
  | addV label =>
    simp only [Step.run, addV]
    exact .emit (Q := fun obj => obj.isElement = true)
      (fun _ => (Ensures.trivial _).bind fun id _ => .pure (forall_mem_singleton.2 rfl)) ts
  | addE type source target =>
    simp only [Step.run, addE]
    refine .each (fun t => (Ensures.trivial _).bind fun a _ => (Ensures.trivial _).bind
      fun b _ => ?_) ts
    split
    · exact (Ensures.trivial _).bind fun id _ => .pure (forall_mem_singleton.2 rfl)
    · exact .throw
  | outE types | inE types | bothE types =>
    simp only [Step.run, outE, inE, bothE, edges]
    refine .each (fun t => .observe fun w out hout => ?_) ts
    split at hout
    · rw [← Except.ok.inj hout]
      exact forall_mem_map.2 fun _ _ => rfl
    · simp at hout
  | inV | outV =>
    simp only [Step.run, inV, outV, emitOne]
    refine .emit (Q := fun obj => obj.isElement = true)
      (fun _ => .observe fun w objs hobjs => ?_) ts
    simp only [bind_eq_ok, pure_eq_ok] at hobjs
    obtain ⟨_, ⟨edge, _, rfl⟩, rfl⟩ := hobjs
    exact forall_mem_singleton.2 rfl
  | otherV =>
    simp only [Step.run, otherV]
    refine .each (fun t => .observe fun w out hout => ?_) ts
    obtain ⟨edge, _, hout⟩ := bind_eq_ok.1 hout
    split at hout
    · rw [← pure_eq_ok.1 hout]
      exact forall_mem_singleton.2 rfl
    · simp at hout
  | hasLabel labels =>
    simp only [Step.run, hasLabel, keep_eq]
    refine .each (fun t => .observe fun w out hout => ?_) ts
    obtain ⟨kept, hkept, hout⟩ := bind_eq_ok.1 hout
    rw [← pure_eq_ok.1 hout]
    intro o ho
    cases hobj : t.obj with
    | vertex _ | edge _ => simp_all [Obj.isElement]
    | _ => simp_all [Graph.element?]
  | _ => simp [givesElement] at hs

/-- What is known of the stream after the given steps, from the last one on. -/
structure Settled (before : List Step) (ts : List Traverser) : Prop where
  element : ∀ e rest, before = e :: rest → givesElement e = true → ∀ t ∈ ts, t.obj.isElement = true
  labelled : ∀ l e rest, before = .as l :: e :: rest → givesElement e = true →
    ∀ t ∈ ts, t.obj.isElement = true ∧ t.label? l.encode = some t.obj

lemma Settled.run (h : Settled before ts) (s : Step) :
    Ensures Always (s.run env ts) (Settled (s :: before)) := by
  intro w hw out w' hrun
  refine ⟨hw, fun e rest heq he => ?_, fun l e rest heq he => ?_⟩
  · obtain ⟨rfl, rfl⟩ := List.cons.inj heq
    exact (ensures_isElement he ts w hw out w' hrun).2
  · obtain ⟨rfl, rfl⟩ := List.cons.inj heq
    obtain ⟨rfl, rfl⟩ := Prod.mk.inj (Run.pure_eq_ok.1 hrun)
    refine forall_mem_map.2 fun t ht => ⟨h.element e rest rfl he t ht, ?_⟩
    simp [Traverser.mark, Traverser.label?, Table.get?]

/-- A name that stands for the object at hand selects it. -/
lemma selectOne_self {k : String} (h : ∀ t ∈ ts, t.find? w.buckets k = some t.obj) :
    selectOne k ts w = .ok (ts.map fun t => t.carry t.obj, w) := by
  have hobserve : selectOne k =
      each fun t => Run.observe fun w => .ok ((t.find? w.buckets k).map t.carry).toList :=
    rfl
  rw [hobserve, each_observe]
  refine Run.observe_eq_ok.2 ⟨_, ?_, rfl⟩
  have hmap : (ts.mapM fun t => (.ok ((t.find? w.buckets k).map t.carry).toList : Except Halt _)) =
      .ok (ts.map fun t => [t.carry t.obj]) :=
    mapM_of_forall_eq_ok fun t ht => by simp [h t ht]
  rw [hmap]
  exact congrArg Except.ok map_eq_flatMap.symm

/-- What is selected is the object at hand if the label was just put on it. -/
lemma Settled.find? (h : Settled before ts) {l : Label} {e : Step}
    {rest : List Step} (heq : before = .as l :: e :: rest) (he : givesElement e = true)
    (hl : ¬ IsBucketName l.encode) (hw : w.Bucketed) :
    ∀ t ∈ ts, t.find? w.buckets l.encode = some t.obj := by
  intro t ht
  obtain ⟨helem, hlabel⟩ := h.labelled l e rest heq he t ht
  have hentry : t.obj.get? l.encode = none := by
    cases hobj : t.obj <;> simp_all [Obj.isElement, Obj.get?]
  have hbucket : Table.get? w.buckets l.encode = none := Table.get?_eq_none fun hmem =>
    hl (hw _ hmem)
  simp [Traverser.find?, hentry, hbucket, hlabel]

/-- Most edits keep the run exactly as it is. -/
lemma Edit.run_cases (parameters : Parameters) (h : Edit spare before s r after) :
    run (Env.standard parameters) r = s.run (Env.standard parameters) ∧ after = [] ∨
      (∃ l, spare l ∧ s = .as l ∧ r = [] ∧ after = []) ∨
      ∃ l e rest, s = .select [l] ∧ r = [] ∧ after = before ∧ before = .as l :: e :: rest ∧
      givesElement e = true := by
  cases h with
  | label hl => exact .inr (.inl ⟨_, hl, rfl, rfl, rfl⟩)
  | reselect heq he => exact .inr (.inr ⟨_, _, _, rfl, rfl, rfl, heq, he⟩)
  | identity | barrier => exact .inl ⟨rfl, rfl⟩
  | value key =>
    refine .inl ⟨funext fun ts => ?_, rfl⟩
    have htail : run (Env.standard parameters) [.hasKey key, .value] = fun out =>
        hasKey key out >>= propertyValue := by
      funext out
      rw [run_cons, run_singleton]
      rfl
    rw [run_cons, htail]
    change (properties [key] ts >>= fun out => hasKey key out >>= propertyValue) = Machine.values
      [key] ts
    rw [← bind_assoc, properties_hasKey, properties_value]
  | values keys =>
    refine .inl ⟨funext fun ts => ?_, rfl⟩
    rw [run_cons, run_singleton]
    exact properties_value keys ts
  | is hp | has key hp =>
    exact .inl ⟨by simp only [run_singleton, Step.run, holds_nativePredicate], rfl⟩

/-- What becomes of a traversal stands in for it, where nothing reads the labels that are dropped.
-/
theorem Edits.refines (parameters : Parameters) {K : String → Prop} (h : Edits spare before t t')
    (ht : Traversal.Allowed K t) (hspare : ∀ l, .put l ∈ Traversal.mentions t → spare l →
      ¬ K l.encode)
    (hbefore : ∀ l rest, before = .as l :: rest → ¬ IsBucketName l.encode)
    {ts' : List Traverser} (hts : AgreeAll K ts ts') (hsettled : Settled before ts) :
    Refines World.Bucketed (AgreeAll K) (run (Env.standard parameters) t ts)
    (run (Env.standard parameters) t' ts') := by
  induction h generalizing ts ts' with
  | nil => exact .pure hts
  | @keep before s a b _ ih =>
    obtain ⟨hmentions, -, hrest⟩ := ht.cons
    have hspare' : ∀ l, .put l ∈ Traversal.mentions a → spare l → ¬ K l.encode := fun l hl =>
      hspare l (by simp [mentions_cons, hl])
    rw [run_cons, run_cons]
    intro w hw out w' hrun
    obtain ⟨out₁, w₁, hstep, hrun⟩ := stateT_bind_eq_ok.1 hrun
    obtain ⟨hw₁, out₁', hstep', hout₁⟩ := Step.simulates_self ht.head ts ts' hts w hw out₁ w₁ hstep
    have hput : ∀ l rest, s :: before = .as l :: rest → ¬ IsBucketName l.encode := by
      intro l rest heq
      obtain ⟨rfl, -⟩ := List.cons.inj heq
      exact hmentions (.put l) (by simp [Step.mentions])
    obtain ⟨hw', out', hrun', hout⟩ :=
      ih hrest hspare' hput hout₁ (hsettled.run s w trivial out₁ w₁ hstep).2 w₁ hw₁ out w' hrun
    exact ⟨hw', out', stateT_bind_eq_ok.2 ⟨out₁', w₁, hstep', hrun'⟩, hout⟩
  | @edit before after s r a b hedit _ ih =>
    obtain ⟨-, -, hrest⟩ := ht.cons
    have hspare' : ∀ l, .put l ∈ Traversal.mentions a → spare l → ¬ K l.encode := fun l hl =>
      hspare l (by simp [mentions_cons, hl])
    rw [run_cons, run_append]
    rcases hedit.run_cases parameters with ⟨hsame, rfl⟩ | ⟨l, hl, rfl, rfl, rfl⟩ | ⟨l, e, rest, rfl,
      rfl, rfl, heq, he⟩
    · rw [hsame]
      refine (Step.simulates_self ht.head ts ts' hts).bind fun out out' hout => ?_
      exact ih hrest hspare' (by simp) hout ⟨by simp, by simp⟩
    · have hl : ¬ K l.encode := hspare l (by simp [mentions_cons, Step.mentions]) hl
      have hmark : AgreeAll K (ts.map (·.mark l.encode)) ts' :=
        forall₂_map_left_iff.2 (hts.imp fun _ _ h => h.of_mark hl)
      exact ih hrest hspare' (by simp) hmark ⟨by simp, by simp⟩
    · -- Selecting changes nothing but that the origin is forgotten.
      intro w hw out w' hrun
      obtain ⟨out₁, w₁, hstep, hrun⟩ := stateT_bind_eq_ok.1 hrun
      have hself := selectOne_self (hsettled.find? heq he (hbefore l _ heq) hw)
      obtain ⟨rfl, rfl⟩ := Prod.mk.inj (Except.ok.inj (hself.symm.trans hstep))
      refine ih hrest hspare' hbefore ?_ ⟨?_, ?_⟩ w hw out w' hrun
      · exact forall₂_map_left_iff.2 (hts.imp fun t t' h => ⟨h.obj, h.label, .inl rfl⟩)
      · intro e rest heq he
        exact forall_mem_map.2 (hsettled.element e rest heq he)
      · intro l e rest heq he
        exact forall_mem_map.2 (hsettled.labelled l e rest heq he)

end Pass

end CypherGremlin
