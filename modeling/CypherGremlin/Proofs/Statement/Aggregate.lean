import CypherGremlin.Proofs.Statement.Grouping

/-!
# The steps of a column

Two kinds of steps make the columns of a projection with aggregates.  An aggregate takes its
argument out of the list of the rows of a group, drops nulls and perhaps repetitions, and reduces
what is left (`returns_counted`, `returnsFirst_aggregated`).  A key that is handed back gets the tag
of its kind, except for null (`returnsFirst_keyTag`).
-/

namespace CypherGremlin

variable {w : World} {env : Env} {t : Traverser} {obj o : Obj}

open List Traversal

/-! ## Maps and nulls -/

lemma Obj.get?_map {α : Type} {as : List α} {name : α → String} {v : α → Obj}
    (hnodup : (as.map name).Nodup) {a : α} (ha : a ∈ as) :
    Obj.get? (name a) (.map (as.map fun a => (.string (name a), v a))) = some (v a) := by
  induction as with
  | nil => simp at ha
  | cons b rest ih =>
    obtain ⟨hb, hrest⟩ := nodup_cons.1 hnodup
    rcases mem_cons.1 ha with rfl | ha
    · simp [Obj.get?]
    · have hne : name b ≠ name a := fun heq => hb (heq ▸ mem_map_of_mem ha)
      simpa [Obj.get?, hne] using ih hrest ha

lemma Obj.eq_cypherNull (h : obj.isNull = true) : obj = .cypherNull := by
  cases obj with
  | string s => exact congrArg Obj.string (eq_of_beq h)
  | _ => cases h

lemma Predicate.holds_neq_null (obj : Obj) :
    (Predicate.neq .null).holds env obj = .ok (!obj.isNull) := by
  have hnull : obj.looselyEqual .cypherNull = obj.isNull := by
    cases obj <;> rfl
  rw [← hnull]
  exact holds_neq rfl obj

namespace Projecting

lemma distinct_carry (objs : List Obj) :
    Machine.distinct [] (objs.map t.carry) = (firstsOf objs).map t.carry := by
  rw [Machine.distinct_eq]
  simp only [any_nil, Bool.not_false, filter_true]
  rw [groupsBy_map, firstsOf, map_map, map_map]
  rfl

section

variable {ρ : Type} {rows : List ρ}

lemma returns_counted {content : ρ → Obj} {v : ρ → Obj} {l : Label}
    (ht : t.obj = .list (rows.map content))
    (hv : ∀ row ∈ rows, Obj.get? l.encode (content row) = some (v row)) (distinct : Bool) :
    Returns w (run env ([.unfold, .selectKey l, .notNull] ++ if distinct then [.dedup] else []) [t])
      ((counted distinct (rows.map v)).map t.carry) := by
  have hunfold :
    Returns w (Step.unfold.run env [t]) (rows.map fun row => t.carry (content row)) := by
    have hitems : Returns w (Machine.unfold [t]) _ := .unfold_list ht
    rwa [map_map] at hitems
  have hsel : Returns w ((Step.selectKey l).run env (rows.map fun row => t.carry (content row)))
      (rows.map fun row => t.carry (v row)) := by
    refine Returns.selectOnes fun row hrow => ?_
    rw [Traverser.find?, show (t.carry (content row)).obj = content row from rfl, hv row hrow]
    rfl
  have hpresent : Returns w (Step.notNull.run env (rows.map fun row => t.carry (v row)))
      (((rows.map v).filter (!·.isNull)).map t.carry) := by
    have hkeep :
      Returns w (Machine.is ((Predicate.neq .null).holds env) (rows.map fun row => t.carry (v row)))
        _ :=
      .keep fun row _ => Predicate.holds_neq_null (v row)
    rw [filter_map, map_map]
    exact hkeep
  have hthree := hunfold.cons (hsel.cons (hpresent.cons .nil))
  cases distinct with
  | false => exact hthree
  | true =>
    have hdedup (objs : List Obj) : Returns w (Step.dedup.run env (objs.map t.carry))
        ((firstsOf objs).map t.carry) := by
      rw [← distinct_carry]
      exact .pure _
    exact hthree.append ((hdedup _).cons .nil)

lemma returnsFirst_aggregated {f : Aggregate} {values : Traversal} {vs : List Obj}
    (hvals : Returns w (run env values [t]) (vs.map t.carry)) (hf : f.of vs = .ok o) :
    ReturnsFirst w (run env (aggregated f values) [t]) o := by
  have hobjs : (vs.map t.carry).map Traverser.obj = vs := by
    rw [map_map]
    exact map_id vs
  -- No values have no sum, average or extreme, and then the default stands in.
  have hreduce (r : Reduction) (v : Value) (default : Obj) (hv : v.eval env = .ok default)
      (s : Step) (hs : s.run env = Machine.reduce r) (hr : r.orElse default vs = .ok o) :
      ReturnsFirst w (run env (orElse (values ++ [s]) v) [t]) o := by
    have hfirst (objs : List Obj) (hlist : r.ofList vs = .ok objs) :
        Returns w (run env (values ++ [s]) [t]) (objs.map .fresh) := by
      refine hvals.append (.cons ?_ .nil)
      rw [hs]
      exact .gather objs (by rw [hobjs, hlist])
    have hdefault : Returns w (run env [.constant v] [t]) [t.carry default] :=
      .cons (.constant hv) .nil
    rw [orElse, run_singleton]
    cases vs with
    | nil =>
      obtain rfl : default = o := Except.ok.inj hr
      exact ⟨_, [], .coalesce_second (hfirst [] rfl) hdefault (by simp), rfl⟩
    | cons first rest =>
      have hlist : r.ofList (first :: rest) = .ok [o] := by
        rw [Reduction.ofList, show r.reduce first rest = .ok o from hr]
        rfl
      exact ⟨_, [], .coalesce_first (hfirst [o] hlist) (by simp), rfl⟩
  cases f with
  | count =>
    obtain rfl := Except.ok.inj hf
    refine ⟨.fresh (.ofNat vs.length), [], hvals.append (.cons ?_ .nil), rfl⟩
    rw [Step.run]
    exact .gather [.ofNat vs.length] (by rw [hobjs])
  | collect =>
    obtain rfl := Except.ok.inj hf
    refine ⟨.fresh (.list vs), [], hvals.append (.cons ?_ .nil), rfl⟩
    rw [Step.run]
    exact .gather [.list vs] (by rw [hobjs])
  | sum => exact hreduce .sum (.int 0) (.int 0) rfl .sum rfl hf
  | avg => exact hreduce .mean .null .cypherNull rfl .mean rfl hf
  | min => exact hreduce .min .null .cypherNull rfl .min rfl hf
  | max => exact hreduce .max .null .cypherNull rfl .max rfl hf

end

/-! ## Tags -/

lemma returnsFirst_unlessNull {inner : Traversal} (hnull : t.obj.isNull = true → o = t.obj)
    (hinner : t.obj.isNull = false → ReturnsFirst w (run env inner [t]) o) :
    ReturnsFirst w (run env [.unlessNull inner] [t]) o := by
  have hcond : Returns w ((Condition.predicate (.neq .null)).run env t) (!t.obj.isNull) :=
    .result (Predicate.holds_neq_null t.obj)
  rw [run_singleton, Step.unlessNull, Step.run]
  cases h : t.obj.isNull with
  | true =>
    rw [h] at hcond
    have hdefault : Returns w (run env null [t]) [t.carry .cypherNull] := .cons (.constant rfl) .nil
    refine ⟨_, _, .choose_no hcond hdefault, ?_⟩
    rw [hnull h, Obj.eq_cypherNull h]
    rfl
  | false =>
    rw [h] at hcond
    obtain ⟨out, rest, hout, rfl⟩ := hinner h
    exact ⟨_, _, .choose_yes hcond hout, rfl⟩

lemma returns_project (entries : List (Label × Traversal × Obj))
    (h : ∀ entry ∈ entries, Returns w (Machine.value "project" (run env entry.2.1) t) entry.2.2) :
    Returns w (run env [.project (entries.map fun entry => (entry.1, entry.2.1))] [t])
      [t.carry (.map (entries.map fun entry => (.string entry.1.encode, entry.2.2)))] :=
  .cons (.projectStep (l := [()]) (f := fun _ => t) fun _ _ => h) .nil

lemma edge_eq_ok {g : Graph} {edge : Edge} {operator other : String}
    (h : g.edge operator obj = .ok edge) : g.edge other obj = .ok edge := by
  cases obj with
  | edge r =>
    rw [Graph.edge] at h ⊢
    cases hr : g.edges.get? r with
    | some edge' => simpa [hr] using h
    | none => simp [hr] at h
  | _ => cases h

lemma returns_end {s : Step} (m : World → Obj → Except Halt Obj) {id : Int64}
    (h : m w t.obj = .ok (.vertex id)) (hs : s.run env = Machine.emitOne m) :
    Returns w (run env [s, .id] [t]) [t.carry (.int id)] := by
  have hend : Returns w (s.run env [t]) [t.carry (.vertex id)] := hs ▸ .emitOne_single h
  have hid : Returns w (Step.id.run env [t.carry (.vertex id)]) [t.carry (.int id)] := by
    rw [Step.run]
    exact .emitOne_single rfl
  exact hend.cons (hid.cons .nil)

lemma returnsFirst_keyTag {mode : Mode} {kind : ColumnKind}
    (h : (if mode = .raw || t.obj.isNull then .ok t.obj else kind.tagged w.graph t.obj) = .ok o) :
    ReturnsFirst w (run env (keyTag mode kind) [t]) o := by
  have hplain (h : .ok t.obj = (.ok o : Except Halt Obj)) :
      ReturnsFirst w (run env [] [t]) o :=
    ⟨t, [], .nil, Except.ok.inj h⟩
  cases mode with
  | raw => exact hplain h
  | result =>
    have hnull (hv : t.obj.isNull = true) : o = t.obj := by
      simpa [hv, eq_comm] using h
    have htagged (hv : t.obj.isNull = false) : kind.tagged w.graph t.obj = .ok o := by
      simpa [hv] using h
    have hcontent {content : Obj} (h : w.graph.valueMap true t.obj = .ok content) :
        Returns w (run env [.valueMap true] [t]) [t.carry content] := by
      rw [run_singleton, Step.run]
      exact .emitOne_single h
    -- The steps read from the key what the tag of its kind is made of.
    cases kind with
    | node =>
      refine returnsFirst_unlessNull hnull fun hv => ?_
      obtain ⟨content, hmap, ho⟩ := bind_eq_ok.1 (htagged hv)
      obtain rfl := pure_eq_ok.1 ho
      have htag := returns_project [(.token .element, [.valueMap true], content)]
        (forall_mem_singleton.2 (.value (hcontent hmap)))
      exact ⟨_, _, htag, rfl⟩
    | relationship =>
      refine returnsFirst_unlessNull hnull fun hv => ?_
      obtain ⟨content, hmap, ho⟩ := bind_eq_ok.1 (htagged hv)
      obtain ⟨edge, hedge, ho⟩ := bind_eq_ok.1 ho
      obtain rfl := pure_eq_ok.1 ho
      -- Beside its content, a relationship is tagged with its ends.
      have hin : Returns w (run env [.inV, .id] [t]) [t.carry (.int edge.target)] :=
        returns_end (fun w obj => do return .vertex (← w.graph.edge "inV" obj).target)
          (by rw [edge_eq_ok hedge]; rfl) rfl
      have hout : Returns w (run env [.outV, .id] [t]) [t.carry (.int edge.source)] :=
        returns_end (fun w obj => do return .vertex (← w.graph.edge "outV" obj).source)
          (by rw [edge_eq_ok hedge]; rfl) rfl
      have htag := returns_project [(.token .relationship, [.valueMap true], content),
        (.token .inV, [.inV, .id], .int edge.target),
        (.token .outV, [.outV, .id], .int edge.source)]
        (forall_mem_cons.2 ⟨.value (hcontent hmap), forall_mem_cons.2 ⟨.value hin,
          forall_mem_singleton.2 (.value hout)⟩⟩)
      exact ⟨_, _, htag, rfl⟩
    | id =>
      refine returnsFirst_unlessNull hnull fun hv => ?_
      obtain rfl := Except.ok.inj (htagged hv)
      have hself : Returns w (run env [.identity] [t]) [t] := .cons (.pure [t]) .nil
      have htag :=
        returns_project [(.token .id, [.identity], t.obj)] (forall_mem_singleton.2 (.value hself))
      exact ⟨_, _, htag, rfl⟩
    | path | value => exact hplain (by simpa [ColumnKind.tagged] using h)

end Projecting

end CypherGremlin
