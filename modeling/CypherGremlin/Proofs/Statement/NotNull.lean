import CypherGremlin.Proofs.Statement.Lowering
import CypherGremlin.Proofs.Statement.Operand

/-!
# Expressions that are not null

A missing property is null, a variable of an optional match can be null, and a parameter can be;
functions hand a null on.  `Expr.NotNullAt` says when an expression is not null at a row: a constant
or a container or a test never is, a variable or a property is not if the row holds something else
for it, and a function is not if its argument is not and it cannot fail.  The traversal of such an
expression then gives something at the row, and no null (`Expr.NotNullAt.solid`).
-/

namespace CypherGremlin

variable {I : World → Prop} {e : Expr} {env : Env} {key : String} {o x : Obj} {row : Traverser}
  {w : World} {α : Type} {f : CustomFunction} {mode : Mode} {P : α → Prop}

open CypherGremlin.Function List Traversal

/-- There is something, and nothing of it is null. -/
def Solid (out : List Traverser) : Prop := out ≠ [] ∧ ∀ o ∈ out, o.obj ≠ .cypherNull

/-! ## Expressions -/

/-- The expression is a test: its value is true or false. -/
def Expr.isTest : Expr → Bool
  | .not _ | .and _ _ | .or _ _ | .compare _ _ _ | .stringMatch _ _ _ | .isNull _ | .isNotNull _
    | .member _ _
  | .hasLabels _ _ | .pattern _ => true
  | _ => false

/-- What reading a property finds: the entry of a map, or the property of an element. -/
def World.property? (w : World) (isMap : Bool) (key : String) (obj : Obj) : Option Obj :=
  if isMap then obj.get? key else (w.graph.element? obj).bind fun element =>
    Table.get? element.properties key

/-- The function never makes null of something else. -/
def Function.isTotal (scope : Scope) (name : String) (arg : Expr) : Bool :=
  match ofName name with
  | .id | .labels | .startNode | .endNode => true
  | .keys => (arg.isMap scope).toOption == some false
  | .length | .other =>
    CustomFunction.ofCypherName? name ∈ [some .length, some .size, some .properties]
  | _ => false

inductive Expr.NotNullAt (scope : Scope) (env : Env) (w : World) (row : Traverser) : Expr → Prop
  | literal {l : Literal} (some : l ≠ .null) : NotNullAt scope env w row (.literal l)
  | parameter {name : String} {l : Literal} (bound : Table.get? env.parameters name = some l)
    (some : Obj.ofLiteral l ≠ .cypherNull) : NotNullAt scope env w row (.parameter name)
  | var {v : String} {o : Obj} (held : row.find? w.buckets v = some o) (some : o ≠ .cypherNull) :
    NotNullAt scope env w row (.var v)
  | path {v : String} (path : (Expr.var v).isPath scope = true) : NotNullAt scope env w row (.var v)
  | property {v key : String} {binding : Binding} {o x : Obj}
    (bound : scope.binding? v = some binding)
    (kind : binding.kind ≠ .path) (held : row.find? w.buckets v = some o)
    (present : w.property? (binding.kind == .map) key o = some x) (some : x ≠ .cypherNull) :
    NotNullAt scope env w row (.property (.var v) key)
  | list (items : List Expr) : NotNullAt scope env w row (.list items)
  | map (entries : List (String × Expr)) : NotNullAt scope env w row (.map entries)
  | test {e : Expr} (test : e.isTest = true) : NotNullAt scope env w row e
  | coalesce {name : String} (distinct : Bool) {args : List Expr} {e : Expr}
    (function : ofName name = .coalesce) (mem : e ∈ args) (some : NotNullAt scope env w row e) :
    NotNullAt scope env w row (.call name distinct args)
  | range {name : String} (distinct : Bool) (args : List Expr) (function : ofName name = .range) :
    NotNullAt scope env w row (.call name distinct args)
  | pathPart {name : String} (distinct : Bool) (args : List Expr)
    (function : ofName name = .nodes ∨ ofName name = .relationships) :
    NotNullAt scope env w row (.call name distinct args)
  | existence {name : String} (distinct : Bool) {base : Expr} (key : String)
    (function : ofName name = .existence) (some : NotNullAt scope env w row base) :
    NotNullAt scope env w row (.call name distinct [.property base key])
  | function {name : String} (distinct : Bool) {arg : Expr} (total : isTotal scope name arg = true)
    (some : NotNullAt scope env w row arg) : NotNullAt scope env w row (.call name distinct [arg])

/-! ## Streams without null -/

/-- A computation that leaves the world as it is, and of which more is known. -/
lemma Upholds.ensures {x : Run α} (h : Upholds I x) (hP : Ensures Always x P) : Ensures I x P :=
  fun w hw a w' hx => ⟨(h w hw a w' hx).1, (hP w trivial a w' hx).2⟩

lemma Returns.ensures {x : Run α} {a : α} (h : Returns w x a) (ha : P a) : Ensures (· = w) x P := by
  rintro _ rfl a' w' hx
  obtain ⟨rfl, rfl⟩ := Prod.mk.inj (Except.ok.inj (h.symm.trans hx))
  exact ⟨rfl, ha⟩

namespace Solid

variable {ts : List Traverser} {t : Traverser} {a body : Traversal}

lemma singleton {o : Traverser} (h : o.obj ≠ .cypherNull) : Solid [o] :=
  ⟨by simp, forall_mem_singleton.2 h⟩

/-- One after another. -/
lemma each {m : Traverser → Run (List Traverser)} (hts : ts ≠ [])
    (h : ∀ t ∈ ts, Ensures I (m t) Solid) : Ensures I (Machine.each m ts) Solid := by
  refine (Ensures.mapM h).bind fun parts hparts => .pure ⟨?_, fun o ho => ?_⟩
  · cases hparts with
    | nil => exact absurd rfl hts
    | cons hpart _ => simp [hpart.1]
  · obtain ⟨part, hpart, ho⟩ := mem_flatten.1 ho
    obtain ⟨t, -, hsolid⟩ := exists_mem_of_forall₂ hparts part hpart
    exact hsolid.2 o ho

lemma branch {child : Transform} (h : Ensures I (child [t]) Solid) :
    Ensures I (Machine.branch child t) Solid := by
  refine h.bind fun out hout => .pure ⟨by simpa using hout.1, ?_⟩
  exact forall_mem_map.2 fun o ho => hout.2 o ho

lemma emitOne {f : World → Obj → Except Halt Obj} (h : ∀ w obj o, f w obj = .ok o → o ≠ .cypherNull)
    (hts : ts ≠ []) : Ensures I (Machine.emitOne f ts) Solid := by
  refine each hts fun t _ => ?_
  refine (Ensures.observe (P := fun objs => ∃ o, objs = [o] ∧ o ≠ .cypherNull) fun w objs hobjs =>
    ?_).bind ?_
  · obtain ⟨o, ho, heq⟩ := bind_eq_ok.1 hobjs
    exact ⟨o, (pure_eq_ok.1 heq).symm, h w t.obj o ho⟩
  · rintro _ ⟨o, rfl, ho⟩
    exact .pure (singleton ho)

lemma constant {v : Value} (h : ∀ o, v.eval env = .ok o → o ≠ .cypherNull) (t : Traverser) :
    Ensures I (run env [.constant v] [t]) Solid := by
  rw [run_singleton]
  refine (Ensures.observe (P := fun o => o ≠ .cypherNull) fun _ o ho => h o ho).bind fun o ho =>
    .pure ?_
  exact singleton (o := t.carry o) ho

lemma fold (ts : List Traverser) : Ensures I (Machine.fold ts) Solid := by
  refine (Ensures.observe (P := fun objs => ∃ items, objs = [.list items]) ?_).bind ?_
  · rintro w _ ⟨⟩
    exact ⟨_, rfl⟩
  · rintro _ ⟨items, rfl⟩
    exact .pure (singleton (by simp [Traverser.fresh, Obj.cypherNull]))

lemma append_fold (h : a.Calm) (ts : List Traverser) :
    Ensures I (run env (a ++ [.fold]) ts) Solid := by
  rw [run_append, run_singleton]
  exact Ensures.bind (h.inert.upholds env I ts) fun out _ => fold out

lemma choose {c : Condition} {yes no : Traversal} (hc : Upholds I (c.run env t))
    (hyes : Ensures I (run env yes [t]) Solid) (hno : Ensures I (run env no [t]) Solid) :
    Ensures I (run env [.choose c yes no] [t]) Solid := by
  rw [run_singleton, Step.run, Machine.choose, Machine.each_singleton]
  exact Ensures.bind hc fun _ _ => .ite (fun _ => branch hyes) fun _ => branch hno

lemma ensures_holds (env : Env) (obj : Obj) :
    Ensures I (Run.result ((Predicate.neq .null).holds env obj)) fun b =>
    b = true ↔ obj ≠ .cypherNull := by
  refine .observe fun _ b hb => ?_
  rw [holds_notNull] at hb
  rw [← Except.ok.inj hb, Bool.not_eq_true', Bool.eq_false_iff]
  exact Obj.looselyEqual_cypherNull.not

lemma append_unlessNull (ha : Ensures I (run env a [row]) Solid)
    (h : ∀ t, Ensures I (run env body [t]) Solid) :
    Ensures I (run env (a ++ [.unlessNull body]) [row]) Solid := by
  rw [run_append, run_singleton]
  refine ha.bind fun out hout => each hout.1 fun t ht => (ensures_holds env t.obj).bind fun b hb =>
    ?_
  rw [hb.2 (hout.2 t ht)]
  exact branch (h t)

lemma list (vs : List Value) (t : Traverser) :
    Ensures I (run env [.constant (.list vs)] [t]) Solid := by
  refine constant (fun o ho => ?_) t
  rw [Value.eval, Value.argument, Env.value] at ho
  obtain ⟨items, -, ho⟩ := bind_eq_ok.1 ho
  obtain rfl := pure_eq_ok.1 ho
  simp [Obj.cypherNull]

/-- A boolean. -/
lemma bool (b : Bool) (t : Traverser) : Ensures I (run env [.constant (.bool b)] [t]) Solid := by
  refine constant ?_ t
  rintro o ⟨⟩
  simp [Obj.cypherNull]

lemma ofTest {test : Traversal} (h : test.Calm) (mode : Mode) (t : Traverser) :
    Ensures I (run env ((Goal.value mode).ofTest test) [t]) Solid :=
  choose ((h.inert.simulates env I).produces (.refl t)).upholds (bool true t) (bool false t)

lemma project (entries : List (Label × Traversal)) (h : Traversal.Calm [.project entries])
    (t : Traverser) : Ensures I (run env [.project entries] [t]) Solid := by
  refine (h.inert.upholds env I [t]).ensures ?_
  rw [run_singleton, Step.run, Machine.project, Machine.each_singleton]
  refine (Ensures.trivial _).bind fun map _ => .pure (singleton ?_)
  simp [Traverser.carry, Obj.cypherNull]

lemma ensures_notNull (h : a.Calm) (ts : List Traverser) :
    Ensures I (run env (a ++ [.notNull]) ts) fun out => ∀ o ∈ out, o.obj ≠ .cypherNull := by
  rw [run_append, run_singleton]
  refine Ensures.bind (h.inert.upholds env I ts) fun out _ => Ensures.each (fun t => ?_) out
  refine (ensures_holds env t.obj).bind fun b hb => .pure ?_
  split
  · exact forall_mem_singleton.2 (hb.1 ‹_›)
  · exact forall_mem_nil _

lemma append_notNull (h : Ensures I (run env a ts) Solid) :
    Ensures I (run env (a ++ [.notNull]) ts) Solid := by
  rw [run_append, run_singleton]
  refine h.bind fun out hout => each hout.1 fun t ht => (ensures_holds env t.obj).bind fun b hb =>
    ?_
  rw [hb.2 (hout.2 t ht)]
  exact .pure (singleton (hout.2 t ht))

/-- The first of some branches that gives something, where none gives null and one gives something.
-/
lemma firstBranch {children : List Transform} (others : List Transform)
    (hchildren : ∀ child ∈ children, Ensures I (child [t]) fun out => ∀ o ∈ out, o.obj ≠
      .cypherNull)
    (hsolid : ∃ child ∈ children, Ensures I (child [t]) Solid) :
    Ensures I (Machine.firstBranch (children ++ others) t) Solid := by
  induction children with
  | nil => simp at hsolid
  | cons child rest ih =>
    obtain ⟨hchild, hrest⟩ := forall_mem_cons.1 hchildren
    rw [cons_append, Machine.firstBranch]
    rcases (exists_mem_cons_iff _ _ _).1 hsolid with hfirst | hlater
    · refine (branch hfirst).bind fun out hout => ?_
      rw [if_neg (by simpa using hout.1)]
      exact .pure hout
    · have hbranch : Ensures I (Machine.branch child t) fun out => ∀ o ∈ out, o.obj ≠ .cypherNull :=
        hchild.bind fun out hout => .pure (forall_mem_map.2 fun o ho => hout o ho)
      refine hbranch.bind fun out hout => .ite (fun _ => ih hrest hlater) fun hne =>
        .pure ⟨?_, hout⟩
      simpa using hne

end Solid

lemma applied_ne_cypherNull (hf : f ∈ [.length, .size, .properties, .raise]) {g : Graph} {obj : Obj}
    (h : applied g f.symbol obj = .ok o) : o ≠ .cypherNull := by
  have hlen : CustomFunction.length.symbol = "cypherLength" := by decide
  have hsize : CustomFunction.size.symbol = "cypherSize" := by decide
  have hprops : CustomFunction.properties.symbol = "cypherProperties" := by decide
  have hraise : CustomFunction.raise.symbol = "cypherException" := rfl
  simp only [mem_cons, not_mem_nil, or_false] at hf
  rintro rfl
  rcases hf with rfl | rfl | rfl | rfl
  · cases obj <;> simp [hlen, applied, Obj.ofNat, Obj.cypherNull] at h
  · cases obj <;> simp [hsize, applied, Obj.ofNat, Obj.cypherNull] at h
  · have helem (handle : Obj) : applied.elementProperties g handle ≠ .ok .cypherNull := by
      intro h
      obtain ⟨_, -, h⟩ := bind_eq_ok.1 h
      exact absurd (pure_eq_ok.1 h) (by simp [Obj.cypherNull])
    cases obj <;> simp [hprops, applied, helem] at h
    simp [Obj.cypherNull] at h
  · cases obj <;> simp [hraise, applied] at h

lemma Solid.apply (hf : f ∈ [.length, .size, .properties, .raise])
    {ts : List Traverser} (hts : ts ≠ []) : Ensures I ((Step.apply f).run env ts) Solid := by
  refine Solid.emitOne (fun w obj o ho => ?_) hts
  obtain ⟨-, -, ho⟩ := bind_eq_ok.1 ho
  exact applied_ne_cypherNull hf ho

lemma Solid.edgeEnd (f : World → Obj → Except Halt Edge) (e : Edge → Int64) (t : Traverser) :
    Ensures I (Machine.emitOne (fun w obj => do return .vertex (e (← f w obj))) [t]) Solid := by
  refine Solid.emitOne (fun w obj o ho => ?_) (by simp)
  obtain ⟨_, -, ho⟩ := bind_eq_ok.1 ho
  obtain rfl := pure_eq_ok.1 ho
  simp [Obj.cypherNull]

lemma Function.solid_body {scope : Scope} {name : String} {arg : Expr} {body : Traversal}
    (htotal : isTotal scope name arg = true)
    (h : (ofName name).body scope .raw name arg = .ok body) (t : Traverser) :
    Ensures I (run env body [t]) Solid := by
  rw [isTotal] at htotal
  -- Functions that can give null are not total.
  cases hname : ofName name with
  | id =>
    rw [hname] at h
    obtain rfl : [.id] = body := Except.ok.inj h
    rw [run_singleton, Step.run, Machine.id]
    refine Solid.emitOne (fun w obj o ho => ?_) (by simp)
    cases obj with
    | vertex | edge => exact Except.ok.inj ho ▸ (by simp [Obj.cypherNull])
    | _ => cases ho
  | labels =>
    rw [hname] at h
    obtain rfl : [.label, .fold] = body := Except.ok.inj h
    exact Solid.append_fold (allSteps_leaf rfl rfl) [t]
  | startNode =>
    rw [hname] at h
    obtain rfl : [.outV] = body := Except.ok.inj h
    rw [run_singleton]
    exact Solid.edgeEnd _ _ t
  | endNode =>
    rw [hname] at h
    obtain rfl : [.inV] = body := Except.ok.inj h
    rw [run_singleton]
    exact Solid.edgeEnd _ _ t
  | keys =>
    rw [hname] at h htotal
    obtain ⟨isMap, hmap, h⟩ := bind_eq_ok.1 h
    obtain rfl : isMap = false := by simpa [hmap, Except.toOption] using htotal
    obtain rfl : [.properties [], .key, .dedup, .fold] = body := pure_eq_ok.1 h
    refine Solid.append_fold (a := [.properties [], .key, .dedup]) (allSteps_of_forall ?_) [t]
    simp only [forall_mem_cons]
    exact ⟨⟨rfl, rfl⟩, ⟨rfl, rfl⟩, ⟨rfl, rfl⟩, forall_mem_nil _⟩
  | length | other =>
    rw [hname] at h htotal
    have hmem := of_decide_eq_true htotal
    cases hf : CustomFunction.ofCypherName? name with
    | none => simp [hf] at hmem
    | some f =>
      obtain rfl : [.apply f] = body := by simpa [Function.body, hf] using h
      rw [run_singleton]
      refine Solid.apply ?_ (by simp)
      rcases (by simpa [hf] using hmem : f = .length ∨ f = .size ∨ f = .properties) with rfl | rfl
        | rfl <;> simp
  | _ => simp [hname] at htotal

/-! ## Variables and properties -/

lemma World.ne_cypherNull_of_property? {isMap : Bool} (h : w.property? isMap key o = some x) :
    o ≠ .cypherNull := by
  rintro rfl
  cases isMap <;> simp [property?, Obj.cypherNull, Obj.get?, Graph.element?] at h

lemma World.returns_access {isMap : Bool} {t : Traverser}
    (h : w.property? isMap key t.obj = some x) :
    Returns w ((Step.access isMap key).run env [t]) [t.carry x] := by
  cases isMap with
  | true =>
    have hentry : t.obj.get? key = some x := h
    exact Returns.selectOne (by simp [Traverser.find?, Label.encode, hentry])
  | false =>
    obtain ⟨element, helem, hprop⟩ := Option.bind_eq_some_iff.1 (show _ = some x from h)
    have hvals : Returns w ((Step.values [key]).run env [t]) _ := .values helem key
    rw [hprop] at hvals
    exact hvals

namespace Expr

variable {scope : Scope} {v : String} {t : Traversal}

lemma solid_property {binding : Binding} (hbind : scope.binding? v = some binding)
    (hkind : binding.kind ≠ .path) (hheld : row.find? w.buckets v = some o)
    (hpresent : w.property? (binding.kind == .map) key o = some x) (hx : x ≠ .cypherNull)
    (h : (Expr.property (.var v) key).Lowers scope (.value .raw) t) :
    Ensures (· = w) (run env t [row]) Solid := by
  have hbase := World.ne_cypherNull_of_property? hpresent
  cases h with
  | property _ hstep hval =>
    cases hval with
    | var _ hread =>
      obtain rfl := hread.eq_select hbind hkind
      obtain ⟨-, -, hstep⟩ := bind_eq_ok.1 hstep
      obtain ⟨found, hfound, hstep⟩ := bind_eq_ok.1 hstep
      obtain rfl : binding = found := by simpa [Scope.lookup, hbind] using hfound
      obtain rfl := pure_eq_ok.1 hstep
      have hsel : Returns w (run env [.select [.named v]] [row]) [row.carry o] := by
        rw [run_singleton]
        exact .selectOne hheld
      have haccess : Returns w (run env [.access (binding.kind == .map) key] [row.carry o])
          [row.carry x] := by
        rw [run_singleton]
        exact World.returns_access hpresent
      have hcond : Returns w (Run.result ((Predicate.neq .null).holds env o)) true := by
        refine .result ?_
        rw [holds_notNull, Bool.eq_false_iff.2 (mt Obj.looselyEqual_cypherNull.1 hbase)]
        rfl
      have hread : Returns w ((Step.coalesce [[.access (binding.kind == .map) key], null]).run env
          [row.carry o]) [row.carry x] := .coalesce_first haccess (by simp)
      have hstep :
        Returns w
        ((Step.unlessNull [.coalesce [[.access (binding.kind == .map) key], null]]).run env
          [row.carry o]) [row.carry x] := .choose_yes hcond (hread.cons .nil)
      exact (hsel.append (hstep.cons .nil)).ensures (Solid.singleton hx)

lemma exists_eq_ofTest (he : e.isTest = true) (h : e.Lowers scope (.value mode) t) :
    ∃ test, t = (Goal.value mode).ofTest test := by
  cases h with
  | literal | parameter | var | property | constants | list | emptyMap | map | coalesce | range
  | pathPart | existence
  | pathLength | function => cases he
  | not | and | or | compareNull | compareRight | compareLeft | compare | stringMatch | isNull
  | isNotNull | member
  | hasLabels | pattern => exact ⟨_, rfl⟩

lemma solid_range (h : IsRange t) : Ensures (· = w) (run env t [row]) Solid := by
  cases h with
  | integers => exact Solid.list _ row
  | invalid =>
    have hname : Ensures (· = w) (run env [.constant (.string EngineFault.invalidRangeName)] [row])
        Solid := by
      refine Solid.constant ?_ row
      rintro o ⟨⟩
      exact fun h => absurd (Obj.string.inj h) (by decide)
    refine hname.bind fun out hout => ?_
    rw [run_singleton]
    exact Solid.apply (by simp) hout.1

lemma solid_readKind {shape : PathShape} {kind : ElementKind}
    (h : (shape.readKind mode kind).Calm) :
    Ensures (· = w) (run env (shape.readKind mode kind) [row]) Solid := by
  have hread (branches : List Traversal)
      (h : Traversal.Calm (if branches.isEmpty then [.constant (.list [])] else [.union branches,
      .fold])) :
      Ensures (· = w)
      (run env (if branches.isEmpty then [.constant (.list [])] else [.union branches, .fold])
        [row]) Solid := by
    split
    · exact Solid.list _ row
    · rw [if_neg ‹_›] at h
      exact Solid.append_fold (a := [.union branches]) (allSteps_append (b := [.fold]).1 h).1 [row]
  exact hread _ h

lemma solid_coalesce {args : List Expr} {ts : List Traversal} (hlen : args.length = ts.length)
    (hvals : ∀ p ∈ args.zip ts, p.1.Lowers scope (.value .raw) p.2) (hmem : e ∈ args)
    (he : ∀ {t : Traversal}, e.Lowers scope (.value .raw) t →
      Ensures (· = w) (run env t [row]) Solid) :
    Ensures (· = w) (run env [.coalesce (ts.map (· ++ [.notNull]) ++ [null])] [row]) Solid := by
  have hlowers := forall₂_iff_zip.2 ⟨hlen, fun hp => hvals _ hp⟩
  rw [run_singleton, Step.run, Machine.coalesce, Machine.each_singleton, runAll_eq_map, map_append,
    map_map]
  refine Solid.firstBranch _ (forall_mem_map.2 fun t ht => ?_) ?_
  · obtain ⟨_, _, hlow⟩ := exists_mem_of_forall₂ hlowers t ht
    exact Solid.ensures_notNull hlow.calm [row]
  · obtain ⟨t, ht, hlow⟩ := exists_mem_of_forall₂ hlowers.flip e hmem
    exact ⟨_, mem_map_of_mem ht, Solid.append_notNull (he hlow)⟩

/-- The traversal of an expression that is not null at a row gives something there, and no null. -/
theorem NotNullAt.solid (he : e.NotNullAt scope env w row) : ∀ {t : Traversal},
    e.Lowers scope (.value .raw) t → Ensures (· = w) (run env t [row]) Solid := by
  -- By the reason why it is not null; the form of the expression leaves few rules of lowering.
  induction he with
  | @literal l hl =>
    intro t h
    cases h with
    | @literal _ _ v hv =>
      refine Solid.constant (fun o ho => ?_) row
      obtain rfl : l.obj = o := Except.ok.inj ((Literal.yields_eval env l v hv).symm.trans ho)
      refine mt Obj.looselyEqual_cypherNull.2 ?_
      rw [Literal.looselyEqual_null hv]
      cases l <;> simp_all [isNullLiteral]
  | parameter hbound hne =>
    intro t h
    cases h with
    | parameter =>
      refine Solid.constant (fun o ho => ?_) row
      rw [Value.eval, Value.argument, Env.value, hbound] at ho
      exact Except.ok.inj ho ▸ hne
  | var hheld hne =>
    intro t h
    have hcalm := h.calm
    cases h with
    | var _ hread =>
      cases hread with
      | path =>
        exact Solid.append_fold (a := [.union _]) (allSteps_append (b := [.fold]).1 hcalm).1 [row]
      | label =>
        have hsel : Returns w ((Step.select [.named _]).run env [row]) _ := .selectOne hheld
        exact (hsel.cons .nil).ensures (Solid.singleton hne)
  | path hpath =>
    intro t h
    have hcalm := h.calm
    cases h with
    | var _ hread =>
      cases hread with
      | path =>
        exact Solid.append_fold (a := [.union _]) (allSteps_append (b := [.fold]).1 hcalm).1 [row]
      | label _ hbind hkind => exact absurd (by simpa [isPath, hbind] using hpath) hkind
  | property hbind hkind hheld hpresent hx =>
    intro t h
    exact solid_property hbind hkind hheld hpresent hx h
  | list items =>
    intro t h
    have hcalm := h.calm
    cases h with
    | constants => exact Solid.list _ row
    | @list _ _ ts =>
      exact Solid.append_fold (a := [.union ts]) (allSteps_append (b := [.fold]).1 hcalm).1 [row]
  | map entries =>
    intro t h
    have hcalm := h.calm
    cases h with
    | emptyMap =>
      refine Solid.constant ?_ row
      rintro o ⟨⟩
      simp [Obj.cypherNull]
    | map => exact Solid.project _ hcalm row
  | test htest =>
    intro t h
    have hcalm := h.calm
    obtain ⟨test, rfl⟩ := exists_eq_ofTest htest h
    exact Solid.ofTest ((allSteps_cons.1 hcalm).2.1 test (by simp [Step.children])) .raw row
  | coalesce distinct hname hmem _ ih =>
    intro t h
    cases h with
    | coalesce _ _ hlen hvals => exact solid_coalesce hlen hvals hmem ih
    | _ => simp_all
  | range distinct args hname =>
    intro t h
    cases h with
    | range _ _ _ hrange => exact solid_range hrange
    | _ => simp_all
  | pathPart distinct args hname =>
    intro t h
    have hcalm := h.calm
    cases h with
    | pathPart => exact solid_readKind (show (PathShape.readKind _ .raw _).Calm from hcalm)
    | _ => simp_all
  | existence distinct key hname _ ih =>
    intro t h
    cases h with
    | existence _ _ _ _ hval =>
      refine Solid.append_unlessNull (ih hval) fun t => ?_
      exact Solid.choose (((Traversal.Calm.access _ _).inert.simulates _ _).produces
        (.refl t)).upholds (Solid.bool true t) (Solid.bool false t)
    | _ => simp_all
  | function distinct htotal _ ih =>
    intro t h
    cases h with
    | pathLength =>
      refine Solid.constant ?_ row
      rintro o ⟨⟩
      simp [Obj.cypherNull]
    | function _ _ hbody hval =>
      exact Solid.append_unlessNull (ih hval) fun t => solid_body htotal hbody t
    | pathPart _ _ hname => rcases hname with hname | hname <;> simp [isTotal, hname] at htotal
    | _ => simp_all [isTotal]

end Expr

end CypherGremlin
