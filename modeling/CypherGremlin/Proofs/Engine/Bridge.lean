import CypherGremlin.Proofs.Engine.Step
import CypherGremlin.Proofs.Program.Instructions

/-!
# From bytecode to steps

The engine gets a program as bytecode, and every statement about a program that has been sent is
about the run of its bytecode.  `Bytecode.run_bytecode` and `Bytecode.execute_bytecode` say that
this is the run of the steps.  There are two things to see: loading puts the modulators of a call
back together with it, so that one group of calls is one step; and the buckets that the engine finds
by looking for `aggregate` among the instructions are those that the steps fill.
-/

namespace CypherGremlin

variable {s : Step} {t : Traversal}

open Call Instruction List Step

/-! ## Loading the bytecode of a step -/

section

variable (env : Env)

@[simp] lemma Instruction.load_call (operator : String) (arguments : List (Argument Int64)) :
    load env (.call operator arguments) = ⟨operator, Argument.loadAll env arguments⟩ := rfl

@[simp] lemma Argument.loadAll_eq_map (as : List (Argument Int64)) :
    Argument.loadAll env as = as.map (Argument.load env) :=
  eq_map_of_cons rfl (fun _ _ => rfl) as

@[simp] lemma Instruction.loadAll_eq_map (is : List (Instruction Int64)) :
    loadAll env is = is.map (load env) :=
  eq_map_of_cons rfl (fun _ _ => rfl) is

lemma mapM_map_eq_some {α β : Type} (f : α → β) {g : β → Option α} (h : ∀ a, g (f a) = some a)
    (as : List α) : (as.map f).mapM g = some as := by
  induction as with
  | nil => rfl
  | cons a rest ih => simp only [map_cons, mapM_cons, h, ih]; rfl

@[simp] lemma Call.texts_data (operator : String) (texts : List String) :
    Call.texts ⟨operator, texts.map fun s => .data (.string s)⟩ = .ok texts := by
  have h := mapM_map_eq_some (fun s => Operand.data (.string s)) (g := Operand.text?)
    (fun _ => rfl) texts
  simp only [Call.texts, Call.demand, h]

@[simp] lemma Call.bodies_body (operator : String) (fs : List Transform) :
    bodies ⟨operator, fs.map .body⟩ = .ok fs := by
  have h := mapM_map_eq_some Operand.body (g := Operand.body?) (fun _ => rfl) fs
  simp only [bodies, Call.demand, h]

@[simp] lemma Value.load_argument (v : Value) :
    Argument.load env (v.argument .capped) = .data (v.argument .capped) := by
  cases v <;> rfl

lemma Operand.bound?_ofBound (n : UInt64) :
    Operand.bound? (.data (.int (Integers.capped.ofBound n))) = some (boundOf n) := by
  have hlargest : largestInt64 = 9223372036854775807 := by decide
  have hint : (Int64.ofNat (min n.toNat largestInt64)).toInt = (min n.toNat largestInt64 : Nat) :=
    Int64.toInt_ofNat_of_lt (by omega)
  have hnonneg : ¬ Int64.ofNat (min n.toNat largestInt64) < 0 := by
    rw [Int64.lt_iff_toInt_lt, hint]
    simp
  change some (if Int64.ofNat (min n.toNat largestInt64) < 0 then _ else
    (Int64.ofNat (min n.toNat largestInt64)).toInt.toNat) = some (min n.toNat largestInt64)
  rw [if_neg hnonneg, hint, Int.toNat_natCast]

end

/-! ## Steps as groups of calls -/

/-- The loaded instructions of a step are one call with its modulators, and the call's operation is
what the step does. -/
def Step.Loads (env : Env) (s : Step) : Prop :=
  ∃ call modulators, Instruction.loadAll env (s.instructions .capped) = call :: modulators ∧
    call.operator = s.name ∧ call.isModulator = false ∧ (∀ m ∈ modulators, m.isModulator = true) ∧
      call.transform env modulators = .ok (s.run env)

lemma groupCalls_append {modulators : List Call} (h : ∀ m ∈ modulators, m.isModulator = true)
    (rest : List Call) :
    groupCalls (modulators ++ rest) = (modulators ++ (groupCalls rest).1, (groupCalls rest).2) := by
  induction modulators with
  | nil => rfl
  | cons m others ih =>
    have hm : m.isModulator = true := h m (by simp)
    have hothers := ih fun m' hm' => h m' (by simp [hm'])
    simp [groupCalls, hothers, hm]

/-- The groups of a traversal's calls are its steps. -/
def Traversal.Loads (env : Env) (t : Traversal) : Prop :=
  ∃ groups, groupCalls (Instruction.loadAll env (Traversal.instructions .capped t)) = ([], groups) ∧
    runGroups env groups = Traversal.run env t

lemma Traversal.Loads.nil (env : Env) : Traversal.Loads env [] := ⟨[], rfl, rfl⟩

lemma Traversal.Loads.cons {env : Env} {rest : Traversal} (hs : s.Loads env)
    (hrest : Traversal.Loads env rest) : Traversal.Loads env (s :: rest) := by
  obtain ⟨call, modulators, hload, -, hcall, hmods, hrun⟩ := hs
  obtain ⟨groups, hgroups, hruns⟩ := hrest
  refine ⟨(call, modulators) :: groups, ?_, ?_⟩
  · rw [Traversal.instructions, loadAll_eq_map, map_append, ← loadAll_eq_map, hload, cons_append,
      groupCalls, ← loadAll_eq_map, groupCalls_append hmods, hgroups]
    simp [hcall]
  · funext ts
    simp only [runGroups, Call.run, hrun, hruns, Traversal.run_cons]
    rfl

lemma Traversal.Loads.runCalls_eq {env : Env} (h : Traversal.Loads env t) :
    runCalls env (loadAll env (Traversal.instructions .capped t)) = Traversal.run env t := by
  obtain ⟨groups, hgroups, hruns⟩ := h
  simp only [runCalls, hgroups, hruns]

lemma Traversal.Loads.load_eq {env : Env} (h : Traversal.Loads env t) :
    Argument.load env (.traversal (Traversal.instructions .capped t)) =
      .body (Traversal.run env t) := by
  rw [Argument.load, h.runCalls_eq]

lemma Env.values_arguments (env : Env) (vs : List Value) :
    (vs.map fun v => Operand.data (v.argument .capped)).mapM
    (fun operand => valueOf env ⟨"inject", []⟩ (some operand)) = Value.evalAll env vs := by
  rw [Value.evalAll, mapM_map]
  rfl

@[simp] lemma Call.lateBody_body (operator : String) (f : Transform) (rest : List Operand) :
    lateBody ⟨operator, .body f :: rest⟩ = f := rfl

/-- The modulators of a projection give its traversals back. -/
lemma Call.transform_project (env : Env) (entries : List (String × Transform)) :
    Call.transform env ⟨"project", (entries.map Prod.fst).map fun s => .data (.string s)⟩
      (entries.map fun entry => ⟨"by", [.body entry.2]⟩) = .ok (Machine.project entries) := by
  have hbys : (entries.map fun entry => (⟨"by", [.body entry.2]⟩ : Call)).filter
      (·.operator == "by") = entries.map fun entry => ⟨"by", [.body entry.2]⟩ := by
    rw [filter_eq_self]
    rintro _ hm
    obtain ⟨_, _, rfl⟩ := mem_map.1 hm
    rfl
  have hzip : (entries.map Prod.fst).zip ((entries.map fun entry =>
      (⟨"by", [.body entry.2]⟩ : Call)).map lateBody) = entries := by
    rw [map_map, zip_map']
    simp
  simp only [Call.transform, hbys, Call.texts_data, length_map]
  simp only [bind, Except.bind, hzip, length_map, ne_eq, not_true_eq_false, if_false]
  rfl

lemma Call.transform_order (env : Env) (keys : List (Transform × Bool)) :
    Call.transform env ⟨"order", []⟩ (keys.map fun key =>
      ⟨"by", [.body key.1, .data (.constant "Order" (if key.2 then "desc" else "asc"))]⟩) =
        .ok (Machine.order keys) := by
  have hkeys : (keys.map fun key => (⟨"by", [.body key.1, .data (.constant "Order"
      (if key.2 then "desc" else "asc"))]⟩ : Call)).map
      (fun key => (key.lateBody, key.descending)) = keys := by
    rw [map_map]
    refine (map_congr_left fun key _ => ?_).trans (map_id keys)
    obtain ⟨f, descending⟩ := key
    cases descending <;> rfl
  simp only [Call.transform, hkeys]

lemma Call.selectTransform_texts (texts : List String) :
    Call.selectTransform ⟨"select", texts.map fun s => .data (.string s)⟩ =
      .ok (Machine.select texts) := by
  have htexts := Call.texts_data "select" texts
  unfold Call.selectTransform
  rw [htexts]
  cases texts <;> rfl

lemma Call.bound_zero (operator : String) (n : UInt64) (rest : List Operand) :
    bound ⟨operator, .data (.int (Integers.capped.ofBound n)) :: rest⟩ 0 = .ok (boundOf n) := by
  simp [bound, Call.demand, Operand.bound?_ofBound]

lemma Call.bound_one (operator : String) (first : Operand) (n : UInt64) (rest : List Operand) :
    bound ⟨operator, first :: .data (.int (Integers.capped.ofBound n)) :: rest⟩ 1 =
      .ok (boundOf n) := by
  simp [bound, Call.demand, Operand.bound?_ofBound]

section

variable {env : Env}

lemma Step.Loads.of_call (operands : List Operand)
    (hload : loadAll env (s.instructions .capped) = [⟨s.name, operands⟩])
    (hname : isModulator ⟨s.name, operands⟩ = false)
    (htransform : Call.transform env ⟨s.name, operands⟩ [] = .ok (s.run env)) : s.Loads env :=
  ⟨_, [], hload, rfl, hname, by simp, htransform⟩

lemma Step.Loads.of_texts (texts : List String)
    (hinstr : s.instructions .capped = [.call s.name (texts.map .string)])
    (hname : isModulator ⟨s.name, texts.map fun s => .data (.string s)⟩ = false)
    (htransform : Call.transform env ⟨s.name, texts.map fun s => .data (.string s)⟩ [] =
      .ok (s.run env)) :
    s.Loads env :=
  .of_call _ (by simp [hinstr, Argument.load]) hname htransform

lemma Step.Loads.of_body (ht : Traversal.Loads env t)
    (hinstr : s.instructions .capped =
      [.call s.name [.traversal (Traversal.instructions .capped t)]])
    (hname : isModulator ⟨s.name, [.body (Traversal.run env t)]⟩ = false)
    (htransform : Call.transform env ⟨s.name, [.body (Traversal.run env t)]⟩ [] = .ok (s.run env)) :
    s.Loads env :=
  .of_call _ (by simp [hinstr, ht.load_eq]) hname htransform

lemma Step.Loads.of_bodies {ts : List Traversal} (hts : ∀ t ∈ ts, Traversal.Loads env t)
    (hinstr : s.instructions .capped = [.call s.name (Traversal.branchArguments .capped ts)])
    (hname : isModulator ⟨s.name, (Traversal.runAll env ts).map .body⟩ = false)
    (htransform : Call.transform env ⟨s.name, (Traversal.runAll env ts).map .body⟩ [] =
      .ok (s.run env)) :
    s.Loads env := by
  have hload : ∀ t ∈ ts, _ := fun t ht => (hts t ht).load_eq
  refine .of_call _ ?_ hname htransform
  simpa [hinstr, Traversal.branchArguments_eq_map, Traversal.runAll_eq_map] using hload

/-- A step loads if the traversals in it do. -/
lemma Step.loads (h : ∀ t ∈ s.children, Traversal.Loads env t) : s.Loads env := by
  -- Most steps are one call, and loading it is evaluation; four have modulators behind it.
  cases s with
  | V | E | drop | inV | outV | otherV | id | label | key | value | dedup | fold | unfold | sum
  | mean | min | max
  | barrier | identity => exact .of_call [] rfl rfl rfl
  | addV l => cases l <;> exact .of_call _ rfl rfl rfl
  | addE => exact ⟨_, _, rfl, rfl, rfl, by simp; exact ⟨rfl, rfl⟩, rfl⟩
  | property k v =>
    exact .of_call [.data (.string k), .data (v.argument .capped)]
      (by simp [instructions, Argument.load]) rfl rfl
  | propertyFrom k t =>
    exact .of_call [.data (.string k), .body (Traversal.run env t)]
      (by simp [instructions, (h t (by simp [children])).load_eq]; rfl) rfl rfl
  | outE types | inE types | bothE types | values types | hasLabel types | properties types =>
    exact .of_texts types rfl rfl (by simp only [name, Call.transform, Call.texts_data]; rfl)
  | has | hasNot | hasKey | is | whereLabel | as | selectKey | aggregate | cap | apply =>
    exact .of_call _ rfl rfl rfl
  | selectColumn a | count a | valueMap a => cases a <;> exact .of_call _ rfl rfl rfl
  | filter t | not t | sideEffect t | map t | flatMap t =>
    exact .of_body (h t (by simp [children])) rfl rfl rfl
  | and | or | coalesce | union =>
    exact .of_bodies h rfl rfl (by simp only [name, Call.transform, bodies_body]; rfl)
  | select labels =>
    exact .of_call ((labels.map Label.encode).map fun s => .data (.string s))
      (by simp [instructions, Label.argument, Argument.load]) rfl
      (by simp only [name, Call.transform, selectTransform_texts]; rfl)
  | choose c yes no =>
    have hyes := (h yes (by cases c <;> simp [children])).load_eq
    have hno := (h no (by cases c <;> simp [children])).load_eq
    cases c with
    | predicate p =>
      exact .of_call [.data (p.argument .capped), .body (Traversal.run env yes),
        .body (Traversal.run env no)] (by simp [instructions, hyes, hno]; rfl) rfl rfl
    | traversal t =>
      have ht := (h t (by simp [children])).load_eq
      exact .of_call [.body (Traversal.run env t), .body (Traversal.run env yes),
        .body (Traversal.run env no)]
        (by simp [instructions, Condition.argument, hyes, hno, ht]) rfl rfl
  | constant v => exact .of_call [.data (v.argument .capped)] (by simp [instructions]) rfl rfl
  | inject vs =>
    exact .of_call (vs.map fun v => .data (v.argument .capped))
      (by simp [instructions, Value.arguments_eq_map]) rfl
      (by rw [run, ← Env.values_arguments]; rfl)
  | project entries =>
    have hload : ∀ entry ∈ entries, _ := fun entry hentry =>
      (h entry.2 (mem_map_of_mem hentry)).load_eq
    refine ⟨_, _, ?_, rfl, rfl, forall_mem_map.2 fun _ _ => rfl,
      transform_project env (Traversal.runEntries env entries)⟩
    simpa [instructions, name, Label.argument, Argument.load, Traversal.entryModulators_eq_map,
      Traversal.runEntries_eq_map] using hload
  | order keys =>
    have hload : ∀ key ∈ keys, _ := fun key hkey => (h key.1 (mem_map_of_mem hkey)).load_eq
    have horder (order : SortOrder) : Argument.load env order.argument =
        .data (.constant "Order" (if order = .desc then "desc" else "asc")) := by
      cases order <;> rfl
    refine ⟨_, _, ?_, rfl, rfl, forall_mem_map.2 fun _ _ => rfl,
      transform_order env (Traversal.runKeys env keys)⟩
    simpa [instructions, name, horder, Traversal.keyModulators_eq_map, Traversal.runKeys_eq_map]
      using hload
  | group k v =>
    refine ⟨⟨"group", []⟩,
      [⟨"by", [.body (Traversal.run env k)]⟩, ⟨"by", [.body (Traversal.run env v)]⟩],
      ?_, rfl, rfl, by simp [isModulator], rfl⟩
    simp [instructions, name, (h k (by simp [children])).load_eq,
      (h v (by simp [children])).load_eq]
  | limit n | skip n =>
    refine .of_call [.data (.int (Integers.capped.ofBound n))] rfl rfl ?_
    simp only [name, Call.transform, bound_zero]
    rfl
  | range low high =>
    refine .of_call [.data (.int (Integers.capped.ofBound low)),
      .data (.int (Integers.capped.ofBound high))]
      rfl rfl ?_
    simp only [name, Call.transform, bound_zero, bound_one]
    rfl

end

theorem Traversal.loads (env : Env) (t : Traversal) : Traversal.Loads env t := by
  induction t using Traversal.inductChildren with
  | nil => exact .nil env
  | cons s rest hchild hrest => exact .cons (Step.loads hchild) hrest

theorem Bytecode.run_bytecode (env : Env) (t : Traversal) :
    Bytecode.run env t.bytecode = Traversal.run env t :=
  (Traversal.loads env t).runCalls_eq

lemma Step.seed_eq (s : Step) (operands : List Operand) :
    Call.seed ⟨s.name, operands⟩ = s.seed := by
  cases s <;> rfl

lemma Step.load_of_seed (env : Env) {seed : List Traverser} (h : s.seed = .ok seed) :
    ∃ call, loadAll env (s.instructions .capped) = [call] := by
  cases s <;> first | exact ⟨_, rfl⟩ | simp [Step.seed] at h

theorem Bytecode.runProgram_bytecode (env : Env) (t : Traversal) :
    Bytecode.runProgram env t.bytecode = Traversal.runProgram env t := by
  cases t with
  | nil => rfl
  | cons s rest =>
    obtain ⟨⟨operator, operands⟩, modulators, hload, rfl, -, -, hrun⟩ :=
      Step.loads fun t _ => Traversal.loads env t
    have hcode : loadAll env (Traversal.bytecode (s :: rest)) =
        ⟨s.name, operands⟩ :: (modulators ++ loadAll env (Traversal.bytecode rest)) := by
      rw [Traversal.bytecode, Traversal.instructions, loadAll_eq_map, map_append,
        ← loadAll_eq_map, hload, loadAll_eq_map]
      rfl
    simp only [Bytecode.runProgram, hcode, Traversal.runProgram, seed_eq]
    cases hseed : s.seed with
    | error halt => rfl
    | ok seed =>
      obtain ⟨call, hcall⟩ := load_of_seed env hseed
      obtain rfl : modulators = [] := by simpa using congrArg List.tail (hload.symm.trans hcall)
      have hrest := Bytecode.run_bytecode env rest
      simp only [Bytecode.run] at hrest
      simp only [Call.run, hrun, nil_append, hrest, Traversal.run_cons]
      rfl

/-! ## Buckets -/

@[simp] lemma Argument.bucketsAll_eq_flatMap (as : List (Argument Int64)) :
    Argument.bucketsAll as = as.flatMap Argument.buckets :=
  eq_flatMap_of_cons rfl (fun _ _ => rfl) as

@[simp] lemma Instruction.bucketsAll_eq_flatMap (is : List (Instruction Int64)) :
    bucketsAll is = is.flatMap buckets :=
  eq_flatMap_of_cons rfl (fun _ _ => rfl) is

/-- A call other than `aggregate` fills what its arguments fill. -/
lemma Instruction.buckets_call (operator : String) (h : operator ≠ "aggregate")
    (arguments : List (Argument Int64)) :
    (call operator arguments).buckets = Argument.bucketsAll arguments := by
  simp [buckets, h]

@[simp] lemma Value.buckets_argument (v : Value) : (v.argument .capped).buckets = [] := by
  cases v <;> rfl

/-- The buckets of a traversal's bytecode are those of its steps. -/
def Traversal.BucketsAgree (t : Traversal) : Prop :=
  Instruction.bucketsAll (Traversal.instructions .capped t) = Traversal.buckets t

lemma Traversal.BucketsAgree.argument {t : Traversal} (h : BucketsAgree t) :
    (Argument.traversal (Traversal.instructions .capped t)).buckets = Traversal.buckets t := h

lemma Step.bucketsAll_instructions (h : ∀ t ∈ s.children, Traversal.BucketsAgree t) :
    bucketsAll (s.instructions .capped) = s.fills.map Label.encode ++
      s.children.flatMap Traversal.buckets := by
  have horder (order : SortOrder) : (order.argument : Argument Int64).buckets = [] := by
    cases order <;> rfl
  have hnested : ∀ t ∈ s.children, _ := fun t ht => (h t ht).argument
  cases s with
  | choose c yes no =>
    cases c <;> simp_all [instructions, fills, children, buckets, name, Argument.buckets,
      Condition.argument, Predicate.argument]
  | project entries =>
    have hlabels : (entries.map fun entry => (entry.1.argument : Argument Int64)).flatMap
        Argument.buckets = [] :=
      flatMap_eq_nil_iff.2 (forall_mem_map.2 fun _ _ => rfl)
    simp only [instructions, name, bucketsAll_eq_flatMap, flatMap_cons,
      buckets_call "project" (by decide),
      Argument.bucketsAll_eq_flatMap, hlabels, Traversal.entryModulators_eq_map, children,
      flatMap_map]
    exact flatMap_congr fun entry hentry =>
      (append_nil _).trans (hnested entry.2 (mem_map_of_mem hentry))
  | order keys =>
    simp only [instructions, name, bucketsAll_eq_flatMap, flatMap_cons,
      buckets_call "order" (by decide), Traversal.keyModulators_eq_map, children, flatMap_map]
    refine flatMap_congr fun key hkey => ?_
    simp [buckets_call, horder, hnested key.1 (mem_map_of_mem hkey)]
  | and ts | or ts | coalesce ts | union ts =>
    simp only [instructions, name, Traversal.branchArguments_eq_map, bucketsAll_eq_flatMap,
      flatMap_singleton]
    rw [buckets_call _ (by decide), Argument.bucketsAll_eq_flatMap, flatMap_map]
    exact flatMap_congr hnested
  | addV a | count a | selectColumn a => cases a <;> rfl
  | _ =>
    simp_all [instructions, fills, children, buckets, name, Argument.buckets, Predicate.argument,
      Label.argument, Value.arguments_eq_map]

theorem Traversal.bucketsAll_bytecode (t : Traversal) :
    bucketsAll t.bytecode = Traversal.buckets t := by
  induction t using Traversal.inductChildren with
  | nil => rfl
  | cons s rest hchild hrest =>
    rw [Traversal.bytecode, Traversal.instructions, bucketsAll_eq_flatMap, flatMap_append]
    rw [← bucketsAll_eq_flatMap, ← bucketsAll_eq_flatMap, bucketsAll_instructions hchild,
      ← Traversal.bytecode, hrest]
    simp only [Traversal.buckets, Traversal.collect_cons, map_append, append_assoc, map_flatMap]
    rfl

/-- Running the bytecode of a program is running the program. -/
theorem Bytecode.execute_bytecode (env : Env) (graph : Graph) (t : Traversal) :
    Bytecode.execute env graph t.bytecode = Traversal.execute env graph t := by
  rw [Bytecode.execute, Traversal.execute, Bytecode.runProgram_bytecode,
    Traversal.bucketsAll_bytecode]

end CypherGremlin
