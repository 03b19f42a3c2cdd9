import CypherGremlin.Proofs.Statement.Expression
import CypherGremlin.Proofs.Traversal.Reducing

/-!
# How traversals of expressions are put together

Forms of expression are many, and the ways in which their traversals are put together are few.
There are steps that read a variable or test what is at hand; steps that hold the traversals of
parts; the list of the results of some parts, or of the elements of a path; and what follows a value
and has nothing to do with labels.  Only a comparison of two expressions labels an intermediate
result.

* `Composed T scope loose t` is the grammar; `loose` says that the traversal may be such a
  comparison.
* `Expr.Lowers.composed` says that the traversals of expressions are in it.

What lowering guarantees of the traversals of expressions can be proved by induction on this
grammar, as in `Composed.lowered`.  Where it is kept by putting traversals together in any way,
`Composed.closed` is the proof: it is enough to show `Closed Q P`, as for `Expr.Lowers.calm`.
-/

namespace CypherGremlin

variable {T : Sources} {loose : Bool} {s : Step} {scope : Scope} {t : Traversal} {v : String}
  {goal : Goal} {e : Expr} {shape : PathShape}

open List Traversal

/-! ## Steps -/

namespace Step

def isCalm : Step → Bool
  | .addV _ | .addE _ _ _ | .property _ _ | .propertyFrom _ _ | .drop | .aggregate _
    | .sideEffect _ => false
  | _ => true

/-- The step follows relationships. -/
def isEdge : Step → Bool
  | .outE _ | .inE _ | .bothE _ => true
  | _ => false

/-- The step has no effect, and follows no relationships. -/
def isTame (s : Step) : Bool := s.isCalm && !s.isEdge

/-- The step is tame, and has nothing to do with labels. -/
def isIdle (s : Step) : Bool := s.isBland && s.isTame

/-- The step reads a variable, follows relationships, or reads or tests what is at hand. -/
def isReading : Step → Bool
  | .is _ | .selectKey _ | .values _ | .select [.named _] => true
  | s => s.isProbe

/-- The step has traversals inside and does nothing else than to combine or to test their results.
-/
def isFrame : Step → Bool
  | .not _ | .and _ | .or _ | .coalesce _ | .project _ | .choose (.traversal _) _ _ => true
  | _ => false

/-- The step reads what it may: the labels that it refers to are variables in scope. -/
structure Reads (T : Sources) (scope : Scope) (s : Step) : Prop where
  reading : s.isReading = true
  bound : ∀ l ∈ s.references, ∃ v, l = .named v ∧ scope.binds v = true
  own : scope.Clean → s.Own T

end Step

/-- No step of the traversal, at any depth, has an effect. -/
abbrev Traversal.Calm (t : Traversal) : Prop := AllSteps Step.isCalm t

/-- All steps of the traversal, at any depth, are idle. -/
def Traversal.isIdle (t : Traversal) : Bool := (walk t).all Step.isIdle

/-! ## The grammar -/

/-- How the traversal of an expression is put together. -/
inductive Composed (T : Sources) (scope : Scope) : Bool → Traversal → Prop
  | idle {t : Traversal} (idle : t.isIdle = true) (lowered : Lowered T t) : Composed T scope false t
  | reads {t : Traversal} (reads : ∀ s ∈ t, s.Reads T scope) (stays : ∀ s ∈ t, s.isEdge = false) :
    Composed T scope false t
  | pattern {p : Pattern} {t : Traversal} (run : Pattern.testTraversal scope p = .ok t)
    (reads : ∀ s ∈ t, s.Reads T scope) : Composed T scope true t
  | frame {s : Step} (frame : s.isFrame = true) (own : s.Own T)
    (inside : ∀ c ∈ s.children, Composed T scope true c) : Composed T scope false [s]
  | gather {branches : List Traversal} (nonempty : branches ≠ [])
    (inside : ∀ t ∈ branches, Composed T scope true t) :
    Composed T scope false [.union branches, .fold]
  /-- The elements of a path, each with a tag if it is handed back. -/
  | path {v : String} {shape : PathShape} {branches : List Traversal}
    (known : Table.get? scope.paths v = some shape)
    (nonempty : scope.Clean → branches ≠ [])
    (picks : ∀ t ∈ branches, ∃ element ∈ shape.elements, ∃ tag,
      t = .select [element.label] :: tag ∧ Traversal.isIdle tag = true ∧ Lowered T tag) :
    Composed T scope false [.union branches, .fold]
  | andThen {a b : Traversal} (first : Composed T scope false a) (idle : b.isIdle = true)
    (lowered : Lowered T b) : Composed T scope false (a ++ b)
  | loosen {t : Traversal} (tight : Composed T scope false t) : Composed T scope true t
  | compare {left right : Traversal} (op : LabelComparison) (n : UInt32)
    (first : Composed T scope false right)
    (second : Composed T scope false left) (isRight : right.IsOperand) (isLeft : left.IsOperand) :
    Composed T scope true (right ++ [.as (.token (.generated n))] ++ left ++
    [.whereLabel op (.token (.generated n))])

namespace Traversal

variable {a b : Traversal}

lemma isIdle_iff : t.isIdle = true ↔ AllSteps Step.isIdle t := all_eq_true

lemma isIdle_children (h : isIdle [s] = true) : ∀ c ∈ s.children, c.isIdle = true := fun c hc =>
  isIdle_iff.2 ((allSteps_cons.1 (isIdle_iff.1 h)).2.1 c hc)

lemma isIdle_unlessNull (h : t.isIdle = true) : isIdle [.unlessNull t] = true := by
  refine isIdle_iff.2 (allSteps_step (s := .choose _ _ _) rfl ?_)
  simpa [Step.children] using ⟨isIdle_iff.1 h, isIdle_iff.1 (rfl : isIdle null = true)⟩

lemma isBland_of_isIdle (h : t.isIdle = true) : t.isBland = true :=
  all_eq_true.2 ((isIdle_iff.1 h).mono fun _ hs => (Bool.and_eq_true_iff.1 hs).1)

end Traversal

namespace Step

/-- What can be read off the form of a step that reads. -/
structure Plainly (s : Step) : Prop where
  children : s.children = []
  calm : s.isCalm = true
  stands : s.StandsAnywhere

lemma plainly_of_isReading (h : s.isReading = true) : s.Plainly := by
  rw [isReading.eq_def] at h
  split at h
  case h_4 => exact ⟨rfl, rfl, by simp [StandsAnywhere, Label.isSynthetic]⟩
  case h_5 =>
    rw [isProbe.eq_def] at h
    split at h
    case h_10 => cases h
    all_goals exact ⟨rfl, rfl, trivial⟩
  all_goals exact ⟨rfl, rfl, trivial⟩

lemma isReading_of_isProbe (h : s.isProbe = true) : s.isReading = true := by
  cases s with
  | is | selectKey | values => rfl
  | select => cases h
  | _ => exact h

lemma traits_of_isFrame (h : s.isFrame = true) : s.isIdle = true ∧ s.isReading = false ∧
    s.isReducing = false := by
  rw [isFrame.eq_def] at h
  split at h
  case h_7 => cases h
  all_goals exact ⟨rfl, rfl, rfl⟩

end Step

/-! ## What is kept -/

/-- The property is kept when tame steps are put together.  Of what is inside a step something else
is asked, which holds also of patterns that are tests. -/
structure Closed (Q P : Traversal → Prop) : Prop where
  nil : Q []
  append {a b : Traversal} (ha : Q a) (hb : Q b) : Q (a ++ b)
  step {s : Step} (tame : s.isTame = true) (inside : ∀ c ∈ s.children, P c) : Q [s]
  inner {t : Traversal} (h : Q t) : P t
  pattern {scope : Scope} {p : Pattern} {t : Traversal}
    (run : Pattern.testTraversal scope p = .ok t) (reading : ∀ s ∈ t, s.isReading = true) : P t

namespace Closed

variable {Q P : Traversal → Prop} (hQ : Closed Q P)
include hQ

lemma flatMap {α : Type} {l : List α} {f : α → Traversal} (h : ∀ x ∈ l, Q (f x)) :
    Q (l.flatMap f) := by
  induction l with
  | nil => exact hQ.nil
  | cons x rest ih =>
    obtain ⟨hx, hrest⟩ := forall_mem_cons.1 h
    exact hQ.append hx (ih hrest)

lemma of_forall (h : ∀ s ∈ t, Q [s]) : Q t := by
  simpa using hQ.flatMap h

lemma tame (h : (walk t).all Step.isTame = true) : Q t := by
  induction t using inductChildren with
  | nil => exact hQ.nil
  | cons s rest hchild hrest =>
    obtain ⟨hs, hinside, hafter⟩ := allSteps_cons.1 (all_eq_true.1 h)
    refine hQ.append (hQ.step hs fun c hc => ?_) (hrest (all_eq_true.2 hafter))
    exact hQ.inner (hchild c hc (all_eq_true.2 (hinside c hc)))

lemma idle (h : t.isIdle = true) : Q t :=
  hQ.tame (all_eq_true.2 ((isIdle_iff.1 h).mono fun _ hs => (Bool.and_eq_true_iff.1 hs).2))

end Closed

/-! ## Parts -/

namespace Composed

lemma inside (h : Composed T scope loose [s]) (hs : s.isFrame = true) :
    ∀ c ∈ s.children, Composed T scope true c := by
  have hidle (hidle : isIdle [s] = true) (hlow : Lowered T [s]) :
      ∀ c ∈ s.children, Composed T scope true c := fun c hc =>
    .loosen (.idle (isIdle_children hidle c hc) (hlow.children c hc))
  generalize heq : [s] = t at h
  induction h with
  | idle hall hlow => exact hidle (heq ▸ hall) (heq ▸ hlow)
  | reads hreads | pattern _ hreads =>
    have hreading := (hreads s (heq ▸ mem_singleton_self s)).reading
    rw [(Step.traits_of_isFrame hs).2.1] at hreading
    cases hreading
  | frame _ _ hinside =>
    obtain rfl : s = _ := by simpa using heq
    exact hinside
  | gather | path => simp at heq
  | andThen _ hall hlow ih =>
    rcases append_eq_singleton_iff.1 heq.symm with ⟨-, rfl⟩ | ⟨rfl, -⟩
    · exact hidle hall hlow
    · exact ih rfl
  | loosen _ ih => exact ih heq
  | compare => exact absurd (congrArg List.length heq) (by simp; omega)

lemma conjuncts (h : Composed T scope true t) (e : Expr) :
    ∀ branch ∈ e.conjuncts t, Composed T scope true branch := by
  rcases e.conjuncts_eq t with heq | heq
  · exact heq ▸ forall_mem_singleton.2 h
  · exact inside (heq ▸ h) rfl

lemma disjuncts (h : Composed T scope true t) (e : Expr) :
    ∀ branch ∈ e.disjuncts t, Composed T scope true branch := by
  rcases e.disjuncts_eq t with heq | heq
  · exact heq ▸ forall_mem_singleton.2 h
  · exact inside (heq ▸ h) rfl

lemma constant {v : Value} (h : v.Sound T) : Composed T scope false [.constant v] :=
  .idle rfl (.constant h)

/-- A filter may be a comparison of two expressions. -/
abbrev loose? (goal : Goal) : Bool := goal = .filter

lemma ofValue (h : Composed T scope false t) (goal : Goal) :
    Composed T scope (loose? goal) (goal.ofValue t) := by
  cases goal with
  | value _ => exact h
  | filter => exact .loosen (h.andThen rfl (.is (forall_mem_singleton.2 (.bool true))))
  | operand => exact h.andThen rfl .notNull

lemma ofTest (h : Composed T scope true t) (goal : Goal) :
    Composed T scope (loose? goal) (goal.ofTest t) := by
  have hbool (b : Bool) : Composed T scope true [.constant (.bool b)] :=
    .loosen (constant (.bool b))
  have hchoose :
    Composed T scope false [.choose (.traversal t) [.constant (.bool true)]
    [.constant (.bool false)]] :=
    .frame rfl trivial (by simp [Step.children, h, hbool])
  cases goal with
  | filter => exact h
  | value mode => exact hchoose.ofValue (.value mode)
  | operand => exact hchoose.ofValue .operand

/-! ### Variables and paths -/

lemma select (h : scope.binds v = true) : Step.Reads T scope (.select [.named v]) :=
  ⟨rfl, forall_mem_singleton.2 ⟨v, rfl, h⟩, fun hscope => forall_mem_singleton.2 (hscope.binds h)⟩

lemma pathRead (h : Table.get? scope.paths v = some shape) (mode : Mode) :
    Composed T scope false (shape.read mode) := by
  refine .path h (fun hscope => by simpa using (hscope.path h).nonempty) fun t ht => ?_
  obtain ⟨i, hi, rfl⟩ := mem_mapIdx.1 ht
  refine ⟨_, getElem_mem hi, ?_⟩
  cases mode with
  | raw => exact ⟨[], rfl, rfl, .nil⟩
  | result =>
    exact ⟨[_], rfl, by
      rcases PathElement.tag_eq i _ with ⟨token, h⟩ | ⟨token, h⟩ <;> rw [h] <;> rfl,
      .pathElementTag i _⟩

lemma pathReadKind (h : Table.get? scope.paths v = some shape) (mode : Mode)
    (kind : ElementKind) : Composed T scope false (shape.readKind mode kind) := by
  have hread {branches : List Traversal}
      (hpicks : ∀ t ∈ branches, ∃ element ∈ shape.elements, ∃ tag,
      t = .select [element.label] :: tag ∧ isIdle tag = true ∧ Lowered T tag) : Composed T
      scope false
      (if branches.isEmpty then [.constant (.list [])] else [.union branches, .fold]) := by
    split
    · exact constant (.list (by simp))
    · rename_i hne
      exact .path h (fun _ => by simpa using hne) hpicks
  refine hread (forall_mem_map.2 fun element helem => ⟨element, mem_of_mem_filter helem, ?_⟩)
  cases mode with
  | raw => exact ⟨[], rfl, rfl, .nil⟩
  | result => exact ⟨[element.kind.tag], rfl, by cases element.kind <;> rfl, .kindTag _⟩

lemma recalls {mode : Mode} (h : scope.Recalls v mode t) : Composed T scope false t := by
  have hsel : Composed T scope false [.select [.named v]] :=
    .reads (forall_mem_singleton.2 (select h.bound)) (by simp [Step.isEdge])
  cases h with
  | label => exact hsel
  | tagged element =>
    exact hsel.andThen (isIdle_unlessNull (by cases element <;> rfl))
      (.unlessNull (.kindTag element))
  | path _ hpath => exact pathRead hpath.known mode

/-! ### Tests -/

lemma probe (hprobe : s.isProbe = true)
    (hbound : ∀ l ∈ s.references, ∃ v, l = .named v ∧ scope.binds v = true)
    (own : scope.Clean → s.Own T) : s.Reads T scope :=
  ⟨Step.isReading_of_isProbe hprobe, hbound, own⟩

lemma propertyTests {properties : List (String × Expr)} (h : PropertyTests properties t)
    (hT : ∀ entry ∈ properties, entry.2.Supplied T) : ∀ s ∈ t, s.Reads T scope := by
  intro s hs
  obtain ⟨entry, hentry, hplain, v, hv, rfl⟩ := exists_mem_of_forall₂ h s hs
  exact probe rfl (forall_mem_nil _) fun _ =>
    ⟨hplain, forall_mem_singleton.2 (hv.sound (hT entry hentry))⟩

lemma labelSteps {labels : List String} (h : ∀ l ∈ labels, Plain l) :
    ∀ s ∈ labelSteps labels, s.Reads T scope :=
  forall_mem_map.2 fun l hl => probe rfl (forall_mem_nil _) fun _ => forall_mem_singleton.2 (h l hl)

lemma nodeTests {node : NodePattern} (h : NodePattern.TestedBy node t)
    (hT : ∀ entry ∈ node.properties, entry.2.Supplied T) : ∀ s ∈ t, s.Reads T scope := by
  obtain ⟨hplain, htests⟩ := h
  exact forall_mem_append.2 ⟨labelSteps hplain, propertyTests htests hT⟩

lemma edgeStep {types : List String} (h : ∀ type ∈ types, Plain type ∨ T.types type)
    (d : Direction) : (d.edgeStep types).Reads T scope := by
  cases d <;> exact probe rfl (forall_mem_nil _) fun _ => h

lemma nodeStep (d : Direction) : d.nodeStep.Reads T scope := by
  cases d <;> exact probe rfl (forall_mem_nil _) fun _ => trivial

/-- The element is compared with the one that a variable holds. -/
lemma join (h : scope.binds v = true) : Step.Reads T scope (.whereLabel .eq (.named v)) :=
  probe rfl (forall_mem_singleton.2 ⟨v, rfl, h⟩) fun hscope => hscope.binds h

lemma bindingSelect {binding : Binding} (h : scope.binding? v = some binding) :
    ∀ s ∈ binding.select v, s.Reads T scope := by
  refine forall_mem_cons.2 ⟨select (Table.has_iff.2 (Table.mem_keys_of_get? h)), ?_⟩
  split
  · exact forall_mem_singleton.2 ⟨rfl, forall_mem_nil _, fun _ => forall_mem_singleton.2 .null⟩
  · exact forall_mem_nil _

/-- A hop of a pattern that is a test follows relationships of the types that it names, whatever
they look like. -/
lemma hopTest {hop : Hop} (h : Hop.TestedBy scope hop t)
    (htypes : ∀ type ∈ hop.rel.types, T.types type)
    (hT : ∀ entry ∈ hop.rel.properties ++ hop.node.properties, entry.2.Supplied T) :
    ∀ s ∈ t, s.Reads T scope := by
  obtain ⟨hrelT, hnodeT⟩ := forall_mem_append.1 hT
  obtain ⟨-, hrel, hjoin, hnode⟩ := h
  simp only [forall_mem_append, forall_mem_singleton]
  refine ⟨⟨⟨⟨edgeStep (fun type htype => .inr (htypes type htype)) _, propertyTests hrel hrelT⟩,
    nodeStep _⟩, ?_⟩, nodeTests hnode hnodeT⟩
  cases hjoin with
  | none => exact forall_mem_nil _
  | some _ hbound => exact forall_mem_singleton.2 (join hbound)

lemma patternTest {p : Pattern} (h : Pattern.TestedBy scope p t) (hT : (Expr.pattern p).Within T) :
    ∀ s ∈ t, s.Reads T scope := by
  have htypes : ∀ type ∈ p.hops.flatMap fun hop => hop.rel.types, T.types type := hT.types
  have hvals := hT.supplied.pattern
  simp only [Pattern.values, forall_mem_map, forall_mem_append, forall_mem_flatMap] at hvals
  obtain ⟨-, hbound, hstart, hhops⟩ := h
  refine forall_mem_append.2 ⟨forall_mem_cons.2 ⟨select hbound, nodeTests hstart hvals.1⟩,
    fun s hs => ?_⟩
  obtain ⟨t, ht, hs⟩ := mem_flatten.1 hs
  obtain ⟨hop, hhop, htest⟩ := exists_mem_of_forall₂ hhops t ht
  exact hopTest htest (fun type htype => htypes type (mem_flatMap.2 ⟨hop, hhop, htype⟩))
    (forall_mem_append.2 (hvals.2 hop hhop)) s hs

lemma direct {key : String} {binding : Binding} (hbound : scope.binding? v = some binding)
    (hkey : Plain key) (isMap : Bool) :
    ∀ s ∈ binding.select v ++ [.access isMap key], s.Reads T scope := by
  refine forall_mem_append.2 ⟨bindingSelect hbound, forall_mem_singleton.2 ?_⟩
  cases isMap with
  | true => exact ⟨rfl, forall_mem_nil _, fun _ => ⟨hkey, .inl ⟨key, rfl⟩⟩⟩
  | false => exact ⟨rfl, forall_mem_nil _, fun _ => forall_mem_singleton.2 hkey⟩

end Composed

/-! ## Expressions -/

lemma isIdle_propertyStep (isMap : Bool) (key : String) :
    isIdle [.unlessNull [.coalesce [[.access isMap key], null]]] = true := by
  cases isMap <;> rfl

lemma isIdle_hasAccess (isMap : Bool) (key : String) : isIdle [.hasAccess isMap key] = true := by
  cases isMap <;> rfl

lemma Function.Body.isIdle (h : Function.Body t) : t.isIdle = true := by
  cases h <;> rfl

lemma IsRange.isIdle (h : IsRange t) : t.isIdle = true := by
  cases h <;> rfl

open Composed in
/-- The traversal of an expression is put together in these ways. -/
theorem Expr.Lowers.composed (h : e.Lowers scope goal t) (hT : e.Within T) :
    Composed T scope (loose? goal) t := by
  -- Each rule composes in one way; `ofValue` and `ofTest` deal with what a goal adds.
  induction h with
  | always => exact .loosen (.idle rfl .always)
  | never _ => exact .loosen (.idle rfl .never)
  | literal goal hv => exact (constant ((Literal.delivers_toValue _).result _ hv)).ofValue goal
  | parameter goal hname =>
    exact (constant (.parameter hname (hT.supplied _ mem_cons_self))).ofValue goal
  | var goal hread => exact (recalls hread).ofValue goal
  | direct isMap hbound hk =>
    refine .reads (Composed.direct hbound hk isMap)
      (forall_mem_append.2 ⟨?_, forall_mem_singleton.2 ?_⟩)
    · rw [Binding.select]
      split <;> simp [Step.isEdge, Step.notNull]
    · cases isMap <;> rfl
  | property goal hstep _ ih =>
    obtain ⟨hk, isMap, rfl⟩ := (Scope.delivers_propertyStep _ _ _).result _ hstep
    exact ofValue (.andThen (ih ⟨hT.types, hT.supplied⟩) (isIdle_propertyStep isMap _)
      (.propertyStep hk isMap)) goal
  | constants goal hvs =>
    exact (constant (.list ((Literal.delivers_toValues _).result _ hvs))).ofValue goal
  | @list goal items ts hne hlen _ ih =>
    have hitems := Expr.Within.items hT.types hT.supplied
    have hts : ∀ t ∈ ts, Composed T scope true t :=
      forall_mem_of_zip hlen fun p hp => .loosen (ih p hp (hitems p.1 (of_mem_zip hp).1))
    exact ofValue (.gather (fun heq => hne (length_eq_zero_iff.1 (by simpa [heq] using hlen))) hts)
      goal
  | emptyMap goal => exact (constant (.map (by simp))).ofValue goal
  | @map goal entries ts hne hkeys hplain _ ih =>
    have hlen : entries.length = ts.length := by simpa using (congrArg List.length hkeys).symm
    have hts : ∀ t ∈ ts, Composed T scope true t.2 :=
      forall_mem_of_zip hlen fun p hp => .loosen (ih p hp (hT.entries p.1 (of_mem_zip hp).1))
    refine ofValue (.frame (s := .project ts) rfl ⟨?_, fun t ht => ?_⟩ (forall_mem_map.2 hts)) goal
    · exact fun heq => hne (length_eq_zero_iff.1 (by simpa [heq] using hlen))
    · obtain ⟨entry, hentry, heq⟩ := mem_map.1 (hkeys ▸ mem_map_of_mem ht)
      exact heq ▸ hplain entry hentry
  | not goal _ ih =>
    have hinner := forall_mem_singleton.2 (ih ⟨hT.types, hT.supplied⟩)
    exact ofTest (.loosen (.frame (s := .not _) rfl trivial hinner)) goal
  | @and goal l r _ _ _ _ ihleft ihright =>
    obtain ⟨hl, hr⟩ := hT.operands rfl rfl
    have hbranches :=
      forall_mem_append.2 ⟨Composed.conjuncts (ihleft hl) l, Composed.conjuncts (ihright hr) r⟩
    exact ofTest (.loosen (.frame (s := .and _) rfl trivial hbranches)) goal
  | @or goal l r _ _ _ _ ihleft ihright =>
    obtain ⟨hl, hr⟩ := hT.operands rfl rfl
    have hbranches :=
      forall_mem_append.2 ⟨Composed.disjuncts (ihleft hl) l, Composed.disjuncts (ihright hr) r⟩
    exact ofTest (.loosen (.frame (s := .or _) rfl trivial hbranches)) goal
  | compareNull goal => exact ofTest (.loosen (.idle rfl .never)) goal
  | compareRight goal op hnull hv _ ih =>
    obtain ⟨hl, hr⟩ := hT.compared hnull
    exact ofTest (.loosen (.andThen (ih hl) rfl (.comparison (hv.sound hr.supplied)))) goal
  | compareLeft goal op hnull hv _ ih =>
    obtain ⟨hl, hr⟩ := hT.compared hnull
    exact ofTest (.loosen (.andThen (ih hr) rfl (.comparison (hv.sound hl.supplied)))) goal
  | compare goal op n hnull _ _ hright hleft ihright ihleft =>
    obtain ⟨hl, hr⟩ := hT.compared hnull
    exact ofTest (.compare _ n (ihright hr) (ihleft hl) hright hleft) goal
  | stringMatch goal test hv _ ih =>
    obtain ⟨hl, hr⟩ := hT.operands rfl rfl
    have hargument := forall_mem_singleton.2 (hv.sound hr.supplied)
    exact ofTest (.loosen (.andThen (ih hl) rfl (.is (p := .custom _ (some _)) hargument))) goal
  | isNull goal _ ih =>
    exact ofTest (.loosen (.andThen (ih ⟨hT.types, hT.supplied⟩) rfl .isNull)) goal
  | isNotNull goal _ ih =>
    exact ofTest (.loosen (.andThen (ih ⟨hT.types, hT.supplied⟩) rfl .notNull)) goal
  | member goal hvs _ ih =>
    obtain ⟨hitem, hgroup⟩ := hT.operands rfl rfl
    exact ofTest
      (.loosen (.andThen (ih hitem) rfl (.is (p := .within _) (hvs.sound hgroup.supplied)))) goal
  | hasLabels goal hbound hplain =>
    refine ofTest
      (.loosen (.reads (forall_mem_cons.2 ⟨select hbound, Composed.labelSteps hplain⟩) ?_)) goal
    exact forall_mem_cons.2 ⟨rfl, forall_mem_map.2 fun _ _ => rfl⟩
  | pattern goal htest hrun => exact ofTest (.pattern hrun (patternTest htest hT)) goal
  | @coalesce goal _ _ args ts _ hlen _ ih =>
    have hargs := Expr.Within.items hT.types hT.supplied
    have hts : ∀ t ∈ ts, Composed T scope false t :=
      forall_mem_of_zip hlen fun p hp => ih p hp (hargs p.1 (of_mem_zip hp).1)
    refine ofValue
      (.frame rfl (by simp [Step.Own]) (forall_mem_append.2 ⟨?_, forall_mem_singleton.2 ?_⟩)) goal
    · exact forall_mem_map.2 fun t ht => .loosen (.andThen (hts t ht) rfl .notNull)
    · exact .loosen (constant .null)
  | range goal _ _ hrange => exact ofValue (.idle hrange.isIdle (.range hrange)) goal
  | pathPart goal kind _ hpath => exact (pathReadKind hpath.known _ kind).ofValue goal
  | existence goal _ hk _ _ ih =>
    have hprop := Expr.Within.items hT.types hT.supplied _ mem_cons_self
    have hbase := ih ⟨hprop.types, hprop.supplied⟩
    exact ofValue (.andThen hbase (isIdle_hasAccess _ _) (.hasAccess _ hk)) goal
  | pathLength goal => exact (constant (.int _)).ofValue goal
  | function goal _ hbody _ ih =>
    have hbody := (Function.delivers_body _ _ _ _ _).result _ hbody
    have harg := ih (Expr.Within.items hT.types hT.supplied _ mem_cons_self)
    exact ofValue (.andThen harg (isIdle_unlessNull hbody.isIdle)
      (.unlessNull (.functionBody hbody))) goal

/-! ## What follows -/

lemma Lowered.reads (hscope : scope.Clean) (h : ∀ s ∈ t, s.Reads T scope) : Lowered T t :=
  .of_forall fun s hs =>
    .leaf ((h s hs).own hscope) (Step.plainly_of_isReading (h s hs).reading).children

namespace Composed

/-- It is a traversal that lowering produces. -/
theorem lowered (h : Composed T scope loose t) (hscope : scope.Clean) : Lowered T t := by
  have hfold : Lowered T [.fold] := .leaf trivial rfl
  induction h with
  | idle _ hlow => exact hlow
  | reads hreads | pattern _ hreads => exact .reads hscope hreads
  | frame _ own _ ih => exact .step own ih
  | gather hne _ ih => exact .append (.union hne ih) hfold
  | path hknown hne hpicks =>
    refine .append (.union (hne hscope) fun t ht => ?_) hfold
    obtain ⟨element, helem, tag, rfl, -, htag⟩ := hpicks t ht
    exact .append (.select ((hscope.path hknown).labels element helem)) htag
  | andThen _ _ hlow ih => exact .append ih hlow
  | loosen _ ih => exact ih
  | compare op n _ _ _ _ ihright ihleft => exact .compare op n ihright ihleft

/-- What is kept when traversals are put together holds of it. -/
theorem closed {Q P : Traversal → Prop} (hQ : Closed Q P) (h : Composed T scope loose t) :
    P t ∧ (loose = false → Q t) := by
  have hinner {t : Traversal} {loose : Bool} (ht : Q t) : P t ∧ (loose = false → Q t) :=
    ⟨hQ.inner ht, fun _ => ht⟩
  have hgather {branches : List Traversal} (h : ∀ t ∈ branches, P t) : Q [.union branches, .fold] :=
    hQ.append (a := [_]) (hQ.step rfl h) (hQ.tame rfl)
  induction h with
  | idle hidle => exact hinner (hQ.idle hidle)
  | reads hreads hstays =>
    refine hinner (hQ.of_forall fun s hs => ?_)
    have hplainly := Step.plainly_of_isReading (hreads s hs).reading
    exact hQ.step (by simp [Step.isTame, hplainly.calm, hstays s hs]) (by simp [hplainly.children])
  | pattern hrun hreads => exact ⟨hQ.pattern hrun fun s hs => (hreads s hs).reading, by simp⟩
  | frame hframe _ _ ih =>
    have htame := (Bool.and_eq_true_iff.1 (Step.traits_of_isFrame hframe).1).2
    exact hinner (hQ.step htame fun c hc => (ih c hc).1)
  | gather _ _ ih => exact hinner (hgather fun t ht => (ih t ht).1)
  | path _ _ hpicks =>
    refine hinner (hgather fun t ht => ?_)
    obtain ⟨element, -, tag, rfl, hidle, -⟩ := hpicks t ht
    exact hQ.inner (hQ.append (a := [_]) (hQ.tame rfl) (hQ.idle hidle))
  | andThen _ hidle _ ih => exact hinner (hQ.append (ih.2 rfl) (hQ.idle hidle))
  | loosen _ ih => exact ⟨ih.1, by simp⟩
  | compare op n _ _ _ _ ihright ihleft =>
    have hlabelled := hQ.append (ihright.2 rfl) (hQ.tame (t := [.as (.token (.generated n))]) rfl)
    exact ⟨hQ.inner (hQ.append (hQ.append hlabelled (ihleft.2 rfl)) (hQ.tame rfl)), by simp⟩

end Composed

lemma Expr.within_any (e : Expr) : e.Within .any := ⟨fun _ _ => trivial, fun _ _ => trivial⟩

namespace Closed

variable {Q P : Traversal → Prop} (hQ : Closed Q P)
include hQ

lemma value {mode : Mode} (h : e.Lowers scope (.value mode) t) : Q t :=
  ((h.composed e.within_any).closed hQ).2 rfl

lemma test (h : e.Lowers scope goal t) : P t := ((h.composed e.within_any).closed hQ).1

end Closed

lemma closed_calm : Closed Calm Calm where
  nil := allSteps_nil
  append ha hb := allSteps_append.2 ⟨ha, hb⟩
  step htame := allSteps_step (Bool.and_eq_true_iff.1 htame).1
  inner := id
  pattern _ hreading := allSteps_of_forall fun s hs =>
    have hplainly := Step.plainly_of_isReading (hreading s hs)
    ⟨hplainly.calm, hplainly.children⟩

/-- Expressions only read. -/
theorem Expr.Lowers.calm (h : e.Lowers scope goal t) : t.Calm := closed_calm.test h

end CypherGremlin
