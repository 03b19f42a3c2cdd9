import CypherGremlin.Proofs.Statement.Lowers.Matching
import CypherGremlin.Statement.Deleting
import CypherGremlin.Statement.Writing

/-!
# What updates are lowered to

* `Creating.Stores` is for the properties of an element, and `Creating.Creates` for a pattern that
  is created.
* `Merging.Merges` is for a pattern that is merged.
* `Updating.Sets` and `Updating.Removes` are for SET and REMOVE.
* `Deleting.Marks` is for DELETE, which only marks what the end of the program removes.
-/

namespace CypherGremlin

variable {draft draft' : Draft} {t : Traversal}

/-! ## CREATE -/

namespace Creating

/-- The steps that give an element its properties. -/
inductive Stores : Draft → List (String × Expr) → Traversal → Draft → Prop
  | nil (draft : Draft) : Stores draft [] [] draft
  | null {draft draft' : Draft} {key : String} {rest : List (String × Expr)} {t : Traversal}
    (plain : Plain key)
    (others : Stores draft rest t draft') : Stores draft ((key, .literal .null) :: rest) t draft'
  | constant {draft draft' : Draft} {key : String} {e : Expr} {v : Value}
    {rest : List (String × Expr)} {t : Traversal}
    (plain : Plain key) (stored : e ≠ .literal .null) (constant : e.Constant v)
    (others : Stores draft rest t draft') :
    Stores draft ((key, e) :: rest) (.property key v :: t) draft'
  | computed {draft draft₁ draft₂ : Draft} {key : String} {e : Expr} {rest : List (String × Expr)}
    {value t : Traversal}
    (plain : Plain key) (varies : e.constant? = .ok none)
    (computes : draft.Computes (.value .raw) e value draft₁)
    (others : Stores draft₁ rest t draft₂) : Stores draft ((key, e) :: rest)
    (.propertyFrom key value :: t) draft₂

/-- A node of the pattern: one that is in scope, or a new one. -/
inductive Node (draft : Draft) (pattern : NodePattern) : Label → Traversal → Draft → Prop
  | known {v : String} {binding : Binding} (var : pattern.var = some v) (bare : pattern.labels = [])
    (plain : pattern.properties = []) (bound : draft.scope.binding? v = some binding) :
    Node draft pattern (.named v) [] draft
  | new {name : Option String} {assignments : Traversal} {l : Label} {draft₁ draft₂ : Draft}
    (unbound : ∀ v ∈ pattern.var, draft.scope.binds v = false)
    (labels : pattern.labels = name.toList)
    (plain : ∀ l ∈ pattern.labels, Plain l)
    (stores : Stores draft pattern.properties assignments draft₁)
    (label : draft₁.Labels .node false pattern.var l draft₂) :
    Node draft pattern l (.addV name :: assignments ++ [.as l]) draft₂

/-- A relationship between two nodes. -/
inductive Relationship (draft : Draft) (rel : RelPattern) (first second : Label) :
    Traversal → Draft → Prop
  | intro {type : String} {source target l : Label} {assignments : Traversal}
    {draft₁ draft₂ : Draft}
    (types : rel.types = [type]) (plain : Plain type) (ends : ends? rel.direction first second =
    some (source, target)) (stores : Stores draft rel.properties assignments draft₁)
    (label : draft₁.Labels .relationship false rel.var l draft₂) :
    Relationship draft rel first second (.addE type source target :: assignments ++ [.as l]) draft₂

inductive Hops : Label → Draft → List Hop → Traversal → Draft → Prop
  | nil (previous : Label) (draft : Draft) : Hops previous draft [] [] draft
  | cons {previous next : Label} {draft draft₁ draft₂ draft₃ : Draft} {hop : Hop} {rest : List Hop}
    {nodeSteps relSteps t : Traversal} (node : Node draft hop.node next nodeSteps draft₁)
    (rel : Relationship draft₁ hop.rel previous next relSteps draft₂)
    (hops : Hops next draft₂ rest t draft₃) :
    Hops previous draft (hop :: rest) (nodeSteps ++ relSteps ++ t) draft₃

inductive Creates (draft : Draft) (p : Pattern) : Traversal → Draft → Prop
  | intro {first : Label} {steps t : Traversal} {draft₁ draft₂ : Draft} (name : p.path = none)
    (start : Node draft p.start first steps draft₁) (hops : Hops first draft₁ p.hops t draft₂) :
    Creates draft p (steps ++ t) draft₂

inductive CreatesAll : Draft → List Pattern → Traversal → Draft → Prop
  | nil (draft : Draft) : CreatesAll draft [] [] draft
  | cons {draft draft₁ draft₂ : Draft} {p : Pattern} {rest : List Pattern} {steps t : Traversal}
    (pattern : Creates draft p steps draft₁) (patterns : CreatesAll draft₁ rest t draft₂) :
    CreatesAll draft (p :: rest) (steps ++ t) draft₂

lemma Stores.counts {entries : List (String × Expr)} (h : Stores draft entries t draft') :
    draft.Counts draft' := by
  induction h with
  | nil => exact .refl _
  | null _ _ ih | constant _ _ _ _ ih => exact ih
  | computed _ _ hval _ ih => exact hval.counts.trans ih

lemma deliversFrom_properties (entries : List (String × Expr)) :
    DeliversFrom draft (properties entries) (Stores draft entries) := by
  induction entries generalizing draft with
  | nil => exact .pure (.nil draft)
  | cons entry rest ih =>
    obtain ⟨key, e⟩ := entry
    have hall (steps : Traversal) (draft₁ : Draft)
        (hsteps : ∀ t draft₂, Stores draft₁ rest t draft₂ →
        Stores draft ((key, e) :: rest) (steps ++ t) draft₂) : DeliversFrom draft₁ (do
          let steps ← pure steps
          return steps ++ (← properties rest) : Drafting Traversal)
            (Stores draft ((key, e) :: rest)) := by
      rw [pure_bind]
      exact ih.bind fun t draft₂ ht => .pure (hsteps t draft₂ ht)
    have hconst := e.delivers_propertyConstant key
    rw [properties.eq_def]
    refine .lift_bind (delivers_checkName key _) fun _ hkey => ?_
    dsimp only
    split
    · exact hall [] draft fun _ _ ht => .null hkey ht
    · rename_i hstored
      exact .lift_bind hconst fun v hv => hall _ draft fun _ _ ht =>
        .constant hkey (by simpa using hstored) hv.2 ht
    · exact .lift_bind hconst fun v hv => hall _ draft fun _ _ ht =>
        .constant hkey (by simp) hv.2 ht
    · rename_i hlit hparam
      refine (Drafting.deliversFrom_value e .raw).bind fun value draft₁ hval =>
        hall _ draft₁ fun _ _ ht => ?_
      refine .computed hkey ?_ hval ht
      cases e with
      | literal => exact absurd rfl (hlit _)
      | parameter => exact absurd rfl (hparam _)
      | _ => rfl

lemma deliversFrom_node (pattern : NodePattern) :
    DeliversFrom draft (node pattern) fun r draft' => Node draft pattern r.1 r.2 draft' := by
  refine Drafting.scope_bind ?_
  split
  · rename_i v hv
    refine .ite (fun _ => .throw_bind rfl) fun hempty => ?_
    refine .lift_bind (draft.scope.delivers_expectKind _ _ _) fun binding hbind => .pure ?_
    simp only [Bool.not_eq_true, Bool.or_eq_false_iff, Bool.not_eq_false', List.isEmpty_iff]
      at hempty
    exact .known (Option.filter_eq_some_iff.1 hv).1 hempty.1 hempty.2 hbind
  · rename_i hfree
    have hnew (name : Option String) (hlabels : pattern.labels = name.toList)
        (hplain : ∀ l ∈ pattern.labels, Plain l) : DeliversFrom draft (do
          let assignments ← properties pattern.properties
          let label ← Drafting.bindElement pattern.var .node false nodeContext
          return (label, Step.addV name :: assignments ++ [.as label])) fun r draft' =>
            Node draft pattern r.1 r.2 draft' :=
      (deliversFrom_properties _).bind fun _ _ hstores =>
        (Drafting.deliversFrom_bindElement _ _ _ _).bind
        fun _ _ hl => .pure (.new (Scope.binds_of_filter hfree) hlabels hplain hstores hl)
    split
    · rename_i hlabels
      exact hnew none hlabels (by simp [hlabels])
    · rename_i l hlabels
      exact .lift_bind (delivers_checkName _ _) fun _ hl =>
        hnew (some l) hlabels (by simpa [hlabels] using hl)
    · exact .throw_bind rfl

lemma deliversFrom_type {β : Type} {types : List String} {e : QueryFault}
    (he : e.reportsLabel = false) {f : String → Drafting β} {Q : β → Draft → Prop}
    (hf : ∀ type, types = [type] → Plain type → DeliversFrom draft (f type) Q) :
    DeliversFrom draft (do
      let type ← match types with
        | [type] => pure type
        | _ => throw e
      checkName type "relationship type"
      f type : Drafting β) Q := by
  rcases types with _ | ⟨type, _ | ⟨_, _⟩⟩
  · exact .throw_bind he
  · exact .lift_bind (delivers_checkName type _) fun _ htype => hf type rfl htype
  · exact .throw_bind he

lemma deliversFrom_relationship (rel : RelPattern) (first second : Label) :
    DeliversFrom draft (relationship rel first second) (Relationship draft rel first second) := by
  refine .lift_bind (delivers_checkLength rel) fun _ _ =>
    deliversFrom_type rfl fun type htypes htype => ?_
  split
  · exact .throw rfl
  · rename_i hends
    exact (deliversFrom_properties _).bind fun _ _ hstores =>
      (Drafting.deliversFrom_bindElement _ _ _ _).bind
      fun _ _ hl => .pure (.intro htypes htype hends hstores hl)

lemma deliversFrom_hops (previous : Label) (hs : List Hop) :
    DeliversFrom draft (hops previous hs) (Hops previous draft hs) := by
  induction hs generalizing draft previous with
  | nil => exact .pure (.nil previous draft)
  | cons hop rest ih =>
    exact (deliversFrom_node hop.node).bind fun r _ hnode =>
      (deliversFrom_relationship hop.rel previous r.1).bind
      fun _ _ hrel => (ih r.1).bind fun _ _ hrest => .pure (.cons hnode hrel hrest)

lemma deliversFrom_pattern (p : Pattern) : DeliversFrom draft (pattern p) (Creates draft p) :=
  .ite (fun _ => .throw_bind rfl) fun hname => (deliversFrom_node p.start).bind fun r _ hstart =>
    (deliversFrom_hops r.1 p.hops).bind fun _ _ hhops =>
      .pure (.intro (by simpa using hname) hstart hhops)

end Creating

lemma deliversFrom_createSteps (ps : List Pattern) :
    DeliversFrom draft (createSteps ps) (Creating.CreatesAll draft ps) := by
  induction ps generalizing draft with
  | nil => exact .pure (.nil draft)
  | cons p rest ih =>
    exact (Creating.deliversFrom_pattern p).bind fun _ _ hp => ih.bind fun _ _ hrest =>
      .pure (.cons hp hrest)

namespace Merging

/-- The constants that a pattern gives to properties. -/
abbrev Constants : List (String × Expr) → List (String × Value) → Prop :=
  List.Forall₂ fun entry value => Plain entry.1 ∧ value.1 = entry.1 ∧ entry.2.Constant value.2

lemma delivers_constants (properties : List (String × Expr)) :
    Delivers (constants properties) (Constants properties) :=
  Delivers.mapM fun entry _ => (entry.2.delivers_propertyConstant entry.1).bind fun _ hv =>
    .pure ⟨hv.1, rfl, hv.2⟩

/-- An end of a relationship: a node in scope of which the pattern says nothing else. -/
inductive Endpoint (scope : Scope) (pattern : NodePattern) : Label → Prop
  | intro {v : String} (var : pattern.var = some v) (bound : scope.binds v = true)
    (bare : pattern.labels = [])
    (plain : pattern.properties = []) : Endpoint scope pattern (.named v)

lemma delivers_endpoint (scope : Scope) (pattern : NodePattern) :
    Delivers (endpoint scope pattern) (Endpoint scope pattern) := by
  rw [endpoint]
  split
  · rename_i hv
    obtain ⟨hvar, hbare⟩ := Option.filter_eq_some_iff.1 hv
    simp only [Bool.and_eq_true, List.isEmpty_iff] at hbare
    exact (scope.delivers_expectKind _ _ _).bind fun _ _ =>
      .pure (.intro hvar hbare.1.1 hbare.1.2 hbare.2)
  · exact .error rfl

/-- A pattern that is found, or else created: a node, or a relationship between nodes in scope. -/
inductive Merges (draft : Draft) (p : Pattern) : Traversal → Draft → Prop
  | node {kind : Option String} {tests : Traversal} {values : List (String × Value)} {l : Label}
    {draft' : Draft} (hops : p.hops = []) (unbound : ∀ v ∈ p.start.var, draft.scope.binds v = false)
    (labels : p.start.labels = kind.toList) (tested : NodePattern.TestedBy p.start tests)
    (constants : Constants p.start.properties values)
    (label : draft.Labels .node false p.start.var l draft') (name : p.path = none) :
    Merges draft p [.coalesce [.V :: tests, .addV kind ::
      (values.filter fun entry => isStored entry.2).map fun entry => .property entry.1 entry.2],
      .as l] draft'
  | relationship {hop : Hop} {type : String} {first second source target l : Label}
    {values : List (String × Value)}
    {draft' : Draft} (hops : p.hops = [hop]) (starts : Endpoint draft.scope p.start first)
    (finishes : Endpoint draft.scope hop.node second) (types : hop.rel.types = [type])
    (plain : Plain type)
    (ends : Creating.ends? hop.rel.direction first second = some (source, target))
    (constants : Constants hop.rel.properties values)
    (label : draft.Labels .relationship false hop.rel.var l draft') (name : p.path = none) :
    Merges draft p
    [.coalesce [[.select [source], .outE [type]] ++
    (values.map fun entry => .has entry.1 (.eq entry.2)) ++
      [.filter [.inV, .whereLabel .eq target]],
      .addE type source target :: values.map fun entry => .property entry.1 entry.2], .as l] draft'

end Merging

open Merging in
lemma deliversFrom_mergeSteps (p : Pattern) :
    DeliversFrom draft (mergeSteps p) (Merges draft p) := by
  refine .ite (fun _ => .throw_bind rfl) fun hname => ?_
  have hname : p.path = none := by simpa using hname
  split
  · rename_i hhops
    refine Drafting.scope_bind (.ite (fun _ => .throw_bind rfl) fun hfree => ?_)
    have hunbound : ∀ v ∈ p.start.var, draft.scope.binds v = false := by
      simpa [Option.any_eq_false] using hfree
    have hnew (name : Option String) (hlabels : p.start.labels = name.toList) : DeliversFrom
        draft (do
        let tests ← NodePattern.tests p.start
        let values ← constants p.start.properties
        let assignments := (values.filter fun entry => isStored entry.2).map fun entry =>
          .property entry.1 entry.2
        let label ← Drafting.bindElement p.start.var .node false nodeContext
        return [.coalesce [.V :: tests, .addV name :: assignments], .as label] : Drafting Traversal)
          (Merges draft p) :=
      .lift_bind (NodePattern.delivers_tests p.start) fun _ htests =>
        .lift_bind (delivers_constants _) fun _ hvals =>
        (Drafting.deliversFrom_bindElement _ _ _ _).bind fun _ _ hl =>
          .pure (.node hhops hunbound hlabels htests hvals hl hname)
    -- A node is created with one label at most.
    rcases hlabels : p.start.labels with _ | ⟨l, _ | ⟨_, _⟩⟩
    · exact hnew none hlabels
    · exact hnew (some l) hlabels
    · exact .throw_bind rfl
  · rename_i hop hhops
    refine Drafting.scope_bind (.lift_bind (delivers_endpoint draft.scope p.start)
      fun first hfirst => ?_)
    refine .lift_bind (delivers_endpoint draft.scope hop.node) fun second hsecond => ?_
    refine .lift_bind (delivers_checkLength hop.rel) fun _ _ =>
      Creating.deliversFrom_type rfl fun type htypes htype => ?_
    split
    · exact .throw rfl
    · rename_i hends
      exact .lift_bind (delivers_constants _) fun _ hvals =>
        (Drafting.deliversFrom_bindElement _ _ _ _).bind
        fun _ _ hl => .pure (.relationship hhops hfirst hsecond htypes htype hends hvals hl hname)
  · exact .throw rfl

/-! ## SET and REMOVE -/

namespace Updating

/-- The element that a clause writes to. -/
inductive Targets (scope : Scope) (v : String) : Traversal → Prop
  | intro {binding : Binding} (bound : scope.binding? v = some binding) : Targets scope v
    (binding.select v)

lemma delivers_target (scope : Scope) (v context : String) :
    Delivers (target scope v context) (Targets scope v) := by
  refine (scope.delivers_lookup v context).bind fun binding hbind => ?_
  split
  case h_4 => exact .throw rfl
  all_goals exact .pure (.intro hbind)

/-- What is written: a null removes the property. -/
inductive Assigns (draft : Draft) (key : String) (e : Expr) : Traversal → Draft → Prop
  | null (null : e = .literal .null) : Assigns draft key e (removal key) draft
  | constant {v : Value} (stored : e ≠ .literal .null) (constant : e.Constant v) :
    Assigns draft key e [.property key v] draft
  | computed {t : Traversal} {draft' : Draft} (varies : e.constant? = .ok none)
    (value : draft.Computes (.value .raw) e t draft') : Assigns draft key e
    [.propertyFrom key t] draft'

lemma deliversFrom_assignment (key : String) (e : Expr) :
    DeliversFrom draft (assignment key e) (Assigns draft key e) := by
  rw [assignment.eq_def]
  split
  · exact .pure (.null rfl)
  · rename_i hstored
    refine .lift_bind e.delivers_constant?.eq fun v? hv? => ?_
    cases v? with
    | some v =>
      exact .pure (.constant (by simpa using hstored) ((e.delivers_constant?.result _ hv? v).1 rfl))
    | none =>
      exact (Drafting.deliversFrom_value e .raw).bind fun _ _ hval => .pure (.computed hv? hval)

/-- SET runs beside the rows. -/
inductive Sets : Draft → List Assignment → Traversal → Draft → Prop
  | nil (draft : Draft) : Sets draft [] [] draft
  | cons {draft draft₁ draft₂ : Draft} {item : Assignment} {rest : List Assignment}
    {target write t : Traversal}
    (element : Targets draft.scope item.var target) (plain : Plain item.key)
    (written : Assigns draft item.key item.value write draft₁)
    (others : Sets draft₁ rest t draft₂) :
    Sets draft (item :: rest) (.sideEffect (target ++ write) :: t) draft₂

abbrev Removes (scope : Scope) : List PropertyRef → Traversal → Prop :=
  List.Forall₂ fun item s =>
    Plain item.key ∧ ∃ target, Targets scope item.var target ∧
      s = .sideEffect (target ++ removal item.key)

lemma Assigns.counts {key : String} {e : Expr} (h : Assigns draft key e t draft') :
    draft.Counts draft' := by
  cases h with
  | null | constant => exact .refl _
  | computed _ hval => exact hval.counts

lemma Sets.counts {items : List Assignment} (h : Sets draft items t draft') :
    draft.Counts draft' := by
  induction h with
  | nil => exact .refl _
  | cons _ _ hwritten _ ih => exact hwritten.counts.trans ih

end Updating

open Updating in
lemma deliversFrom_setSteps (items : List Assignment) :
    DeliversFrom draft (setSteps items) (Sets draft items) := by
  induction items generalizing draft with
  | nil => exact .pure (.nil draft)
  | cons item rest ih =>
    refine Drafting.scope_bind (.lift_bind (delivers_target draft.scope item.var _)
      fun target htarget => ?_)
    exact .lift_bind (delivers_checkName item.key _) fun _ hkey =>
      (deliversFrom_assignment item.key item.value).bind
      fun _ _ hwritten => ih.bind fun _ _ hothers => .pure (.cons htarget hkey hwritten hothers)

open Updating in
lemma delivers_removeSteps (scope : Scope) (items : List PropertyRef) :
    Delivers (removeSteps scope items) (Removes scope items) :=
  Delivers.mapM fun item _ => (delivers_target scope item.var _).bind fun target htarget =>
    (delivers_checkName item.key _).bind fun _ hkey => .pure ⟨hkey, target, htarget, rfl⟩

/-! ## DELETE -/

namespace Deleting

/-- The bucket for the given kind of deletion. -/
def bucketOf (detach : Bool) : Label := if detach then detachedBucket else plainBucket

/-- Something that is collected for deletion: what has a label and passes a test. -/
structure Mark where
  label : Label
  test : Predicate
  detach : Bool

def Mark.step (mark : Mark) : Step :=
  .sideEffect [.select [mark.label], .is mark.test, .aggregate (bucketOf mark.detach)]

def Mark.use (buckets : Buckets) (mark : Mark) : Buckets :=
  if mark.detach then { buckets with detached := true } else { buckets with plain := true }

/-- What an expression stands for: an element, the elements of a path, or something of which only
the run tells what it is. -/
inductive Marks (scope : Scope) (detach : Bool) : Expr → List Mark → Prop
  | element {v : String} {binding : Binding} (bound : scope.binding? v = some binding)
    (kind : binding.kind = .node ∨ binding.kind = .relationship) :
    Marks scope detach (.var v) [⟨.named v, .neq .null, detach || binding.kind = .relationship⟩]
  | path {v : String} {binding : Binding} {shape : PathShape}
    (bound : scope.binding? v = some binding)
    (kind : binding.kind = .path) (known : Table.get? scope.paths v = some shape) :
    Marks scope detach (.var v)
      (shape.elements.map fun element => ⟨element.label, .neq .null,
      detach || element.kind = .relationship⟩)
  | dynamic {v : String} {binding : Binding} (bound : scope.binding? v = some binding)
    (kind : binding.kind = .value ∨ binding.kind = .map) :
    Marks scope detach (.var v)
      [⟨.named v, .custom .isNode none, detach⟩, ⟨.named v, .custom .isRelationship none, true⟩]

/-- The targets of a clause. -/
inductive MarksAll (scope : Scope) (detach : Bool) : List Expr → List Mark → Prop
  | nil : MarksAll scope detach [] []
  | cons {e : Expr} {rest : List Expr} {marks others : List Mark}
    (first : Marks scope detach e marks)
    (more : MarksAll scope detach rest others) : MarksAll scope detach (e :: rest) (marks ++ others)

def mark (draft : Draft) (marks : List Mark) : Draft :=
  { draft with buckets := marks.foldl Mark.use draft.buckets }

lemma mark_append (draft : Draft) (a b : List Mark) :
    mark (mark draft a) b = mark draft (a ++ b) := by
  simp [mark, List.foldl_append]

lemma deliversFrom_stage (l : Label) (detach : Bool) :
    DeliversFrom draft (stage l detach) fun t draft' =>
    t = [Mark.step ⟨l, .neq .null, detach⟩] ∧ draft' = mark draft [⟨l, .neq .null, detach⟩] := by
  cases detach <;> exact Delivers.ok ⟨rfl, rfl⟩

lemma deliversFrom_stageElements (detach : Bool) (elements : List PathElement) :
    DeliversFrom draft (elements.mapM (stageElement detach)) fun ts draft' => ∃ marks : List Mark,
      marks = elements.map
      (fun element => ⟨element.label, .neq .null, detach || element.kind = .relationship⟩) ∧
        ts.flatten = marks.map Mark.step ∧ draft' = mark draft marks := by
  induction elements generalizing draft with
  | nil => exact .pure ⟨[], rfl, rfl, rfl⟩
  | cons element rest ih =>
    have hstage : DeliversFrom draft (stageElement detach element) fun t draft' =>
        t = [Mark.step ⟨element.label, .neq .null, detach || element.kind = .relationship⟩] ∧
          draft' =
          mark draft [⟨element.label, .neq .null, detach || element.kind = .relationship⟩] := by
      obtain ⟨l, kind⟩ := element
      cases kind with
      | node => simpa [stageElement] using deliversFrom_stage l detach
      | relationship => simpa [stageElement] using deliversFrom_stage l true
    rw [List.mapM_cons]
    refine hstage.bind ?_
    rintro _ _ ⟨rfl, rfl⟩
    refine ih.bind ?_
    rintro ts _ ⟨marks, rfl, hsteps, rfl⟩
    exact .pure ⟨_, rfl, by simp [hsteps], mark_append _ _ _⟩

lemma deliversFrom_target (detach : Bool) (e : Expr) :
    DeliversFrom draft (target detach e) fun t draft' =>
    ∃ marks, Marks draft.scope detach e marks ∧ t = marks.map Mark.step ∧
      draft' = mark draft marks := by
  cases e with
  | var v =>
    refine Drafting.scope_bind (.lift_bind (draft.scope.delivers_lookup v _)
      fun binding hbind => ?_)
    have hdynamic (hkind : binding.kind = .value ∨ binding.kind = .map) : DeliversFrom draft
        (stageDynamic (.named v) detach) fun t draft' =>
          ∃ marks, Marks draft.scope detach (.var v) marks ∧ t = marks.map Mark.step ∧
            draft' = mark draft marks := by
      cases detach <;> exact Delivers.ok ⟨_, .dynamic hbind hkind, rfl, rfl⟩
    split
    · rename_i hkind
      refine (deliversFrom_stage _ detach).mono fun t draft' ht =>
        ⟨_, .element hbind (.inl hkind), ?_⟩
      simpa [hkind] using ht
    · rename_i hkind
      refine (deliversFrom_stage _ true).mono fun t draft' ht =>
        ⟨_, .element hbind (.inr hkind), ?_⟩
      simpa [hkind] using ht
    · rename_i hkind
      refine .lift_bind (draft.scope.delivers_lookupPath v _) fun shape hshape => ?_
      refine (deliversFrom_stageElements detach shape.elements).bind ?_
      rintro ts _ ⟨marks, rfl, hsteps, rfl⟩
      exact .pure ⟨_, .path hbind hkind hshape, hsteps, rfl⟩
    · exact hdynamic (.inl ‹_›)
    · exact hdynamic (.inr ‹_›)
  | _ => exact .throw rfl

end Deleting

open Deleting in
lemma deliversFrom_deleteSteps (detach : Bool) (es : List Expr) :
    DeliversFrom draft (deleteSteps detach es) fun t draft' =>
      ∃ marks, MarksAll draft.scope detach es marks ∧ t = marks.map Mark.step ∧
      draft' = mark draft marks := by
  induction es generalizing draft with
  | nil => exact .pure ⟨[], .nil, rfl, rfl⟩
  | cons e rest ih =>
    refine (deliversFrom_target detach e).bind ?_
    rintro _ _ ⟨marks, hmarks, rfl, rfl⟩
    refine ih.bind ?_
    rintro _ _ ⟨others, hothers, rfl, rfl⟩
    exact .pure ⟨_, .cons hmarks hothers, by simp, mark_append _ _ _⟩

end CypherGremlin
