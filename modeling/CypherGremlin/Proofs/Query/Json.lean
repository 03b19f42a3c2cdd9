import CypherGremlin.Proofs.Query.Literal
import CypherGremlin.Proofs.Statement.OfQuery
import CypherGremlin.Proofs.Statement.Proper
import CypherGremlin.Query.Json

/-!
# Queries read back from JSON

Reading a query undoes writing it, as long as its floats are finite and its JSON is not nested too
deeply (`Query.reads_back_json`).

Readers recurse on a bound, and each of them needs to know only that what is inside, which is nested
less, is read back:

* `Literal.ofJson?_toJson` and `Expr.ofJson?_toJson` are inductions on the bound;
* `Expr.ofJson?_of_parts`, `PatternOf.ofJson?_toJson` and `Clause.ofJson?_toJson` are about one
  layer of syntax each.
-/

namespace CypherGremlin

variable {bound n : Nat} {read : Json → Option Expr} {α : Type} {j : Json}

open CypherGremlin.Expr Json List

/-! ## Nesting -/

namespace Json

lemma depth_lt_item {items : List Json} (h : j ∈ items) : j.depth < (array items).depth := by
  suffices hle : j.depth ≤ depthOfItems items from Nat.lt_succ_of_le hle
  induction items with
  | nil => simp at h
  | cons item rest ih =>
    rcases mem_cons.1 h with rfl | h
    · exact Nat.le_max_left _ _
    · exact (ih h).trans (Nat.le_max_right _ _)

lemma depth_lt_field {fields : List (String × Json)} (name : String) (h : (name, j) ∈ fields) :
    j.depth < (object fields).depth := by
  suffices hle : j.depth ≤ depthOfFields fields from Nat.lt_succ_of_le hle
  induction fields with
  | nil => simp at h
  | cons first rest ih =>
    rcases mem_cons.1 h with rfl | h
    · exact Nat.le_max_left _ _
    · exact (ih h).trans (Nat.le_max_right _ _)

lemma depth_item_lt {items : List Json} (hdepth : (array items).depth < n)
    (h : j ∈ items := by simp) : j.depth < n :=
  (depth_lt_item h).trans hdepth

lemma depth_field_lt {fields : List (String × Json)} (name : String)
    (hdepth : (object fields).depth < n) (h : (name, j) ∈ fields := by simp) : j.depth < n :=
  (depth_lt_field name h).trans hdepth

lemma depth_variant_lt {tag : String} (h : (variant tag j).depth < n + 1) : j.depth < n :=
  Nat.lt_of_lt_of_le (depth_lt_field tag mem_cons_self) (Nat.le_of_lt_succ h)

lemma depth_tagged_lt {kind : String} (h : (tagged kind j).depth < n + 1) : j.depth < n :=
  Nat.lt_of_lt_of_le (depth_lt_field "v" (by simp)) (Nat.le_of_lt_succ h)

/-! ## Building blocks -/

section

variable {read : Json → Option α} {write : α → Json}

lemma asList?_map {as : List α} (h : ∀ a ∈ as, read (write a) = some a) : asList? read
    (.array (as.map write)) = some as := by
  rw [asList?]
  induction as with
  | nil => rfl
  | cons a rest ih =>
    obtain ⟨ha, hrest⟩ := forall_mem_cons.1 h
    rw [map_cons, mapM_cons, ha, ih hrest]
    rfl

/-- Items are nested less than their list. -/
lemma asList?_nested {as : List α} (hdepth : (array (as.map write)).depth < n)
    (h : ∀ a ∈ as, (write a).depth < n → read (write a) = some a) :
    asList? read (.array (as.map write)) = some as :=
  asList?_map fun a ha => h a ha ((depth_lt_item (mem_map_of_mem ha)).trans hdepth)

lemma asList?_strings (texts : List String) : asList? asString? (strings texts) = some texts :=
  asList?_map fun _ _ => rfl

lemma asEntries?_nested {entries : List (String × α)}
    (hdepth : (array (entries.map fun entry => .array [.string entry.1, write entry.2])).depth < n)
    (h : ∀ entry ∈ entries, (write entry.2).depth < n → read (write entry.2) = some entry.2) :
    asEntries? read (.array (entries.map fun entry => .array [.string entry.1, write entry.2])) =
      some entries := by
  refine asList?_nested hdepth fun entry hentry hpair => ?_
  have hval : (write entry.2).depth < n := depth_item_lt hpair
  simp only [asPair?, asString?, Option.bind_eq_bind, Option.bind_some, h entry hentry hval]
  rfl

/-- A part that is absent is written as `null`, which nothing else is written as. -/
lemma asOptional?_orNull {a : Option α} (hnull : ∀ x, write x ≠ .null)
    (h : ∀ x ∈ a, read (write x) = some x) : asOptional? read (orNull (a.map write)) = some a := by
  cases a with
  | none => rfl
  | some x =>
    rw [Option.map_some, orNull, asOptional?, h x rfl]
    · rfl
    · exact hnull x

lemma asOptional?_string (text : Option String) :
    asOptional? asString? (orNull (text.map .string)) = some text :=
  asOptional?_orNull (fun _ h => Json.noConfusion h) fun _ _ => rfl

lemma asInt64?_toInt (i : Int64) : asInt64? (.int i.toInt) = some i := by
  rw [asInt64?, if_pos ⟨Int64.le_toInt i, Int64.toInt_le i⟩, Int64.ofInt_toInt]

lemma asUInt32?_toNat (n : UInt32) : asUInt32? (.int n.toNat) = some n := by
  have hlt : (n.toNat : Int) < UInt32.size := by exact_mod_cast n.toNat_lt_size
  rw [asUInt32?, if_pos ⟨Int.natCast_nonneg _, hlt⟩, Int.toNat_natCast]
  exact congrArg some UInt32.ofNat_toNat

end

end Json

namespace Literal

lemma literalsToJson_eq (items : List Literal) : literalsToJson items = items.map toJson :=
  eq_map_of_cons rfl (fun _ _ => rfl) items

lemma literalEntriesToJson_eq (entries : List (String × Literal)) :
    literalEntriesToJson entries = entries.map fun entry =>
      .array [.string entry.1, entry.2.toJson] :=
  eq_map_of_cons rfl (fun _ _ => rfl) entries

def FloatsFinite (l : Literal) : Prop := ∀ x ∈ l.floats, x.isFinite = true

theorem ofJson?_toJson {l : Literal} (hdepth : l.toJson.depth < bound) (hfinite : l.FloatsFinite) :
    ofJson? bound l.toJson = some l := by
  induction bound generalizing l with
  | zero => exact absurd hdepth (Nat.not_lt_zero _)
  | succ bound ih =>
    cases l with
    | null | bool | string => rfl
    | int i => exact congrArg (Option.map _) (asInt64?_toInt i)
    | float x =>
      have hread : asFloat? (.float x) = some x := if_pos (hfinite x mem_cons_self)
      exact congrArg (Option.map _) hread
    | list items =>
      rw [toJson, literalsToJson_eq] at *
      have hread : asList? (ofJson? bound) (.array (items.map toJson)) = some items :=
        asList?_nested (depth_tagged_lt hdepth) fun l hl hinside =>
          ih hinside (forall_mem_collect_list.1 hfinite l hl)
      exact congrArg (Option.map _) hread
    | map entries =>
      rw [toJson, literalEntriesToJson_eq] at *
      have hread : asEntries? (ofJson? bound)
          (.array (entries.map fun entry => .array [.string entry.1, entry.2.toJson])) =
          some entries :=
        asEntries?_nested (depth_tagged_lt hdepth) fun entry hentry hinside =>
          ih hinside (forall_mem_collect_map.1 hfinite entry hentry).2
      exact congrArg (Option.map _) hread

end Literal

lemma Comparison.ofJson?_name (op : Comparison) :
    Comparison.ofJson? (.string op.name) = some op := by
  cases op <;> rfl

lemma StringTest.ofJson?_name (test : StringTest) :
    StringTest.ofJson? (.string test.name) = some test := by
  cases test <;> rfl

lemma Arithmetic.ofJson?_name (op : Arithmetic) :
    Arithmetic.ofJson? (.string op.name) = some op := by
  cases op <;> rfl

lemma Direction.ofJson?_name (direction : Direction) :
    Direction.ofJson? (.string direction.name) = some direction := by
  cases direction <;> rfl

/-! ## Patterns -/

lemma HopRange.ofJson?_toJson (range : HopRange) : HopRange.ofJson? range.toJson = some range := by
  have hbound (n : Option UInt32) : asOptional? asUInt32? (orNull (n.map fun n => .int n.toNat)) =
      some n :=
    asOptional?_orNull (fun _ h => Json.noConfusion h) fun n _ => asUInt32?_toNat n
  have hparts : parts? ["min", "max"] 2 range.toJson =
      some [some (orNull (range.min.map fun n => .int n.toNat)),
      some (orNull (range.max.map fun n => .int n.toNat))] := rfl
  simp [HopRange.ofJson?, hparts, orDefault?, hbound]

section

/-- The expression is read back, unless it is nested too deeply. -/
def Expr.ReadsBack (n : Nat) (read : Json → Option Expr) (e : Expr) : Prop :=
  e.toJson.depth < n → read e.toJson = some e

lemma exprEntriesToJson_eq (entries : List (String × Expr)) :
    exprEntriesToJson entries = entries.map fun entry => .array [.string entry.1, entry.2.toJson] :=
  eq_map_of_cons rfl (fun _ _ => rfl) entries

lemma asEntries?_exprs {entries : List (String × Expr)}
    (h : ∀ entry ∈ entries, entry.2.ReadsBack n read)
    (hdepth : (array (exprEntriesToJson entries)).depth < n) :
    asEntries? read (.array (exprEntriesToJson entries)) = some entries := by
  rw [exprEntriesToJson_eq] at *
  exact asEntries?_nested hdepth h

lemma NodePatternOf.ofJson?_toJson {node : NodePattern}
    (h : ∀ entry ∈ node.properties, entry.2.ReadsBack n read)
    (hdepth : (nodeToJson node).depth < n) :
    NodePatternOf.ofJson? read (nodeToJson node) = some node := by
  obtain ⟨var, labels, properties⟩ := node
  have hparts : parts? ["var", "labels", "properties"] 0 (nodeToJson ⟨var, labels, properties⟩) =
      some [some (orNull (var.map .string)), some (strings labels),
      some (.array (exprEntriesToJson properties))] := rfl
  have hprops := asEntries?_exprs h (depth_field_lt "properties" hdepth)
  simp [NodePatternOf.ofJson?, hparts, orDefault?, asOptional?_string, asList?_strings, hprops]

lemma RelPatternOf.ofJson?_toJson {rel : RelPattern}
    (h : ∀ entry ∈ rel.properties, entry.2.ReadsBack n read)
    (hdepth : (relToJson rel).depth < n) :
    RelPatternOf.ofJson? read (relToJson rel) = some rel := by
  obtain ⟨var, types, direction, properties, length⟩ := rel
  have hparts : parts? ["var", "types", "direction", "properties", "length"] 0
      (relToJson ⟨var, types, direction, properties, length⟩) =
      some [some (orNull (var.map .string)), some (strings types), some (.string direction.name),
        some (.array (exprEntriesToJson properties)), some (orNull (length.map HopRange.toJson))] :=
        rfl
  have hlen : asOptional? HopRange.ofJson? (orNull (length.map HopRange.toJson)) = some length :=
    asOptional?_orNull (fun _ h => Json.noConfusion h) fun range _ => range.ofJson?_toJson
  have hprops := asEntries?_exprs h (depth_field_lt "properties" hdepth)
  simp [RelPatternOf.ofJson?, hparts, orDefault?, asOptional?_string, asList?_strings,
    Direction.ofJson?_name, hprops, hlen]

def hopToJson (hop : Hop) : Json :=
  .object [("rel", relToJson hop.rel), ("node", nodeToJson hop.node)]

lemma hopsToJson_eq (hops : List Hop) : hopsToJson hops = hops.map hopToJson :=
  eq_map_of_cons rfl (fun _ _ => rfl) hops

lemma PatternOf.ofJson?_toJson {p : Pattern} (h : ∀ e ∈ p.values, e.ReadsBack n read)
    (hdepth : (patternToJson p).depth < n) :
    PatternOf.ofJson? read (patternToJson p) = some p := by
  obtain ⟨path, start, hops⟩ := p
  simp only [Pattern.values, map_append, forall_mem_append, forall_mem_map, forall_mem_flatMap] at h
  have hstart := NodePatternOf.ofJson?_toJson h.1 (depth_field_lt "start" hdepth)
  have hhops : asList? (HopOf.ofJson? read) (.array (hopsToJson hops)) = some hops := by
    have hnested : (array (hopsToJson hops)).depth < n := depth_field_lt "hops" hdepth
    rw [hopsToJson_eq] at *
    refine asList?_nested hnested fun hop hhop hinside => ?_
    have hparts : parts? ["rel", "node"] 0 (hopToJson hop) = some [some (relToJson hop.rel),
        some (nodeToJson hop.node)] := rfl
    have hrel := RelPatternOf.ofJson?_toJson (h.2 hop hhop).1 (depth_field_lt "rel" hinside)
    have hnode := NodePatternOf.ofJson?_toJson (h.2 hop hhop).2 (depth_field_lt "node" hinside)
    simp [HopOf.ofJson?, hparts, hrel, hnode]
  have hparts : parts? ["path", "start", "hops"] 0 (patternToJson ⟨path, start, hops⟩) =
      some [some (orNull (path.map .string)), some (nodeToJson start),
      some (.array (hopsToJson hops))] := rfl
  simp [PatternOf.ofJson?, hparts, orDefault?, asOptional?_string, hstart, hhops]

end

/-! ## Expressions -/

lemma exprsToJson_eq (es : List Expr) : exprsToJson es = es.map toJson :=
  eq_map_of_cons rfl (fun _ _ => rfl) es

namespace Expr

lemma asList?_exprs {es : List Expr} (h : ∀ e ∈ es, e.ReadsBack n read)
    (hdepth : (array (exprsToJson es)).depth < n) :
    asList? read (.array (exprsToJson es)) = some es := by
  rw [exprsToJson_eq] at *
  exact asList?_nested hdepth h

/-- One layer of an expression is read back if what is inside it is. -/
lemma ofJson?_of_parts {e : Expr} (hparts : ∀ part ∈ e.parts, part.ReadsBack bound (ofJson? bound))
    (hlit : ∀ l, e = .literal l → l.toJson.depth < bound → Literal.ofJson? bound l.toJson = some l)
    (hdepth : e.toJson.depth < bound + 1) : ofJson? (bound + 1) e.toJson = some e := by
  have hboth : ∀ {l r : Expr}, (∀ part ∈ [l, r], part.ReadsBack bound (ofJson? bound)) →
      (array [l.toJson, r.toJson]).depth < bound →
      both? (ofJson? bound) (.array [l.toJson, r.toJson]) = some (l, r) := by
    intro l r h hdepth
    have hl := h l (by simp) (depth_item_lt hdepth)
    have hr := h r (by simp) (depth_item_lt hdepth)
    simp [both?, asPair?, hl, hr]
  have hoperation : ∀ {ο : Type} {readOp : Json → Option ο} {op : ο} {j : Json} {l r : Expr},
      readOp j = some op →
      (∀ part ∈ [l, r], part.ReadsBack bound (ofJson? bound)) →
      (array [j, l.toJson, r.toJson]).depth < bound →
      operation? readOp (ofJson? bound) (.array [j, l.toJson, r.toJson]) = some (op, l, r) := by
    intro ο readOp op j l r hop h hdepth
    have hl := h l (by simp) (depth_item_lt hdepth)
    have hr := h r (by simp) (depth_item_lt hdepth)
    simp [operation?, asTriple?, hop, hl, hr]
  -- A variant nests what it holds one level deeper, and the bound goes down by one.
  cases e with
  | literal l => exact congrArg (Option.map _) (hlit l rfl (depth_variant_lt hdepth))
  | parameter | var | countStar => rfl
  | property base key =>
    have hbase := hparts base mem_cons_self (depth_item_lt (depth_variant_lt hdepth))
    exact congrArg (Option.bind · _) hbase
  | list items => exact congrArg (Option.map _) (asList?_exprs hparts (depth_variant_lt hdepth))
  | map entries =>
    exact congrArg (Option.map _) (asEntries?_exprs (forall_mem_map.1 hparts)
      (depth_variant_lt hdepth))
  | not inner | isNull inner | isNotNull inner =>
    exact congrArg (Option.map _) (hparts inner mem_cons_self (depth_variant_lt hdepth))
  | and l r | or l r | xor l r | member l r =>
    exact congrArg (Option.map _) (hboth hparts (depth_variant_lt hdepth))
  | compare op l r | stringMatch op l r | arithmetic op l r =>
    exact congrArg (Option.map _) (hoperation op.ofJson?_name hparts (depth_variant_lt hdepth))
  | hasLabels var labels =>
    exact congrArg (Option.bind · _) (asList?_strings labels)
  | pattern p =>
    exact congrArg (Option.map _) (PatternOf.ofJson?_toJson hparts (depth_variant_lt hdepth))
  | call name distinct args =>
    have hargs : (array (exprsToJson args)).depth < bound :=
      depth_field_lt "args" (depth_variant_lt hdepth)
    exact congrArg (Option.bind · _) (asList?_exprs hparts hargs)

/-- The literal stands in the expression, at any depth. -/
inductive Contains : Expr → Literal → Prop
  | self (l : Literal) : Contains (.literal l) l
  | part {e part : Expr} {l : Literal} (mem : part ∈ e.parts)
    (inside : Contains part l) : Contains e l

def FloatsFinite (e : Expr) : Prop := ∀ l, e.Contains l → l.FloatsFinite

lemma floatsFinite_iff {e : Expr} :
    e.FloatsFinite ↔ (∀ l, e = .literal l → l.FloatsFinite) ∧
      ∀ part ∈ e.parts, part.FloatsFinite := by
  refine ⟨fun h => ⟨?_, fun part hpart l hl => h l (.part hpart hl)⟩, fun h l hl => ?_⟩
  · rintro l rfl
    exact h l (.self l)
  · cases hl with
    | self => exact h.1 l rfl
    | part mem inside => exact h.2 _ mem l inside

theorem ofJson?_toJson {e : Expr} (hdepth : e.toJson.depth < bound) (hfinite : e.FloatsFinite) :
    ofJson? bound e.toJson = some e := by
  induction bound generalizing e with
  | zero => exact absurd hdepth (Nat.not_lt_zero _)
  | succ bound ih =>
    obtain ⟨hlit, hparts⟩ := floatsFinite_iff.1 hfinite
    refine ofJson?_of_parts (fun part hpart hinside => ih hinside (hparts part hpart))
      (fun l hl hinside => ?_) hdepth
    exact Literal.ofJson?_toJson hinside (hlit l hl)

lemma toJson_ne_null (e : Expr) : e.toJson ≠ .null := by
  cases e <;> exact Json.noConfusion

lemma asOptional?_expr {e : Option Expr} (h : ∀ x ∈ e.toList, x.ReadsBack n read)
    (hdepth : (orNull (e.map toJson)).depth < n) :
    asOptional? read (orNull (e.map toJson)) = some e := by
  refine asOptional?_orNull toJson_ne_null fun x hx => h x (Option.mem_toList.2 hx) ?_
  rwa [Option.mem_def.1 hx] at hdepth

end Expr

/-! ## Clauses -/

section

def Projection.exprs (p : Projection) : List Expr :=
  p.items.map (·.expr) ++ p.orderBy.map (·.expr) ++ p.skip.toList ++ p.limit.toList ++
    p.condition.toList

lemma Projection.ofJson?_toJson {p : Projection}
    (h : ∀ e ∈ p.exprs, e.ReadsBack n (Expr.ofJson? bound)) (hdepth : p.toJson.depth < n) :
    Projection.ofJson? bound p.toJson = some p := by
  simp only [Projection.exprs, forall_mem_append, forall_mem_map] at h
  obtain ⟨⟨⟨⟨hitems, horder⟩, hskip⟩, hlimit⟩, hcond⟩ := h
  have hitems : asList? (ProjectionItem.ofJson? bound)
      (.array (p.items.map ProjectionItem.toJson)) = some p.items := by
    refine asList?_nested (depth_field_lt "items" hdepth) fun item hitem hinside => ?_
    exact congrArg₂ (fun x y => x.bind fun e => y.bind fun name => some (ProjectionItem.mk e name))
      (hitems item hitem (depth_field_lt "expr" hinside)) (asOptional?_string item.givenName)
  have horder : asList? (SortItem.ofJson? bound) (.array (p.orderBy.map SortItem.toJson)) =
      some p.orderBy := by
    refine asList?_nested (depth_field_lt "order_by" hdepth) fun item hitem hinside => ?_
    exact congrArg (Option.bind · _) (horder item hitem (depth_field_lt "expr" hinside))
  have hskip := asOptional?_expr hskip (depth_field_lt "skip" hdepth)
  have hlimit := asOptional?_expr hlimit (depth_field_lt "limit" hdepth)
  have hcond := asOptional?_expr hcond (depth_field_lt "where" hdepth)
  have hparts : parts? ["distinct", "star", "items", "order_by", "skip", "limit", "where"] 0
      p.toJson =
      some [some (.bool p.distinct), some (.bool p.star),
      some (.array (p.items.map ProjectionItem.toJson)),
        some (.array (p.orderBy.map SortItem.toJson)), some (orNull (p.skip.map Expr.toJson)),
        some (orNull (p.limit.map Expr.toJson)), some (orNull (p.condition.map Expr.toJson))] := rfl
  simp [Projection.ofJson?, hparts, orDefault?, asBool?, hitems, horder, hskip, hlimit, hcond]

lemma asList?_patterns {ps : List Pattern}
    (h : ∀ e ∈ ps.flatMap Pattern.values, e.ReadsBack n (ofJson? bound))
    (hdepth : (array (ps.map patternToJson)).depth < n) :
    asList? (PatternOf.ofJson? (ofJson? bound)) (.array (ps.map patternToJson)) = some ps :=
  asList?_nested hdepth fun p hp hinside =>
    PatternOf.ofJson?_toJson (fun e he => h e (mem_flatMap.2 ⟨p, hp, he⟩)) hinside

lemma Clause.ofJson?_toJson {clause : Clause}
    (h : ∀ e ∈ clause.exprs ++ clause.otherExprs, e.ReadsBack n (Expr.ofJson? bound))
    (hdepth : clause.toJson.depth < n + 1) : Clause.ofJson? bound clause.toJson = some clause := by
  obtain ⟨hexprs, hothers⟩ := forall_mem_append.1 h
  cases clause with
  | «match» isOptional ps condition =>
    have hbody := depth_variant_lt hdepth
    exact congrArg₂
      (fun x y => x.bind fun ps => y.bind fun condition =>
      some (Clause.match isOptional ps condition))
      (asList?_patterns hothers (depth_field_lt "patterns" hbody))
      (asOptional?_expr hexprs (depth_field_lt "where" hbody))
  | unwind e name =>
    exact congrArg (Option.bind · _)
      (hexprs e mem_cons_self (depth_field_lt "expr" (depth_variant_lt hdepth)))
  | «with» p | «return» p =>
    refine congrArg (Option.map _) (Projection.ofJson?_toJson (fun e he => h e ?_)
      (depth_variant_lt hdepth))
    simp only [Projection.exprs, Clause.exprs, Clause.otherExprs, mem_append] at he ⊢
    tauto
  | create ps =>
    exact congrArg (Option.bind · _)
      (asList?_patterns hexprs (depth_field_lt "patterns" (depth_variant_lt hdepth)))
  | merge p =>
    exact congrArg (Option.bind · _)
      (PatternOf.ofJson?_toJson hothers (depth_field_lt "pattern" (depth_variant_lt hdepth)))
  | set items =>
    have hnested : (array (items.map Assignment.toJson)).depth < n :=
      depth_field_lt "items" (depth_variant_lt hdepth)
    have hitems : asList? (Assignment.ofJson? bound) (.array (items.map Assignment.toJson)) =
        some items := by
      refine asList?_nested hnested fun item hitem hinside => ?_
      exact congrArg (Option.bind · _)
        (hexprs _ (mem_map_of_mem hitem) (depth_field_lt "value" hinside))
    exact congrArg (Option.bind · _) hitems
  | remove items =>
    have hitems : asList? PropertyRef.ofJson? (.array (items.map PropertyRef.toJson)) =
        some items :=
      asList?_map fun _ _ => rfl
    exact congrArg (Option.bind · _) hitems
  | delete detach targets =>
    have hnested : (array (targets.map Expr.toJson)).depth < n :=
      depth_field_lt "targets" (depth_variant_lt hdepth)
    exact congrArg (Option.bind · _) (asList?_nested hnested hothers)

end

def Query.FloatsFinite (q : Query) : Prop :=
  ∀ clause ∈ q.clauses, ∀ e ∈ clause.exprs ++ clause.otherExprs, e.FloatsFinite

/-- A query is read back from the JSON that is written for it, if its floats are finite and the JSON
is nested no more than 127 deep. -/
theorem Query.reads_back_json {q : Query} (hfinite : q.FloatsFinite)
    (hdepth : q.toJson.depth ≤ 127) : Query.ofJson? q.toJson = some q := by
  have hclauses : asList? (Clause.ofJson? 128) (.array (q.clauses.map Clause.toJson)) =
      some q.clauses := by
    refine asList?_nested (Nat.lt_of_lt_of_le (depth_lt_field "clauses" (by simp)) hdepth) ?_
    refine fun clause hclause hinside => Clause.ofJson?_toJson (fun e he hexpr => ?_)
      (Nat.lt_succ_of_lt hinside)
    exact Expr.ofJson?_toJson (Nat.lt_succ_of_lt hexpr) (hfinite clause hclause e he)
  rw [Query.ofJson?, within?, maxDepth, if_pos hdepth]
  exact congrArg (Option.bind · _) hclauses

/-- `MATCH (n {score: 2.5}) WHERE (n)-[:KNOWS*1..]->() RETURN count(*)`. -/
def Query.scored : Query where
  clauses := [
    .match false [⟨none, ⟨some "n", [], [("score", .literal (.float ⟨0x4004000000000000⟩))]⟩, []⟩]
      (some (.pattern ⟨none, ⟨some "n", [], []⟩,
        [⟨⟨none, ["KNOWS"], .out, [], some ⟨some 1, none⟩⟩, ⟨none, [], []⟩⟩]⟩)),
    .return ⟨false, false, [⟨.countStar, none⟩], [], none, none, none⟩]

theorem Query.reads_back_json_scored :
    Query.scored.FloatsFinite ∧ Query.scored.toJson.depth = 11 ∧
      Query.ofJson? Query.scored.toJson = some Query.scored := by
  have hplain {e : Expr} (hlit : ∀ l, e ≠ .literal l) (hparts : e.parts = []) : e.FloatsFinite :=
    Expr.floatsFinite_iff.2 ⟨fun l hl => (hlit l hl).elim, by simp [hparts]⟩
  have hscore : (Expr.literal (.float ⟨0x4004000000000000⟩)).FloatsFinite := by
    refine Expr.floatsFinite_iff.2 ⟨?_, List.forall_mem_nil _⟩
    rintro l ⟨rfl⟩
    exact List.forall_mem_singleton.2 (by decide)
  have hfinite : Query.scored.FloatsFinite := by
    refine List.forall_mem_cons.2 ⟨?_, List.forall_mem_singleton.2 ?_⟩
    · exact List.forall_mem_cons.2 ⟨hplain (by simp) rfl, List.forall_mem_singleton.2 hscore⟩
    · exact List.forall_mem_singleton.2 (hplain (by simp) rfl)
  exact ⟨hfinite, by decide, Query.reads_back_json hfinite (by decide)⟩

end CypherGremlin
