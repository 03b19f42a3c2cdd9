import CypherGremlin.Proofs.Row.RoundTrip

/-!
# What reading gives

An engine may return anything.  Whatever it returns, a row that is read successfully has some
properties at every depth, and one induction over the values of the engine shows them together
(`Raw.wellRead`):

* no string encodes a token, and no key of a map does, except for the keys of the two ends of a
  relationship (`RawRow.read_ordinary`);
* every path has one more node than relationships, and each relationship joins its neighbours
  (`RawRow.read_path`).

`ResultValue.IsRead` says this of a value by itself, and `ResultValue.inside` lists the values in
it.  A single string is returned unless it spells a token (`Raw.read_string`).
-/

namespace CypherGremlin

variable {columns : List Column} {entries : List (RawKey × Reading)} {result : ResultRow}
  {row : RawRow} {v : ResultValue}

open List ResultValue

/-! ## Values inside values -/

namespace ResultValue

/-- The values directly inside a value. -/
def inside : ResultValue → List ResultValue
  | .list items => items
  | .map entries => entries.map Prod.snd
  | .node n => n.properties.map Prod.snd
  | .relationship r => r.properties.map Prod.snd
  | .path p =>
    p.nodes.flatMap (·.properties.map Prod.snd) ++ p.relationships.flatMap
    (·.properties.map Prod.snd)
  | .null | .bool _ | .int _ | .float _ | .string _ => []

/-- The first value occurs in the second, at any depth. -/
inductive Occurs : ResultValue → ResultValue → Prop
  | here (v : ResultValue) : Occurs v v
  | inside {part v w : ResultValue} (mem : v ∈ w.inside) (occurs : Occurs part v) : Occurs part w

/-- What reading makes sure of, apart from what is inside the value. -/
def IsRead : ResultValue → Prop
  | .string s => isOrdinary s = true
  | .map entries => ∀ entry ∈ entries, (RawKey.name entry.1).IsPlain
  | .path p => PathOf.isJoined p.nodes p.relationships = true
  | _ => True

/-- Reading has made sure of the value and of everything in it. -/
def WellRead (v : ResultValue) : Prop := ∀ part, Occurs part v → part.IsRead

lemma wellRead_of_inside (h : v.IsRead) (hinside : ∀ w ∈ v.inside, w.WellRead) : v.WellRead := by
  intro part hpart
  cases hpart with
  | here => exact h
  | inside hmem hoccurs => exact hinside _ hmem part hoccurs

lemma wellRead_scalar (h : v.IsRead) (hv : v.inside = []) : v.WellRead :=
  wellRead_of_inside h (by simp [hv])

lemma wellRead_id {id : ElementId} (h : id.isSound = true) : id.toValue.WellRead := by
  cases id with
  | int i => exact wellRead_scalar trivial rfl
  | string s => exact wellRead_scalar h rfl

end ResultValue

/-- The values of the properties are well read. -/
def PropertiesRead (properties : List (String × ResultValue)) : Prop :=
  ∀ property ∈ properties, property.2.WellRead

lemma PropertiesRead.node {n : ResultNode} (h : PropertiesRead n.properties) : (node n).WellRead :=
  ResultValue.wellRead_of_inside trivial (forall_mem_map.2 h)

lemma PropertiesRead.relationship {r : ResultRelationship} (h : PropertiesRead r.properties) :
    (ResultValue.relationship r).WellRead :=
  ResultValue.wellRead_of_inside trivial (forall_mem_map.2 h)

/-! ## Readings -/

def PathPart.WellRead : PathPart → Prop
  | .start content | .node content => Yields content fun n => PropertiesRead n.properties
  | .relationship content => Yields content fun r => PropertiesRead r.properties
  | .other => True

namespace Reading

/-- Whatever the value means, wherever it stands, it is well read. -/
structure WellRead (r : Reading) : Prop where
  value : Yields r.value ResultValue.WellRead
  property : Yields r.property ResultValue.WellRead
  id : Yields r.id (·.isSound = true)
  node : Yields r.node fun n => PropertiesRead n.properties
  relationshipMap : Yields r.relationshipMap fun map => PropertiesRead map.properties
  part : Yields r.part PathPart.WellRead

lemma wellRead_plain {kind : String} {value : Except Misfit ResultValue}
    (h : Yields value ResultValue.WellRead) : (plain kind value).WellRead :=
  ⟨h, h, .error, .error, .error, .error⟩

lemma wellRead_ofString (s : String) : (ofString s).WellRead := by
  have hval : Yields (stringValue s) ResultValue.WellRead := by
    rw [stringValue]
    split
    · rename_i hs
      exact .ok (ResultValue.wellRead_scalar (by simp [ResultValue.IsRead, isOrdinary, hs]) rfl)
    · exact .ok (ResultValue.wellRead_scalar trivial rfl)
    · exact .ok (ResultValue.wellRead_scalar trivial rfl)
    · exact .error
  exact { wellRead_plain hval with id := .ite (fun h => .ok h) fun _ => .error }

section

variable {read : Reading → Except Misfit ResultValue}

lemma yields_add {found : Found} {entry : RawKey × Reading} (h : PropertiesRead found.properties)
    (hentry : Yields (read entry.2) ResultValue.WellRead) :
    Yields (Found.add read found entry) fun found => PropertiesRead found.properties := by
  rw [Found.add]
  split
  · exact .bind (.trivial _) fun _ _ => .pure h
  · exact .bind (.trivial _) fun _ _ => .pure h
  · refine .bind hentry fun v hv => .pure fun property hprop => ?_
    rcases Table.mem_of_mem_put hprop with rfl | hmem
    · exact hv
    · exact h _ hmem

lemma yields_elementMap (h : ∀ entry ∈ entries, Yields (read entry.2) ResultValue.WellRead) :
    Yields (elementMap read entries) fun map => PropertiesRead map.properties := by
  refine .bind (.foldlM (fun entry hentry found hfound => yields_add hfound (h entry hentry))
    (forall_mem_nil _)) fun found hfound => ?_
  split
  · exact .pure hfound
  · exact .throw

lemma yields_properties {entries : List (String × Reading)}
    (h : ∀ entry ∈ entries, Yields (read entry.2) ResultValue.WellRead) :
    Yields (properties read entries) PropertiesRead := by
  intro found hfound property hprop
  obtain ⟨entry, hentry, heq⟩ := exists_mem_of_mapM_eq_ok hfound property hprop
  obtain ⟨v, hv, heq⟩ := bind_eq_ok.1 heq
  obtain rfl := pure_eq_ok.1 heq
  exact h entry hentry v hv

end

/-! ## Paths and lists -/

variable {r : Reading} {rs : List Reading} {position : Nat} {nodes : List ResultNode}
  {relationships : List ResultRelationship}

lemma listValue_cases (h : listValue rs = .ok v) :
    (∃ p, v = .path p ∧ path rs = .ok p) ∨ ∃ vs, v = .list vs ∧ values rs = .ok vs := by
  cases rs with
  | nil => exact .inr ⟨[], (Except.ok.inj h).symm, rfl⟩
  | cons r rest =>
    obtain ⟨isPath, -, h⟩ := bind_eq_ok.1 h
    cases isPath with
    | true =>
      obtain ⟨p, hp, h⟩ := bind_eq_ok.1 h
      exact .inl ⟨p, (pure_eq_ok.1 h).symm, hp⟩
    | false =>
      obtain ⟨vs, hvs, h⟩ := bind_eq_ok.1 h
      exact .inr ⟨vs, (pure_eq_ok.1 h).symm, hvs⟩

lemma ReadsParts.wellRead (h : ReadsParts position rs nodes relationships)
    (hrs : ∀ r ∈ rs, r.WellRead) :
    (∀ n ∈ nodes, PropertiesRead n.properties) ∧
      ∀ e ∈ relationships, PropertiesRead e.properties := by
  induction h with
  | nil => exact ⟨forall_mem_nil _, forall_mem_nil _⟩
  | start hpart _ ih | node _ hpart _ ih =>
    obtain ⟨hr, hrest⟩ := forall_mem_cons.1 hrs
    exact (ih hrest).imp_left fun hnodes => forall_mem_cons.2 ⟨hr.part _ hpart _ rfl, hnodes⟩
  | relationship _ hpart _ ih =>
    obtain ⟨hr, hrest⟩ := forall_mem_cons.1 hrs
    exact (ih hrest).imp_right fun hrels => forall_mem_cons.2 ⟨hr.part _ hpart _ rfl, hrels⟩

lemma yields_listValue (h : ∀ r ∈ rs, r.WellRead) : Yields (listValue rs) ResultValue.WellRead := by
  intro v hv
  rcases listValue_cases hv with ⟨p, rfl, hp⟩ | ⟨vs, rfl, hvs⟩
  · obtain ⟨hjoined, hreads⟩ := path_eq_ok_iff.1 hp
    refine ResultValue.wellRead_of_inside hjoined ?_
    simp only [inside, forall_mem_append, forall_mem_flatMap, forall_mem_map]
    exact hreads.wellRead h
  · refine ResultValue.wellRead_of_inside trivial fun v hv => ?_
    obtain ⟨r, hr, heq⟩ := exists_mem_of_mapM_eq_ok hvs v hv
    exact (h r hr).value v heq

lemma wellRead_ofList (h : ∀ r ∈ rs, r.WellRead) : (ofList rs).WellRead := by
  refine { wellRead_plain (yields_listValue h) with property := ?_ }
  cases rs with
  | nil => exact yields_listValue h
  | cons r rest =>
    cases rest with
    | nil => exact (h r mem_cons_self).value
    | cons => exact yields_listValue h

end Reading

/-! ## Maps -/

section

variable {α : Type} {P : α → Prop}

/-- The marked values have the property. -/
structure Marks.All (P : α → Prop) (marks : Marks α) : Prop where
  element : ∀ a ∈ marks.element, P a
  relationship : ∀ a ∈ marks.relationship, P a
  id : ∀ a ∈ marks.id, P a
  target : ∀ a ∈ marks.target, P a
  source : ∀ a ∈ marks.source, P a

/-- The values of the tag have the property. -/
def Tag.All (P : α → Prop) : Tag α → Prop
  | .element a | .id a | .pathStart a => P a
  | .relationship a b c => P a ∧ P b ∧ P c

lemma Marks.yields_add {marks : Marks α} {entry : RawKey × α} (hmarks : marks.All P)
    (hentry : P entry.2) :
    Yields (marks.add entry) fun marks' => marks'.All P ∧
    (marks'.IsBlank → marks.IsBlank ∧ entry.1.IsPlain) := by
  obtain ⟨key, a⟩ := entry
  have hnew : ∀ b ∈ some a, P b := by
    rintro _ ⟨⟩
    exact hentry
  cases key with
  | id | label => exact .ok ⟨hmarks, fun h => ⟨h, trivial⟩⟩
  | name k =>
    simp only [Marks.add]
    split
    · exact .ok ⟨{ hmarks with element := hnew }, fun h => (Option.some_ne_none _ h.element).elim⟩
    · exact .ok ⟨{ hmarks with relationship := hnew },
        fun h => (Option.some_ne_none _ h.relationship).elim⟩
    · exact .ok ⟨{ hmarks with relationship := hnew },
        fun h => (Option.some_ne_none _ h.relationship).elim⟩
    · exact .ok ⟨{ hmarks with id := hnew }, fun h => (Option.some_ne_none _ h.id).elim⟩
    · rename_i hk
      have hplain : RawKey.IsPlain (.name k) := .inr (by simp [Token.eq_encode_of_decode? hk rfl])
      exact .ok ⟨{ hmarks with target := hnew }, fun h => ⟨{ h with }, hplain⟩⟩
    · rename_i hk
      have hplain : RawKey.IsPlain (.name k) := .inr (by simp [Token.eq_encode_of_decode? hk rfl])
      exact .ok ⟨{ hmarks with source := hnew }, fun h => ⟨{ h with }, hplain⟩⟩
    · exact .ok ⟨{ hmarks with }, fun h => absurd h.pathStart (by simp)⟩
    · exact .error
    · rename_i hk
      exact .ok ⟨hmarks, fun h => ⟨h, .inl (by simp [isOrdinary, hk])⟩⟩

/-- The values of a tag are values of the map, and a map without a tag has plain keys only. -/
lemma yields_tag? {entries : List (RawKey × α)} (h : ∀ entry ∈ entries, P entry.2) :
    Yields (tag? entries) fun found =>
      (∀ tag ∈ found, tag.All P) ∧ (found = none → ∀ entry ∈ entries, entry.1.IsPlain) := by
  -- Along the entries, marks that stay blank have seen plain keys only.
  have hfold : ∀ marks : Marks α, marks.All P → Yields (entries.foldlM Marks.add marks)
      fun marks' =>
      marks'.All P ∧ (marks'.IsBlank → marks.IsBlank ∧ ∀ entry ∈ entries, entry.1.IsPlain) := by
    induction entries with
    | nil => exact fun marks hmarks => .pure ⟨hmarks, fun h => ⟨h, forall_mem_nil _⟩⟩
    | cons entry rest ih =>
      obtain ⟨hentry, hrest⟩ := forall_mem_cons.1 h
      intro marks hmarks
      rw [foldlM_cons]
      refine .bind (Marks.yields_add hmarks hentry) fun marks₁ hmarks₁ => ?_
      obtain ⟨hall, hblank⟩ := hmarks₁
      refine (ih hrest marks₁ hall).mono fun marks₂ hmarks₂ => ?_
      obtain ⟨hall₂, hblank₂⟩ := hmarks₂
      refine ⟨hall₂, fun h₂ => ?_⟩
      obtain ⟨h₁, hkeys⟩ := hblank₂ h₂
      exact ⟨(hblank h₁).1, forall_mem_cons.2 ⟨(hblank h₁).2, hkeys⟩⟩
  have hempty : Marks.All P ({} : Marks α) := ⟨by simp, by simp, by simp, by simp, by simp⟩
  refine .bind (hfold {} hempty) fun marks hmarks => ?_
  obtain ⟨hall, hblank⟩ := hmarks
  have hsome {tag : Tag α} (htag : tag.All P) : Yields
      (pure (some tag) : Except Misfit (Option (Tag α))) fun found =>
      (∀ tag ∈ found, tag.All P) ∧ (found = none → ∀ entry ∈ entries, entry.1.IsPlain) :=
    .pure ⟨by simpa using htag, by simp⟩
  split
  · rename_i helem _ _
    exact hsome (hall.element _ helem)
  · rename_i _ hrel _
    split
    · rename_i htarget hsource
      exact hsome ⟨hall.relationship _ hrel, hall.target _ htarget, hall.source _ hsource⟩
    · exact .throw
  · rename_i _ _ hid
    exact hsome (hall.id _ hid)
  · rename_i helem hrel hid
    refine .pure ⟨fun tag htag => ?_, fun hnone => ?_⟩
    · obtain ⟨entry, hentry, rfl⟩ : ∃ entry ∈ entries.head?, Tag.pathStart entry.2 = tag := by
        split at htag
        · simpa using htag
        · simp at htag
      exact h entry (mem_of_mem_head? hentry)
    · cases hstart : marks.pathStart with
      | false => exact (hblank ⟨helem, hrel, hid, hstart⟩).2
      | true =>
        have hnil : entries = [] := by simpa [hstart] using hnone
        simp [hnil]
  · exact .throw

end

namespace Reading

lemma reads_of_mapValue {result : List (String × ResultValue)}
    (h : (ofMap entries).value = .ok (.map result)) :
    List.Forall₂ (ReadsEntry Reading.value) result entries := by
  obtain ⟨found, -, h⟩ := bind_eq_ok.1 h
  rcases found with _ | content | ⟨content, target, source⟩ | content | content
  · obtain ⟨result', hresult, heq⟩ := map_eq_ok.1 h
    cases heq
    exact plainEntries_eq_ok.1 hresult
  · obtain ⟨n, -, heq⟩ := map_eq_ok.1 h
    cases heq
  · obtain ⟨r, -, heq⟩ := map_eq_ok.1 h
    cases heq
  · obtain ⟨id, -, heq⟩ := map_eq_ok.1 h
    cases id <;> cases heq
  · cases h

lemma wellRead_ofMap (h : ∀ entry ∈ entries, entry.2.WellRead) : (ofMap entries).WellRead := by
  have hrel {content target source : Reading} (hcontent : content.WellRead) :
      Yields (relationship content target source) fun r => PropertiesRead r.properties := by
    refine .bind hcontent.relationshipMap fun map hmap => ?_
    exact .bind (.trivial _) fun _ _ => .bind (.trivial _) fun _ _ => .pure hmap
  have hval : Yields ((tag? entries).bind (mapValue entries)) ResultValue.WellRead := by
    refine Yields.bind (yields_tag? h) fun found hfound => ?_
    obtain ⟨htag, hnone⟩ := hfound
    cases found with
    | none =>
      refine .map fun result hresult => ?_
      have hreads := plainEntries_eq_ok.1 hresult
      refine ResultValue.wellRead_of_inside (fun entry hentry => ?_)
        (forall_mem_map.2 fun entry hentry => ?_)
      · obtain ⟨r, hr, hkey, -⟩ := exists_mem_of_forall₂ hreads.flip entry hentry
        exact (congrArg RawKey.IsPlain hkey).mp (hnone rfl r hr)
      · obtain ⟨r, hr, -, hval⟩ := exists_mem_of_forall₂ hreads.flip entry hentry
        exact (h r hr).value _ hval
    | some tag =>
      have hall := htag tag rfl
      cases tag with
      | element content => exact .map (hall.node.mono fun n hn => hn.node)
      | relationship content target source =>
        exact .map ((hrel hall.1).mono fun r hr => hr.relationship)
      | id content => exact .map (hall.id.mono fun id hid => wellRead_id hid)
      | pathStart => exact .error
  have hpart : Yields ((tag? entries).map mapPart) PathPart.WellRead := by
    refine Yields.map ((yields_tag? h).mono fun found hfound => ?_)
    cases found with
    | none => exact trivial
    | some tag =>
      have hall := hfound.1 tag rfl
      cases tag with
      | element | pathStart => exact hall.node
      | relationship => exact hrel hall.1
      | id => exact trivial
  refine { wellRead_plain hval with part := hpart, node := ?_, relationshipMap := ?_ }
  · exact .bind (yields_elementMap fun entry hentry => (h entry hentry).property) fun map hmap =>
      .pure hmap
  · exact yields_elementMap fun entry hentry => (h entry hentry).value

lemma wellRead_ofVertex (id : ElementId) (label : String) {entries : List (String × Reading)}
    (h : ∀ entry ∈ entries, entry.2.WellRead) : (ofVertex id label entries).WellRead := by
  have hnode : Yields (handleNode id label entries) fun n => PropertiesRead n.properties :=
    .bind (yields_properties fun entry hentry => (h entry hentry).property) fun _ hprops =>
      .pure hprops
  exact { wellRead_plain (.map (hnode.mono fun n hn => hn.node)) with node := hnode }

lemma wellRead_ofEdge (id : ElementId) (label : String) (source target : ElementId)
    {entries : List (String × Reading)} (h : ∀ entry ∈ entries, entry.2.WellRead) :
    (ofEdge id label source target entries).WellRead :=
  wellRead_plain (.bind (yields_properties fun entry hentry => (h entry hentry).value)
    fun _ hprops =>
    .pure (PropertiesRead.relationship hprops))

end Reading

/-! ## All values -/

mutual

/-- Whatever an engine returns is well read. -/
theorem Raw.wellRead : ∀ raw : Raw, raw.read.WellRead
  | .null => Reading.wellRead_plain (.ok (ResultValue.wellRead_scalar trivial rfl))
  | .bool b => Reading.wellRead_plain (.ok (ResultValue.wellRead_scalar (v := .bool b) trivial rfl))
  | .float x =>
    Reading.wellRead_plain (.ok (ResultValue.wellRead_scalar (v := .float x) trivial rfl))
  | .int i =>
    { Reading.wellRead_plain (.ok (ResultValue.wellRead_scalar (v := .int i) trivial rfl))
      with id := .ok rfl }
  | .string s => Reading.wellRead_ofString s
  | .list items => Reading.wellRead_ofList (Raw.wellRead_all items)
  | .map entries => Reading.wellRead_ofMap (Raw.wellRead_entries entries)
  | .vertex id label properties =>
    Reading.wellRead_ofVertex id label (Raw.wellRead_fields properties)
  | .edge id label source target properties =>
    Reading.wellRead_ofEdge id label source target (Raw.wellRead_fields properties)

theorem Raw.wellRead_all : ∀ raws : List Raw, ∀ r ∈ Raw.readAll raws, r.WellRead
  | [] => forall_mem_nil _
  | raw :: rest => forall_mem_cons.2 ⟨Raw.wellRead raw, Raw.wellRead_all rest⟩

theorem Raw.wellRead_entries :
    ∀ raws : List (RawKey × Raw), ∀ entry ∈ Raw.readEntries raws, entry.2.WellRead
  | [] => forall_mem_nil _
  | (_, raw) :: rest => forall_mem_cons.2 ⟨Raw.wellRead raw, Raw.wellRead_entries rest⟩

theorem Raw.wellRead_fields :
    ∀ raws : List (String × Raw), ∀ entry ∈ Raw.readFields raws, entry.2.WellRead
  | [] => forall_mem_nil _
  | (_, raw) :: rest => forall_mem_cons.2 ⟨Raw.wellRead raw, Raw.wellRead_fields rest⟩

end

lemma RawRow.wellRead (h : RawRow.read columns row = .ok result) :
    ∀ entry ∈ result, entry.2.WellRead := by
  have hcol (column : Column) : Yields (RawRow.column row column) ResultValue.WellRead := by
    rw [RawRow.column]
    split
    · exact .error
    · rename_i raw _
      exact .mapError (.bind raw.wellRead.value fun v hv => .ite (fun _ => .pure hv)
        fun _ => .throw)
  refine Yields.foldlM (Q := fun result : ResultRow => ∀ entry ∈ result, entry.2.WellRead)
    (fun column _ start hstart => .bind (hcol column) fun v hv => .pure fun entry hentry => ?_)
    (forall_mem_nil _) result h
  rcases Table.mem_of_mem_put hentry with rfl | hmem
  · exact hv
  · exact hstart _ hmem

lemma RawRow.read_journey : RawRow.read [⟨"c", .value⟩] [("c", journey.encode (fun _ => "p") [])] =
    .ok [("c", journey)] :=
  RawRow.read_single rfl (read_encode _ _ (by decide +kernel) []).value

/-- What a stored string is read as.  It is null or refused only if it is the string of a token, or
of a counter with a sign or zeros in front of its digits; any other string is returned as it is. -/
theorem Raw.read_string (text : String) :
    (∀ t, Token.decode? text = some t ↔ Token.Spells text t) ∧
    (Raw.string text).read.property = (Raw.string text).read.value ∧
    ((Raw.string text).read.value = .ok .null ↔ text = Token.null.encode ∨
      text = Token.nonexistent.encode) ∧
    ((Raw.string text).read.value = .error (.shape "value" ("token " ++ escaped text)) ↔
      ∃ t, Token.Spells text t ∧ t ≠ .null ∧ t ≠ .nonexistent) ∧
    ((Raw.string text).read.value = .ok (.string text) ↔ ∀ t, ¬ Token.Spells text t) := by
  have hencode {t : Token} (ht : t.isSynthetic = false) : text = t.encode ↔
      Token.decode? text = some t :=
    ⟨fun h => h ▸ Token.decode?_encode t, fun h => Token.eq_encode_of_decode? h ht⟩
  refine ⟨fun _ => Token.decode?_eq_some_iff, rfl, ?_⟩
  simp only [← Token.decode?_eq_some_iff, hencode (t := .null) rfl, hencode (t := .nonexistent) rfl]
  simp only [Raw.read, Reading.ofString, Reading.plain, Reading.stringValue]
  cases Token.decode? text with
  | none => simp
  | some t => cases t <;> simp

/-- A counter is read from a string that no token has, and the string is refused. -/
theorem Token.decode?_signed : Token.decode? "  GENERATED+5" = some (.generated 5) ∧
    (Token.generated 5).encode ≠ "  GENERATED+5" ∧
    (Raw.string "  GENERATED+5").read.value =
      .error (.shape "value" ("token " ++ escaped "  GENERATED+5")) := by
  have hdecode : Token.decode? "  GENERATED+5" = some (.generated 5) := by decide +kernel
  refine ⟨hdecode, by decide +kernel, ?_⟩
  simp only [Raw.read, Reading.ofString, Reading.plain, Reading.stringValue, hdecode]

/-- No string of a row that was read is an encoded token, at any depth, and no key of a map, except
for the keys of the two ends of a relationship.  A map is returned as it is exactly if it has no
other tokens for keys. -/
theorem RawRow.read_ordinary (h : RawRow.read columns row = .ok result) : (∀ entry ∈ result,
      (∀ s, ResultValue.Occurs (.string s) entry.2 → Token.decode? s = none) ∧
      ∀ entries, ResultValue.Occurs (.map entries) entry.2 → ∀ e ∈ entries,
        Token.decode? e.1 = none ∨ e.1 = Token.inV.encode ∨ e.1 = Token.outV.encode) ∧
    ∀ raws entries, (Raw.map raws).read.value = .ok (.map entries) ↔
      (∀ e ∈ entries, Token.decode? e.1 = none ∨ e.1 = Token.inV.encode ∨ e.1 = Token.outV.encode) ∧
      List.Forall₂ (fun raw e => raw.1 = .name e.1 ∧ raw.2.read.value = .ok e.2) raws entries := by
  have hplain (k : String) : Token.decode? k = none ∨ k = Token.inV.encode ∨ k = Token.outV.encode ↔
      (RawKey.name k).IsPlain := by
    simp [RawKey.IsPlain, isOrdinary]
  simp only [hplain]
  refine ⟨fun entry hentry => ⟨fun s hs => ?_, fun entries hentries => ?_⟩,
    fun raws entries => ⟨fun hval => ⟨?_, ?_⟩, fun hread => ?_⟩⟩
  · exact decode?_of_isOrdinary (RawRow.wellRead h entry hentry _ hs)
  · exact RawRow.wellRead h entry hentry _ hentries
  · exact (Raw.wellRead (.map raws)).value _ hval _ (.here _)
  · have hreads := (Reading.reads_of_mapValue hval).flip
    rw [Raw.readEntries_eq, List.forall₂_map_left_iff] at hreads
    exact hreads
  · refine (Reading.reads_ofMap hread.1 ?_).value
    rw [Raw.readEntries_eq, List.forall₂_map_right_iff]
    exact hread.2.flip

/-- A key that encodes a token is handed out. -/
theorem RawRow.read_inV : Token.decode? "  cypher.inv" = some .inV ∧
    RawRow.read [⟨"x", .value⟩] [("x", .map [(.name "  cypher.inv", .int 1)])] =
      .ok [("x", .map [("  cypher.inv", .int 1)])] := by
  have hkey : "  cypher.inv" = Token.inV.encode := by decide +kernel
  refine ⟨hkey ▸ Token.decode?_encode .inV, RawRow.read_single rfl ?_⟩
  exact (Reading.reads_ofMap (by simp [RawKey.IsPlain, hkey]) (.cons ⟨rfl, rfl⟩ .nil)).value

theorem RawRow.read_ordinary_journey :
    (∀ s, ResultValue.Occurs (.string s) ResultValue.journey → Token.decode? s = none) ∧
    ∀ entries, ResultValue.Occurs (.map entries) ResultValue.journey → ∀ e ∈ entries,
      Token.decode? e.1 = none ∨ e.1 = Token.inV.encode ∨ e.1 = Token.outV.encode :=
  (RawRow.read_ordinary RawRow.read_journey).1 _ List.mem_cons_self

/-- There is one more node than relationships, each relationship leads from one of its neighbours to
the other, and nodes and relationships take turns in the list of elements. -/
structure PathOf.WellFormed {α : Type} (p : PathOf α) : Prop where
  length_nodes : p.nodes.length = p.relationships.length + 1
  joins : ∀ i r a b, p.relationships[i]? = some r → p.nodes[i]? = some a →
    p.nodes[i + 1]? = some b →
    (r.startId = a.id ∧ r.endId = b.id) ∨ (r.startId = b.id ∧ r.endId = a.id)
  even : ∀ i, p.elements[2 * i]? = p.nodes[i]?.map .node
  odd : ∀ i, p.elements[2 * i + 1]? = p.relationships[i]?.map .relationship

lemma PathOf.wellFormed_iff {α : Type} {p : PathOf α} :
    p.WellFormed ↔ PathOf.isJoined p.nodes p.relationships = true := by
  obtain ⟨nodes, relationships⟩ := p
  dsimp only
  fun_induction PathOf.isJoined nodes relationships with
  | case1 n =>
    refine iff_of_true ⟨rfl, by simp, fun i => ?_, by simp [elements, interleave]⟩ rfl
    cases i <;> simp [elements, interleave, Nat.mul_add]
  | case2 a b nodes r relationships ih =>
    have helems : elements ⟨a :: b :: nodes, r :: relationships⟩ =
        .node a :: .relationship r :: elements ⟨b :: nodes, relationships⟩ := rfl
    have hconnects : r.connects a b = true ↔
        (r.startId = a.id ∧ r.endId = b.id) ∨ (r.startId = b.id ∧ r.endId = a.id) := by
      simp [RelationshipOf.connects]
    rw [Bool.and_eq_true, ← ih, hconnects]
    constructor
    · rintro ⟨hlen, hjoins, heven, hodd⟩
      rw [helems] at heven hodd
      exact ⟨hjoins 0 r a b rfl rfl rfl, Nat.succ.inj hlen, fun i => hjoins (i + 1),
        fun i => heven (i + 1), fun i => hodd (i + 1)⟩
    · rintro ⟨hfirst, hlen, hjoins, heven, hodd⟩
      refine ⟨congrArg (· + 1) hlen, fun i => ?_, fun i => ?_, fun i => ?_⟩
      · cases i with
        | zero =>
          rintro _ _ _ ⟨⟩ ⟨⟩ ⟨⟩
          exact hfirst
        | succ i => exact hjoins i
      · rw [helems]
        cases i with
        | zero => rfl
        | succ i => exact heven i
      · rw [helems]
        cases i with
        | zero => rfl
        | succ i => exact hodd i
  | case3 nodes relationships hone hmore =>
    refine iff_of_false (fun h => ?_) Bool.false_ne_true
    have hlen := h.length_nodes
    rcases nodes with _ | ⟨a, _ | ⟨b, nodes⟩⟩ <;> rcases relationships with _ | ⟨r, relationships⟩
    case cons.nil.nil => exact hone a rfl rfl
    case cons.cons.cons => exact hmore a b nodes r relationships rfl rfl
    all_goals simp at hlen

/-- Every path in a row that was read is well formed, at any depth.  A list that begins with the map
of the first node of a path is read as a path if its items are the elements of one, and otherwise it
is refused, also as a property. -/
theorem RawRow.read_path (h : RawRow.read columns row = .ok result) :
    (∀ entry ∈ result, ∀ p, ResultValue.Occurs (.path p) entry.2 → p.WellFormed) ∧
    ∀ entries items content, tag? (Raw.readEntries entries) = .ok (some (.pathStart content)) → ∀ v,
      ((Raw.list (.map entries :: items)).read.value = .ok v ↔ ∃ p, v = .path p ∧ p.WellFormed ∧
        Reading.ReadsParts 0 (Raw.readAll (.map entries :: items)) p.nodes p.relationships) ∧
      ((Raw.list (.map entries :: items)).read.property = .ok v →
        (Raw.list (.map entries :: items)).read.value = .ok v) := by
  refine ⟨fun entry hentry p hp => PathOf.wellFormed_iff.2 (RawRow.wellRead h entry hentry _ hp),
    ?_⟩
  intro entries items content htag v
  have hstarts : (Raw.map entries).read.startsPath = .ok true := by
    simp only [Raw.read, Reading.ofMap, htag, Except.map, Reading.isPathStart]
  have hlist : (Raw.list (.map entries :: items)).read.value =
      (Reading.path (Raw.readAll (.map entries :: items))).map .path :=
    Reading.listValue_of_startsPath hstarts
  refine ⟨?_, fun hv => ?_⟩
  · rw [hlist, map_eq_ok]
    simp only [Reading.path_eq_ok_iff, PathOf.wellFormed_iff]
    exact exists_congr fun p => by rw [and_comm, eq_comm]
  · cases items with
    | nil =>
      -- The value of the only item is asked for, and it is the beginning of a path.
      simp only [Raw.read, Raw.readAll, Reading.ofList, Reading.ofMap, Reading.plain, htag,
        Except.bind, Reading.mapValue] at hv
      cases hv
    | cons => exact hv

/-- A path is found inside of a list and a map.  A number after the first node of a path is refused.
-/
theorem RawRow.read_path_journey :
    (∃ p, ResultValue.Occurs (.path p) ResultValue.journey ∧ p.relationships.length = 1 ∧
      p.WellFormed) ∧
    ∀ v, (Raw.list [.map [(.name (Token.pathStart "p").encode, .null)], .int 1]).read.value ≠
      .ok v := by
  have hread := RawRow.read_path RawRow.read_journey
  constructor
  · have hoccurs : ResultValue.Occurs _ ResultValue.journey :=
      .inside (List.mem_cons_of_mem _ List.mem_cons_self) (.inside List.mem_cons_self (.here _))
    exact ⟨_, hoccurs, rfl, hread.1 _ List.mem_cons_self _ hoccurs⟩
  · intro v hv
    have hlist := hread.2 [(.name (Token.pathStart "p").encode, .null)] [.int 1] _
      (tag?_pathStart "p" _) v
    obtain ⟨p, -, -, hparts⟩ := hlist.1.1 hv
    obtain ⟨_, -, hfound⟩ := bind_eq_ok.1 hparts.pathParts_eq
    obtain ⟨_, -, hfound⟩ := bind_eq_ok.1 hfound
    obtain ⟨_, hrest, -⟩ := bind_eq_ok.1 hfound
    cases hrest

end CypherGremlin
