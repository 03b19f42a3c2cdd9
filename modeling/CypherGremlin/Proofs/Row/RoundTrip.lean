import CypherGremlin.Proofs.Except
import CypherGremlin.Proofs.Lists
import CypherGremlin.Proofs.Row.Encoding
import CypherGremlin.Proofs.Table
import CypherGremlin.Proofs.Token
import CypherGremlin.Row.Basic

/-!
# Reading back what was returned

Reading a row undoes the encoding of `ResultValue.encode`: a sound value that was returned in a
column of any kind of value is read as that value.

The reading of a map depends on its keys only through `tag?`, and the reading of a list on whether
its first item is the beginning of a path.  An encoded value is never such an item by itself, which
is why lists of paths, and paths inside of maps, are not mistaken for paths.

* `Reads` is the property that goes through the induction over the value;
* `ResultValue.read_encode` is the induction, with one lemma for each kind of value;
* `RawRow.read_encoded` is the result for rows.
-/

namespace CypherGremlin

variable {entries : List (String × ResultValue)} {vs : List ResultValue} {n : ResultNode}
  {r : ResultRelationship}
  {nodes : List ResultNode} {position : Nat} {relationships : List ResultRelationship}
  {rs : List Reading}

open List

/-! ## Tags -/

lemma decode?_of_isOrdinary {text : String} (h : isOrdinary text = true) :
    Token.decode? text = none := by
  rwa [isOrdinary, Option.isNone_iff_eq_none] at h

section

variable {α : Type}

lemma tag?_element (a : α) : tag? [(.name Token.element.encode, a)] = .ok (some (.element a)) := by
  simp [tag?, Marks.add, Token.decode?_encode, bind, Except.bind, pure, Except.pure]

lemma tag?_pathStart (path : String) (a : α) :
    tag? [(.name (Token.pathStart path).encode, a)] = .ok (some (.pathStart a)) := by
  simp [tag?, Marks.add, Token.decode?_encode, bind, Except.bind, pure, Except.pure]

def Token.MarksRelationship (t : Token) : Prop := t = .relationship ∨ ∃ hop, t = .pathEdge hop

lemma tag?_relationship {t : Token} (h : t.MarksRelationship) (a target source : α) :
    tag? [(.name t.encode, a), (.name Token.inV.encode, target),
      (.name Token.outV.encode, source)] = .ok (some (.relationship a target source)) := by
  rcases h with rfl | ⟨hop, rfl⟩ <;>
    simp [tag?, Marks.add, Token.decode?_encode, bind, Except.bind, pure, Except.pure]

/-- The key is no encoded token, or that of an end of a relationship. -/
def RawKey.IsPlain : RawKey → Prop
  | .name k => isOrdinary k = true ∨ k ∈ [Token.inV.encode, Token.outV.encode]
  | .id | .label => True

/-- Nothing is marked, except perhaps the ends of a relationship. -/
structure Marks.IsBlank (marks : Marks α) : Prop where
  element : marks.element = none
  relationship : marks.relationship = none
  id : marks.id = none
  pathStart : marks.pathStart = false

lemma Marks.exists_add_plain {marks : Marks α} (hmarks : marks.IsBlank) {entry : RawKey × α}
    (h : entry.1.IsPlain) : ∃ marks' : Marks α, marks'.IsBlank ∧ marks.add entry = .ok marks' := by
  obtain ⟨key, a⟩ := entry
  cases key with
  | id | label => exact ⟨marks, hmarks, rfl⟩
  | name k =>
    rcases h with hordinary | hend
    · exact ⟨marks, hmarks, by simp [Marks.add, decode?_of_isOrdinary hordinary]⟩
    · simp only [mem_cons, not_mem_nil, or_false] at hend
      rcases hend with rfl | rfl
      · exact ⟨{ marks with target := some a },
          { hmarks with }, by simp [Marks.add, Token.decode?_encode]⟩
      · exact ⟨{ marks with source := some a },
          { hmarks with }, by simp [Marks.add, Token.decode?_encode]⟩

lemma tag?_plain {entries : List (RawKey × α)} (h : ∀ entry ∈ entries, entry.1.IsPlain) :
    tag? entries = .ok none := by
  have hfold : ∀ marks : Marks α, marks.IsBlank →
      ∃ marks' : Marks α, marks'.IsBlank ∧ entries.foldlM Marks.add marks = .ok marks' := by
    induction entries with
    | nil => exact fun marks hmarks => ⟨marks, hmarks, rfl⟩
    | cons entry rest ih =>
      intro marks hmarks
      obtain ⟨hentry, hrest⟩ := forall_mem_cons.1 h
      obtain ⟨marks₁, hmarks₁, hadd⟩ := Marks.exists_add_plain hmarks hentry
      rw [foldlM_cons, hadd]
      exact ih hrest marks₁ hmarks₁
  obtain ⟨marks, hmarks, heq⟩ := hfold {} ⟨rfl, rfl, rfl, rfl⟩
  simp [tag?, heq, hmarks.element, hmarks.relationship, hmarks.id, hmarks.pathStart, bind,
    Except.bind, pure, Except.pure]

end

/-! ## Lists and maps -/

lemma Raw.readEntries_eq (entries : List (RawKey × Raw)) :
    readEntries entries = entries.map fun entry => (entry.1, entry.2.read) :=
  eq_map_of_cons rfl (fun _ _ => rfl) entries

/-- The reading is that of the value, and not of the beginning of a path. -/
structure Reads (v : ResultValue) (r : Reading) : Prop where
  value : r.value = .ok v
  startsPath : r.startsPath = .ok false

namespace Reading

lemma listValue_of_reads (h : List.Forall₂ Reads vs rs) : listValue rs = .ok (.list vs) := by
  have hvals : values rs = .ok vs := mapM_eq_ok.2 (h.flip.imp fun _ _ hr => hr.value)
  cases h with
  | nil => rfl
  | cons hfirst _ =>
    simp only [listValue, hfirst.startsPath, hvals, bind, Except.bind]
    rfl

/-- The reading of an entry, where the value is read in the given way. -/
def ReadsEntry (read : Reading → Except Misfit ResultValue) (entry : String × ResultValue)
    (r : RawKey × Reading) : Prop :=
  r.1 = .name entry.1 ∧ read r.2 = .ok entry.2

/-- The entries of a map of the query have the keys of the map that was returned. -/
lemma plainEntries_eq_ok {rs : List (RawKey × Reading)} :
    plainEntries rs = .ok entries ↔ List.Forall₂ (ReadsEntry Reading.value) entries rs := by
  rw [plainEntries, mapM_eq_ok]
  refine ⟨fun h => List.Forall₂.flip (h.imp ?_), fun h => h.flip.imp ?_⟩
  · rintro ⟨key, r⟩ ⟨k, v⟩ h
    cases key with
    | name name =>
      obtain ⟨v', hv, h⟩ := bind_eq_ok.1 h
      obtain ⟨rfl, rfl⟩ := Prod.mk.inj (pure_eq_ok.1 h)
      exact ⟨rfl, hv⟩
    | id | label => cases h
  · rintro ⟨_, r⟩ ⟨k, v⟩ ⟨rfl, hr⟩
    simp [show r.value = .ok v from hr, bind, Except.bind, pure, Except.pure]

/-- A map whose keys are not tokens, except perhaps for those of the ends of a relationship. -/
lemma reads_ofMap {rs : List (RawKey × Reading)}
    (hkeys : ∀ entry ∈ entries, (RawKey.name entry.1).IsPlain)
    (h : List.Forall₂ (ReadsEntry Reading.value) entries rs) : Reads (.map entries) (ofMap rs) := by
  have htag : tag? rs = .ok none := by
    refine tag?_plain fun r hr => ?_
    obtain ⟨entry, hentry, hk, _⟩ := exists_mem_of_forall₂ h r hr
    exact hk ▸ hkeys entry hentry
  constructor
  · simp only [ofMap, plain, htag, Except.bind, mapValue, plainEntries_eq_ok.2 h]
    rfl
  · simp only [ofMap, htag, Except.map, isPathStart]

section

variable {read : Reading → Except Misfit ResultValue} {properties : List (String × ResultValue)}
  {rs : List (RawKey × Reading)}

lemma foldlM_add_of_reads (h : List.Forall₂ (ReadsEntry read) properties rs) (found : Found)
    (hkeys : (Table.keys (found.properties ++ properties)).Nodup) :
    rs.foldlM (Found.add read) found =
      .ok { found with properties := found.properties ++ properties } := by
  induction h generalizing found with
  | nil =>
    rw [append_nil]
    rfl
  | @cons entry r properties rs hentry _ ih =>
    obtain ⟨hk, hr⟩ := hentry
    have hfresh : entry.1 ∉ Table.keys found.properties := by
      rw [Table.keys_append, Table.keys_cons] at hkeys
      intro hmem
      exact (nodup_append.1 hkeys).2.2 _ hmem _ mem_cons_self rfl
    have hadd : Found.add read found r =
        .ok { found with properties := found.properties ++ [entry] } := by
      simp only [Found.add, hk, hr, bind, Except.bind, Table.put_of_notMem entry.2 hfresh]
      rfl
    rw [foldlM_cons, hadd]
    have hkeys' : (Table.keys ((found.properties ++ [entry]) ++ properties)).Nodup := by
      rwa [append_assoc]
    refine (ih { found with properties := found.properties ++ [entry] } hkeys').trans ?_
    rw [append_assoc]
    rfl

lemma elementMap_of_reads {id : ElementId} {label : String} {rid rlabel : Reading}
    (hid : rid.id = .ok id) (hlabel : rlabel.label = .ok label)
    (h : List.Forall₂ (ReadsEntry read) properties rs) (hkeys : (Table.keys properties).Nodup) :
    elementMap read ((.id, rid) :: (.label, rlabel) :: rs) = .ok ⟨id, label, properties⟩ := by
  have hfold := foldlM_add_of_reads h { id := some id, label := some label } hkeys
  simp only [elementMap, foldlM_cons, Found.add, hid, hlabel, bind, Except.bind, pure, Except.pure]
    at hfold ⊢
  rw [hfold]
  rfl

end

/-! ## Paths -/

section

variable {first : Reading}

/-- The readings are those of the nodes and relationships of a path, from a position on.  Nodes
stand at even positions and relationships at odd ones. -/
inductive ReadsParts : Nat → List Reading → List ResultNode → List ResultRelationship → Prop
  | nil (position : Nat) : ReadsParts position [] [] []
  | start {r : Reading} {rs : List Reading} {n : ResultNode} {nodes : List ResultNode}
    {relationships : List ResultRelationship} (part : r.part = .ok (.start (.ok n)))
    (rest : ReadsParts 1 rs nodes relationships) : ReadsParts 0 (r :: rs) (n :: nodes) relationships
  | node {position : Nat} {r : Reading} {rs : List Reading} {n : ResultNode}
    {nodes : List ResultNode}
    {relationships : List ResultRelationship} (even : position % 2 = 0)
    (part : r.part = .ok (.node (.ok n)))
    (rest : ReadsParts (position + 1) rs nodes relationships) : ReadsParts position (r :: rs)
    (n :: nodes) relationships
  | relationship {position : Nat} {r : Reading} {rs : List Reading} {e : ResultRelationship}
    {nodes : List ResultNode}
    {relationships : List ResultRelationship} (odd : position % 2 = 1)
    (part : r.part = .ok (.relationship (.ok e)))
    (rest : ReadsParts (position + 1) rs nodes relationships) : ReadsParts position (r :: rs) nodes
    (e :: relationships)

lemma ReadsParts.pathParts_eq (h : ReadsParts position rs nodes relationships) :
    pathParts position rs = .ok ⟨nodes, relationships⟩ := by
  induction h with
  | nil => rfl
  | start hpart _ ih =>
    simp only [pathParts, hpart, ih, bind, Except.bind]
    rfl
  | node hpos hpart _ ih | relationship hpos hpart _ ih =>
    simp only [pathParts, hpart, ih, bind, Except.bind, addPart, if_pos hpos]
    rfl

lemma readsParts_of_pathParts {found : FoundPath} (h : pathParts position rs = .ok found) :
    ReadsParts position rs found.nodes found.relationships := by
  induction rs generalizing position found with
  | nil => exact Except.ok.inj h ▸ .nil position
  | cons r rest ih =>
    obtain ⟨part, hpart, h⟩ := bind_eq_ok.1 h
    obtain ⟨add, hadd, h⟩ := bind_eq_ok.1 h
    obtain ⟨found', hfound, h⟩ := bind_eq_ok.1 h
    obtain rfl := pure_eq_ok.1 h
    have hrest := ih hfound
    cases part with
    | start content =>
      rw [addPart] at hadd
      split at hadd
      · subst_vars
        obtain ⟨n, rfl, rfl⟩ := map_eq_ok.1 hadd
        exact .start hpart hrest
      · cases hadd
    | node content =>
      rw [addPart] at hadd
      split at hadd
      · obtain ⟨n, rfl, rfl⟩ := map_eq_ok.1 hadd
        exact .node ‹_› hpart hrest
      · cases hadd
    | relationship content =>
      rw [addPart] at hadd
      split at hadd
      · obtain ⟨e, rfl, rfl⟩ := map_eq_ok.1 hadd
        exact .relationship ‹_› hpart hrest
      · cases hadd
    | other => cases hadd

lemma isJoined_iff {n : Nat} : PathOf.isJoined nodes relationships = true ↔
      nodes.length = relationships.length + 1 ∧ firstGap? n nodes relationships = none := by
  fun_induction PathOf.isJoined nodes relationships generalizing n with
  | case1 => simp [firstGap?]
  | case2 a b nodes r relationships ih =>
    have hjoins : joins r a b = r.connects a b := rfl
    rw [Bool.and_eq_true, ih (n := n + 1), firstGap?, hjoins]
    by_cases hr : r.connects a b = true
    · simp [hr]
    · simp [hr]
  | case3 nodes relationships hone hmore =>
    refine iff_of_false Bool.false_ne_true ?_
    rintro ⟨hlen, -⟩
    rcases nodes with _ | ⟨a, _ | ⟨b, nodes⟩⟩ <;> rcases relationships with _ | ⟨r, relationships⟩
    case cons.nil.nil => exact hone a rfl rfl
    case cons.cons.cons => exact hmore a b nodes r relationships rfl rfl
    all_goals simp at hlen

/-- A list is read as a path if its items are the elements of the path, and these hold together. -/
lemma path_eq_ok_iff {p : ResultPath} :
    path rs = .ok p ↔ PathOf.isJoined p.nodes p.relationships = true ∧
      ReadsParts 0 rs p.nodes p.relationships := by
  constructor
  · intro h
    obtain ⟨found, hfound, h⟩ := bind_eq_ok.1 h
    by_cases hlen : found.nodes.length = found.relationships.length + 1
    · simp only [hlen, ne_eq, not_true_eq_false, if_false] at h
      split at h
      · cases h
      · rename_i hgap
        obtain rfl := pure_eq_ok.1 h
        exact ⟨isJoined_iff.2 ⟨hlen, hgap⟩, readsParts_of_pathParts hfound⟩
    · rw [if_pos hlen] at h
      cases h
  · rintro ⟨hjoined, hreads⟩
    obtain ⟨hlen, hgap⟩ := (isJoined_iff (n := 0)).1 hjoined
    simp only [path, hreads.pathParts_eq, bind, Except.bind, hlen, ne_eq, not_true_eq_false,
      if_false, hgap]
    rfl

lemma listValue_of_startsPath (h : first.startsPath = .ok true) :
    listValue (first :: rs) = (path (first :: rs)).map .path := by
  simp only [listValue, h, bind, Except.bind, if_true]
  cases path (first :: rs) <;> rfl

end

end Reading

/-! ## Elements -/

lemma ElementId.read_encode {id : ElementId} (h : id.isSound = true) :
    id.encode.read.id = .ok id := by
  cases id with
  | int i => rfl
  | string s =>
    have hs : Token.decode? s = none := decode?_of_isOrdinary h
    simp [ElementId.encode, Raw.read, Reading.ofString, hs]

namespace ResultValue

variable (names : List Nat → String)

/-- The value is read back wherever it stands. -/
def ReadsBack (v : ResultValue) : Prop := ∀ place, Reads v (v.encode names place).read

def NodeReadsBack (n : ResultNode) : Prop :=
  ∀ place tag, ∃ content, (encodeNode names place tag n).read =
    .ofMap [(.name tag.encode, content)] ∧ content.node = .ok n

def RelationshipReadsBack (r : ResultRelationship) : Prop :=
  ∀ place tag, ∃ content target source, (encodeRelationship names place tag r).read =
      .ofMap [(.name tag.encode, content), (.name Token.inV.encode, target),
      (.name Token.outV.encode, source)] ∧
    Reading.relationship content target source = .ok r

variable {names}

lemma reads_encodeAll (h : ∀ v ∈ vs, ReadsBack names v) (place : List Nat) (position : Nat) :
    List.Forall₂ Reads vs (Raw.readAll (encodeAll names place position vs)) := by
  induction vs generalizing position with
  | nil => exact .nil
  | cons v rest ih =>
    obtain ⟨hv, hrest⟩ := forall_mem_cons.1 h
    exact .cons (hv _) (ih hrest (position + 1))

lemma reads_encodeEntries (h : ∀ entry ∈ entries, ReadsBack names entry.2) (place : List Nat)
    (position : Nat) : List.Forall₂ (Reading.ReadsEntry Reading.value) entries
      (Raw.readEntries (encodeEntries names place position entries)) := by
  induction entries generalizing position with
  | nil => exact .nil
  | cons entry rest ih =>
    obtain ⟨hentry, hrest⟩ := forall_mem_cons.1 h
    exact .cons ⟨rfl, (hentry _).value⟩ (ih hrest (position + 1))

lemma reads_wrapped {raws : List (RawKey × Raw)}
    (h : List.Forall₂ (Reading.ReadsEntry Reading.value) entries (Raw.readEntries raws)) :
    List.Forall₂ (Reading.ReadsEntry Reading.property) entries
    (Raw.readEntries (Raw.wrapped raws)) := by
  have hwrapped : Raw.readEntries (Raw.wrapped raws) =
      (Raw.readEntries raws).map fun entry => (entry.1, Reading.ofList [entry.2]) := by
    clear h
    induction raws with
    | nil => rfl
    | cons raw rest ih =>
      simp only [Raw.wrapped, map_cons, Raw.readEntries, Raw.read, Raw.readAll] at ih ⊢
      rw [ih]
  rw [hwrapped, forall₂_map_right_iff]
  exact h.imp fun _ _ hentry => ⟨hentry.1, hentry.2⟩

lemma nodup_of_keysDiffer (h : keysDiffer entries = true) : (Table.keys entries).Nodup :=
  of_decide_eq_true h

/-! ## One lemma for each kind of value -/

lemma readsBack_list (h : ∀ v ∈ vs, ReadsBack names v) : ReadsBack names (.list vs) := by
  intro place
  exact ⟨Reading.listValue_of_reads (reads_encodeAll h place 0), rfl⟩

lemma readsBack_map (hkeys : ∀ entry ∈ entries, isOrdinary entry.1 = true)
    (h : ∀ entry ∈ entries, ReadsBack names entry.2) : ReadsBack names (.map entries) :=
  fun place => Reading.reads_ofMap (fun entry hentry => .inl (hkeys entry hentry))
    (reads_encodeEntries h place 0)

lemma nodeReadsBack (h : ∀ entry ∈ n.properties, ReadsBack names entry.2)
    (hsound : n.id.isSound = true) (hlabels : n.labels.length = 1)
    (hkeys : (Table.keys n.properties).Nodup) : NodeReadsBack names n := by
  intro place tag
  obtain ⟨l, hl⟩ := length_eq_one_iff.1 hlabels
  obtain ⟨id, labels, properties⟩ := n
  obtain rfl : labels = [l] := hl
  refine ⟨_, rfl, ?_⟩
  have hmap := Reading.elementMap_of_reads (ElementId.read_encode hsound)
    (show (Raw.string l).read.label = .ok l from rfl)
    (reads_wrapped (reads_encodeEntries h place 0)) hkeys
  simp only [Raw.elementMap, Raw.read, Raw.readEntries, Reading.ofMap, Reading.mapNode, headD_cons]
    at hmap ⊢
  rw [hmap]
  rfl

lemma relationshipReadsBack (h : ∀ entry ∈ r.properties, ReadsBack names entry.2)
    (hsound : r.id.isSound = true) (hstart : r.startId.isSound = true)
    (hend : r.endId.isSound = true) (hkeys : (Table.keys r.properties).Nodup) :
    RelationshipReadsBack names r := by
  intro place tag
  obtain ⟨id, type, startId, endId, properties⟩ := r
  refine ⟨_, _, _, rfl, ?_⟩
  have hmap := Reading.elementMap_of_reads (ElementId.read_encode hsound)
    (show (Raw.string type).read.label = .ok type from rfl) (reads_encodeEntries h place 0) hkeys
  simp only [Reading.relationship, Raw.elementMap, Raw.read, Raw.readEntries, Reading.ofMap,
    ElementId.read_encode hstart, ElementId.read_encode hend] at hmap ⊢
  rw [hmap]
  rfl

lemma readsBack_node (h : NodeReadsBack names n) : ReadsBack names (.node n) := by
  intro place
  obtain ⟨content, hread, hnode⟩ := h place .element
  rw [encode, hread]
  constructor
  · simp [Reading.ofMap, Reading.plain, tag?_element, Except.bind, Reading.mapValue, hnode,
      Except.map]
  · simp [Reading.ofMap, tag?_element, Except.map, Reading.isPathStart]

lemma readsBack_relationship (h : RelationshipReadsBack names r) :
    ReadsBack names (.relationship r) := by
  intro place
  obtain ⟨content, target, source, hread, hrel⟩ := h place .relationship
  rw [encode, hread]
  constructor
  · simp [Reading.ofMap, Reading.plain, tag?_relationship (.inl rfl), Except.bind,
      Reading.mapValue, hrel, Except.map]
  · simp [Reading.ofMap, tag?_relationship (.inl rfl), Except.map, Reading.isPathStart]

/-! ## Encoded paths -/

section

lemma readsParts_encodeNode (h : NodeReadsBack names n) (place : List Nat) (path : String)
    (hrest : Reading.ReadsParts (2 * position + 1) rs nodes relationships) :
    Reading.ReadsParts (2 * position)
    ((encodeNode names place (nodeTag path position) n).read :: rs) (n :: nodes) relationships := by
  obtain ⟨content, hread, hnode⟩ := h place (nodeTag path position)
  rw [hread, nodeTag]
  cases position with
  | zero =>
    refine .start ?_ hrest
    simp only [if_true, Reading.ofMap, tag?_pathStart, Except.map, Reading.mapPart, hnode]
  | succ position =>
    refine .node (by omega) ?_ hrest
    simp only [Nat.succ_ne_zero, if_false, Reading.ofMap, tag?_element, Except.map,
      Reading.mapPart, hnode]

lemma readsParts_encodeRelationship (h : RelationshipReadsBack names r) (place : List Nat)
    (path : String) (hrest : Reading.ReadsParts (2 * (position + 1)) rs nodes relationships) :
    Reading.ReadsParts (2 * position + 1)
    ((encodeRelationship names place (edgeTag path position) r).read :: rs) nodes
    (r :: relationships) := by
  obtain ⟨content, target, source, hread, hrel⟩ := h place (edgeTag path position)
  have hmarks : (edgeTag path position).MarksRelationship := .inr ⟨_, rfl⟩
  rw [hread]
  refine .relationship (by omega) ?_ hrest
  simp only [Reading.ofMap, tag?_relationship hmarks, Except.map, Reading.mapPart, hrel]

/-- The elements of a path are found in their order. -/
lemma readsParts_encode (hnodes : ∀ n ∈ nodes, NodeReadsBack names n)
    (hrels : ∀ r ∈ relationships, RelationshipReadsBack names r)
    (hjoined : PathOf.isJoined nodes relationships = true) (place : List Nat) (position : Nat) :
    Reading.ReadsParts (2 * position)
    (Raw.readAll (Raw.alternate (encodeNodes names place position nodes)
      (encodeRelationships names place position relationships))) nodes relationships := by
  fun_induction PathOf.isJoined nodes relationships generalizing position with
  | case1 n => exact readsParts_encodeNode (hnodes n mem_cons_self) _ _ (.nil _)
  | case2 a b nodes r relationships ih =>
    obtain ⟨_, hrest⟩ := Bool.and_eq_true_iff.1 hjoined
    obtain ⟨ha, hnodes⟩ := forall_mem_cons.1 hnodes
    obtain ⟨hr, hrels⟩ := forall_mem_cons.1 hrels
    have htail := ih hnodes hrels hrest (position + 1)
    exact readsParts_encodeNode ha _ _ (readsParts_encodeRelationship hr _ _ htail)
  | case3 => simp at hjoined

end

lemma startsPath_encodeNodes (h : NodeReadsBack names n) (nodes : List ResultNode)
    (place : List Nat) (relationships : List Raw) :
    ∃ first rest, Raw.readAll
    (Raw.alternate (encodeNodes names place 0 (n :: nodes)) relationships) = first :: rest ∧
      first.startsPath = .ok true := by
  obtain ⟨content, hread, _⟩ := h (0 :: place) (nodeTag (names place) 0)
  have hstarts : (encodeNode names (0 :: place) (nodeTag (names place) 0) n).read.startsPath =
      .ok true := by
    rw [hread]
    simp only [nodeTag, if_true, Reading.ofMap, tag?_pathStart, Except.map, Reading.isPathStart]
  cases relationships with
  | nil => exact ⟨_, _, rfl, hstarts⟩
  | cons _ _ => exact ⟨_, _, rfl, hstarts⟩

lemma readsBack_path {p : ResultPath} (hnodes : ∀ n ∈ p.nodes, NodeReadsBack names n)
    (hrels : ∀ r ∈ p.relationships, RelationshipReadsBack names r)
    (hjoined : PathOf.isJoined p.nodes p.relationships = true) : ReadsBack names (.path p) := by
  intro place
  obtain ⟨nodes, relationships⟩ := p
  refine ⟨?_, rfl⟩
  cases nodes with
  | nil => simp [PathOf.isJoined] at hjoined
  | cons n nodes =>
    have hpath : Reading.path (Raw.readAll (Raw.alternate (encodeNodes names place 0 (n :: nodes))
        (encodeRelationships names place 0 relationships))) = .ok ⟨n :: nodes, relationships⟩ :=
      Reading.path_eq_ok_iff.2 ⟨hjoined, readsParts_encode hnodes hrels hjoined place 0⟩
    obtain ⟨first, rest, hall, hfirst⟩ :=
      startsPath_encodeNodes (hnodes n mem_cons_self) nodes place
      (encodeRelationships names place 0 relationships)
    simp only [encode, encodePath, Raw.read, Reading.ofList, Reading.plain]
    rw [hall] at hpath ⊢
    rw [Reading.listValue_of_startsPath hfirst, hpath]
    rfl

/-! ## All values -/

mutual

theorem read_encode (names : List Nat → String) :
    ∀ v : ResultValue, v.isSound = true → ReadsBack names v
  | .null, _ =>
    fun _ => ⟨by simp [encode, Raw.read, Reading.ofString, Reading.plain, Reading.stringValue,
      Token.decode?_encode], rfl⟩
  | .bool _, _ | .int _, _ | .float _, _ => fun _ => ⟨rfl, rfl⟩
  | .string s, h =>
    fun _ => ⟨by simp [encode, Raw.read, Reading.ofString, Reading.plain, Reading.stringValue,
      decode?_of_isOrdinary h], rfl⟩
  | .list items, h => readsBack_list (read_encodeAll names items h)
  | .map entries, h => by
    obtain ⟨hkeys, hentries⟩ := Bool.and_eq_true_iff.1 h
    exact readsBack_map (all_eq_true.1 hkeys) (read_encodeEntries names entries hentries)
  | .node n, h => readsBack_node (read_encodeNode names n h)
  | .relationship r, h => readsBack_relationship (read_encodeRelationship names r h)
  | .path p, h => read_encodePath names p h

theorem read_encodeAll (names : List Nat → String) :
    ∀ vs : List ResultValue, allSound vs = true → ∀ v ∈ vs, ReadsBack names v
  | [], _ => by simp
  | v :: rest, h => by
    obtain ⟨hv, hrest⟩ := Bool.and_eq_true_iff.1 h
    exact forall_mem_cons.2 ⟨read_encode names v hv, read_encodeAll names rest hrest⟩

theorem read_encodeEntries (names : List Nat → String) :
    ∀ entries : List (String × ResultValue), entriesSound entries = true →
      ∀ entry ∈ entries, ReadsBack names entry.2
  | [], _ => by simp
  | (_, v) :: rest, h => by
    obtain ⟨hv, hrest⟩ := Bool.and_eq_true_iff.1 h
    exact forall_mem_cons.2 ⟨read_encode names v hv, read_encodeEntries names rest hrest⟩

theorem read_encodeNode (names : List Nat → String) :
    ∀ n : NodeOf ResultValue, nodeSound n = true → NodeReadsBack names n
  | ⟨id, labels, properties⟩, h => by
    simp only [nodeSound, Bool.and_eq_true, beq_iff_eq] at h
    exact nodeReadsBack (read_encodeEntries names properties h.2) h.1.1.1 h.1.1.2
      (nodup_of_keysDiffer h.1.2)

theorem read_encodeRelationship (names : List Nat → String) :
    ∀ r : RelationshipOf ResultValue, relationshipSound r = true → RelationshipReadsBack names r
  | ⟨id, type, startId, endId, properties⟩, h => by
    simp only [relationshipSound, Bool.and_eq_true] at h
    exact relationshipReadsBack (read_encodeEntries names properties h.2) h.1.1.1.1
      h.1.1.1.2 h.1.1.2 (nodup_of_keysDiffer h.1.2)

theorem read_encodeNodes (names : List Nat → String) :
    ∀ ns : List (NodeOf ResultValue), nodesSound ns = true → ∀ n ∈ ns, NodeReadsBack names n
  | [], _ => by simp
  | n :: rest, h => by
    obtain ⟨hn, hrest⟩ := Bool.and_eq_true_iff.1 h
    exact forall_mem_cons.2 ⟨read_encodeNode names n hn, read_encodeNodes names rest hrest⟩

theorem read_encodeRelationships (names : List Nat → String) :
    ∀ rs : List (RelationshipOf ResultValue), relationshipsSound rs = true →
      ∀ r ∈ rs, RelationshipReadsBack names r
  | [], _ => by simp
  | r :: rest, h => by
    obtain ⟨hr, hrest⟩ := Bool.and_eq_true_iff.1 h
    exact forall_mem_cons.2 ⟨read_encodeRelationship names r hr,
      read_encodeRelationships names rest hrest⟩

theorem read_encodePath (names : List Nat → String) :
    ∀ p : PathOf ResultValue, pathSound p = true → ReadsBack names (.path p)
  | ⟨nodes, relationships⟩, h => by
    simp only [pathSound, Bool.and_eq_true] at h
    exact readsBack_path (read_encodeNodes names nodes h.1.1)
      (read_encodeRelationships names relationships h.1.2) h.2

end

end ResultValue

lemma RawRow.read_single {row : RawRow} {name : String} {raw : Raw} {v : ResultValue}
    (hrow : Table.get? row name = some raw) (hval : raw.read.value = .ok v) :
    RawRow.read [⟨name, .value⟩] row = .ok [(name, v)] := by
  have hadmits : ColumnKind.value.admits v = true := by cases v <;> rfl
  have hcol : RawRow.column row ⟨name, .value⟩ = .ok v := by
    simp only [RawRow.column, hrow, Column.read, hval, hadmits, bind, Except.bind, if_true]
    rfl
  simp only [RawRow.read, foldlM_cons, foldlM_nil, hcol, bind, Except.bind]
  rfl

/-- A sound value that an engine returned in a column for any values is read as that value, whatever
the names of the paths in it and whatever else is in the row. -/
theorem RawRow.read_encoded {v : ResultValue} (hv : v.isSound = true) (names : List Nat → String)
    {row : RawRow} {name : String} (hrow : Table.get? row name = some (v.encode names [])) :
    RawRow.read [⟨name, .value⟩] row = .ok [(name, v)] := by
  have hval := (ResultValue.read_encode names v hv []).value
  exact RawRow.read_single hrow hval

/-- A path against the direction of its relationship, in a map and in a list after a null.  A
property of its first node is a list with one item. -/
def ResultValue.journey : ResultValue :=
  let home : ResultNode := ⟨.int 1, ["Town"], [("streets", .list [.string "High Street"])]⟩
  let away : ResultNode := ⟨.string "b", ["Town"], []⟩
  let road : ResultRelationship := ⟨.int 7, "ROAD", .string "b", .int 1, [("toll", .null)]⟩
  .list [.null, .map [("route", .path ⟨[home, away], [road]⟩),
  ("towns", .list [.node home, .node away])]]

theorem RawRow.read_encoded_journey : ResultValue.journey.isSound = true ∧
    RawRow.read [⟨"c", .value⟩] [("c", ResultValue.journey.encode (fun _ => "p") [])] =
      .ok [("c", ResultValue.journey)] :=
  ⟨by decide +kernel, RawRow.read_encoded (by decide +kernel) _ rfl⟩

end CypherGremlin
