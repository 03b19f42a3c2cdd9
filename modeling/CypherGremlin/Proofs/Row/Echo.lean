import CypherGremlin.Parameters
import CypherGremlin.Proofs.Query.Literal
import CypherGremlin.Proofs.Row.RoundTrip

/-!
# Parameters that come back

A parameter is sent to the engine as a constant, and a query may just return it.
`Parameters.prepare` changes nothing but null, which becomes its token, and refuses the texts that
could be taken for a token.  So what an engine hands back unchanged is read as the value that was
given: `Parameters.come_back_unchanged`.

* `Literal.echo` is what an engine returns that hands a constant back;
* `Literal.result` is the literal as a value of Cypher.

In both a map has one entry for each of its keys.  The key stands where it was first written, and
its last value counts.
-/

namespace CypherGremlin

variable {ε α β : Type} {entries : List (String × Literal)} {context : String}

open List

/-! ## Tables -/

namespace Table

variable {κ κ' α β : Type} [DecidableEq κ] [DecidableEq κ'] {f : κ → κ'} {R : α → β → Prop}

/-- The keys are the same up to their form, and the values are related. -/
def Matches (f : κ → κ') (R : α → β → Prop) (a : κ × α) (b : κ' × β) : Prop :=
  b.1 = f a.1 ∧ R a.2 b.2

lemma matches_put (hf : Function.Injective f) {as : Table κ α} {bs : Table κ' β}
    (h : List.Forall₂ (Matches f R) as bs) {a : κ × α} {b : κ' × β} (hab : Matches f R a b) :
    List.Forall₂ (Matches f R) (put as a.1 a.2) (put bs b.1 b.2) := by
  induction h with
  | nil => exact .cons hab .nil
  | @cons first first' rest rest' hfirst hrest ih =>
    have hkeys : first'.1 = b.1 ↔ first.1 = a.1 := by rw [hfirst.1, hab.1, hf.eq_iff]
    simp only [put, beq_iff_eq, hkeys]
    split
    · exact .cons ⟨hfirst.1, hab.2⟩ hrest
    · exact .cons hfirst ih

lemma matches_ofEntries (hf : Function.Injective f) {as : List (κ × α)} {bs : List (κ' × β)}
    (h : List.Forall₂ (Matches f R) as bs) :
    List.Forall₂ (Matches f R) (ofEntries as) (ofEntries bs) := by
  suffices hfold : ∀ table table', List.Forall₂ (Matches f R) table table' →
      List.Forall₂ (Matches f R) (as.foldl (fun table entry => put table entry.1 entry.2) table)
      (bs.foldl (fun table entry => put table entry.1 entry.2) table') from hfold [] [] .nil
  induction h with
  | nil => exact fun _ _ htable => htable
  | cons hab _ ih => exact fun _ _ htable => ih _ _ (matches_put hf htable hab)

end Table

lemma exists_mapM_eq_ok {f : α → Except ε β} {as : List α} :
    (∃ bs, as.mapM f = .ok bs) ↔ ∀ a ∈ as, ∃ b, f a = .ok b := by
  induction as with
  | nil => exact ⟨fun _ => forall_mem_nil _, fun _ => ⟨[], rfl⟩⟩
  | cons a rest ih =>
    simp only [mapM_cons, bind_eq_ok, pure_eq_ok, forall_mem_cons, ← ih]
    constructor
    · rintro ⟨_, b, hb, bs, hbs, -⟩
      exact ⟨⟨b, hb⟩, bs, hbs⟩
    · rintro ⟨⟨b, hb⟩, bs, hbs⟩
      exact ⟨b :: bs, b, hb, bs, hbs, rfl⟩

lemma exists_return_eq_ok {x : Except ε α} {f : α → β} :
    (∃ b, (do return f (← x)) = .ok b) ↔ ∃ a, x = .ok a := by
  cases x with
  | error e => simp [bind, Except.bind]
  | ok a => simp [bind, Except.bind, pure, Except.pure]

namespace Literal

/-- A scalar as an engine returns it that hands it back. -/
def scalarEcho : Literal → Raw
  | .bool b => .bool b
  | .int i => .int i
  | .float x => .float x
  | .string s => .string s
  | _ => .null

/-- The literal as an engine returns it that hands it back. -/
def echo : Literal → Raw :=
  fold scalarEcho .list fun entries =>
    .map (Table.ofEntries (entries.map fun entry => (.name entry.1, entry.2)))

def scalarResult : Literal → ResultValue
  | .bool b => .bool b
  | .int i => .int i
  | .float x => .float x
  | .string s => .string s
  | _ => .null

def result : Literal → ResultValue :=
  fold scalarResult .list fun entries => .map (Table.ofEntries entries)

/-! ## Which parameters are refused -/

lemma preparedAll_eq (items : List Literal) : preparedAll items = items.mapM prepared := by
  induction items with
  | nil => rfl
  | cons l rest ih => rw [preparedAll, mapM_cons, ih]

/-- An entry of a map, or a parameter, as the engine gets it. -/
def preparedEntry (context : String) (entry : String × Literal) :
    Except QueryFault (String × Literal) := do
  checkName entry.1 context
  return (entry.1, ← entry.2.prepared)

lemma preparedEntries_eq (entries : List (String × Literal)) :
    preparedEntries entries = entries.mapM (preparedEntry "parameter map key") := by
  induction entries with
  | nil => rfl
  | cons entry rest ih =>
    simp only [preparedEntries, mapM_cons, preparedEntry, ih, bind_assoc, pure_bind]

lemma checkName_eq_ok {text : String} :
    checkName text context = .ok () ↔ isReserved text = false := by
  cases h : isReserved text <;> simp [checkName, h]

lemma preparedEntry_eq_ok {entry entry' : String × Literal} :
    preparedEntry context entry = .ok entry' ↔
      isReserved entry.1 = false ∧ entry'.1 = entry.1 ∧ entry.2.prepared = .ok entry'.2 := by
  rw [preparedEntry, check_bind_eq_ok, checkName_eq_ok]
  refine and_congr_right fun _ =>
    ⟨fun h => ?_, fun h => bind_eq_ok.2 ⟨entry'.2, h.2, by rw [← h.1]; rfl⟩⟩
  obtain ⟨l', hl', h⟩ := bind_eq_ok.1 h
  obtain rfl := pure_eq_ok.1 h
  exact ⟨rfl, hl'⟩

/-- No text in the literal begins like the encoding of a token. -/
def Unreserved (l : Literal) : Prop := ∀ text ∈ l.texts, isReserved text = false

lemma unreserved_list {items : List Literal} :
    (Literal.list items).Unreserved ↔ ∀ l ∈ items, l.Unreserved :=
  forall_mem_collect_list

lemma unreserved_map :
    (Literal.map entries).Unreserved ↔ ∀ entry ∈ entries, isReserved entry.1 = false ∧
      entry.2.Unreserved := by
  simp only [Unreserved, texts, forall_mem_collect_map, forall_mem_singleton]

lemma exists_mapM_preparedEntry (h : ∀ entry ∈ entries, (∃ l', entry.2.prepared = .ok l') ↔
    entry.2.Unreserved) : (∃ prepared, entries.mapM (preparedEntry context) = .ok prepared) ↔
      ∀ entry ∈ entries, isReserved entry.1 = false ∧ entry.2.Unreserved := by
  rw [exists_mapM_eq_ok]
  refine forall₂_congr fun entry hentry => ?_
  simp only [preparedEntry_eq_ok, ← h entry hentry, exists_and_left, Prod.exists, exists_eq_left]

/-- A literal is refused exactly if it has a text that could be taken for a token. -/
theorem exists_prepared_iff (l : Literal) : (∃ l', l.prepared = .ok l') ↔ l.Unreserved := by
  induction l using inductItems with
  | null | bool | int | float => exact ⟨fun _ => forall_mem_nil _, fun _ => ⟨_, rfl⟩⟩
  | string s =>
    cases h : isReserved s <;>
      simp [prepared, checkName, Unreserved, texts, collect, fold, ownTexts, h, bind, Except.bind,
        pure, Except.pure]
  | list items ih =>
    rw [unreserved_list, ← forall₂_congr ih, ← exists_mapM_eq_ok, ← preparedAll_eq]
    exact exists_return_eq_ok
  | map entries ih =>
    rw [unreserved_map, ← exists_mapM_preparedEntry ih, ← preparedEntries_eq]
    exact exists_return_eq_ok

lemma isOrdinary_of_unreserved {text : String} (h : isReserved text = false) :
    isOrdinary text = true := by
  simp [isOrdinary, Token.decode?, h]

lemma readAll_eq (raws : List Raw) : Raw.readAll raws = raws.map Raw.read :=
  eq_map_of_cons rfl (fun _ _ => rfl) raws

lemma reads_echo {l l' : Literal} (h : l.prepared = .ok l') : Reads l.result l'.echo.read := by
  -- Only null is sent as something else, and its token is read as null again.
  induction l using inductItems generalizing l' with
  | null =>
    obtain rfl := Except.ok.inj h
    refine ⟨?_, rfl⟩
    simp [echo, result, fold, scalarEcho, scalarResult, Raw.read, Reading.ofString, Reading.plain,
      Reading.stringValue, Token.decode?_encode]
  | bool | int | float =>
    obtain rfl := Except.ok.inj h
    exact ⟨rfl, rfl⟩
  | string s =>
    obtain ⟨hs, h⟩ := check_bind_eq_ok.1 h
    obtain rfl := pure_eq_ok.1 h
    refine ⟨?_, rfl⟩
    simp [echo, result, fold, scalarEcho, scalarResult, Raw.read, Reading.ofString, Reading.plain,
      Reading.stringValue, decode?_of_isOrdinary (isOrdinary_of_unreserved (checkName_eq_ok.1 hs))]
  | list items ih =>
    obtain ⟨items', hitems, h⟩ := bind_eq_ok.1 h
    obtain rfl := pure_eq_ok.1 h
    rw [preparedAll_eq, mapM_eq_ok] at hitems
    have hreads : List.Forall₂ Reads (items.map result) (Raw.readAll (items'.map echo)) := by
      rw [readAll_eq, forall₂_map_right_iff, forall₂_map_right_iff, forall₂_map_left_iff]
      exact ((forall₂_and_left _ _).2 ⟨ih, hitems⟩).imp fun _ _ h => h.1 h.2
    rw [result, fold_list, echo, fold_list]
    exact ⟨Reading.listValue_of_reads hreads, rfl⟩
  | map entries ih =>
    have hunreserved := unreserved_map.1 ((exists_prepared_iff _).1 ⟨_, h⟩)
    obtain ⟨entries', hentries, h⟩ := bind_eq_ok.1 h
    obtain rfl := pure_eq_ok.1 h
    rw [preparedEntries_eq, mapM_eq_ok] at hentries
    have hmatch : List.Forall₂ (Table.Matches RawKey.name fun v raw => Reads v raw.read)
        (entries.map fun entry => (entry.1, entry.2.result))
        (entries'.map fun entry => (.name entry.1, entry.2.echo)) := by
      rw [forall₂_map_right_iff, forall₂_map_left_iff]
      refine ((forall₂_and_left _ _).2 ⟨ih, hentries⟩).imp fun entry entry' h => ?_
      obtain ⟨-, hkey, hval⟩ := preparedEntry_eq_ok.1 h.2
      exact ⟨by rw [hkey], h.1 hval⟩
    have htables := Table.matches_ofEntries (fun _ _ h => RawKey.name.inj h) hmatch
    rw [result, fold_map, echo, fold_map, map_map]
    refine Reading.reads_ofMap (fun entry hentry => ?_) ?_
    · have hkey := Table.mem_keys_ofEntries.1 (mem_map_of_mem hentry)
      rw [map_map, mem_map] at hkey
      obtain ⟨given, hgiven, heq⟩ := hkey
      exact .inl (heq ▸ isOrdinary_of_unreserved (hunreserved given hgiven).1)
    · rw [Raw.readEntries_eq, forall₂_map_right_iff]
      exact htables.imp fun _ _ h => ⟨h.1, h.2.value⟩

end Literal

lemma RawRow.read_of_reads {row : RawRow} {column : String} {raw : Raw}
    (hrow : Table.get? row column = some raw) {v : ResultValue} (h : Reads v raw.read) :
    RawRow.read [⟨column, .value⟩] row = .ok [(column, v)] := by
  have hadmits : ColumnKind.value.admits v = true := by cases v <;> rfl
  simp only [RawRow.read, foldlM_cons, foldlM_nil, RawRow.column, hrow, Column.read, h.value,
    hadmits, bind, Except.bind, if_true]
  rfl

/-- Parameters are refused exactly if a name, or a text at any depth of a value, could be taken for
a token.  Those that are not refused keep their names and their order, and a value that an engine
hands back unchanged is read as the value that was given. -/
theorem Parameters.come_back_unchanged (parameters : Parameters) :
    ((∃ prepared, parameters.prepare = .ok prepared) ↔
      ∀ entry ∈ parameters, isReserved entry.1 = false ∧ ∀ text ∈ entry.2.texts, isReserved text =
      false) ∧
    ∀ prepared, parameters.prepare = .ok prepared →
      List.Forall₂ (fun given sent => sent.1 = given.1 ∧
        ∀ row column, Table.get? row column = some sent.2.echo →
          RawRow.read [⟨column, .value⟩] row = .ok [(column, given.2.result)]) parameters
          prepared := by
  have hprepare : parameters.prepare = parameters.mapM (Literal.preparedEntry "parameter") := rfl
  refine ⟨?_, fun prepared h => ?_⟩
  · rw [hprepare]
    exact Literal.exists_mapM_preparedEntry fun entry _ => entry.2.exists_prepared_iff
  · rw [hprepare, mapM_eq_ok] at h
    refine h.imp fun given sent hsent => ?_
    obtain ⟨-, hname, hval⟩ := Literal.preparedEntry_eq_ok.1 hsent
    exact ⟨hname, fun row column hrow => RawRow.read_of_reads hrow (Literal.reads_echo hval)⟩

/-- A map with nulls in a list and a repeated key, and a parameter that is null. -/
def Parameters.nested : Parameters :=
  [("p", .map [("a", .list [.null, .string "x"]), ("b", .int 1), ("a", .null)]), ("q", .null)]

theorem Parameters.come_back_unchanged_nested :
    ∃ prepared, Parameters.nested.prepare = .ok prepared ∧
    List.Forall₂ (fun given sent => sent.1 = given.1 ∧
      ∀ row column, Table.get? row column = some sent.2.echo →
        RawRow.read [⟨column, .value⟩] row = .ok [(column, given.2.result)]) Parameters.nested
        prepared ∧
    Parameters.nested.map (·.2.result) = [.map [("a", .null), ("b", .int 1)], .null] := by
  obtain ⟨prepared, h⟩ := (Parameters.come_back_unchanged Parameters.nested).1.2 (by decide)
  exact ⟨prepared, h, (Parameters.come_back_unchanged Parameters.nested).2 prepared h, by rfl⟩

end CypherGremlin
