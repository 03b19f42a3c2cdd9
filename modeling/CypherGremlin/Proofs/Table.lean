import CypherGremlin.Table
import Mathlib.Data.List.Nodup

/-!
# Laws of tables

A table is read through `Table.get?` and `Table.keys`.  Writing under a known key keeps the keys as
they are; writing under a new key puts the entry at the end.  So a table that is only ever written
with `Table.put` never repeats a key.
-/

namespace CypherGremlin

open List

namespace Table

variable {κ α : Type}

/-! ## Reading -/

@[simp] lemma keys_nil : keys ([] : Table κ α) = [] := rfl

@[simp] lemma keys_cons (entry : κ × α) (table : Table κ α) :
    keys (entry :: table) = entry.1 :: keys table := rfl

@[simp] lemma keys_append (a b : Table κ α) : keys (a ++ b) = keys a ++ keys b := by
  simp [keys]

variable [BEq κ] [LawfulBEq κ] {table : Table κ α} {key other : κ} {value : α}

lemma mem_of_get? (h : get? table key = some value) : (key, value) ∈ table := by
  induction table with
  | nil => simp [get?] at h
  | cons entry rest ih =>
    by_cases hk : entry.1 = key
    · simp only [get?, hk, beq_self_eq_true, if_true, Option.some.injEq] at h
      simp [← hk, ← h]
    · simp only [get?, beq_iff_eq, hk, if_false] at h
      exact mem_cons_of_mem _ (ih h)

lemma mem_keys_of_get? (h : get? table key = some value) : key ∈ keys table :=
  mem_map_of_mem (mem_of_get? h)

lemma get?_eq_none (h : key ∉ keys table) : get? table key = none := by
  cases hv : get? table key with
  | none => rfl
  | some value => exact absurd (mem_keys_of_get? hv) h

lemma get?_of_mem (hnodup : (keys table).Nodup) (h : (key, value) ∈ table) :
    get? table key = some value := by
  induction table with
  | nil => simp at h
  | cons entry rest ih =>
    obtain ⟨hentry, hrest⟩ := nodup_cons.1 hnodup
    rcases mem_cons.1 h with rfl | hmem
    · simp [get?]
    · have hkey : key ∈ keys rest := mem_map.2 ⟨(key, value), hmem, rfl⟩
      have hne : entry.1 ≠ key := by
        rintro rfl
        exact hentry hkey
      simpa [get?, hne] using ih hrest hmem

lemma mem_keys_of_has (h : has table key = true) : key ∈ keys table := by
  obtain ⟨value, hv⟩ := Option.isSome_iff_exists.1 h
  exact mem_keys_of_get? hv

lemma has_iff : has table key = true ↔ key ∈ keys table := by
  refine ⟨mem_keys_of_has, fun h => ?_⟩
  induction table with
  | nil => simp at h
  | cons entry rest ih =>
    by_cases hk : entry.1 = key
    · simp [has, get?, hk]
    · have hrest : key ∈ keys rest := by simpa [Ne.symm hk] using h
      simpa [has, get?, hk] using ih hrest

/-! ## Writing -/

lemma put_of_notMem (value : α) (h : key ∉ keys table) :
    put table key value = table ++ [(key, value)] := by
  induction table with
  | nil => rfl
  | cons entry rest ih =>
    simp only [keys_cons, mem_cons, not_or] at h
    simp [put, Ne.symm h.1, ih h.2]

lemma keys_put_of_mem (value : α) (h : key ∈ keys table) :
    keys (put table key value) = keys table := by
  induction table with
  | nil => simp at h
  | cons entry rest ih =>
    by_cases hk : entry.1 = key
    · simp [put, hk]
    · have hrest : key ∈ keys rest := by
        rcases mem_cons.1 h with hkey | hmem
        · exact absurd hkey.symm hk
        · exact hmem
      simp [put, hk, ih hrest]

lemma mem_keys_put : other ∈ keys (put table key value) ↔ other = key ∨ other ∈ keys table := by
  by_cases h : key ∈ keys table
  · rw [keys_put_of_mem value h]
    exact ⟨Or.inr, fun hor => hor.elim (fun heq => heq ▸ h) id⟩
  · rw [put_of_notMem value h, keys_append]
    simp [or_comm]

/-- The entries after a write: some of those before, and the new one. -/
lemma mem_of_mem_put {entry : κ × α} (h : entry ∈ put table key value) :
    entry = (key, value) ∨ entry ∈ table := by
  induction table with
  | nil => exact .inl (by simpa [put] using h)
  | cons first rest ih =>
    by_cases hk : first.1 = key
    · simp only [put, hk, beq_self_eq_true, if_true, mem_cons] at h
      exact h.imp_right (mem_cons_of_mem _)
    · simp only [put, beq_iff_eq, hk, if_false, mem_cons] at h
      rcases h with rfl | h
      · exact .inr mem_cons_self
      · exact (ih h).imp_right (mem_cons_of_mem _)

lemma get?_put_self (table : Table κ α) (key : κ) (value : α) :
    get? (put table key value) key = some value := by
  induction table with
  | nil => simp [put, get?]
  | cons entry rest ih =>
    by_cases hk : entry.1 = key
    · simp [put, get?, hk]
    · simpa [put, get?, hk] using ih

lemma get?_put_of_ne (value : α) (h : other ≠ key) :
    get? (put table key value) other = get? table other := by
  induction table with
  | nil => simp [put, get?, Ne.symm h]
  | cons entry rest ih =>
    by_cases hk : entry.1 = key
    · simp [put, get?, hk, Ne.symm h]
    · simp [put, get?, hk, ih]

/-- What is found after writing was written, or was there before. -/
lemma of_get?_put {value' : α} (h : get? (put table key value') other = some value) :
    other = key ∧ value = value' ∨ get? table other = some value := by
  by_cases heq : other = key
  · subst heq
    rw [get?_put_self] at h
    exact .inl ⟨rfl, (Option.some.inj h).symm⟩
  · exact .inr ((get?_put_of_ne value' heq).symm.trans h)

lemma nodup_keys_put (key : κ) (value : α) (h : (keys table).Nodup) :
    (keys (put table key value)).Nodup := by
  by_cases hmem : key ∈ keys table
  · rwa [keys_put_of_mem value hmem]
  · rw [put_of_notMem value hmem, keys_append]
    refine nodup_append.2 ⟨h, by simp, ?_⟩
    rintro other hother key' hkey rfl
    obtain rfl : other = key := mem_singleton.1 hkey
    exact hmem hother

lemma mem_keys_ofEntries {entries : List (κ × α)} :
    key ∈ keys (ofEntries entries) ↔ key ∈ entries.map Prod.fst := by
  suffices h : ∀ table : Table κ α,
      key ∈ keys (entries.foldl (fun table entry => put table entry.1 entry.2) table) ↔
        key ∈ entries.map Prod.fst ∨ key ∈ keys table by
    simpa [ofEntries] using h []
  induction entries with
  | nil => simp
  | cons entry rest ih =>
    intro table
    simp only [foldl_cons, ih, mem_keys_put, map_cons, mem_cons]
    tauto

end Table

end CypherGremlin
