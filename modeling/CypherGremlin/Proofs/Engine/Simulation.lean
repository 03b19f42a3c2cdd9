import CypherGremlin.Proofs.Engine.Outcome
import CypherGremlin.Proofs.Engine.Step

/-!
# Simulation

When does one traversal stand in for another?  A pass that drops a label or the selection of a label
changes what traversers carry, so the two runs are not equal.  They are in a relation:

* `Agree K t t'` holds of two traversers with the same object that cannot be told apart by a step
  which reads only labels in `K`.  The second may remember where its edge was reached from when the
  first has forgotten it.
* `Refines I R x y` holds of two computations if `y` succeeds whenever `x` does, leaves the same
  world and gives a related result.  It is about worlds in which only the two buckets of deletions
  exist; a label is then never mistaken for a bucket.
* `Simulates I K f g` puts the two together for transforms.

Every operation of `Engine.Machine` is monotone in its children under this relation; there is one
lemma for each, under the name of the operation.
-/

namespace CypherGremlin

variable {I : World → Prop} {key : String} {K : String → Prop} {t t' : Traverser}

open List Machine

/-! ## Worlds -/

/-- The name of a bucket that deletions fill. -/
def IsBucketName (key : String) : Prop :=
  key = Token.delete.encode ∨ key = Token.detachDelete.encode

/-- Only buckets of deletions exist. -/
def World.Bucketed (w : World) : Prop := ∀ key ∈ Table.keys w.buckets, IsBucketName key

/-- The invariant does not depend on the graph. -/
def IgnoresGraph (I : World → Prop) : Prop := ∀ w graph, I w → I { w with graph }

/-- The invariant is kept when something is put into the bucket. -/
def AllowsFill (I : World → Prop) (key : String) : Prop := ∀ w objs, I w →
  I { w with buckets := Table.put w.buckets key ((Table.get? w.buckets key).getD [] ++ objs) }

lemma World.Bucketed.allowsFill (hkey : IsBucketName key) : AllowsFill World.Bucketed key := by
  intro w objs hw key' hmem
  rcases Table.mem_keys_put.1 hmem with rfl | hmem
  · exact hkey
  · exact hw key' hmem

/-! ## Refinement of computations -/

/-- Where the invariant holds, the second computation succeeds whenever the first does, with the
same effect, which keeps the invariant, and a related result. -/
def Refines {α β : Type} (I : World → Prop) (R : α → β → Prop) (x : Run α) (y : Run β) : Prop :=
  ∀ w, I w → ∀ a w', x w = .ok (a, w') → I w' ∧ ∃ b, y w = .ok (b, w') ∧ R a b

namespace Refines

variable {α β γ δ : Type} {R : α → β → Prop} {S : γ → δ → Prop}

lemma pure {a : α} {b : β} (h : R a b) : Refines I R (pure a) (pure b) := by
  intro w hw a' w' hx
  obtain ⟨rfl, rfl⟩ := Prod.mk.inj (Run.pure_eq_ok.1 hx)
  exact ⟨hw, b, rfl, h⟩

lemma throw {halt : Halt} {y : Run β} : Refines I R (throw halt) y :=
  fun _ _ _ _ hx => absurd hx Run.throw_ne_ok

lemma bind {x : Run α} {y : Run β} {f : α → Run γ} {g : β → Run δ} (hx : Refines I R x y)
    (hf : ∀ a b, R a b → Refines I S (f a) (g b)) : Refines I S (x >>= f) (y >>= g) := by
  intro w hw c w' hrun
  obtain ⟨a, w₁, hxa, hfa⟩ := stateT_bind_eq_ok.1 hrun
  obtain ⟨hw₁, b, hyb, hab⟩ := hx w hw a w₁ hxa
  obtain ⟨hw', d, hgd, hcd⟩ := hf a b hab w₁ hw₁ c w' hfa
  exact ⟨hw', d, stateT_bind_eq_ok.2 ⟨b, w₁, hyb, hgd⟩, hcd⟩

/-- Two computations that give the same go on alike. -/
lemma bindEq {x y : Run α} {f : α → Run γ} {g : α → Run δ} (hx : Refines I Eq x y)
    (hf : ∀ a, Refines I S (f a) (g a)) : Refines I S (x >>= f) (y >>= g) :=
  hx.bind fun a _ hab => hab ▸ hf a

lemma observe {f : World → Except Halt α} {g : World → Except Halt β}
    (h : ∀ w a, f w = .ok a → ∃ b, g w = .ok b ∧ R a b) :
    Refines I R (Run.observe f) (Run.observe g) := by
  intro w hw a w' hrun
  obtain ⟨a, hf, hr⟩ := Run.observe_eq_ok.1 hrun
  obtain ⟨rfl, rfl⟩ := Prod.mk.inj hr
  obtain ⟨b, hg, hab⟩ := h w a hf
  exact ⟨hw, b, Run.observe_eq_ok.2 ⟨b, hg, rfl⟩, hab⟩

lemma observe_self (f : World → Except Halt α) : Refines I Eq (Run.observe f) (Run.observe f) :=
  observe fun _ a hf => ⟨a, hf, rfl⟩

lemma result_self (x : Except Halt α) : Refines I Eq (Run.result x) (Run.result x) := observe_self _

lemma update_self (hI : IgnoresGraph I) (f : Graph → Except Halt (α × Graph)) :
    Refines I Eq (Run.update f) (Run.update f) := by
  intro w hw a w' hrun
  refine ⟨?_, a, hrun, rfl⟩
  simp only [Run.update] at hrun
  cases hf : f w.graph with
  | error halt => simp [hf, Except.map] at hrun
  | ok r =>
    simp only [hf, Except.map, Except.ok.injEq, Prod.mk.injEq] at hrun
    rw [← hrun.2]
    exact hI w _ hw

lemma fill_self (hkey : AllowsFill I key) (objs : List Obj) :
    Refines I Eq (Run.fill key objs) (Run.fill key objs) := by
  intro w hw a w' hrun
  refine ⟨?_, a, hrun, rfl⟩
  simp only [Run.fill, Except.ok.injEq, Prod.mk.injEq] at hrun
  rw [← hrun.2]
  exact hkey w objs hw

/-- Two lists are treated alike if their items are. -/
lemma mapM {f : α → Run γ} {g : β → Run δ} {as : List α} {bs : List β}
    (hlists : List.Forall₂ R as bs) (hf : ∀ a b, R a b → Refines I S (f a) (g b)) :
    Refines I (List.Forall₂ S) (as.mapM f) (bs.mapM g) := by
  induction hlists with
  | nil => simpa only [mapM_nil] using pure .nil
  | cons hab _ ih =>
    simp only [mapM_cons]
    refine bind (hf _ _ hab) fun c d hcd => ?_
    exact bind ih fun cs ds hcds => pure (.cons hcd hcds)

end Refines

/-! ## Agreement of traversers -/

/-- Two traversers that a step which reads only the given labels cannot tell apart. -/
structure Agree (K : String → Prop) (t t' : Traverser) : Prop where
  obj : t'.obj = t.obj
  label : ∀ key, K key → t'.label? key = t.label? key
  origin : t.origin = none ∨ t'.origin = t.origin

namespace Agree

variable {t'' : Traverser}

lemma refl (t : Traverser) : Agree K t t := ⟨rfl, fun _ _ => rfl, .inr rfl⟩

lemma trans (h : Agree K t t') (h' : Agree K t' t'') : Agree K t t'' where
  obj := h'.obj.trans h.obj
  label key hkey := (h'.label key hkey).trans (h.label key hkey)
  origin := by
    rcases h.origin with hnone | heq
    · exact .inl hnone
    · rcases h'.origin with hnone' | heq'
      · exact .inl (heq ▸ hnone')
      · exact .inr (heq'.trans heq)

lemma carry (h : Agree K t t') (obj : Obj) : Agree K (t.carry obj) (t'.carry obj) :=
  ⟨rfl, h.label, .inl rfl⟩

lemma mark (h : Agree K t t') (key : String) : Agree K (t.mark key) (t'.mark key) where
  obj := h.obj
  label key' hkey := by
    simp only [Traverser.label?, Traverser.mark, Table.get?, h.obj]
    split
    · rfl
    · exact h.label key' hkey
  origin := h.origin

/-- A label that is not read can be left out. -/
lemma of_mark (h : Agree K t t') (hkey : ¬ K key) : Agree K (t.mark key) t' where
  obj := h.obj
  label key' hkey' := by
    have hne : key ≠ key' := fun heq => hkey (heq ▸ hkey')
    simp only [Traverser.label?, Traverser.mark, Table.get?, beq_iff_eq, hne, if_false]
    exact h.label key' hkey'
  origin := h.origin

/-- What is read stands for the same. -/
lemma find? (h : Agree K t t') (buckets : Table String (List Obj)) (hkey : K key) :
    t'.find? buckets key = t.find? buckets key := by
  rw [Traverser.find?, Traverser.find?, h.obj, h.label key hkey]

end Agree

/-- Two streams that agree traverser by traverser. -/
abbrev AgreeAll (K : String → Prop) : List Traverser → List Traverser → Prop :=
  List.Forall₂ (Agree K)

namespace AgreeAll

variable {ts ts' : List Traverser}

lemma refl (ts : List Traverser) : AgreeAll K ts ts := forall₂_same.2 fun t _ => .refl t

lemma objs_eq (h : AgreeAll K ts ts') : ts'.map Traverser.obj = ts.map Traverser.obj := by
  induction h with
  | nil => rfl
  | cons ht _ ih => simp [ht.obj, ih]

lemma isEmpty_eq (h : AgreeAll K ts ts') : ts'.isEmpty = ts.isEmpty := by
  cases h <;> rfl

lemma head?_obj_eq (h : AgreeAll K ts ts') :
    ts'.head?.map Traverser.obj = ts.head?.map Traverser.obj := by
  cases h with
  | nil => rfl
  | cons ht _ => simp [ht.obj]

lemma trans {ts'' : List Traverser} (h : AgreeAll K ts ts') (h' : AgreeAll K ts' ts'') :
    AgreeAll K ts ts'' := by
  induction h generalizing ts'' with
  | nil => exact h'
  | cons ht _ ih =>
    cases h' with
    | cons ht' hts' => exact .cons (ht.trans ht') (ih hts')

end AgreeAll

/-! ## Simulation of transforms -/

/-- The second transform stands in for the first where only the given labels are read. -/
def Simulates (I : World → Prop) (K : String → Prop) (f g : Transform) : Prop :=
  ∀ ts ts', AgreeAll K ts ts' → Refines I (AgreeAll K) (f ts) (g ts')

namespace Simulates

variable {f g h : Transform}

lemma trans (hfg : Simulates I K f g) (hgh : Simulates I K g h) : Simulates I K f h := by
  intro ts ts' hts w hw out w' hrun
  obtain ⟨_, mid, hmid, hout⟩ := hfg ts ts (.refl ts) w hw out w' hrun
  obtain ⟨hw', out', hrun', hout'⟩ := hgh ts ts' hts w hw mid w' hmid
  exact ⟨hw', out', hrun', hout.trans hout'⟩

lemma comp {f' g' : Transform} (hfg : Simulates I K f g) (hfg' : Simulates I K f' g') :
    Simulates I K (fun ts => f ts >>= f') (fun ts => g ts >>= g') :=
  fun ts ts' hts => (hfg ts ts' hts).bind hfg'

lemma identity : Simulates I K identity identity := fun _ _ hts => .pure hts

/-! ### Forms of operations -/

variable {p q : Traverser → Run (List Traverser)}

lemma each (h : ∀ t t', Agree K t t' → Refines I (AgreeAll K) (p t) (q t')) :
    Simulates I K (each p) (each q) := by
  intro ts ts' hts
  exact (Refines.mapM hts h).bind fun _ _ houts => .pure (rel_flatten houts)

lemma agreeAll_carry (h : Agree K t t') (objs : List Obj) :
    AgreeAll K (objs.map t.carry) (objs.map t'.carry) :=
  forall₂_map_left_iff.2 (forall₂_map_right_iff.2 (forall₂_same.2 fun obj _ => h.carry obj))

lemma agreeAll_toList (h : Agree K t t') (v : Option Obj) :
    AgreeAll K (v.map t.carry).toList (v.map t'.carry).toList := by
  simpa only [Option.toList_map] using agreeAll_carry h v.toList

lemma emit {e : Obj → Run (List Obj)} (he : ∀ obj, Refines I Eq (e obj) (e obj)) :
    Simulates I K (emit e) (emit e) := by
  refine each fun t t' ht => ?_
  rw [ht.obj]
  exact (he t.obj).bindEq fun objs => .pure (agreeAll_carry ht objs)

lemma emitOne (e : World → Obj → Except Halt Obj) : Simulates I K (emitOne e) (emitOne e) :=
  emit fun _ => .observe_self _

lemma keepBy {b c : Traverser → Run Bool} (h : ∀ t t', Agree K t t' → Refines I Eq (b t) (c t')) :
    Simulates I K (keepBy b) (keepBy c) := by
  refine each fun t t' ht => (h t t' ht).bindEq fun kept => ?_
  cases kept with
  | true => exact .pure (.cons ht .nil)
  | false => exact .pure .nil

lemma keep (b : World → Obj → Except Halt Bool) : Simulates I K (keep b) (keep b) := by
  refine keepBy fun t t' ht => ?_
  rw [ht.obj]
  exact .observe_self _

lemma gather (e : World → List Obj → Except Halt (List Obj)) :
    Simulates I K (Machine.gather e) (Machine.gather e) := by
  intro ts ts' hts
  simp only [Machine.gather, hts.objs_eq]
  exact (Refines.observe_self _).bindEq fun _ => .pure (.refl _)

/-! ### Children -/

variable {c d : Transform}

lemma run_child (h : Simulates I K c d) (ht : Agree K t t') :
    Refines I (AgreeAll K) (c [t]) (d [t']) :=
  h _ _ (.cons ht .nil)

lemma branch (h : Simulates I K c d) (ht : Agree K t t') :
    Refines I (AgreeAll K) (branch c t) (branch d t') := by
  refine (h.run_child ht).bind fun out out' hout => .pure (rel_map (fun o o' ho => ?_) hout)
  rw [ho.obj]
  exact ht.carry o.obj

lemma first (h : Simulates I K c d) (ht : Agree K t t') : Refines I Eq (first c t) (first d t') :=
  (h.run_child ht).bind fun _ _ hout => .pure hout.head?_obj_eq.symm

lemma value (h : Simulates I K c d) (ht : Agree K t t') (operator : String) :
    Refines I Eq (Machine.value operator c t) (Machine.value operator d t') := by
  refine (h.first ht).bindEq fun v => ?_
  cases v with
  | some v => exact .pure rfl
  | none => exact .throw

lemma produces (h : Simulates I K c d) (ht : Agree K t t') :
    Refines I Eq (produces c t) (produces d t') :=
  (h.run_child ht).bind fun _ _ hout => .pure (by rw [hout.isEmpty_eq])

variable {cs ds : List Transform}

lemma everyProduces (h : List.Forall₂ (Simulates I K) cs ds) (ht : Agree K t t') :
    Refines I Eq (everyProduces cs t) (everyProduces ds t') := by
  induction h with
  | nil => exact .pure rfl
  | cons hcd _ ih =>
    refine (hcd.produces ht).bindEq fun produced => ?_
    cases produced with
    | true => exact ih
    | false => exact .pure rfl

lemma someProduces (h : List.Forall₂ (Simulates I K) cs ds) (ht : Agree K t t') :
    Refines I Eq (someProduces cs t) (someProduces ds t') := by
  induction h with
  | nil => exact .pure rfl
  | cons hcd _ ih =>
    refine (hcd.produces ht).bindEq fun produced => ?_
    cases produced with
    | true => exact .pure rfl
    | false => exact ih

lemma firstBranch (h : List.Forall₂ (Simulates I K) cs ds) (ht : Agree K t t') :
    Refines I (AgreeAll K) (firstBranch cs t) (firstBranch ds t') := by
  induction h with
  | nil => exact .pure .nil
  | cons hcd _ ih =>
    refine (hcd.branch ht).bind fun out out' hout => ?_
    rw [hout.isEmpty_eq]
    cases out.isEmpty with
    | true => exact ih
    | false => exact .pure hout

/-! ### Operations with children -/

lemma filter (h : Simulates I K c d) : Simulates I K (filter c) (filter d) :=
  keepBy fun _ _ ht => h.produces ht

lemma not (h : Simulates I K c d) : Simulates I K (not c) (not d) :=
  keepBy fun _ _ ht => (h.produces ht).bindEq fun _ => .pure rfl

lemma and (h : List.Forall₂ (Simulates I K) cs ds) : Simulates I K (and cs) (and ds) :=
  keepBy fun _ _ ht => everyProduces h ht

lemma or (h : List.Forall₂ (Simulates I K) cs ds) : Simulates I K (or cs) (or ds) :=
  keepBy fun _ _ ht => someProduces h ht

lemma coalesce (h : List.Forall₂ (Simulates I K) cs ds) :
    Simulates I K (coalesce cs) (coalesce ds) :=
  each fun _ _ ht => firstBranch h ht

lemma union (h : List.Forall₂ (Simulates I K) cs ds) : Simulates I K (union cs) (union ds) := by
  refine each fun t t' ht => ?_
  exact (Refines.mapM h fun c d hcd => hcd.branch ht).bind fun _ _ houts =>
    .pure (rel_flatten houts)

lemma map (h : Simulates I K c d) : Simulates I K (map c) (map d) := by
  exact each fun t t' ht => (h.first ht).bindEq fun v => .pure (agreeAll_toList ht v)

lemma flatMap (h : Simulates I K c d) : Simulates I K (flatMap c) (flatMap d) :=
  each fun _ _ ht => h.branch ht

lemma sideEffect (h : Simulates I K c d) : Simulates I K (sideEffect c) (sideEffect d) :=
  each fun _ _ ht => (h.run_child ht).bind fun _ _ _ => .pure (.cons ht .nil)

lemma choose {b b' : Traverser → Run Bool} {no no' : Transform}
    (hb : ∀ t t', Agree K t t' → Refines I Eq (b t) (b' t')) (hyes : Simulates I K c d)
    (hno : Simulates I K no no') : Simulates I K (choose b c no) (choose b' d no') := by
  refine each fun t t' ht => (hb t t' ht).bindEq fun taken => ?_
  cases taken with
  | true => exact hyes.branch ht
  | false => exact hno.branch ht

lemma property (hI : IgnoresGraph I) {v v' : Traverser → Run Obj} (key : String)
    (hv : ∀ t t', Agree K t t' → Refines I Eq (v t) (v' t')) :
    Simulates I K (property key v) (property key v') := by
  refine each fun t t' ht => (hv t t' ht).bindEq fun obj => ?_
  rw [ht.obj]
  exact (Refines.update_self hI _).bind fun _ _ _ => .pure (.cons ht .nil)

/-- Entries with the same names whose traversals stand in for each other. -/
lemma project {entries entries' : List (String × Transform)}
    (h : List.Forall₂ (fun e e' => e.1 = e'.1 ∧ Simulates I K e.2 e'.2) entries entries') :
    Simulates I K (Machine.project entries) (Machine.project entries') := by
  refine each fun t t' ht => ?_
  have hentries : Refines I (List.Forall₂ Eq)
      (entries.mapM fun entry => do
      return (Obj.string entry.1, ← Machine.value "project" entry.2 t))
      (entries'.mapM fun entry => do
      return (Obj.string entry.1, ← Machine.value "project" entry.2 t')) := by
    exact Refines.mapM h fun e e' he => ((he.2).value ht "project").bindEq fun v =>
      .pure (by rw [he.1])
  refine hentries.bind fun map map' hmap => ?_
  obtain rfl := forall₂_eq_eq_eq ▸ hmap
  exact .pure (.cons (ht.carry _) .nil)

lemma agreeAll_insertionSort {keyed keyed' : List (List (Obj × Bool) × Traverser)}
    (h : List.Forall₂ (fun e e' => e.1 = e'.1 ∧ Agree K e.2 e'.2) keyed keyed') :
    AgreeAll K ((keyed.insertionSort fun a b => keyOrder a.1 b.1 ≠ .gt).map Prod.snd)
      ((keyed'.insertionSort fun a b => keyOrder a.1 b.1 ≠ .gt).map Prod.snd) := by
  -- Both lists are images of the list of pairs, and sorting looks at the keys only.
  have hfst : (keyed.zip keyed').map Prod.fst = keyed := map_fst_zip (h.length_eq ▸ le_rfl)
  have hsnd : (keyed.zip keyed').map Prod.snd = keyed' := map_snd_zip (h.length_eq ▸ le_rfl)
  have hpair : ∀ e ∈ keyed.zip keyed', e.1.1 = e.2.1 ∧ Agree K e.1.2 e.2.2 := by
    intro e he
    exact (forall₂_iff_zip.1 h).2 he
  have hleft := map_insertionSort
    (fun a b : (List (Obj × Bool) × Traverser) × List (Obj × Bool) × Traverser => keyOrder a.1.1
    b.1.1 ≠ .gt)
    (fun a b => keyOrder a.1 b.1 ≠ .gt) Prod.fst (keyed.zip keyed') (fun _ _ _ _ => Iff.rfl)
  have hright := map_insertionSort
    (fun a b : (List (Obj × Bool) × Traverser) × List (Obj × Bool) × Traverser => keyOrder a.1.1
    b.1.1 ≠ .gt) (fun a b => keyOrder a.1 b.1 ≠ .gt) Prod.snd (keyed.zip keyed')
    (fun a ha b hb => by rw [(hpair a ha).1, (hpair b hb).1])
  rw [hfst] at hleft
  rw [hsnd] at hright
  rw [← hleft, ← hright, map_map, map_map]
  refine forall₂_map_left_iff.2 (forall₂_map_right_iff.2 (forall₂_same.2 fun e he => ?_))
  exact (hpair e (by simpa using he)).2

lemma order {keys keys' : List (Transform × Bool)}
    (h : List.Forall₂ (fun k k' => Simulates I K k.1 k'.1 ∧ k.2 = k'.2) keys keys') :
    Simulates I K (order keys) (order keys') := by
  intro ts ts' hts
  refine Refines.bind
    (R := List.Forall₂ fun e e' => e.1 = e'.1 ∧ Agree K e.2 e'.2)
    (Refines.mapM hts fun t t' ht => ?_) fun keyed keyed' hkeyed =>
    .pure (agreeAll_insertionSort hkeyed)
  refine Refines.bind (R := List.Forall₂ Eq) (Refines.mapM h fun k k' hk => ?_) fun values values'
    hvals => ?_
  · exact (hk.1.value ht "order").bindEq fun v => .pure (by rw [hk.2])
  · obtain rfl := forall₂_eq_eq_eq ▸ hvals
    exact .pure ⟨rfl, ht⟩

/-- Groups with the same keys and members that agree. -/
abbrev AgreeGroups (K : String → Prop) :
    List (Obj × List Traverser) → List (Obj × List Traverser) → Prop :=
  List.Forall₂ fun e e' => e.1 = e'.1 ∧ AgreeAll K e.2 e'.2

lemma agreeGroups_addMember {groups groups' : List (Obj × List Traverser)}
    (h : AgreeGroups K groups groups') (key : Obj) (ht : Agree K t t') :
    AgreeGroups K (addMember key t groups) (addMember key t' groups') := by
  induction h with
  | nil => exact .cons ⟨rfl, .cons ht .nil⟩ .nil
  | @cons e e' rest rest' he hrest ih =>
    simp only [addMember, ← he.1]
    by_cases hsame : e.1.same key = true
    · simp only [hsame, if_true]
      exact .cons ⟨rfl, rel_append he.2 (.cons ht .nil)⟩ hrest
    · simp only [hsame]
      exact .cons ⟨rfl, he.2⟩ ih

lemma agreeGroups_groups {keyed keyed' : List (Obj × Traverser)}
    (h : List.Forall₂ (fun e e' => e.1 = e'.1 ∧ Agree K e.2 e'.2) keyed keyed') :
    AgreeGroups K (groups keyed) (groups keyed') := by
  suffices hfold : ∀ found found', AgreeGroups K found found' →
      AgreeGroups K (keyed.foldl (fun found entry => addMember entry.1 entry.2 found) found)
        (keyed'.foldl (fun found entry => addMember entry.1 entry.2 found) found') from
    hfold [] [] .nil
  induction h with
  | nil => exact fun _ _ hfound => hfound
  | cons he _ ih =>
    intro found found' hfound
    simp only [foldl_cons, ← he.1]
    exact ih _ _ (agreeGroups_addMember hfound _ he.2)

lemma group {k k' v v' : Transform} (hk : Simulates I K k k') (hv : Simulates I K v v') :
    Simulates I K (group k v) (group k' v') := by
  intro ts ts' hts
  refine Refines.bind (R := List.Forall₂ fun e e' => e.1 = e'.1 ∧ Agree K e.2 e'.2)
    (Refines.mapM hts fun t t' ht => ?_) fun keyed keyed' hkeyed => ?_
  · exact (hk.first ht).bindEq fun key => .pure ⟨rfl, ht⟩
  · refine Refines.bind (R := List.Forall₂ Eq)
      (Refines.mapM (agreeGroups_groups hkeyed) fun e e' he => ?_) fun entries entries' hentries =>
      ?_
    · refine (hv _ _ he.2).bind fun out out' hout => .pure ?_
      rw [hout.head?_obj_eq, he.1]
    · obtain rfl := forall₂_eq_eq_eq ▸ hentries
      exact .pure (.refl _)

/-! ### Operations without children -/

lemma V : Simulates I K V V := emit fun _ => .observe_self _

lemma E : Simulates I K E E := emit fun _ => .observe_self _

lemma edges (operator : String) (incident : Int64 → Edge → Bool) (types : List String) :
    Simulates I K (edges operator incident types) (edges operator incident types) := by
  refine each fun t t' ht => .observe fun w out hout => ?_
  simp only [ht.obj]
  cases hobj : t.obj with
  | vertex v =>
    simp only [hobj, Except.ok.injEq] at hout ⊢
    refine ⟨_, rfl, ?_⟩
    rw [← hout]
    refine forall₂_map_left_iff.2 (forall₂_map_right_iff.2 (forall₂_same.2 fun entry _ => ?_))
    exact ⟨rfl, ht.label, .inr rfl⟩
  | _ => simp [hobj] at hout

lemma outE (types : List String) : Simulates I K (outE types) (outE types) := edges _ _ types

lemma inE (types : List String) : Simulates I K (inE types) (inE types) := edges _ _ types

lemma bothE (types : List String) : Simulates I K (bothE types) (bothE types) :=
  edges _ _ types

lemma otherV : Simulates I K otherV otherV := by
  refine each fun t t' ht => .observe fun w out hout => ?_
  simp only [ht.obj]
  -- Only a traverser that remembers its origin gets here, and then both remember the same.
  rcases ht.origin with hnone | heq
  · simp only [hnone] at hout
    cases hedge : w.graph.edge "otherV" t.obj <;> simp [hedge, bind, Except.bind] at hout
  · rw [heq]
    cases hedge : w.graph.edge "otherV" t.obj with
    | error halt => simp [hedge, bind, Except.bind] at hout
    | ok edge =>
      cases horigin : t.origin with
      | none => simp [hedge, horigin, bind, Except.bind] at hout
      | some v =>
        simp only [hedge, horigin, bind, Except.bind, Pure.pure, Except.pure, Except.ok.injEq]
          at hout ⊢
        refine ⟨_, rfl, ?_⟩
        rw [← hout]
        exact .cons (ht.carry _) .nil

lemma addV (hI : IgnoresGraph I) (label : Option String) :
    Simulates I K (addV label) (addV label) :=
  emit fun _ => (Refines.update_self hI _).bindEq fun _ => .pure rfl

lemma resolve (ht : Agree K t t') (hkey : K key) :
    Refines I Eq (Run.resolve t key) (Run.resolve t' key) := by
  simp only [Run.resolve, ht.find? _ hkey]
  exact .observe_self _

lemma addE (hI : IgnoresGraph I) (type : String) {source target : String} (hsource : K source)
    (htarget : K target) : Simulates I K (addE type source target) (addE type source target) := by
  refine each fun t t' ht => (resolve ht hsource).bindEq fun a =>
    (resolve ht htarget).bindEq fun b => ?_
  split
  · exact (Refines.update_self hI _).bindEq fun _ => .pure (.cons (ht.carry _) .nil)
  · exact .throw

lemma drop (hI : IgnoresGraph I) : Simulates I K drop drop := by
  refine each fun t t' ht => ?_
  rw [ht.obj]
  exact (Refines.update_self hI _).bind fun _ _ _ => .pure .nil

lemma whereLabel (operator : String) (hkey : K key) :
    Simulates I K (whereLabel operator key) (whereLabel operator key) := by
  refine keepBy fun t t' ht => (resolve ht hkey).bindEq fun other => ?_
  rw [ht.obj]
  cases other with
  | some other => exact .result_self _
  | none => exact .pure rfl

lemma as (key : String) : Simulates I K (as key) (as key) := fun _ _ hts =>
  .pure (rel_map (fun _ _ ht => ht.mark key) hts)

lemma selectOne (hkey : K key) : Simulates I K (selectOne key) (selectOne key) :=
  each fun _ _ ht => (resolve ht hkey).bindEq fun v => .pure (agreeAll_toList ht v)

lemma selectMany {keys : List String} (hkeys : ∀ key ∈ keys, K key) :
    Simulates I K (selectMany keys) (selectMany keys) := by
  refine each fun t t' ht => ?_
  have hfind (w : World) : (keys.mapM fun key => (t'.find? w.buckets key).map
      fun v => (Obj.string key, v)) =
      keys.mapM fun key => (t.find? w.buckets key).map fun v => (Obj.string key, v) := by
    induction keys with
    | nil => rfl
    | cons key rest ih =>
      obtain ⟨hkey, hrest⟩ := forall_mem_cons.1 hkeys
      simp only [mapM_cons, ht.find? w.buckets hkey, ih hrest]
  simp only [hfind]
  refine (Refines.observe_self _).bindEq fun entries => .pure ?_
  simpa only [Option.map_map, Function.comp_def] using agreeAll_toList ht (entries.map .map)

lemma select {keys : List String} (hkeys : ∀ key ∈ keys, K key) :
    Simulates I K (select keys) (select keys) := by
  match keys with
  | [key] => exact selectOne (hkeys key (by simp))
  | [] => exact selectMany hkeys
  | _ :: _ :: _ => exact selectMany hkeys

lemma constant (v : Except Halt Obj) : Simulates I K (constant v) (constant v) := by
  intro ts ts' hts
  exact (Refines.result_self v).bindEq fun obj => .pure (rel_map (fun _ _ ht => ht.carry obj) hts)

lemma inject (vs : Except Halt (List Obj)) : Simulates I K (inject vs) (inject vs) := by
  intro ts ts' hts
  exact (Refines.result_self vs).bindEq fun _ => .pure (rel_append hts (AgreeAll.refl _))

lemma unfold : Simulates I K unfold unfold := by
  refine emit fun obj => ?_
  cases obj <;> exact .pure rfl

lemma agreeAll_distinct {ts ts' : List Traverser} (h : AgreeAll K ts ts') (seen : List Obj) :
    AgreeAll K (distinct seen ts) (distinct seen ts') := by
  induction h generalizing seen with
  | nil => exact .nil
  | @cons t t' rest rest' ht hrest ih =>
    simp only [distinct, ht.obj]
    by_cases hseen : seen.any (·.same t.obj) = true
    · simp only [hseen, if_true]
      exact ih seen
    · simp only [hseen]
      exact .cons ht (ih _)

lemma dedup : Simulates I K dedup dedup := fun _ _ hts => .pure (agreeAll_distinct hts [])

lemma limit (n : Nat) : Simulates I K (limit n) (limit n) :=
  fun _ _ hts => .pure (forall₂_take n hts)

lemma skip (n : Nat) : Simulates I K (skip n) (skip n) := fun _ _ hts => .pure (forall₂_drop n hts)

lemma range (low high : Nat) : Simulates I K (range low high) (range low high) := fun _ _ hts =>
  .pure (forall₂_take _ (forall₂_drop low hts))

lemma aggregate (hkey : AllowsFill I key) :
    Simulates I K (Machine.aggregate key) (Machine.aggregate key) := by
  intro ts ts' hts
  simp only [Machine.aggregate, hts.objs_eq]
  exact (Refines.fill_self hkey _).bind fun _ _ _ => .pure hts

end Simulates

end CypherGremlin
