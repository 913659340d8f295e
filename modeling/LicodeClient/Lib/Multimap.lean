import Mathlib.Data.List.Basic
import Mathlib.Data.Set.Insert

/-!
Ordered maps from keys to ordered sets of values, seen as relations between keys
and values: adding, removing one value and removing a key are an insertion and two
deletions of pairs. A map that binds no key to the empty set is determined by its
relation, so adding its pairs one by one to the empty map gives it back.
-/

/-- Keys bound to sets of values, both in their order. -/
abbrev Multimap (κ ν : Type) [Ord κ] [Ord ν] := Std.ExtTreeMap κ (Std.ExtTreeSet ν)

namespace Multimap

variable {κ ν : Type} [Ord κ] [Std.TransOrd κ] [Ord ν] [Std.TransOrd ν] {m m' : Multimap κ ν}

/-- One more value under a key, in a set of its own when the key is not bound. -/
def add (m : Multimap κ ν) (k : κ) (v : ν) : Multimap κ ν :=
  match m[k]? with
  | none => m.insert k ((∅ : Std.ExtTreeSet ν).insert v)
  | some values => m.insert k (values.insert v)

/-- One value less under a key, which goes with its last value. -/
def removeValue (m : Multimap κ ν) (k : κ) (v : ν) : Multimap κ ν :=
  match m[k]? with
  | none => m
  | some values => if (values.erase v).isEmpty then m.erase k else m.insert k (values.erase v)

/-- The keys with each of their values, as a loop in a loop meets them. -/
def pairs (m : Multimap κ ν) : List (κ × ν) := m.toList.flatMap (fun p => p.2.toList.map (fun v => (p.1,v)))

/-- The value is in the set that the key is bound to. -/
def Holds (m : Multimap κ ν) (k : κ) (v : ν) : Prop := ∃ values, m[k]? = some values ∧ v ∈ values

/-- The map as a set of pairs. -/
def relation (m : Multimap κ ν) : Set (κ × ν) := {p | Holds m p.1 p.2}

/-- No key is bound to the empty set. -/
def Full (m : Multimap κ ν) : Prop := ∀ (k : κ) (values : Std.ExtTreeSet ν), m[k]? = some values → values ≠ ∅

omit [Std.TransOrd ν] in
theorem full_empty : Full (∅ : Multimap κ ν) := by
  intro k values bound
  simp at bound

theorem not_holds_empty (k : κ) (v : ν) : ¬ Holds (∅ : Multimap κ ν) k v := by
  rintro ⟨values,bound,_⟩
  simp at bound

/-- What `add` binds: under its key the old values and the new one. -/
theorem getElem?_add (m : Multimap κ ν) (k j : κ) (v : ν) :
    (add m k v)[j]? = if compare k j = .eq then some ((m[k]?.getD ∅).insert v) else m[j]? := by
  unfold add
  cases m[k]? <;> simp [Std.ExtTreeMap.getElem?_insert]

theorem full_add (full : Full m) (k : κ) (v : ν) : Full (add m k v) := by
  intro j values bound
  rw [getElem?_add] at bound
  split at bound
  · obtain rfl := Option.some.inj bound
    exact Std.ExtTreeSet.insert_ne_empty
  · exact full j values bound

omit [Std.TransOrd ν] in
theorem full_erase (full : Full m) (k : κ) : Full (m.erase k) := by
  intro j values bound
  rw [Std.ExtTreeMap.getElem?_erase] at bound
  split at bound
  · cases bound
  · exact full j values bound

theorem full_removeValue (full : Full m) (k : κ) (v : ν) : Full (removeValue m k v) := by
  unfold removeValue
  split
  · exact full
  · split
    · exact full_erase full k
    · next values _ filled =>
      intro j values' bound
      rw [Std.ExtTreeMap.getElem?_insert] at bound
      split at bound
      · obtain rfl := Option.some.inj bound
        intro empty
        exact filled (by rw [empty]; exact Std.ExtTreeSet.isEmpty_empty)
      · exact full j values' bound

theorem full_foldl_add (ps : List (κ × ν)) (full : Full m) : Full (ps.foldl (fun m p => add m p.1 p.2) m) := by
  induction ps generalizing m with
  | nil => exact full
  | cons p ps ih => exact ih (full_add full p.1 p.2)

variable [Std.LawfulEqOrd ν]

theorem Full.exists_mem (full : Full m) {k : κ} {values : Std.ExtTreeSet ν} (bound : m[k]? = some values) :
    ∃ v, v ∈ values := by
  by_contra none
  refine full k values bound (Std.ExtTreeSet.ext_mem (fun v => ?_))
  simp only [Std.ExtTreeSet.not_mem_empty,iff_false]
  intro inside
  exact none ⟨v,inside⟩

/-- A key that is bound on one side is bound to the same set on the other. -/
theorem bound_of_holds (full : Full m) (same : ∀ k v, Holds m k v ↔ Holds m' k v) {k : κ}
    {values : Std.ExtTreeSet ν} (bound : m[k]? = some values) : m'[k]? = some values := by
  obtain ⟨v,inside⟩ := full.exists_mem bound
  obtain ⟨values',bound',_⟩ := (same k v).mp ⟨values,bound,inside⟩
  rw [bound']
  refine congrArg some (Std.ExtTreeSet.ext_mem (fun w => ?_))
  have both := same k w
  simpa [Holds,bound,bound'] using both.symm

variable [Std.LawfulEqOrd κ]

theorem mem_pairs {k : κ} {v : ν} : (k,v) ∈ pairs m ↔ Holds m k v := by
  constructor
  · intro member
    obtain ⟨⟨key,values⟩,bound,listed⟩ := List.mem_flatMap.mp member
    obtain ⟨value,inside,same⟩ := List.mem_map.mp listed
    obtain ⟨rfl,rfl⟩ := Prod.mk.inj same
    exact ⟨values,Std.ExtTreeMap.mem_toList_iff_getElem?_eq_some.mp bound,Std.ExtTreeSet.mem_toList.mp inside⟩
  · rintro ⟨values,bound,inside⟩
    refine List.mem_flatMap.mpr ⟨(k,values),Std.ExtTreeMap.mem_toList_iff_getElem?_eq_some.mpr bound,?_⟩
    exact List.mem_map.mpr ⟨v,Std.ExtTreeSet.mem_toList.mpr inside,rfl⟩

theorem ext_holds (full : Full m) (full' : Full m') (same : ∀ k v, Holds m k v ↔ Holds m' k v) : m = m' := by
  refine Std.ExtTreeMap.ext_getElem? (fun k => Option.ext (fun values => ?_))
  constructor
  · exact bound_of_holds full same
  · exact bound_of_holds full' (fun k v => (same k v).symm)

theorem holds_add {k j : κ} {v w : ν} : Holds (add m k v) j w ↔ (k,v) = (j,w) ∨ Holds m j w := by
  unfold Holds
  rw [getElem?_add]
  by_cases here : k = j
  · subst here
    cases m[k]? <;> simp
  · simp [here]

theorem holds_removeValue {k j : κ} {v w : ν} :
    Holds (removeValue m k v) j w ↔ Holds m j w ∧ (k,v) ≠ (j,w) := by
  unfold Holds removeValue
  by_cases here : k = j
  · subst here
    cases bound : m[k]? with
    | none => simp [bound]
    | some values =>
      by_cases last : (values.erase v).isEmpty = true
      · have gone : ∀ x, ¬ (v ≠ x ∧ x ∈ values) := by
          intro x left
          have inside : x ∈ values.erase v := by simpa [Std.ExtTreeSet.mem_erase] using left
          rw [Std.ExtTreeSet.isEmpty_iff.mp last] at inside
          exact Std.ExtTreeSet.not_mem_empty inside
        simp only [last,if_true,Std.ExtTreeMap.getElem?_erase_self]
        simpa [and_comm] using gone w
      · simp only [last]
        simp [and_comm]
  · cases m[k]? with
    | none => simp [here]
    | some values =>
      simp only
      split <;> simp [here,Std.ExtTreeMap.getElem?_erase,Std.ExtTreeMap.getElem?_insert]

omit [Std.LawfulEqOrd ν] in
theorem holds_erase {k j : κ} {w : ν} : Holds (m.erase k) j w ↔ Holds m j w ∧ j ≠ k := by
  unfold Holds
  rw [Std.ExtTreeMap.getElem?_erase]
  by_cases here : k = j
  · simp [here]
  · simp [here,Ne.symm here]

theorem relation_add (m : Multimap κ ν) (k : κ) (v : ν) : relation (add m k v) = insert (k,v) (relation m) := by
  ext ⟨j,w⟩
  exact holds_add.trans (or_congr_left eq_comm)

theorem relation_removeValue (m : Multimap κ ν) (k : κ) (v : ν) :
    relation (removeValue m k v) = relation m \ {(k,v)} := by
  ext ⟨j,w⟩
  exact holds_removeValue.trans (and_congr_right (fun _ => ne_comm))

omit [Std.LawfulEqOrd ν] in
theorem relation_erase (m : Multimap κ ν) (k : κ) : relation (m.erase k) = {p ∈ relation m | p.1 ≠ k} := by
  ext ⟨j,w⟩
  exact holds_erase

/-- Maps without empty sets are their relations. -/
theorem eq_of_relation (full : Full m) (full' : Full m') (same : relation m = relation m') : m = m' :=
  ext_holds full full' (fun k v => Set.ext_iff.mp same (k,v))

theorem holds_foldl_add (ps : List (κ × ν)) {k : κ} {v : ν} :
    Holds (ps.foldl (fun m p => add m p.1 p.2) m) k v ↔ (k,v) ∈ ps ∨ Holds m k v := by
  induction ps generalizing m with
  | nil => simp
  | cons p ps ih =>
    rw [List.foldl_cons,ih,holds_add,List.mem_cons,← or_assoc]
    refine or_congr_left ?_
    rw [or_comm,eq_comm]

/-- Adding the pairs of a map to the empty map gives the map back. -/
theorem foldl_add_pairs (full : Full m) : m.pairs.foldl (fun m p => add m p.1 p.2) ∅ = m := by
  refine ext_holds (full_foldl_add _ full_empty) full (fun k v => ?_)
  rw [holds_foldl_add,mem_pairs]
  simp [not_holds_empty]

/-! ### The order of the pairs -/

omit [Std.LawfulEqOrd κ]
omit [Std.LawfulEqOrd ν]

/-- The order of the keys, and under one key that of the values. -/
def Precedes (p p' : κ × ν) : Prop := compare p.1 p'.1 = .lt ∨ p.1 = p'.1 ∧ compare p.2 p'.2 = .lt

theorem not_precedes_of_precedes {p p' : κ × ν} (before : Precedes p p') : ¬ Precedes p' p := by
  rintro (keys | ⟨same,values⟩)
  · rcases before with keys' | ⟨same',_⟩
    · exact Std.OrientedCmp.not_lt_of_lt keys keys'
    · rw [same'] at keys
      exact Std.OrientedCmp.not_lt_of_lt keys keys
  · rcases before with keys' | ⟨_,values'⟩
    · rw [same] at keys'
      exact Std.OrientedCmp.not_lt_of_lt keys' keys'
    · exact Std.OrientedCmp.not_lt_of_lt values values'

theorem ordered_pairs (m : Multimap κ ν) : m.pairs.Pairwise Precedes := by
  refine List.pairwise_flatMap.mpr ⟨?_,?_⟩
  · rintro ⟨k,values⟩ _
    rw [List.pairwise_map]
    exact Std.ExtTreeSet.ordered_toList.imp (fun values => .inr ⟨rfl,values⟩)
  · refine Std.ExtTreeMap.ordered_keys_toList.imp ?_
    intro a b keys p left p' right
    obtain ⟨v,_,rfl⟩ := List.mem_map.mp left
    obtain ⟨v',_,rfl⟩ := List.mem_map.mp right
    exact .inl keys

theorem nodup_of_ordered {ps : List (κ × ν)} (ordered : ps.Pairwise Precedes) : ps.Nodup :=
  ordered.imp (fun {p p'} before (same : p = p') => not_precedes_of_precedes before (same ▸ before))

/-- The pairs are the only list in this order with the same members. -/
theorem eq_pairs {ps : List (κ × ν)} (ordered : ps.Pairwise Precedes) (same : ∀ p, p ∈ ps ↔ p ∈ m.pairs) :
    ps = m.pairs := by
  have perm := (List.perm_ext_iff_of_nodup (nodup_of_ordered ordered) (nodup_of_ordered m.ordered_pairs)).mpr same
  refine List.Perm.eq_of_pairwise (fun p p' _ _ before after => ?_) ordered m.ordered_pairs perm
  exact absurd after (not_precedes_of_precedes before)

end Multimap
