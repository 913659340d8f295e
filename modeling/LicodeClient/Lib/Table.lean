import Mathlib.Data.List.AList

/-!
Hash tables from keys to shared pointers, as `std::unordered_map` keeps them: a
key may be bound to a null pointer, and looking a key up with `operator[]` binds
it to one when it is not bound yet (`index`). What such a lookup reads is
`entry`, which is the same for an unbound key and for one bound to null; the
table tells them apart (`NoNull`). The order in which a loop meets the bindings
is left open (`Order`).
-/
namespace LicodeClient.Table
universe u v
variable {κ : Type u} {ν : Type v} [DecidableEq κ]

/-- Keys bound to pointers, `none` being the null pointer. -/
abbrev PtrTable (κ : Type u) (ν : Type v) := AList (fun _ : κ => Option ν)

/-- The table after a lookup with `operator[]`. -/
def index (t : PtrTable κ ν) (k : κ) : PtrTable κ ν := if k ∈ t then t else t.insert k none

/-- The pointer that a lookup with `operator[]` returns. -/
def entry (t : PtrTable κ ν) (k : κ) : Option ν := (t.lookup k).join

/-- The table after `emplace`, which leaves a key that is bound alone. -/
def emplace (t : PtrTable κ ν) (k : κ) (p : ν) : PtrTable κ ν := if k ∈ t then t else t.insert k (some p)

/-- No key is bound to the null pointer. -/
def NoNull (t : PtrTable κ ν) : Prop := ∀ k, t.lookup k ≠ some none

/-- The order in which a loop meets the bindings of a table. -/
structure Order (κ : Type u) (ν : Type v) where
  arrange : List (Sigma fun _ : κ => Option ν) → List (Sigma fun _ : κ => Option ν)
  perm : ∀ bindings, (arrange bindings).Perm bindings

/-- Bindings met as the table lists them. -/
def Order.listed : Order κ ν := ⟨id,fun _ => .refl _⟩

/-- A binding of the table met before all others. -/
def Order.first [DecidableEq ν] (binding : Sigma fun _ : κ => Option ν) : Order κ ν where
  arrange bindings := if binding ∈ bindings then binding :: bindings.erase binding else bindings
  perm bindings := by
    split
    · next member => exact (List.perm_cons_erase member).symm
    · exact .refl _

theorem lookup_index (t : PtrTable κ ν) (k l : κ) :
    (index t k).lookup l = if l = k ∧ k ∉ t then some none else t.lookup l := by
  unfold index
  by_cases bound : k ∈ t
  · simp [bound]
  · by_cases same : l = k
    · subst same; simp [bound]
    · simp [bound,same,AList.lookup_insert_ne same]

theorem lookup_emplace (t : PtrTable κ ν) (k l : κ) (p : ν) :
    (emplace t k p).lookup l = (t.lookup l).or (if k = l then some (some p) else none) := by
  unfold emplace
  by_cases bound : k ∈ t
  · by_cases same : k = l
    · subst same
      obtain ⟨held,found⟩ := Option.isSome_iff_exists.mp (AList.lookup_isSome.mpr bound)
      simp [bound,found]
    · simp [bound,same]
  · by_cases same : k = l
    · subst same
      simp [bound,AList.lookup_eq_none.mpr bound]
    · simp [bound,same,AList.lookup_insert_ne (Ne.symm same)]

/-- Reading with `operator[]` changes what no later lookup reads. -/
@[simp] theorem entry_index (t : PtrTable κ ν) (k l : κ) : entry (index t k) l = entry t l := by
  unfold entry
  rw [lookup_index]
  split
  · next fresh =>
    obtain ⟨rfl,unbound⟩ := fresh
    rw [AList.lookup_eq_none.mpr unbound]
    rfl
  · rfl

theorem entry_insert (t : PtrTable κ ν) (k l : κ) (p : Option ν) :
    entry (t.insert k p) l = if l = k then p else entry t l := by
  unfold entry
  by_cases same : l = k
  · subst same; simp
  · simp [same,AList.lookup_insert_ne same]

theorem entry_erase (t : PtrTable κ ν) (k l : κ) : entry (t.erase k) l = if l = k then none else entry t l := by
  unfold entry
  by_cases same : l = k
  · subst same; simp
  · simp [same,AList.lookup_erase_ne same]

@[simp] theorem entry_empty (k : κ) : entry (∅ : PtrTable κ ν) k = none := by simp [entry]

theorem mem_entries_iff (t : PtrTable κ ν) (k : κ) (p : Option ν) : ⟨k,p⟩ ∈ t.entries ↔ t.lookup k = some p := by
  rw [← AList.mem_lookup_iff]; rfl

theorem entry_eq_some_iff (t : PtrTable κ ν) (k : κ) (p : ν) : entry t k = some p ↔ t.lookup k = some (some p) := by
  unfold entry
  cases t.lookup k <;> simp

theorem mem_of_entry {t : PtrTable κ ν} {k : κ} {p : ν} (found : entry t k = some p) : k ∈ t := by
  rw [entry_eq_some_iff] at found
  exact AList.lookup_isSome.mp (by rw [found]; rfl)

/-- A lookup that finds a pointer changes nothing. -/
theorem index_of_entry {t : PtrTable κ ν} {k : κ} {p : ν} (found : entry t k = some p) : index t k = t :=
  if_pos (mem_of_entry found)

theorem noNull_empty : NoNull (∅ : PtrTable κ ν) := by intro k; simp

/-- A lookup with `operator[]` leaves a table free of null pointers exactly
    when the key is bound. -/
theorem noNull_index_iff {t : PtrTable κ ν} (clean : NoNull t) (k : κ) : NoNull (index t k) ↔ k ∈ t := by
  constructor
  · intro all
    by_contra unbound
    exact all k (by rw [lookup_index]; simp [unbound])
  · intro bound
    simpa [index,bound] using clean

theorem noNull_insert {t : PtrTable κ ν} (clean : NoNull t) (k : κ) (p : ν) : NoNull (t.insert k (some p)) := by
  intro l
  by_cases same : l = k
  · subst same; simp
  · rw [AList.lookup_insert_ne same]; exact clean l

theorem noNull_emplace {t : PtrTable κ ν} (clean : NoNull t) (k : κ) (p : ν) : NoNull (emplace t k p) := by
  unfold emplace
  split
  · exact clean
  · exact noNull_insert clean k p

/-- Without null pointers, `emplace` leads a key to what is there, or to the new
    pointer. -/
theorem entry_emplace {t : PtrTable κ ν} (clean : NoNull t) (k l : κ) (p : ν) :
    entry (emplace t k p) l = (entry t l).or (if k = l then some p else none) := by
  unfold entry
  rw [lookup_emplace]
  cases found : t.lookup l with
  | none => by_cases same : k = l <;> simp [same]
  | some held =>
    cases held with
    | none => exact absurd found (clean l)
    | some q => rfl

theorem noNull_erase {t : PtrTable κ ν} (clean : NoNull t) (k : κ) : NoNull (t.erase k) := by
  intro l
  by_cases same : l = k
  · subst same; simp
  · rw [AList.lookup_erase_ne same]; exact clean l

/-- Without null pointers a key is bound exactly when a lookup finds a pointer. -/
theorem mem_iff_entry {t : PtrTable κ ν} (clean : NoNull t) (k : κ) : k ∈ t ↔ ∃ p, entry t k = some p := by
  constructor
  · intro bound
    obtain ⟨p,found⟩ := Option.isSome_iff_exists.mp (AList.lookup_isSome.mpr bound)
    cases p with
    | none => exact absurd found (clean k)
    | some p => exact ⟨p,(entry_eq_some_iff t k p).mpr found⟩
  · rintro ⟨p,found⟩
    exact mem_of_entry found

end LicodeClient.Table
