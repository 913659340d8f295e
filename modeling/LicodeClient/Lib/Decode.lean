import Mathlib.Data.List.Forall2

/-!
Values that are read from data step by step, where a step that fails ends the
reading with its error (`Except`). A reading returns when every step of it does,
and fails as its first failing step does; a list is read element by element
(`mapM_eq_ok_iff`, `mapM_eq_error_iff`). `Avoids` says that a reading does not fail
with one particular error, whatever else it does.
-/
namespace Decode
universe u v
variable {ε : Type u} {α β : Type v} {e : ε}

theorem bind_eq_ok_iff {x : Except ε α} {f : α → Except ε β} {b : β} :
    x >>= f = .ok b ↔ ∃ a, x = .ok a ∧ f a = .ok b := by
  constructor
  · intro same
    cases x with
    | error e => cases same
    | ok a => exact ⟨a,rfl,same⟩
  · rintro ⟨a,rfl,same⟩
    exact same

theorem bind_eq_error_iff {x : Except ε α} {f : α → Except ε β} :
    x >>= f = .error e ↔ x = .error e ∨ ∃ a, x = .ok a ∧ f a = .error e := by
  constructor
  · intro same
    cases x with
    | error e' => cases same; exact .inl rfl
    | ok a => exact .inr ⟨a,rfl,same⟩
  · rintro (rfl | ⟨a,rfl,same⟩)
    · rfl
    · exact same

theorem map_eq_ok_iff {x : Except ε α} {f : α → β} {b : β} : f <$> x = .ok b ↔ ∃ a, x = .ok a ∧ f a = b := by
  cases x <;> simp [Functor.map,Except.map]

/-! ### Lists -/

theorem mapM_eq_ok_iff {f : α → Except ε β} {xs : List α} {ys : List β} :
    xs.mapM f = .ok ys ↔ List.Forall₂ (fun x y => f x = .ok y) xs ys := by
  induction xs generalizing ys with
  | nil =>
    rw [List.mapM_nil,List.forall₂_nil_left_iff]
    exact ⟨fun same => by cases same; rfl,fun same => by rw [same]; rfl⟩
  | cons x xs ih =>
    rw [List.mapM_cons,bind_eq_ok_iff,List.forall₂_cons_left_iff]
    refine exists_congr (fun y => ?_)
    rw [bind_eq_ok_iff]
    constructor
    · rintro ⟨read,ys',rest,same⟩
      cases same
      exact ⟨ys',read,ih.mp rest,rfl⟩
    · rintro ⟨ys',read,rest,rfl⟩
      exact ⟨read,ys',ih.mpr rest,rfl⟩

theorem forall₂_and {R S : α → β → Prop} {xs : List α} {ys : List β} (first : List.Forall₂ R xs ys)
    (second : List.Forall₂ S xs ys) : List.Forall₂ (fun x y => R x y ∧ S x y) xs ys := by
  induction first with
  | nil => exact .nil
  | cons here _ ih =>
    cases second with
    | cons here' rest' => exact .cons ⟨here,here'⟩ (ih rest')

/-- There is a list for a list when there is an element for each element. -/
theorem exists_forall₂_iff {R : α → β → Prop} {xs : List α} :
    (∃ ys, List.Forall₂ R xs ys) ↔ ∀ x ∈ xs, ∃ y, R x y := by
  induction xs with
  | nil => exact iff_of_true ⟨[],.nil⟩ (by simp)
  | cons x xs ih =>
    rw [List.forall_mem_cons,← ih]
    constructor
    · rintro ⟨ys,all⟩
      obtain ⟨y,ys',here,rest,-⟩ := List.forall₂_cons_left_iff.mp all
      exact ⟨⟨y,here⟩,ys',rest⟩
    · rintro ⟨⟨y,here⟩,ys,rest⟩
      exact ⟨y :: ys,.cons here rest⟩

/-- A list fails with its first element that does. -/
theorem mapM_eq_error_iff {f : α → Except ε β} {xs : List α} :
    xs.mapM f = .error e ↔
      ∃ before x later, xs = before ++ x :: later ∧ (∀ y ∈ before, ∃ b, f y = .ok b) ∧ f x = .error e := by
  induction xs with
  | nil =>
    constructor
    · intro same
      cases same
    · rintro ⟨before,x,later,split,-⟩
      simp at split
  | cons x xs ih =>
    rw [List.mapM_cons,bind_eq_error_iff]
    constructor
    · rintro (first | ⟨y,read,rest⟩)
      · exact ⟨[],x,xs,rfl,by simp,first⟩
      · rcases bind_eq_error_iff.mp rest with fails | ⟨ys,-,same⟩
        · obtain ⟨before,x',later,rfl,fine,last⟩ := ih.mp fails
          refine ⟨x :: before,x',later,rfl,?_,last⟩
          intro z member
          rcases List.mem_cons.mp member with rfl | member
          · exact ⟨y,read⟩
          · exact fine z member
        · cases same
    · rintro ⟨before,x',later,split,fine,last⟩
      cases before with
      | nil =>
        obtain ⟨rfl,rfl⟩ := List.cons.inj split
        exact .inl last
      | cons z before =>
        obtain ⟨rfl,rfl⟩ := List.cons.inj split
        obtain ⟨y,read⟩ := fine x List.mem_cons_self
        refine .inr ⟨y,read,bind_eq_error_iff.mpr (.inl (ih.mpr ⟨before,x',later,rfl,?_,last⟩))⟩
        exact fun w member => fine w (List.mem_cons_of_mem x member)

/-! ### Readings without a particular error -/

def Avoids (e : ε) (x : Except ε α) : Prop := x ≠ .error e

theorem avoids_ok (a : α) : Avoids e (.ok a : Except ε α) := by
  intro same
  cases same

theorem avoids_error {e' : ε} (other : e' ≠ e) : Avoids e (.error e' : Except ε α) := by
  intro same
  cases same
  exact other rfl

theorem avoids_bind {x : Except ε α} {f : α → Except ε β} (first : Avoids e x) (rest : ∀ a, Avoids e (f a)) :
    Avoids e (x >>= f) := by
  intro same
  rcases bind_eq_error_iff.mp same with fails | ⟨a,-,fails⟩
  · exact first fails
  · exact rest a fails

/-- A step that avoids the error hands it on to the rest. -/
theorem bind_eq_error_of_avoids {x : Except ε α} {f : α → Except ε β} (first : Avoids e x) :
    x >>= f = .error e ↔ ∃ a, x = .ok a ∧ f a = .error e :=
  bind_eq_error_iff.trans (or_iff_right first)

theorem avoids_ite {c : Prop} [Decidable c] {x y : Except ε α} (first : Avoids e x) (second : Avoids e y) :
    Avoids e (if c then x else y) := by
  split
  · exact first
  · exact second

theorem avoids_mapM {f : α → Except ε β} (each : ∀ x, Avoids e (f x)) (xs : List α) : Avoids e (xs.mapM f) := by
  intro same
  obtain ⟨-,x,-,-,-,fails⟩ := mapM_eq_error_iff.mp same
  exact each x fails

end Decode
