import Mathlib.Data.List.Basic
import Mathlib.Data.List.DropRight

/-!
Cutting a list where a property first fails, and joining lists with separators.
-/
namespace Scan

variable {α : Type*} {p : α → Bool} {xs ys s t : List α}

/-- The list does not begin with an element that has the property. -/
def Stops (p : α → Bool) (s : List α) : Prop := ∀ a ∈ s.head?, p a = false

theorem stops_cons {a : α} (fails : p a = false) (s : List α) : Stops p (a :: s) := by
  intro b head
  obtain rfl := Option.some.inj head
  exact fails

theorem Stops.takeWhile (stops : Stops p s) : s.takeWhile p = [] := by
  cases s with
  | nil => rfl
  | cons a s => simp [stops a rfl]

/-- What has the property throughout is cut off from what does not begin with it. -/
theorem takeWhile_append (all : ∀ a ∈ xs, p a = true) (stops : Stops p s) : (xs ++ s).takeWhile p = xs := by
  rw [List.takeWhile_append_of_pos all,stops.takeWhile,List.append_nil]

theorem append_inj (left : ∀ a ∈ xs, p a = true) (right : ∀ a ∈ ys, p a = true) (stops : Stops p s)
    (stops' : Stops p t) (same : xs ++ s = ys ++ t) : xs = ys ∧ s = t := by
  have cut : xs = ys := by
    rw [← takeWhile_append left stops,same,takeWhile_append right stops']
  subst cut
  exact ⟨rfl,List.append_cancel_left same⟩

theorem forall_of_all {P : α → Prop} [DecidablePred P] (passes : xs.all (fun a => decide (P a)) = true) :
    ∀ a ∈ xs, P a := by
  intro a member
  exact of_decide_eq_true (List.all_eq_true.mp passes a member)

theorem intercalate_append (sep : List α) {xss yss : List (List α)} (left : xss ≠ []) (right : yss ≠ []) :
    sep.intercalate (xss ++ yss) = sep.intercalate xss ++ sep ++ sep.intercalate yss := by
  induction xss with
  | nil => exact absurd rfl left
  | cons xs xss ih =>
    cases xss with
    | nil => rw [List.singleton_append,List.intercalate_cons_of_ne_nil right,List.intercalate_singleton]
    | cons xs' xss =>
      rw [List.cons_append,List.intercalate_cons_of_ne_nil (by simp),ih (by simp),
        List.intercalate_cons_of_ne_nil (List.cons_ne_nil xs' xss)]
      simp only [List.append_assoc]

theorem intercalate_ne_nil (sep : List α) {xss : List (List α)} (given : xss ≠ []) (parts : ∀ xs ∈ xss, xs ≠ []) :
    sep.intercalate xss ≠ [] := by
  cases xss with
  | nil => exact absurd rfl given
  | cons xs xss =>
    have here := parts xs List.mem_cons_self
    cases xss with
    | nil => rwa [List.intercalate_singleton]
    | cons xs' xss =>
      rw [List.intercalate_cons_cons,List.append_assoc]
      exact List.append_ne_nil_of_left_ne_nil here _

theorem not_mem_intercalate {a : α} {sep : List α} {xss : List (List α)} (apart : a ∉ sep)
    (parts : ∀ xs ∈ xss, a ∉ xs) : a ∉ sep.intercalate xss := by
  induction xss with
  | nil => simp
  | cons xs xss ih =>
    have rest := ih (fun xs member => parts xs (List.mem_cons_of_mem _ member))
    have here := parts xs List.mem_cons_self
    cases xss with
    | nil => rwa [List.intercalate_singleton]
    | cons xs' xss =>
      rw [List.intercalate_cons_cons]
      simp only [List.mem_append,not_or]
      exact ⟨⟨here,apart⟩,rest⟩

/-! ### Splitting at a separator -/

section Splits
variable [DecidableEq α] {a : α} {piece : List α}

/-- The pieces of a split hold no separator and nothing that was not there. -/
theorem mem_splitOn (member : piece ∈ s.splitOn a) : a ∉ piece ∧ ∀ b ∈ piece, b ∈ s := by
  induction s generalizing piece with
  | nil =>
    rw [List.splitOn_nil,List.mem_singleton] at member
    subst member
    simp
  | cons b s ih =>
    have later : ∀ {piece}, piece ∈ s.splitOn a → a ∉ piece ∧ ∀ c ∈ piece, c ∈ b :: s := fun member =>
      ⟨(ih member).1,fun c inside => List.mem_cons_of_mem _ ((ih member).2 c inside)⟩
    rw [List.splitOn_cons_eq_if_modifyHead] at member
    split at member
    · rcases List.mem_cons.mp member with rfl | rest
      · simp
      · exact later rest
    · next other =>
      obtain ⟨first,rest,split⟩ := List.exists_cons_of_ne_nil (List.splitOn_ne_nil a s)
      rw [split,List.modifyHead_cons,List.mem_cons] at member
      rcases member with rfl | member
      · have listed : first ∈ s.splitOn a := split ▸ List.mem_cons_self
        obtain ⟨free,inside⟩ := later listed
        have apart : a ≠ b := fun same => other (by simp [same])
        exact ⟨by simp [apart,free],by simpa using inside⟩
      · exact later (by simp [split,member])

/-- What holds no separator joins the last piece. -/
theorem splitOn_append (free : a ∉ t) (s : List α) :
    ∃ pieces last, s.splitOn a = pieces ++ [last] ∧ (s ++ t).splitOn a = pieces ++ [last ++ t] := by
  induction s with
  | nil => exact ⟨[],[],by simp,by simp [List.splitOn_eq_singleton free]⟩
  | cons b s ih =>
    obtain ⟨pieces,last,whole,more⟩ := ih
    rw [List.cons_append,List.splitOn_cons_eq_if_modifyHead,List.splitOn_cons_eq_if_modifyHead,whole,more]
    by_cases here : b == a
    · rw [if_pos here,if_pos here]
      exact ⟨[] :: pieces,last,rfl,rfl⟩
    · rw [if_neg here,if_neg here]
      cases pieces with
      | nil => exact ⟨[],b :: last,rfl,rfl⟩
      | cons piece pieces => exact ⟨(b :: piece) :: pieces,last,rfl,rfl⟩

end Splits

/-! ### Dropping at the end -/

/-- What is dropped at the end has the property. -/
theorem rdropWhile_append_dropped (p : α → Bool) (s : List α) : ∃ t, s = s.rdropWhile p ++ t ∧ ∀ a ∈ t, p a = true := by
  induction s using List.reverseRecOn with
  | nil => exact ⟨[],by simp,by simp⟩
  | append_singleton s a ih =>
    by_cases dropped : p a
    · obtain ⟨t,whole,all⟩ := ih
      refine ⟨t ++ [a],?_,?_⟩
      · rw [List.rdropWhile_concat_pos p s a dropped,← List.append_assoc,← whole]
      · intro b member
        rcases List.mem_append.mp member with earlier | last
        · exact all b earlier
        · rw [List.mem_singleton.mp last]
          exact dropped
    · exact ⟨[],by rw [List.rdropWhile_concat_neg p s a dropped,List.append_nil],by simp⟩

/-- Nothing is dropped before a last element without the property. -/
theorem rdropWhile_append (ends : ∀ a ∈ xs.getLast?, p a = false) (ys : List α) :
    (xs ++ ys).rdropWhile p = xs ++ ys.rdropWhile p := by
  induction ys using List.reverseRecOn with
  | nil =>
    rw [List.append_nil,List.rdropWhile_nil,List.append_nil,List.rdropWhile_eq_self_iff]
    intro given last
    rw [ends _ (by simp [List.getLast?_eq_getLast_of_ne_nil given])] at last
    cases last
  | append_singleton ys a ih =>
    rw [← List.append_assoc]
    by_cases dropped : p a
    · rw [List.rdropWhile_concat_pos p _ a dropped,List.rdropWhile_concat_pos p _ a dropped,ih]
    · rw [List.rdropWhile_concat_neg p _ a dropped,List.rdropWhile_concat_neg p _ a dropped,List.append_assoc]

end Scan
