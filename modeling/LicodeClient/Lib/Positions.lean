import Mathlib.Data.List.Basic
import Mathlib.Data.List.TakeWhile

/-!
Searching and slicing lists by position, as `std::string` does. A search that
finds nothing returns `npos`, which is `none` here; the position after `npos` is
0, and a difference of positions that would be negative wraps to a count longer
than any list, so that it means the rest, as `npos` does.
-/
namespace Positions

variable {α : Type*}

/-- The position of the first occurrence, `npos` when there is none. -/
def find [DecidableEq α] (a : α) (s : List α) : Option Nat := s.findIdx? (fun b => b = a)

/-- The position after another one. -/
def next : Option Nat → Nat
  | none => 0
  | some pos => pos + 1

/-- The count from one position to another. -/
def minus (stop start : Nat) : Option Nat := if start ≤ stop then some (stop - start) else none

/-- The first elements, all of them when the count is `npos`. -/
def front (s : List α) : Option Nat → List α
  | none => s
  | some count => s.take count

/-- The elements from a position on, which must not be past the end. -/
def substr (s : List α) (pos : Nat) (count : Option Nat) : Option (List α) :=
  if pos ≤ s.length then some (front (s.drop pos) count) else none

section
variable [DecidableEq α] {a : α} {xs ys : List α}

theorem find_none (absent : a ∉ xs) : find a xs = none := by
  rw [find,List.findIdx?_eq_none_iff]
  intro b member
  rw [decide_eq_false_iff_not]
  rintro rfl
  exact absent member

theorem find_append (absent : a ∉ xs) (ys : List α) :
    find a (xs ++ ys) = (find a ys).map (fun pos => pos + xs.length) := by
  have none := find_none absent
  rw [find] at none
  rw [find,List.findIdx?_append,none,Option.none_or,find]

theorem find_here (a : α) (ys : List α) : find a (a :: ys) = some 0 := by
  simp [find,List.findIdx?_cons]

/-- The first occurrence stands after what is free of the element. -/
theorem find_mark (absent : a ∉ xs) (ys : List α) : find a (xs ++ a :: ys) = some xs.length := by
  rw [find_append absent,find_here,Option.map_some,Nat.zero_add]

end

theorem minus_add (start count : Nat) : minus (start + count) start = some count := by
  rw [minus,if_pos (Nat.le_add_right _ _),Nat.add_sub_cancel_left]

theorem front_append (xs ys : List α) : front (xs ++ ys) (some xs.length) = xs := by
  rw [front,List.take_left]

/-- A slice that starts where the second part does. -/
theorem substr_append (xs ys : List α) (count : Option Nat) :
    substr (xs ++ ys) xs.length count = some (front ys count) := by
  rw [substr,if_pos (by simp),List.drop_left]

/-- A slice that starts behind a mark. -/
theorem substr_mark (xs : List α) (a : α) (ys : List α) (count : Option Nat) :
    substr (xs ++ a :: ys) (xs.length + 1) count = some (front ys count) := by
  have slice := substr_append (xs ++ [a]) ys count
  rwa [List.append_assoc,List.length_append] at slice

@[simp] theorem substr_zero (s : List α) (count : Option Nat) : substr s 0 count = some (front s count) := by
  rw [substr,if_pos (Nat.zero_le _),List.drop_zero]

/-! ### Cuts at the first occurrence -/

section Cuts
variable [DecidableEq α] {a b : α} {xs s : List α}

/-- What stands before the first occurrence, everything when there is none. -/
def before (a : α) (s : List α) : List α := s.takeWhile (fun b => b ≠ a)

/-- What stands behind the first occurrence, nothing when there is none. -/
def behind (a : α) (s : List α) : List α := (s.dropWhile (fun b => b ≠ a)).tail

/-- What stands behind the first `a` and before the first `b`; all that stands
    behind the first `a` when a `b` stands before it. -/
def between (a b : α) (s : List α) : List α := if b ∈ before a s then behind a s else before b (behind a s)

theorem before_self (absent : a ∉ xs) : before a xs = xs := by
  rw [before,List.takeWhile_eq_self_iff]
  intro b member
  rw [decide_eq_true_iff]
  rintro rfl
  exact absent member

theorem behind_nil (absent : a ∉ xs) : behind a xs = [] := by
  have all : xs.dropWhile (fun b => b ≠ a) = [] := by
    rw [List.dropWhile_eq_nil_iff]
    intro b member
    rw [decide_eq_true_iff]
    rintro rfl
    exact absent member
  rw [behind,all,List.tail_nil]

theorem before_append (absent : a ∉ xs) (ys : List α) : before a (xs ++ ys) = xs ++ before a ys := by
  rw [before,List.takeWhile_append_of_pos,before]
  intro b member
  rw [decide_eq_true_iff]
  rintro rfl
  exact absent member

theorem behind_append (absent : a ∉ xs) (ys : List α) : behind a (xs ++ ys) = behind a ys := by
  rw [behind,List.dropWhile_append_of_pos,behind]
  intro b member
  rw [decide_eq_true_iff]
  rintro rfl
  exact absent member

@[simp] theorem before_here (a : α) (ys : List α) : before a (a :: ys) = [] := by simp [before]

@[simp] theorem behind_here (a : α) (ys : List α) : behind a (a :: ys) = ys := by simp [behind]

theorem before_eq_nil_iff : before a s = [] ↔ ∀ b ∈ s.head?, b = a := by
  cases s with
  | nil => simp [before]
  | cons b s => simp [before,List.takeWhile_cons]

theorem before_mark (absent : a ∉ xs) (ys : List α) : before a (xs ++ a :: ys) = xs := by
  rw [before_append absent,before_here,List.append_nil]

theorem behind_mark (absent : a ∉ xs) (ys : List α) : behind a (xs ++ a :: ys) = ys := by
  rw [behind_append absent,behind_here]

/-- The sides of a first occurrence are determined. -/
theorem mark_inj {ys t : List α} (absent : a ∉ xs) (absent' : a ∉ ys) (same : xs ++ a :: s = ys ++ a :: t) :
    xs = ys ∧ s = t := by
  have left := congrArg (before a) same
  have right := congrArg (behind a) same
  rw [before_mark absent,before_mark absent'] at left
  rw [behind_mark absent,behind_mark absent'] at right
  exact ⟨left,right⟩

/-- A mark before the same end as behind a first occurrence is a first one too. -/
theorem not_mem_of_same_end {ys t : List α} (absent : a ∉ ys) (absent' : a ∉ t)
    (same : xs ++ a :: s = ys ++ a :: (s ++ t)) : a ∉ xs := by
  have counts := congrArg (List.count a) same
  simp only [List.count_append,List.count_cons_self,List.count_eq_zero.mpr absent,
    List.count_eq_zero.mpr absent'] at counts
  exact List.count_eq_zero.mp (by omega)

theorem not_mem_before (a : α) (s : List α) : a ∉ before a s := by
  intro member
  have other := List.mem_takeWhile_imp member
  simp at other

theorem mem_of_mem_before (member : b ∈ before a s) : b ∈ s := List.takeWhile_subset _ member

/-- The two sides of the first occurrence. -/
theorem before_behind (member : a ∈ s) : before a s ++ a :: behind a s = s := by
  obtain ⟨xs,ys,rfl,absent⟩ := List.eq_append_cons_of_mem member
  rw [before_mark absent,behind_mark absent]

theorem mem_of_mem_behind (member : b ∈ behind a s) : b ∈ s := by
  by_cases there : a ∈ s
  · rw [← before_behind there]
    exact List.mem_append_right _ (List.mem_cons_of_mem _ member)
  · rw [behind_nil there] at member
    cases member

/-- An occurrence in the first part hides the second part. -/
theorem before_append_mem (member : a ∈ xs) (ys : List α) : before a (xs ++ ys) = before a xs := by
  nth_rewrite 1 [← before_behind member]
  rw [List.append_assoc,List.cons_append,before_mark (not_mem_before a xs)]

theorem behind_append_mem (member : a ∈ xs) (ys : List α) : behind a (xs ++ ys) = behind a xs ++ ys := by
  nth_rewrite 1 [← before_behind member]
  rw [List.append_assoc,List.cons_append,behind_mark (not_mem_before a xs)]

theorem between_nil (absent : a ∉ s) (b : α) : between a b s = [] := by
  rw [between,behind_nil absent]
  split <;> rfl

theorem find_mem (member : a ∈ s) : find a s = some (before a s).length := by
  have whole := before_behind member
  rw [← whole,find_mark (not_mem_before a s),whole]

/-- The slice up to a mark. -/
theorem front_find (a : α) (s : List α) : front s (find a s) = before a s := by
  by_cases member : a ∈ s
  · rw [find_mem member]
    nth_rewrite 1 [← before_behind member]
    rw [front_append]
  · rw [find_none member,before_self member,front]

theorem substr_behind (member : a ∈ s) (count : Option Nat) :
    substr s ((before a s).length + 1) count = some (front (behind a s) count) := by
  nth_rewrite 1 [← before_behind member]
  rw [substr_mark]

/-- The slice from behind a mark on; the mark missing, it is everything. -/
theorem substr_next_find (a : α) (s : List α) :
    substr s (next (find a s)) none = some (if a ∈ s then behind a s else s) := by
  by_cases member : a ∈ s
  · rw [find_mem member,next,substr_behind member,if_pos member,front]
  · rw [find_none member,next,substr_zero,if_neg member,front]

/-- The slice from behind a mark to another one. -/
theorem substr_between (other : b ≠ a) (member : a ∈ s) :
    substr s ((before a s).length + 1) ((find b s).bind (fun stop => minus stop ((before a s).length + 1))) =
      some (between a b s) := by
  have whole := before_behind member
  by_cases early : b ∈ before a s
  · -- the count wraps, so that the slice goes to the end
    have stop : find b s = some (before b (before a s)).length := by
      rw [find_mem (mem_of_mem_before early)]
      nth_rewrite 1 [← whole]
      nth_rewrite 1 [← before_behind early]
      rw [List.append_assoc,List.cons_append,before_mark (not_mem_before b _)]
    have short : ¬ (before a s).length + 1 ≤ (before b (before a s)).length := by
      have size : (before b (before a s)).length ≤ (before a s).length := (List.takeWhile_prefix _).length_le
      omega
    rw [stop,between,if_pos early,Option.bind_some,minus,if_neg short,substr_behind member,front]
  · have absent : b ∉ before a s ++ [a] := by simp [early,other]
    have shape : s = (before a s ++ [a]) ++ behind a s := by
      rw [List.append_assoc,List.singleton_append,whole]
    have stop : find b s = (find b (behind a s)).map (fun pos => pos + ((before a s).length + 1)) := by
      nth_rewrite 1 [shape]
      rw [find_append absent,List.length_append,List.length_singleton]
    rw [stop,between,if_neg early]
    by_cases later : b ∈ behind a s
    · rw [find_mem later,Option.map_some,Option.bind_some,
        Nat.add_comm (before b (behind a s)).length,minus_add,substr_behind member,← find_mem later,front_find]
    · rw [find_none later,Option.map_none,Option.bind_none,substr_behind member,front,before_self later]

end Cuts

end Positions
