import Mathlib
import LicodeClient.Lib.Run

/-!
Machines that come to an end. Some of the events are the machine's own; each of
them lowers a rank, the others raise it by no more than what they are charged with,
and one of the own events can happen as long as the end is not reached (`Ends`).
Then a run that has not reached it holds no more own events than the rank at its
start and the charges pay for, and another one can happen (`pays`).
-/
namespace LicodeClient.Run
universe u v
variable {σ : Type u} {ε : Type v} {step : σ → ε → Option σ}

/-- The rank of many parts of which one moves. -/
theorem sum_map_set {α : Type*} (d : α → Nat) {parts : List α} {i : Nat} {p : α} (here : parts[i]? = some p) (q : α) :
    ((parts.set i q).map d).sum + d p = (parts.map d).sum + d q := by
  induction parts generalizing i with
  | nil => simp at here
  | cons first rest ih =>
    cases i with
    | zero =>
      obtain rfl : first = p := by simpa using here
      simp only [List.set_cons_zero,List.map_cons,List.sum_cons]
      omega
    | succ i =>
      have rest := ih (i := i) (by simpa using here)
      simp only [List.set_cons_succ,List.map_cons,List.sum_cons]
      omega

theorem sum_map_le {α : Type*} {d : α → Nat} {bound : Nat} (le : ∀ p, d p ≤ bound) (parts : List α) :
    (parts.map d).sum ≤ bound * parts.length := by
  induction parts with
  | nil => simp
  | cons first rest ih =>
    have here := le first
    rw [List.map_cons,List.sum_cons,List.length_cons,Nat.mul_succ]
    omega

/-- Own events lower the rank and one is possible until the end is reached. -/
structure Ends (step : σ → ε → Option σ) (own : ε → Bool) (charge : ε → Nat) (Q Done : σ → Prop)
    (rank : σ → Nat) : Prop where
  stays : ∀ s e t, Done s → step s e = some t → Done t
  lowers : ∀ s e t, Q s → step s e = some t →
    Done t ∨ Q t ∧ rank t + (if own e then 1 else 0) ≤ rank s + charge e
  goesOn : ∀ s, Q s → Done s ∨ ∃ e t, own e = true ∧ step s e = some t

namespace Ends
variable {own : ε → Bool} {charge : ε → Nat} {Q Done : σ → Prop} {rank : σ → Nat}

theorem done_run (ends : Ends step own charge Q Done rank) {s t : σ} {es : List ε} (done : Done s)
    (run : run step s es = some t) : Done t := by
  induction es generalizing s with
  | nil => cases run; exact done
  | cons e es ih =>
    obtain ⟨u,taken,rest⟩ := Option.bind_eq_some_iff.mp run
    exact ih (ends.stays s e u done taken) rest

/-- The own events of a run are paid for. -/
theorem countP_le (ends : Ends step own charge Q Done rank) {s t : σ} {es : List ε} (base : Q s)
    (run : run step s es = some t) :
    Done t ∨ Q t ∧ es.countP own + rank t ≤ rank s + (es.map charge).sum := by
  induction es generalizing s with
  | nil =>
    cases run
    exact .inr ⟨base,by simp⟩
  | cons e es ih =>
    obtain ⟨u,taken,rest⟩ := Option.bind_eq_some_iff.mp run
    rcases ends.lowers s e u base taken with done | ⟨kept,paid⟩
    · exact .inl (ends.done_run done rest)
    · refine (ih kept rest).imp_right (And.imp_right (fun later => ?_))
      rw [List.countP_cons,List.map_cons,List.sum_cons]
      omega

/-- A run has reached the end, or it was paid for and goes on. -/
theorem pays (ends : Ends step own charge Q Done rank) {s t : σ} {es : List ε} (base : Q s)
    (run : run step s es = some t) :
    Done t ∨ es.countP own ≤ rank s + (es.map charge).sum ∧ ∃ e u, own e = true ∧ step t e = some u := by
  rcases ends.countP_le base run with done | ⟨kept,paid⟩
  · exact .inl done
  · exact (ends.goesOn t kept).imp_right (fun more => ⟨by omega,more⟩)

end Ends
end LicodeClient.Run
