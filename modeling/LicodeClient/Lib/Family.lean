import LicodeClient.Lib.Run

/-!
A growing family of copies of one machine, each of which steps on its own. What a copy
keeps under a condition on its own steps, every member of the family has
(`kept_family`).
-/
namespace LicodeClient.Run
universe u v w
variable {σ : Type u} {ε : Type v} {ν : Type w}

/-- A copy is added, or one of them steps. -/
inductive Member (ν : Type w) (ε : Type v) where
  | joined (a : ν)
  | member (k : Nat) (e : ε)

/-- The machine of all copies. -/
def family (fresh : ν → σ) (step : σ → ε → Option σ) (ss : List σ) : Member ν ε → Option (List σ)
  | .joined a => some (ss ++ [fresh a])
  | .member k e => ss[k]?.bind (fun s => (step s e).map (ss.set k))

/-- The copy that steps meets its condition. -/
def Permits (ok : σ → ε → Prop) (ss : List σ) : Member ν ε → Prop
  | .joined _ => True
  | .member k e => ∀ s, ss[k]? = some s → ok s e

variable {fresh : ν → σ} {step : σ → ε → Option σ} {ok : σ → ε → Prop} {ss ts : List σ} {m : Member ν ε}

theorem family_member {k : Nat} {e : ε} {s t : σ} (here : ss[k]? = some s) (taken : step s e = some t) :
    family fresh step ss (.member k e) = some (ss.set k t) := by
  simp [family,here,taken]

/-- What a fresh copy has and every permitted step keeps. -/
theorem kept_family {P : σ → Prop} (keep : ∀ s e t, P s → ok s e → step s e = some t → P t)
    (start : ∀ a, P (fresh a)) (all : ∀ s ∈ ss, P s) (permits : Permits ok ss m)
    (taken : family fresh step ss m = some ts) : ∀ s ∈ ts, P s := by
  cases m with
  | joined a =>
    cases taken
    intro s member
    rcases List.mem_append.mp member with before | new
    · exact all s before
    · rw [List.mem_singleton.mp new]
      exact start a
  | member k e =>
    obtain ⟨s,here,moved⟩ := Option.bind_eq_some_iff.mp taken
    obtain ⟨t,steps,rfl⟩ := Option.map_eq_some_iff.mp moved
    intro r member
    rcases List.mem_or_eq_of_mem_set member with before | rfl
    · exact all r before
    · exact keep s e r (all s (List.mem_of_getElem? here)) (permits s here) steps

end LicodeClient.Run
