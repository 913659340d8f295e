import LicodeClient.Lib.Run

/-!
Simulation between machines given by partial step functions. A step of the first
machine is answered by a run of the second, of any length, that ends in a related
state, keeps to a condition on its own steps and shows the same (`Simulation`).
Then every run of the first is answered by a run of the second (`answers`), and
what the second keeps under the condition the first has in every state
(`transfers`).
-/
namespace LicodeClient.Run
universe u v
variable {σ τ : Type u} {ε δ : Type v} {α : Type*} {step : σ → ε → Option σ} {spec : τ → δ → Option τ}

theorem run_append {s t : σ} {before later : List ε} (first : run step s before = some t) :
    run step s (before ++ later) = run step t later := by
  induction before generalizing s with
  | nil => cases first; rfl
  | cons e before ih =>
    obtain ⟨u,taken,rest⟩ := Option.bind_eq_some_iff.mp first
    simp only [List.cons_append,run,taken,Option.bind_some]
    exact ih rest

theorem run_singleton {s t : σ} {e : ε} (taken : step s e = some t) : run step s [e] = some t := by
  simp [run,taken]

/-- What every step keeps of the events so far and of the state that they lead to. -/
theorem run_history {P : List ε → σ → Prop} {s t : σ} {es : List ε}
    (keep : ∀ before u e v, run step s before = some u → P before u → step u e = some v → P (before ++ [e]) v)
    (start : P [] s) (done : run step s es = some t) : P es t := by
  suffices later : ∀ before u, run step s before = some u → P before u → run step u es = some t →
      P (before ++ es) t from later [] s rfl start done
  clear done
  induction es with
  | nil =>
    intro before u _ holds done
    cases done
    rwa [List.append_nil]
  | cons e es ih =>
    intro before u first holds done
    obtain ⟨v,taken,rest⟩ := Option.bind_eq_some_iff.mp done
    have next := ih (before ++ [e]) v ((run_append first).trans (run_singleton taken))
      (keep before u e v first holds taken) rest
    rwa [List.append_assoc] at next

/-- A run is guarded when its first part is and what follows it is. -/
theorem guarded_append {ok : σ → ε → Prop} {s t : σ} {before later : List ε} (first : Guarded step ok s before)
    (done : run step s before = some t) (rest : Guarded step ok t later) : Guarded step ok s (before ++ later) := by
  induction before generalizing s with
  | nil => cases done; exact rest
  | cons e before ih =>
    obtain ⟨u,taken,others⟩ := Option.bind_eq_some_iff.mp done
    intro u' taken'
    cases taken.symm.trans taken'
    exact ⟨(first u taken).1,ih (first u taken).2 others⟩

theorem guarded_singleton {ok : σ → ε → Prop} {s : σ} {e : ε} (allowed : ok s e) : Guarded step ok s [e] :=
  fun _ _ => ⟨allowed,trivial⟩

theorem guarded_of_forall {p : ε → Prop} {s : σ} {es : List ε} (all : ∀ e ∈ es, p e) :
    Guarded step (fun _ e => p e) s es := by
  induction es generalizing s with
  | nil => trivial
  | cons e es ih =>
    obtain ⟨here,later⟩ := List.forall_mem_cons.mp all
    exact fun _ _ => ⟨here,ih later⟩

theorem Always.and {P Q : σ → Prop} {s : σ} {es : List ε} (all : Always step P s es) (besides : Always step Q s es) :
    Always step (fun s => P s ∧ Q s) s es := by
  induction es generalizing s with
  | nil => exact ⟨all,besides⟩
  | cons e es ih => exact ⟨⟨all.1,besides.1⟩,fun t taken => ih (all.2 t taken) (besides.2 t taken)⟩

/-- What every step keeps where another property holds, which it does throughout. -/
theorem Always.keeps {P Q : σ → Prop} {s : σ} {es : List ε} (known : Always step Q s es)
    (keep : ∀ s e t, Q s → P s → step s e = some t → P t) (start : P s) : Always step P s es := by
  induction es generalizing s with
  | nil => exact start
  | cons e es ih => exact ⟨start,fun t taken => ih (known.2 t taken) (keep s e t known.1 start taken)⟩

/-- What no step restores holds throughout when it holds at the end. -/
theorem always_of_last {P Q : σ → Prop} {s t : σ} {es : List ε} (keep : ∀ s e t, Q s → step s e = some t → Q t)
    (back : ∀ s e t, Q s → step s e = some t → P t → P s) (base : Q s) (done : run step s es = some t) (last : P t) :
    Always step P s es := by
  induction es generalizing s with
  | nil => cases done; exact last
  | cons e es ih =>
    obtain ⟨u,taken,rest⟩ := Option.bind_eq_some_iff.mp done
    have next := ih (keep s e u base taken) rest
    refine ⟨back s e u base taken next.first,fun t taken' => ?_⟩
    cases taken.symm.trans taken'
    exact next

/-- A run of `spec` from `t` to `t'` that keeps to `ok` and shows `seen`. -/
structure Answer (spec : τ → δ → Option τ) (ok : τ → δ → Prop) (shows' : δ → List α) (t : τ) (seen : List α)
    (t' : τ) (ds : List δ) : Prop where
  done : run spec t ds = some t'
  guarded : Guarded spec ok t ds
  shown : ds.flatMap shows' = seen

theorem Answer.nil {ok : τ → δ → Prop} {shows' : δ → List α} (t : τ) : Answer spec ok shows' t [] t [] :=
  ⟨rfl,trivial,rfl⟩

theorem Answer.one {ok : τ → δ → Prop} {shows' : δ → List α} {t t' : τ} {d : δ} (taken : spec t d = some t')
    (allowed : ok t d) : Answer spec ok shows' t (shows' d) t' [d] :=
  ⟨run_singleton taken,guarded_singleton allowed,by simp⟩

theorem Answer.append {ok : τ → δ → Prop} {shows' : δ → List α} {t u v : τ} {seen seen' : List α} {ds ds' : List δ}
    (first : Answer spec ok shows' t seen u ds) (rest : Answer spec ok shows' u seen' v ds') :
    Answer spec ok shows' t (seen ++ seen') v (ds ++ ds') where
  done := (run_append first.done).trans rest.done
  guarded := guarded_append first.guarded first.done rest.guarded
  shown := by rw [List.flatMap_append,first.shown,rest.shown]

/-- Every step of `step` between related states is answered by `spec`. -/
def Simulation (step : σ → ε → Option σ) (spec : τ → δ → Option τ) (ok : τ → δ → Prop) (shows : ε → List α)
    (shows' : δ → List α) (R : σ → τ → Prop) : Prop :=
  ∀ s e s' t, R s t → step s e = some s' → ∃ t' ds, Answer spec ok shows' t (shows e) t' ds ∧ R s' t'

namespace Simulation
variable {ok : τ → δ → Prop} {shows : ε → List α} {shows' : δ → List α} {R : σ → τ → Prop}

/-- Every run is answered by a run that shows the same. -/
theorem answers (simulation : Simulation step spec ok shows shows' R) {s s' : σ} {t : τ} {es : List ε}
    (related : R s t) (done : run step s es = some s') :
    ∃ t' ds, Answer spec ok shows' t (es.flatMap shows) t' ds ∧ R s' t' := by
  induction es generalizing s t with
  | nil =>
    cases done
    exact ⟨t,[],.nil t,related⟩
  | cons e es ih =>
    obtain ⟨u,taken,rest⟩ := Option.bind_eq_some_iff.mp done
    obtain ⟨v,ds,first,between⟩ := simulation s e u t related taken
    obtain ⟨t',ds',later,last⟩ := ih between rest
    exact ⟨t',ds ++ ds',first.append later,last⟩

/-- What the second machine keeps holds of the first in every state. -/
theorem transfers (simulation : Simulation step spec ok shows shows' R) {P : τ → Prop} {Q : σ → Prop}
    (keep : ∀ t d u, P t → ok t d → spec t d = some u → P u) (reads : ∀ s t, R s t → P t → Q s) {s : σ} {t : τ}
    (related : R s t) (start : P t) (es : List ε) : Always step Q s es := by
  rw [always_iff_reached]
  rintro before later s' - done
  obtain ⟨t',ds,answer,last⟩ := simulation.answers related done
  exact reads s' t' last ((always_of_guarded keep start answer.guarded).last answer.done)

end Simulation
end LicodeClient.Run
