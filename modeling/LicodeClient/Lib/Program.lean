import Mathlib.Data.Option.Basic

/-!
Programs on a state that return a value or stop with a fault, keeping the state
they have reached either way (`EStateM`). `after` is the state a program leaves
behind, `Keeps` says that it leaves a part of the state as it was, `Never` that it
does not stop with a fault, and `Reads` that it returns and faults as a value does
that it reads; each is built up along the program.
-/
namespace LicodeClient.Program
open EStateM (Result)
universe u
variable {ε σ α β : Type u}

/-- The state that a program leaves behind, whether it returns or faults. -/
def after (x : EStateM ε σ α) (s : σ) : σ :=
  match x.run s with
  | .ok _ t => t
  | .error _ t => t

/-- The fault that a program stops with, when it does not return. -/
def faultOf (x : EStateM ε σ α) (s : σ) : Option ε :=
  match x.run s with
  | .ok _ _ => none
  | .error e _ => some e

@[simp] theorem ok_bind (a : α) (f : α → Except ε β) : (Except.ok a >>= f) = f a := rfl

@[simp] theorem error_bind (e : ε) (f : α → Except ε β) : (Except.error e >>= f) = .error e := rfl

theorem ofExcept_ok (a : α) : (MonadExcept.ofExcept (Except.ok a : Except ε α) : EStateM ε σ α) = pure a := rfl

@[simp] theorem run_throw (e : ε) (s : σ) : (throw e : EStateM ε σ α).run s = .error e s := rfl

theorem run_ofExcept (x : Except ε α) (s : σ) :
    (MonadExcept.ofExcept x : EStateM ε σ α).run s =
      match x with
      | .ok a => .ok a s
      | .error e => .error e s := by
  cases x <;> rfl

theorem run_tryCatch (x : EStateM ε σ α) (handle : ε → EStateM ε σ α) (s : σ) :
    (tryCatch x handle).run s =
      match x.run s with
      | .ok a t => .ok a t
      | .error e t => (handle e).run t := by
  show EStateM.tryCatch x handle s = _
  unfold EStateM.tryCatch EStateM.run
  cases x s <;> rfl

theorem run_ite (c : Prop) [Decidable c] (x y : EStateM ε σ α) (s : σ) :
    (if c then x else y).run s = if c then x.run s else y.run s := by
  split <;> rfl

theorem after_of_ok {x : EStateM ε σ α} {s t : σ} {a : α} (done : x.run s = .ok a t) : after x s = t := by
  simp only [after,done]

theorem after_of_error {x : EStateM ε σ α} {s t : σ} {e : ε} (done : x.run s = .error e t) : after x s = t := by
  simp only [after,done]

theorem after_congr {x y : EStateM ε σ α} {s t : σ} (same : x.run s = y.run t) : after x s = after y t := by
  simp only [after,same]

theorem after_bind (x : EStateM ε σ α) (f : α → EStateM ε σ β) (s : σ) :
    after (x >>= f) s =
      match x.run s with
      | .ok a t => after (f a) t
      | .error _ t => t := by
  simp only [after,EStateM.run_bind]
  cases x.run s <;> rfl

/-! ### Parts of the state that a program leaves as they were -/

section
variable {γ : Type*} {f : σ → γ}

/-- The program leaves `f` of the state as it was, whether it returns or faults. -/
def Keeps (f : σ → γ) (x : EStateM ε σ α) : Prop := ∀ s, f (after x s) = f s

theorem keeps_pure (a : α) : Keeps f (pure a : EStateM ε σ α) := fun _ => rfl

theorem keeps_throw (e : ε) : Keeps f (throw e : EStateM ε σ α) := fun _ => rfl

theorem keeps_get : Keeps f (get : EStateM ε σ σ) := fun _ => rfl

theorem keeps_ofExcept (x : Except ε α) : Keeps f (MonadExcept.ofExcept x : EStateM ε σ α) := by
  cases x with
  | ok a => exact keeps_pure a
  | error e => exact keeps_throw e

theorem keeps_modify {g : σ → σ} (same : ∀ s, f (g s) = f s) : Keeps f (modify g : EStateM ε σ PUnit) := same

theorem keeps_bind {x : EStateM ε σ α} {g : α → EStateM ε σ β} (first : Keeps f x) (rest : ∀ a, Keeps f (g a)) :
    Keeps f (x >>= g) := by
  intro s
  have reached := first s
  rw [after_bind]
  cases done : x.run s with
  | ok a t =>
    rw [after_of_ok done] at reached
    exact (rest a t).trans reached
  | error e t =>
    rw [after_of_error done] at reached
    exact reached

/-- A handler that leaves `f` as it was leaves it as the program has. -/
theorem after_tryCatch {x : EStateM ε σ α} {handle : ε → EStateM ε σ α} (handled : ∀ e, Keeps f (handle e)) (s : σ) :
    f (after (tryCatch x handle) s) = f (after x s) := by
  have runs := run_tryCatch x handle s
  cases done : x.run s with
  | ok a t =>
    rw [done] at runs
    rw [after_of_ok runs,after_of_ok done]
  | error e t =>
    rw [done] at runs
    rw [after_congr runs,after_of_error done]
    exact handled e t

theorem keeps_tryCatch {x : EStateM ε σ α} {handle : ε → EStateM ε σ α} (first : Keeps f x)
    (handled : ∀ e, Keeps f (handle e)) : Keeps f (tryCatch x handle) := by
  intro s
  rw [after_tryCatch handled]
  exact first s

end

/-! ### Faults that a program never stops with -/

/-- The program never stops with the fault. -/
def Never (bad : ε) (x : EStateM ε σ α) : Prop := ∀ s, faultOf x s ≠ some bad

variable {bad : ε}

theorem never_of_ok {x : EStateM ε σ α} (returns : ∀ s, ∃ a t, x.run s = .ok a t) : Never bad x := by
  intro s faults
  obtain ⟨a,t,done⟩ := returns s
  simp [faultOf,done] at faults

theorem never_pure (a : α) : Never bad (pure a : EStateM ε σ α) := never_of_ok (fun s => ⟨a,s,rfl⟩)

theorem never_get : Never bad (get : EStateM ε σ σ) := never_of_ok (fun s => ⟨s,s,rfl⟩)

theorem never_modify (f : σ → σ) : Never bad (modify f : EStateM ε σ PUnit) := never_of_ok (fun s => ⟨⟨⟩,f s,rfl⟩)

theorem never_throw {e : ε} (other : e ≠ bad) : Never bad (throw e : EStateM ε σ α) := by
  intro s faults
  exact other (Option.some.inj faults)

theorem never_bind {x : EStateM ε σ α} {f : α → EStateM ε σ β} (first : Never bad x) (rest : ∀ a, Never bad (f a)) :
    Never bad (x >>= f) := by
  intro s faults
  have before := first s
  simp only [faultOf,EStateM.run_bind] at faults before
  cases done : x.run s with
  | ok a t => rw [done] at faults; exact rest a t faults
  | error e t => rw [done] at faults before; exact before faults

theorem never_tryCatch {x : EStateM ε σ α} {handle : ε → EStateM ε σ α} (first : Never bad x)
    (handled : ∀ e, e ≠ bad → Never bad (handle e)) : Never bad (tryCatch x handle) := by
  intro s faults
  have before := first s
  simp only [faultOf,run_tryCatch] at faults before
  cases done : x.run s with
  | ok a t => simp [done] at faults
  | error e t =>
    rw [done] at faults before
    exact handled e (fun same => before (congrArg some same)) t faults

/-! ### Programs that read their input and assign what they have read -/

/-- From `s` the program returns where `d` has a value, in a state as `post` says
    of the value, and faults as `d` does, in a state as `bad` says. -/
def Reads (s : σ) (x : EStateM ε σ PUnit) (d : Except ε α) (post : α → σ → Prop) (bad : σ → Prop) : Prop :=
  match d with
  | .ok a => ∃ t, x.run s = .ok ⟨⟩ t ∧ post a t
  | .error e => ∃ t, x.run s = .error e t ∧ bad t

variable {s : σ} {post : β → σ → Prop} {bad : σ → Prop}

theorem reads_read {d : Except ε α} {k : α → EStateM ε σ PUnit} {rest : α → Except ε β} (stops : bad s)
    (goes : ∀ a, Reads s (k a) (rest a) post bad) : Reads s (MonadExcept.ofExcept d >>= k) (d >>= rest) post bad := by
  cases d with
  | error e => exact ⟨s,by simp [run_ofExcept],stops⟩
  | ok a =>
    have tail := goes a
    simp only [Reads,ok_bind,EStateM.run_bind,run_ofExcept] at tail ⊢
    exact tail

theorem reads_assign {f : σ → σ} {k : PUnit → EStateM ε σ PUnit} {d : Except ε β}
    (goes : Reads (f s) (k ⟨⟩) d post bad) : Reads s (modify f >>= k) d post bad := by
  simpa only [Reads,EStateM.run_bind,EStateM.run_modify] using goes

/-- A part that reads on its own, followed by the rest. -/
theorem reads_bind {x : EStateM ε σ PUnit} {k : PUnit → EStateM ε σ PUnit} {d : Except ε α} {rest : α → Except ε β}
    {middle : α → σ → Prop} (first : Reads s x d middle bad)
    (goes : ∀ a t, middle a t → Reads t (k ⟨⟩) (rest a) post bad) : Reads s (x >>= k) (d >>= rest) post bad := by
  cases d with
  | error e =>
    obtain ⟨t,run,stops⟩ := first
    exact ⟨t,by simp [run],stops⟩
  | ok a =>
    obtain ⟨t,run,reached⟩ := first
    have tail := goes a t reached
    simp only [Reads,ok_bind,EStateM.run_bind,run] at tail ⊢
    exact tail

end LicodeClient.Program
