import Mathlib.Data.Option.Basic

/-!
Runs of a machine given by a partial step function. `run` takes events in
order. `Always` says that a property holds in every state of a run, `Guarded`
that every step of a run is taken where a condition on the state before it and
on the event allows it. A property that a step keeps exactly when the condition
holds there is kept by a run exactly when every step meets the condition
(`always_iff_guarded`); a field is at the end of a run what all that the run has
shown makes of it (`run_trace`).
-/
namespace LicodeClient.Run
universe u v w
variable {σ : Type u} {ε : Type v} {α : Type w} {step : σ → ε → Option σ} {P Q : σ → Prop} {ok : σ → ε → Prop}

/-- The state after the events `es`, when each of them can happen. -/
def run (step : σ → ε → Option σ) : σ → List ε → Option σ
  | s, [] => some s
  | s, e :: es => (step s e).bind (fun t => run step t es)

/-- `P` holds in every state of the run, the first and the last included. -/
def Always (step : σ → ε → Option σ) (P : σ → Prop) : σ → List ε → Prop
  | s, [] => P s
  | s, e :: es => P s ∧ ∀ t, step s e = some t → Always step P t es

/-- Every step of the run is taken in a state where `ok` allows its event. -/
def Guarded (step : σ → ε → Option σ) (ok : σ → ε → Prop) : σ → List ε → Prop
  | _, [] => True
  | s, e :: es => ∀ t, step s e = some t → ok s e ∧ Guarded step ok t es

theorem Always.first {s : σ} {es : List ε} (all : Always step P s es) : P s := by
  cases es with
  | nil => exact all
  | cons e es => exact all.1

theorem Always.last {s t : σ} {es : List ε} (all : Always step P s es) (done : run step s es = some t) : P t := by
  induction es generalizing s with
  | nil => cases done; exact all
  | cons e es ih =>
    obtain ⟨u,first,rest⟩ := Option.bind_eq_some_iff.mp done
    exact ih (all.2 u first) rest

theorem Always.mono {s : σ} {es : List ε} (all : Always step P s es) (sub : ∀ t, P t → Q t) : Always step Q s es := by
  induction es generalizing s with
  | nil => exact sub s all
  | cons e es ih => exact ⟨sub s all.1,fun t taken => ih (all.2 t taken)⟩

/-- The states of a run are those that its first events lead to. -/
theorem always_iff_reached {s : σ} {es : List ε} :
    Always step P s es ↔ ∀ before later t, es = before ++ later → run step s before = some t → P t := by
  induction es generalizing s with
  | nil =>
    constructor
    · intro here before later t split done
      obtain ⟨rfl,rfl⟩ := List.append_eq_nil_iff.mp split.symm
      cases done
      exact here
    · intro all
      exact all [] [] s rfl rfl
  | cons e es ih =>
    constructor
    · rintro ⟨here,next⟩ before later t split done
      cases before with
      | nil => cases done; exact here
      | cons e' before =>
        obtain ⟨rfl,rfl⟩ := List.cons.inj split
        obtain ⟨u,first,rest⟩ := Option.bind_eq_some_iff.mp done
        exact ih.mp (next u first) before later t rfl rest
    · intro all
      refine ⟨all [] (e :: es) s rfl rfl,fun t taken => ih.mpr ?_⟩
      rintro before later u rfl done
      exact all (e :: before) later u rfl (Option.bind_eq_some_iff.mpr ⟨t,taken,done⟩)

/-- What holds at the start and is kept by every step that meets the condition
    holds in every state of a run whose steps all meet it. -/
theorem always_of_guarded {s : σ} {es : List ε}
    (keep : ∀ s e t, P s → ok s e → step s e = some t → P t) (start : P s) (all : Guarded step ok s es) :
    Always step P s es := by
  induction es generalizing s with
  | nil => exact start
  | cons e es ih =>
    refine ⟨start,fun t taken => ?_⟩
    obtain ⟨allowed,rest⟩ := all t taken
    exact ih (keep s e t start allowed taken) rest

/-- An invariant of every step holds in every state of every run. -/
theorem always_of_invariant {s : σ} (keep : ∀ s e t, P s → step s e = some t → P t) (start : P s) (es : List ε) :
    Always step P s es := by
  induction es generalizing s with
  | nil => exact start
  | cons e es ih => exact ⟨start,fun t taken => ih (keep s e t start taken)⟩

/-- A property that a step from a good state keeps exactly when it meets the
    condition holds along a run exactly when every step of it does. `Q` is what
    the steps that keep the property keep besides. -/
theorem always_iff_guarded {s : σ} (keep : ∀ s e t, Q s → P s → P t → step s e = some t → Q t)
    (exact : ∀ s e t, Q s → P s → step s e = some t → (P t ↔ ok s e)) (base : Q s) (start : P s) (es : List ε) :
    Always step P s es ↔ Guarded step ok s es := by
  induction es generalizing s with
  | nil => exact ⟨fun _ => trivial,fun _ => start⟩
  | cons e es ih =>
    constructor
    · rintro ⟨-,all⟩ t taken
      have good : P t := (all t taken).first
      exact ⟨(exact s e t base start taken).mp good,(ih (keep s e t base start good taken) good).mp (all t taken)⟩
    · intro all
      refine ⟨start,fun t taken => ?_⟩
      obtain ⟨allowed,rest⟩ := all t taken
      have good : P t := (exact s e t base start taken).mpr allowed
      exact (ih (keep s e t base start good taken) good).mpr rest

/-- The same for a property of the states together with one of the steps. -/
theorem always_and_guarded_iff {also : σ → ε → Prop} {s : σ}
    (exact : ∀ s e t, P s → step s e = some t → (P t ∧ also s e ↔ ok s e)) (start : P s) (es : List ε) :
    Always step P s es ∧ Guarded step also s es ↔ Guarded step ok s es := by
  induction es generalizing s with
  | nil => exact ⟨fun _ => trivial,fun _ => ⟨start,trivial⟩⟩
  | cons e es ih =>
    constructor
    · rintro ⟨⟨-,all⟩,besides⟩ t taken
      have good : P t := (all t taken).first
      obtain ⟨here,later⟩ := besides t taken
      exact ⟨(exact s e t start taken).mp ⟨good,here⟩,(ih good).mp ⟨all t taken,later⟩⟩
    · intro all
      have parts : ∀ t, step s e = some t → (Always step P t es ∧ Guarded step also t es) ∧ also s e := by
        intro t taken
        obtain ⟨allowed,rest⟩ := all t taken
        obtain ⟨good,here⟩ := (exact s e t start taken).mpr allowed
        exact ⟨(ih good).mpr rest,here⟩
      exact ⟨⟨start,fun t taken => (parts t taken).1.1⟩,fun t taken => ⟨(parts t taken).2,(parts t taken).1.2⟩⟩

/-- Tests every step of a run. -/
def tests (step : σ → ε → Option σ) (test : σ → ε → Bool) : σ → List ε → Bool
  | _, [] => true
  | s, e :: es => test s e && (step s e).all (fun t => tests step test t es)

theorem guarded_of_tests {test : σ → ε → Bool} (sound : ∀ s e, test s e = true → ok s e) {s : σ} {es : List ε}
    (passes : tests step test s es = true) : Guarded step ok s es := by
  induction es generalizing s with
  | nil => trivial
  | cons e es ih =>
    intro t taken
    obtain ⟨here,later⟩ := Bool.and_eq_true_iff.mp passes
    rw [taken] at later
    exact ⟨sound s e here,ih later⟩

/-- What remains of a guarded run after its first events. -/
theorem Guarded.suffix {s t : σ} {before later : List ε} (all : Guarded step ok s (before ++ later))
    (done : run step s before = some t) : Guarded step ok t later := by
  induction before generalizing s with
  | nil => cases done; exact all
  | cons e before ih =>
    obtain ⟨u,first,rest⟩ := Option.bind_eq_some_iff.mp done
    exact ih (all u first).2 rest

theorem guarded_congr {ok' : σ → ε → Prop} {s : σ} (keep : ∀ s e t, Q s → step s e = some t → Q t)
    (same : ∀ s e t, Q s → step s e = some t → (ok s e ↔ ok' s e)) (base : Q s) (es : List ε) :
    Guarded step ok s es ↔ Guarded step ok' s es := by
  induction es generalizing s with
  | nil => exact Iff.rfl
  | cons e es ih =>
    exact forall_congr' (fun t => forall_congr' (fun taken =>
      and_congr (same s e t base taken) (ih (keep s e t base taken))))

/-- A condition that follows, where the invariant holds, from one that keeps the
    invariant. -/
theorem Guarded.imp {ok' : σ → ε → Prop} {s : σ} {es : List ε} (all : Guarded step ok s es)
    (keep : ∀ s e t, Q s → ok s e → step s e = some t → Q t)
    (weaker : ∀ s e t, Q s → ok s e → step s e = some t → ok' s e) (base : Q s) : Guarded step ok' s es := by
  induction es generalizing s with
  | nil => trivial
  | cons e es ih =>
    intro t taken
    obtain ⟨allowed,rest⟩ := all t taken
    exact ⟨weaker s e t base allowed taken,ih rest (keep s e t base allowed taken)⟩

/-! ### What a run shows -/

/-- What the events of a run show, in order. `shows` says what an event shows in
    the state before it, when it shows anything. -/
def trace (step : σ → ε → Option σ) (shows : σ → ε → Option α) : σ → List ε → List α
  | _, [] => []
  | s, e :: es => (step s e).elim [] (fun t => (shows s e).toList ++ trace step shows t es)

theorem trace_cons {shows : σ → ε → Option α} {s t : σ} {e : ε} (taken : step s e = some t) (es : List ε) :
    trace step shows s (e :: es) = (shows s e).toList ++ trace step shows t es := by
  simp only [trace,taken,Option.elim_some]

/-- A field that each step changes as what it shows says is changed by a run as
    all that it shows says. -/
theorem run_trace {β : Type*} {shows : σ → ε → Option α} (f : β → α → β) (field : σ → β) {allowed : ε → Prop}
    (keep : ∀ s e t, Q s → step s e = some t → Q t)
    (sets : ∀ s e t, Q s → allowed e → step s e = some t → field t = (shows s e).toList.foldl f (field s)) {s t : σ}
    {es : List ε} (base : Q s) (all : ∀ e ∈ es, allowed e) (done : run step s es = some t) :
    field t = (trace step shows s es).foldl f (field s) := by
  induction es generalizing s with
  | nil => cases done; rfl
  | cons e es ih =>
    obtain ⟨u,first,rest⟩ := Option.bind_eq_some_iff.mp done
    obtain ⟨here,later⟩ := List.forall_mem_cons.mp all
    rw [trace_cons first,List.foldl_append,← sets s e u base here first]
    exact ih (keep s e u base first) later rest

end LicodeClient.Run
