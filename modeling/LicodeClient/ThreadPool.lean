import LicodeClient.Json
import LicodeClient.Lib.Least
import LicodeClient.Lib.Program
import LicodeClient.Lib.Run
import Mathlib.Data.List.Nodup

/-!
`ThreadPool`, which hands out the worker that is used least. How much a worker is
used is the `use_count` of its `shared_ptr`s, and the search holds one of these
itself: the count that it compares is one above the true one for the worker it has
chosen so far. That makes it go on to the next worker of the same count, and so it
ends at the last worker of the least count (`getLessUsedWorker_least`). Handing out
workers in this way keeps their counts within one of each other; what else is done
with them does so exactly when a least used worker is taken and a most used one let
go (`balanced_iff`).
-/
namespace LicodeClient
open Least Run

/-- A pointer to a `Worker`. -/
abbrev WorkerPtr := Nat

/-- `ThreadPool`, with the number of `shared_ptr`s to each worker that are not in
    `workers_`. -/
structure ThreadPool where
  workers : List WorkerPtr
  others : WorkerPtr → Nat

namespace ThreadPool

/-- `use_count` of a `shared_ptr`: how many there are to its worker. -/
def useCount (pool : ThreadPool) (worker : WorkerPtr) : Nat := pool.workers.count worker + pool.others worker

/-- One more `shared_ptr` to a worker. -/
def copy (worker : WorkerPtr) (pool : ThreadPool) : ThreadPool :=
  { pool with others := Function.update pool.others worker (pool.others worker + 1) }

/-- One `shared_ptr` less to a worker. -/
def release (worker : WorkerPtr) (pool : ThreadPool) : ThreadPool :=
  { pool with others := Function.update pool.others worker (pool.others worker - 1) }

/-- `ThreadPool::ThreadPool`: a worker for each of `count`. A negative count is a
    huge one for `reserve`, which throws. -/
def create (count : Int32) : Except Fault ThreadPool :=
  if count < 0 then .error .exception else .ok ⟨List.range count.toNatClampNeg,fun _ => 0⟩

/-- The loop of `GetLessUsedWorker`, from the worker in `better` on. -/
def lessUsedOf (better : WorkerPtr) : List WorkerPtr → EStateM Fault ThreadPool WorkerPtr
  | [] => return better
  | worker :: rest => do
    let pool ← get
    if pool.useCount better > pool.useCount worker then
      -- `better = worker` holds the new worker before it lets the old one go.
      modify (copy worker)
      modify (release better)
      lessUsedOf worker rest
    else
      lessUsedOf better rest

/-- `ThreadPool::GetLessUsedWorker`. -/
def getLessUsedWorker : EStateM Fault ThreadPool WorkerPtr := do
  let pool ← get
  match pool.workers with
  | [] => throw .undefined
  | first :: _ =>
    modify (copy first)
    lessUsedOf first pool.workers

/-! ### Counts -/

variable (pool : ThreadPool)

theorem useCount_copy (worker other : WorkerPtr) :
    (pool.copy worker).useCount other = pool.useCount other + if other = worker then 1 else 0 := by
  unfold useCount copy
  by_cases same : other = worker
  · subst same
    simp [Nat.add_assoc]
  · simp [same]

theorem copy_comm (worker other : WorkerPtr) : (pool.copy worker).copy other = (pool.copy other).copy worker := by
  by_cases same : worker = other
  · rw [same]
  · unfold copy
    simp only [Function.update_of_ne same,Function.update_of_ne (Ne.symm same)]
    rw [Function.update_comm same]

theorem release_copy (worker : WorkerPtr) : (pool.copy worker).release worker = pool := by
  simp [copy,release]

/-- Assigning to `better` moves what it holds. -/
theorem release_copy_copy (better worker : WorkerPtr) :
    ((pool.copy better).copy worker).release better = pool.copy worker := by
  rw [copy_comm,release_copy]

/-- The search goes on to another worker that is not used more, although it
    compares with a count that it has raised. -/
theorem moves_iff (better worker : WorkerPtr) :
    (pool.copy better).useCount better > (pool.copy better).useCount worker ↔
      worker ≠ better ∧ pool.useCount worker ≤ pool.useCount better := by
  rw [useCount_copy,useCount_copy,if_pos rfl]
  by_cases same : worker = better
  · simp [same]
  · simp only [same,if_false,ne_eq,not_false_eq_true,true_and]
    omega

/-! ### The search -/

variable {pool}

/-- One worker is looked at: the search holds the last least used worker of those
    before it, and then that of those up to it. -/
theorem run_lessUsedOf_cons {better : WorkerPtr} {seen : List WorkerPtr}
    (chosen : LastLeast pool.useCount seen better) (worker : WorkerPtr) (rest : List WorkerPtr) :
    ∃ next, (lessUsedOf better (worker :: rest)).run (pool.copy better) = (lessUsedOf next rest).run (pool.copy next) ∧
      LastLeast pool.useCount (seen ++ [worker]) next := by
  by_cases moves : (pool.copy better).useCount better > (pool.copy better).useCount worker
  · refine ⟨worker,?_,chosen.replaced ((moves_iff pool better worker).mp moves).2⟩
    simp only [lessUsedOf,EStateM.run_bind,EStateM.run_get,if_pos moves,EStateM.run_modify,release_copy_copy]
  · refine ⟨better,?_,?_⟩
    · simp only [lessUsedOf,EStateM.run_bind,EStateM.run_get,if_neg moves]
    · by_cases same : worker = better
      · rw [same]
        exact chosen.replaced le_rfl
      · exact chosen.kept (not_le.mp (fun least => moves ((moves_iff pool better worker).mpr ⟨same,least⟩)))

theorem run_lessUsedOf {better : WorkerPtr} {seen : List WorkerPtr} (rest : List WorkerPtr)
    (chosen : LastLeast pool.useCount seen better) :
    ∃ worker, (lessUsedOf better rest).run (pool.copy better) = .ok worker (pool.copy worker) ∧
      LastLeast pool.useCount (seen ++ rest) worker := by
  induction rest generalizing better seen with
  | nil =>
    rw [List.append_nil]
    exact ⟨better,rfl,chosen⟩
  | cons worker rest ih =>
    obtain ⟨next,goes,chosen⟩ := run_lessUsedOf_cons chosen worker rest
    obtain ⟨least,runs,last⟩ := ih chosen
    rw [List.append_assoc,List.singleton_append] at last
    exact ⟨least,goes.trans runs,last⟩

/-- The call returns the last least used worker, with one more `shared_ptr` to it. -/
theorem run_getLessUsedWorker {first : WorkerPtr} {rest : List WorkerPtr} (workers : pool.workers = first :: rest) :
    ∃ worker, getLessUsedWorker.run pool = .ok worker (pool.copy worker) ∧
      LastLeast pool.useCount pool.workers worker := by
  -- The first worker is compared with itself before any other.
  have stays : ¬ (pool.copy first).useCount first > (pool.copy first).useCount first := Nat.lt_irrefl _
  obtain ⟨worker,runs,chosen⟩ := run_lessUsedOf rest (lastLeast_singleton pool.useCount first)
  refine ⟨worker,?_,?_⟩
  · rw [← runs]
    simp only [getLessUsedWorker,EStateM.run_bind,EStateM.run_get,workers,EStateM.run_modify,lessUsedOf,if_neg stays]
  · rw [workers]
    exact chosen

/-- The worker that is handed out had the least use count before the call, and is
    the last one that had it; the call leaves one more `shared_ptr` to it, and the
    other counts as they were. -/
theorem getLessUsedWorker_least (pool : ThreadPool) (given : pool.workers ≠ []) :
    ∃ worker before later pool', getLessUsedWorker.run pool = .ok worker pool' ∧
      pool.workers = before ++ worker :: later ∧
      (∀ other ∈ pool.workers, pool.useCount worker ≤ pool.useCount other) ∧
      (∀ other ∈ later, pool.useCount worker < pool.useCount other) ∧ pool'.workers = pool.workers ∧
      ∀ other, pool'.useCount other = pool.useCount other + if other = worker then 1 else 0 := by
  obtain ⟨first,rest,workers⟩ := List.exists_cons_of_ne_nil given
  obtain ⟨worker,runs,least,before,later,split,last⟩ := run_getLessUsedWorker workers
  exact ⟨worker,before,later,pool.copy worker,runs,split,least,last,rfl,useCount_copy pool worker⟩

/-- Of three workers the first is used and the other two are not; the last one is
    handed out. -/
theorem getLessUsedWorker_last :
    ∃ pool', getLessUsedWorker.run ⟨[0,1,2],fun worker => if worker = 0 then 1 else 0⟩ = .ok 2 pool' ∧
      pool'.useCount 2 = 2 := by
  obtain ⟨worker,-,-,pool',runs,-,-,-,-,counts⟩ :=
    getLessUsedWorker_least ⟨[0,1,2],fun worker => if worker = 0 then 1 else 0⟩ (by decide)
  have last : getLessUsedWorker.run ⟨[0,1,2],fun worker => if worker = 0 then 1 else 0⟩ = .ok 2 _ := rfl
  cases last.symm.trans runs
  exact ⟨_,last,counts 2⟩

/-! ### Runs -/

/-- What happens to the `shared_ptr`s of a pool, one after another: a worker is
    handed out, someone copies a pointer to a worker or locks a weak one, and someone
    lets one go. -/
inductive Event where
  | getLessUsedWorker
  | copied (worker : WorkerPtr)
  | released (worker : WorkerPtr)

def step (pool : ThreadPool) : Event → Option ThreadPool
  | .getLessUsedWorker =>
    match getLessUsedWorker.run pool with
    | .ok _ pool' => some pool'
    | .error _ _ => none
  | .copied worker => if worker ∈ pool.workers then some (pool.copy worker) else none
  | .released worker => if 0 < pool.others worker then some (pool.release worker) else none

/-- No worker is used more than one time more than another. -/
def Balanced (pool : ThreadPool) : Prop :=
  ∀ worker ∈ pool.workers, ∀ other ∈ pool.workers, pool.useCount worker ≤ pool.useCount other + 1

/-- Every `shared_ptr` is to a worker of the pool. -/
def Known (pool : ThreadPool) : Prop := ∀ worker, 0 < pool.others worker → worker ∈ pool.workers

/-- A pointer is copied of a least used worker, and let go of a most used one. -/
def Evens (pool : ThreadPool) : Event → Prop
  | .getLessUsedWorker => True
  | .copied worker => ∀ other ∈ pool.workers, pool.useCount worker ≤ pool.useCount other
  | .released worker => ∀ other ∈ pool.workers, pool.useCount other ≤ pool.useCount worker

theorem copy_release {worker : WorkerPtr} (held : 0 < pool.others worker) :
    (pool.release worker).copy worker = pool := by
  have one : pool.others worker - 1 + 1 = pool.others worker := Nat.sub_add_cancel held
  simp [copy,release,one]

/-- What a step does: a pointer to a worker is added, to a last least used one when
    the pool hands it out, or one that someone holds is let go. -/
theorem step_cases {pool' : ThreadPool} {e : Event} (taken : pool.step e = some pool') :
    (∃ worker, e = .getLessUsedWorker ∧ LastLeast pool.useCount pool.workers worker ∧ pool' = pool.copy worker) ∨
      (∃ worker, e = .copied worker ∧ worker ∈ pool.workers ∧ pool' = pool.copy worker) ∨
      ∃ worker, e = .released worker ∧ 0 < pool.others worker ∧ pool' = pool.release worker := by
  cases e with
  | getLessUsedWorker =>
    cases workers : pool.workers with
    | nil => simp [step,getLessUsedWorker,workers] at taken
    | cons first rest =>
      obtain ⟨worker,runs,chosen⟩ := run_getLessUsedWorker workers
      simp only [step,runs,Option.some.injEq] at taken
      rw [workers] at chosen
      exact .inl ⟨worker,rfl,chosen,taken.symm⟩
  | copied worker =>
    simp only [step,Option.ite_none_right_eq_some,Option.some.injEq] at taken
    exact .inr (.inl ⟨worker,rfl,taken.1,taken.2.symm⟩)
  | released worker =>
    simp only [step,Option.ite_none_right_eq_some,Option.some.injEq] at taken
    exact .inr (.inr ⟨worker,rfl,taken.1,taken.2.symm⟩)

theorem known_copy (known : pool.Known) {worker : WorkerPtr} (member : worker ∈ pool.workers) :
    (pool.copy worker).Known := by
  intro other held
  by_cases same : other = worker
  · rw [same]
    exact member
  · exact known other (by simpa [copy,same] using held)

theorem known_step {pool' : ThreadPool} {e : Event} (known : pool.Known) (taken : pool.step e = some pool') :
    pool'.Known := by
  rcases step_cases taken with ⟨worker,-,chosen,rfl⟩ | ⟨worker,-,member,rfl⟩ | ⟨worker,-,some,rfl⟩
  · exact known_copy known chosen.mem
  · exact known_copy known member
  · intro other held
    by_cases same : other = worker
    · rw [same]
      exact known worker some
    · exact known other (by simpa [release,same] using held)

theorem balanced_copy_iff (balanced : pool.Balanced) {worker : WorkerPtr} (member : worker ∈ pool.workers) :
    (pool.copy worker).Balanced ↔ ∀ other ∈ pool.workers, pool.useCount worker ≤ pool.useCount other := by
  constructor
  · intro even other listed
    have bound := even worker member other listed
    rw [useCount_copy,useCount_copy,if_pos rfl] at bound
    by_cases same : other = worker
    · rw [same]
    · rw [if_neg same] at bound
      omega
  · intro least other listed another listed'
    have before := balanced other listed another listed'
    rw [useCount_copy,useCount_copy]
    by_cases same : other = worker
    · subst same
      have bound := least another listed'
      rw [if_pos rfl]
      omega
    · rw [if_neg same]
      omega

theorem balanced_release_iff (balanced : pool.Balanced) {worker : WorkerPtr} (member : worker ∈ pool.workers)
    (held : 0 < pool.others worker) :
    (pool.release worker).Balanced ↔ ∀ other ∈ pool.workers, pool.useCount other ≤ pool.useCount worker := by
  have counts : ∀ other, pool.useCount other =
      (pool.release worker).useCount other + if other = worker then 1 else 0 := by
    intro other
    rw [← useCount_copy,copy_release held]
  constructor
  · intro even other listed
    have bound := even other listed worker member
    rw [counts other,counts worker,if_pos rfl]
    by_cases same : other = worker
    · rw [if_pos same,same]
    · rw [if_neg same]
      exact bound
  · intro most other listed another listed'
    have before := balanced other listed another listed'
    have bound := most other listed
    rw [counts,counts another] at before
    rw [counts,counts worker,if_pos rfl] at bound
    by_cases same : another = worker
    · subst same
      omega
    · rw [if_neg same] at before
      omega

theorem balanced_step_iff {pool' : ThreadPool} {e : Event} (known : pool.Known) (balanced : pool.Balanced)
    (taken : pool.step e = some pool') : pool'.Balanced ↔ pool.Evens e := by
  rcases step_cases taken with ⟨worker,rfl,chosen,rfl⟩ | ⟨worker,rfl,member,rfl⟩ | ⟨worker,rfl,held,rfl⟩
  · exact iff_of_true ((balanced_copy_iff balanced chosen.mem).mpr chosen.least) trivial
  · exact balanced_copy_iff balanced member
  · exact balanced_release_iff balanced (known worker held) held

theorem create_eq_ok {count : Int32} (created : create count = .ok pool) : pool.Known ∧ pool.Balanced := by
  unfold create at created
  split at created
  · cases created
  · cases created
    have once : ∀ worker ∈ List.range count.toNatClampNeg, (List.range count.toNatClampNeg).count worker = 1 :=
      fun worker member => List.count_eq_one_of_mem List.nodup_range member
    refine ⟨fun worker held => (by cases held),fun worker member other member' => ?_⟩
    simp only [useCount,once worker member,once other member']
    omega

/-- In a run of a pool the workers stay evenly used exactly when pointers are copied
    of least used workers and let go of most used ones, whatever it hands out. -/
theorem balanced_iff {count : Int32} (created : create count = .ok pool) (es : List Event) :
    Always step Balanced pool es ↔ Guarded step Evens pool es := by
  obtain ⟨known,balanced⟩ := create_eq_ok created
  exact always_iff_guarded (Q := Known) (fun _ _ _ known _ _ taken => known_step known taken)
    (fun _ _ _ known balanced taken => balanced_step_iff known balanced taken) known balanced es

end ThreadPool
end LicodeClient
