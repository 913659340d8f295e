import LicodeClient.Lib.Progress
import LicodeClient.Lib.Simulation
import Mathlib.Data.List.Perm.Basic
import Mathlib.Data.List.Range

/-!
The thread of a `Worker`. `Start` makes the `io_context` usable again, holds it with
a guard and starts a thread that runs it; `Stop` lets the guard go and waits for the
thread, which leaves when no work is left. `PostTask` dispatches: a task of the
worker's own thread runs at once, inside the one that posts it, any other is queued;
in which order the `io_context` takes the queued ones is left open. The owner, the
thread and those who post interleave in any order. Every task that was queued has
finished, runs or waits, and the thread is there exactly while `running_` is set,
unless a task has called `Stop` itself, after which `Start` ends the process
(`runs_once`). Tasks that are posted while the worker runs are run, even if it is
stopped meanwhile (`posted_runs`), and `Stop` returns, once they are (`stop_waits`):
each after no more steps than the work of that moment takes and what happens later is
charged with, two for a task that is posted or a thread that is started, one for a
task dispatched inside another and three for a call of `Stop` (`Event.charge`). A task
is known by the call that posted it.
-/
namespace LicodeClient
open LicodeClient.Run

namespace WorkThread

/-- Where `work_thread_` is: before `ioc_.run()`, in it between tasks or in a task
    and in as many others inside that one, or after it. -/
inductive Place where
  | absent
  | entering
  | polling
  | executing (task nested : Nat)
  | exited
  deriving DecidableEq

/-- Where the owner is in `Stop`: before `guard_->reset()`, before `join` has
    returned or before `ioc_.stop()`. -/
inductive Stage where
  | outside
  | releasing
  | joining
  | halting
  deriving DecidableEq

end WorkThread

open WorkThread in
/-- The part of `Worker` that runs tasks. `stopped` is the flag of `ioc_`, `joinable`
    says that `work_thread_` was started and not joined, and `ended` that the process
    has ended; for what has happened, how many tasks were queued so far, which of them
    have finished and how many of the owner's calls of `Stop` have returned. -/
structure WorkThread where
  running : Bool := false
  guard : Bool := false
  stopped : Bool := false
  joinable : Bool := false
  queue : List Nat := []
  place : Place := .absent
  stage : Stage := .outside
  posted : Nat := 0
  finished : List Nat := []
  returned : Nat := 0
  ended : Bool := false
  deriving DecidableEq

namespace WorkThread

/-- What can happen next; the thread takes a queued task by its position. The last
    three are what a task does: it posts to its own worker, throws what nobody catches
    or calls `Stop` and finds `running_` set. -/
inductive Event where
  | start
  | stop
  | release
  | join
  | halt
  | post
  | enter
  | take (i : Nat)
  | finish
  | leave
  | dispatch
  | throw
  | stopInside (caught : Bool)
  deriving DecidableEq

/-- The queued task that runs. -/
def current (s : WorkThread) : List Nat :=
  match s.place with
  | .executing task _ => [task]
  | _ => []

/-- The work that `ioc_` counts. -/
def outstanding (s : WorkThread) : Nat := s.queue.length + s.current.length + s.guard.toNat

/-- Without any work left `ioc_` stops itself. -/
def settle (s : WorkThread) : WorkThread := { s with stopped := s.stopped || s.outstanding == 0 }

/-- `Worker::Start`. The thread that it replaces must not be joinable any more, or its
    destructor ends the process. -/
def start (s : WorkThread) : WorkThread :=
  if s.running then s
  else if s.joinable then { s with running := true, ended := true }
  else { s with running := true, stopped := false, guard := true, joinable := true, place := .entering }

/-- `Worker::Stop` up to `guard_->reset()`. -/
def stop (s : WorkThread) : WorkThread :=
  if !s.running then { s with returned := s.returned + 1 } else { s with running := false, stage := .releasing }

/-- `Worker::Stop` called by a task that finds `running_` set: it is, or the owner's
    `Stop` has cleared it since. The thread cannot join itself, and `join` throws. In a
    task that was scheduled the exception is caught, from any other it leaves
    `ioc_.run()`. -/
def stopInside (s : WorkThread) (caught : Bool) : Option WorkThread :=
  if s.running ∨ s.stage ≠ .outside then some { s with running := false, guard := false, ended := !caught } else none

/-- What the thread does next, and what a task does. -/
def proceed (s : WorkThread) : Place → Event → Option WorkThread
  | .entering, .enter =>
    some (if s.outstanding = 0 then { s with stopped := true, place := .exited } else { s with place := .polling })
  | .polling, .take i =>
    match s.queue[i]? with
    | some task =>
      if s.stopped then none else some { s with queue := s.queue.eraseIdx i, place := .executing task 0 }
    | none => none
  | .polling, .leave => if s.stopped then some { s with place := .exited } else none
  | .executing task nested, .finish =>
    match nested with
    | 0 => some (settle { s with place := .polling, finished := s.finished ++ [task] })
    | nested + 1 => some { s with place := .executing task nested }
  | .executing task nested, .dispatch => some { s with place := .executing task (nested + 1) }
  | .executing _ _, .throw => some { s with ended := true }
  | .executing _ _, .stopInside caught => s.stopInside caught
  | _, _ => none

/-- One step. -/
def step (s : WorkThread) (e : Event) : Option WorkThread :=
  if s.ended then none
  else
    match e with
    | .start => if s.stage = .outside then some s.start else none
    | .stop => if s.stage = .outside then some s.stop else none
    | .release => if s.stage = .releasing then some (settle { s with guard := false, stage := .joining }) else none
    | .join =>
      if s.stage = .joining ∧ s.place = .exited then some { s with joinable := false, stage := .halting } else none
    | .halt =>
      if s.stage = .halting then some { s with stopped := true, stage := .outside, returned := s.returned + 1 }
      else none
    | .post => some { s with queue := s.queue ++ [s.posted], posted := s.posted + 1 }
    | e => s.proceed s.place e

/-! ### What holds at every time -/

/-- The thread has not left `ioc_.run()`. -/
def Place.alive : Place → Bool
  | .entering | .polling | .executing _ _ => true
  | _ => false

/-- The guard holds `ioc_` open for the thread. -/
structure Held (s : WorkThread) : Prop where
  holds : s.guard = true
  goesOn : s.stopped = false
  alive : s.place.alive = true

/-- The guard is gone: the thread has work, or it knows that there is none. -/
structure Unguarded (s : WorkThread) : Prop where
  free : s.guard = false
  there : s.place ≠ .absent
  exits : s.place = .exited → s.stopped = true
  idle : s.place = .polling → s.queue = [] → s.stopped = true
  busy : ∀ task nested, s.place = .executing task nested → s.stopped = false

/-- What the flags and the stages say. Until it is joined the thread is held or on its
    way out; `running_` is set only outside of `Stop` and with the guard. -/
structure Phase (s : WorkThread) : Prop where
  works : s.joinable = true → s.Held ∨ s.Unguarded
  gone : s.joinable = false → s.place.alive = false
  runs : s.running = true → s.stage = .outside ∧ s.joinable = true ∧ s.guard = true
  releasing : s.stage = .releasing → s.joinable = true
  joining : s.stage = .joining → s.joinable = true ∧ s.guard = false
  halting : s.stage = .halting → s.joinable = false

/-- Every queued task has finished, runs or waits, once; until the process ends the
    stages say what they do. -/
structure Kept (s : WorkThread) : Prop where
  once : (s.finished ++ s.current ++ s.queue).Perm (List.range s.posted)
  phase : s.ended = false → s.Phase

/-- The ways a step can go. -/
inductive Happens (s : WorkThread) : Event → WorkThread → Prop where
  | same : Happens s .start s
  | idle (stage : s.stage = .outside) : Happens s .stop { s with returned := s.returned + 1 }
  | start (stage : s.stage = .outside) (idle : s.running = false) (joined : s.joinable = false) :
      Happens s .start
        { s with running := true, stopped := false, guard := true, joinable := true, place := .entering }
  | stop (stage : s.stage = .outside) (runs : s.running = true) :
      Happens s .stop { s with running := false, stage := .releasing }
  | release (stage : s.stage = .releasing) : Happens s .release (settle { s with guard := false, stage := .joining })
  | join (stage : s.stage = .joining) (place : s.place = .exited) :
      Happens s .join { s with joinable := false, stage := .halting }
  | halt (stage : s.stage = .halting) :
      Happens s .halt { s with stopped := true, stage := .outside, returned := s.returned + 1 }
  | post : Happens s .post { s with queue := s.queue ++ [s.posted], posted := s.posted + 1 }
  | pass (place : s.place = .entering) (idle : s.outstanding = 0) :
      Happens s .enter { s with stopped := true, place := .exited }
  | enter (place : s.place = .entering) (work : s.outstanding ≠ 0) : Happens s .enter { s with place := .polling }
  | take {i task : Nat} (place : s.place = .polling) (goesOn : s.stopped = false) (here : s.queue[i]? = some task) :
      Happens s (.take i) { s with queue := s.queue.eraseIdx i, place := .executing task 0 }
  | leave (place : s.place = .polling) (ends : s.stopped = true) : Happens s .leave { s with place := .exited }
  | finish {task : Nat} (place : s.place = .executing task 0) :
      Happens s .finish (settle { s with place := .polling, finished := s.finished ++ [task] })
  | back {task nested : Nat} (place : s.place = .executing task (nested + 1)) :
      Happens s .finish { s with place := .executing task nested }
  | dispatch {task nested : Nat} (place : s.place = .executing task nested) :
      Happens s .dispatch { s with place := .executing task (nested + 1) }
  | caught {task nested : Nat} (place : s.place = .executing task nested) (found : s.running ∨ s.stage ≠ .outside) :
      Happens s (.stopInside true) { s with running := false, guard := false, ended := false }
  | crash {e : Event} {t : WorkThread} (ended : t.ended = true) (posted : t.posted = s.posted)
      (finished : t.finished = s.finished) (place : t.place = s.place) (queue : t.queue = s.queue) : Happens s e t

section
variable {s t : WorkThread} {e : Event}

theorem happens_proceed (taken : s.proceed s.place e = some t) : Happens s e t := by
  cases place : s.place with
  | entering =>
    rw [place] at taken
    cases e <;> cases taken
    split
    · next idle => exact .pass place idle
    · next work => exact .enter place work
  | polling =>
    rw [place] at taken
    cases e with
    | take i =>
      simp only [proceed] at taken
      split at taken
      · next task here =>
        obtain ⟨goesOn,done⟩ := Option.ite_none_left_eq_some.mp taken
        cases done
        exact .take place (by simpa using goesOn) here
      · cases taken
    | leave =>
      obtain ⟨ends,done⟩ := Option.ite_none_right_eq_some.mp taken
      cases done
      exact .leave place ends
    | _ => cases taken
  | executing task nested =>
    rw [place] at taken
    cases e with
    | finish =>
      cases nested <;> cases taken
      · exact .finish place
      · exact .back place
    | dispatch => cases taken; exact .dispatch place
    | throw => cases taken; exact .crash rfl rfl rfl rfl rfl
    | stopInside caught =>
      obtain ⟨found,done⟩ := Option.ite_none_right_eq_some.mp taken
      cases done
      cases caught with
      | true => exact .caught place found
      | false => exact .crash rfl rfl rfl rfl rfl
    | _ => cases taken
  | absent =>
    rw [place] at taken
    cases taken
  | exited =>
    rw [place] at taken
    cases taken

theorem happens_of_step (taken : s.step e = some t) : s.ended = false ∧ Happens s e t := by
  obtain ⟨up,taken⟩ := Option.ite_none_left_eq_some.mp taken
  refine ⟨by simpa using up,?_⟩
  cases e with
  | start =>
    obtain ⟨stage,done⟩ := Option.ite_none_right_eq_some.mp taken
    cases done
    cases runs : s.running with
    | true =>
      rw [start,if_pos runs]
      exact .same
    | false =>
      rw [start,if_neg (by simp [runs])]
      cases joinable : s.joinable with
      | true =>
        rw [if_pos rfl]
        exact .crash rfl rfl rfl rfl rfl
      | false =>
        rw [if_neg nofun]
        exact .start stage runs joinable
  | stop =>
    obtain ⟨stage,done⟩ := Option.ite_none_right_eq_some.mp taken
    cases done
    cases runs : s.running with
    | true =>
      rw [stop,if_neg (by simp [runs])]
      exact .stop stage runs
    | false =>
      rw [stop,if_pos (by simp [runs])]
      exact .idle stage
  | release =>
    obtain ⟨stage,done⟩ := Option.ite_none_right_eq_some.mp taken
    cases done
    exact .release stage
  | join =>
    obtain ⟨both,done⟩ := Option.ite_none_right_eq_some.mp taken
    cases done
    exact .join both.1 both.2
  | halt =>
    obtain ⟨stage,done⟩ := Option.ite_none_right_eq_some.mp taken
    cases done
    exact .halt stage
  | post => cases taken; exact .post
  | _ => exact happens_proceed taken

theorem outstanding_eq_zero : s.outstanding = 0 ↔ s.queue = [] ∧ s.current = [] ∧ s.guard = false := by
  unfold outstanding
  cases s.guard <;> simp [List.length_eq_zero_iff]

theorem settle_goesOn (goesOn : s.stopped = false) (work : s.outstanding ≠ 0) : s.settle.stopped = false := by
  simp [settle,goesOn,work]

theorem settle_stops (idle : s.outstanding = 0) : s.settle.stopped = true := by
  simp [settle,idle]

/-- Inside `ioc_.run()` the thread has not been joined. -/
theorem works_alive (phase : s.Phase) (alive : s.place.alive = true) : s.Held ∨ s.Unguarded := by
  cases joinable : s.joinable with
  | true => exact phase.works joinable
  | false => simp [phase.gone joinable] at alive

/-- Inside `Stop` the flag `running_` is cleared. -/
theorem not_running (phase : s.Phase) (inside : s.stage ≠ .outside) : ¬ s.running = true :=
  fun runs => inside (phase.runs runs).1

/-- The thread does not run a task when `ioc_` has stopped. -/
theorem goesOn_of_executing {task nested : Nat} (phase : s.Phase) (place : s.place = .executing task nested) :
    s.stopped = false := by
  rcases works_alive phase (by rw [place]; rfl) with held | unguarded
  · exact held.goesOn
  · exact unguarded.busy task nested place

theorem works_of_same (works : s.Held ∨ s.Unguarded) (guard : t.guard = s.guard) (stopped : t.stopped = s.stopped)
    (place : t.place = s.place) (queue : t.queue = s.queue) : t.Held ∨ t.Unguarded := by
  refine works.imp (fun held => ⟨?_,?_,?_⟩) (fun unguarded => ⟨?_,?_,?_,?_,?_⟩)
  · exact guard.trans held.holds
  · exact stopped.trans held.goesOn
  · exact (congrArg Place.alive place).trans held.alive
  · exact guard.trans unguarded.free
  · exact place ▸ unguarded.there
  · rw [place,stopped]
    exact unguarded.exits
  · rw [place,stopped,queue]
    exact unguarded.idle
  · rw [place,stopped]
    exact unguarded.busy

/-- The thread goes on to another place, and nobody else does anything. -/
theorem phase_moves (phase : s.Phase) (alive : s.place.alive = true) (stage : t.stage = s.stage)
    (running : t.running = s.running) (joinable : t.joinable = s.joinable) (guard : t.guard = s.guard)
    (works : t.Held ∨ t.Unguarded) : t.Phase where
  works := fun _ => works
  gone := by
    intro joined
    simp [phase.gone (joinable ▸ joined)] at alive
  runs := by
    rw [running,stage,joinable,guard]
    exact phase.runs
  releasing := by
    rw [stage,joinable]
    exact phase.releasing
  joining := by
    rw [stage,joinable,guard]
    exact phase.joining
  halting := by
    rw [stage,joinable]
    exact phase.halting

theorem phase_executes {task nested : Nat} {queue : List Nat} (phase : s.Phase) (alive : s.place.alive = true)
    (goesOn : s.stopped = false) : Phase { s with queue := queue, place := .executing task nested } := by
  refine phase_moves phase alive rfl rfl rfl rfl ((works_alive phase alive).imp (fun held => ?_) (fun unguarded => ?_))
  · exact ⟨held.holds,goesOn,rfl⟩
  · exact ⟨unguarded.free,nofun,nofun,nofun,fun _ _ _ => goesOn⟩

theorem unguarded_release (works : s.Held ∨ s.Unguarded) :
    Unguarded (settle { s with guard := false, stage := .joining }) where
  free := rfl
  there := by
    rcases works with held | unguarded
    · intro absent
      have alive := held.alive
      simp only [show s.place = .absent from absent,Place.alive] at alive
      cases alive
    · exact unguarded.there
  exits := by
    intro exited
    rcases works with held | unguarded
    · have alive := held.alive
      simp only [show s.place = .exited from exited,Place.alive] at alive
      cases alive
    · simp [settle,unguarded.exits exited]
  idle := by
    intro place empty
    refine settle_stops (outstanding_eq_zero.mpr ⟨empty,?_,rfl⟩)
    simp [current,show s.place = .polling from place]
  busy := by
    intro task nested place
    have runs : s.place = .executing task nested := place
    refine settle_goesOn ?_ (fun idle => ?_)
    · exact works.elim (fun held => held.goesOn) (fun unguarded => unguarded.busy task nested runs)
    · have none := (outstanding_eq_zero.mp idle).2.1
      simp [current,runs] at none

theorem unguarded_caught {task nested : Nat} (phase : s.Phase) (place : s.place = .executing task nested) :
    Unguarded { s with running := false, guard := false, ended := false } where
  free := rfl
  there := by simp [place]
  exits := by simp [place]
  idle := by simp [place]
  busy := fun _ _ _ => goesOn_of_executing (s := s) phase place

theorem phase_step (phase : s.Phase) (happens : Happens s e t) (up : t.ended = false) : t.Phase := by
  cases happens with
  | same => exact phase
  | idle _ =>
    exact ⟨fun joinable => works_of_same (s := s) (phase.works joinable) rfl rfl rfl rfl,phase.gone,phase.runs,
      phase.releasing,phase.joining,phase.halting⟩
  | start stage _ _ =>
    exact ⟨fun _ => .inl ⟨rfl,rfl,rfl⟩,nofun,fun _ => ⟨stage,rfl,rfl⟩,fun _ => rfl,by simp [stage],by simp [stage]⟩
  | stop _ runs =>
    obtain ⟨-,joinable,-⟩ := phase.runs runs
    exact ⟨fun _ => works_of_same (s := s) (phase.works joinable) rfl rfl rfl rfl,phase.gone,nofun,fun _ => joinable,
      nofun,nofun⟩
  | release stage =>
    have joinable := phase.releasing stage
    have free := unguarded_release (phase.works joinable)
    have idle := not_running phase (by simp [stage])
    exact ⟨fun _ => .inr free,phase.gone,fun runs => absurd runs idle,nofun,fun _ => ⟨joinable,rfl⟩,nofun⟩
  | join stage place =>
    have idle := not_running phase (by simp [stage])
    exact ⟨nofun,fun _ => by rw [place]; rfl,fun runs => absurd runs idle,nofun,nofun,fun _ => rfl⟩
  | halt stage =>
    have joined := phase.halting stage
    have idle := not_running phase (by simp [stage])
    exact ⟨by simp [joined],phase.gone,fun runs => absurd runs idle,nofun,nofun,nofun⟩
  | post =>
    refine ⟨fun joinable => ?_,phase.gone,phase.runs,phase.releasing,phase.joining,phase.halting⟩
    refine (phase.works joinable).imp (fun held => ⟨held.holds,held.goesOn,held.alive⟩) (fun unguarded => ?_)
    exact ⟨unguarded.free,unguarded.there,unguarded.exits,fun _ empty => by simp at empty,unguarded.busy⟩
  | pass place idle =>
    refine phase_moves phase (by rw [place]; rfl) rfl rfl rfl rfl (.inr ?_)
    exact ⟨(outstanding_eq_zero.mp idle).2.2,nofun,fun _ => rfl,nofun,nofun⟩
  | enter place work =>
    have alive : s.place.alive = true := by rw [place]; rfl
    refine phase_moves phase alive rfl rfl rfl rfl ((works_alive phase alive).imp
      (fun held => ⟨held.holds,held.goesOn,rfl⟩) (fun unguarded => ?_))
    refine ⟨unguarded.free,nofun,nofun,fun _ empty => ?_,nofun⟩
    have idle : s.outstanding = 0 := outstanding_eq_zero.mpr ⟨empty,by simp [current,place],unguarded.free⟩
    exact absurd idle work
  | take place goesOn _ =>
    exact phase_executes phase (by rw [place]; rfl) goesOn
  | leave place ends =>
    have alive : s.place.alive = true := by rw [place]; rfl
    rcases works_alive phase alive with held | unguarded
    · simp [held.goesOn] at ends
    · exact phase_moves phase alive rfl rfl rfl rfl (.inr ⟨unguarded.free,nofun,fun _ => ends,nofun,nofun⟩)
  | finish place =>
    have alive : s.place.alive = true := by rw [place]; rfl
    refine phase_moves phase alive rfl rfl rfl rfl
      ((works_alive phase alive).imp (fun held => ?_) (fun unguarded => ?_))
    · refine ⟨held.holds,settle_goesOn held.goesOn (fun idle => ?_),rfl⟩
      exact absurd ((outstanding_eq_zero.mp idle).2.2.symm.trans held.holds) nofun
    · refine ⟨unguarded.free,nofun,nofun,fun _ empty => settle_stops ?_,nofun⟩
      exact outstanding_eq_zero.mpr ⟨empty,rfl,unguarded.free⟩
  | back place =>
    exact phase_executes phase (by rw [place]; rfl) (goesOn_of_executing phase place)
  | dispatch place =>
    exact phase_executes phase (by rw [place]; rfl) (goesOn_of_executing phase place)
  | caught place _ =>
    have free := unguarded_caught phase place
    exact ⟨fun _ => .inr free,phase.gone,nofun,phase.releasing,fun stage => ⟨(phase.joining stage).1,rfl⟩,
      phase.halting⟩
  | crash ended _ _ _ _ => exact absurd (up.symm.trans ended) nofun

theorem once_step (once : (s.finished ++ s.current ++ s.queue).Perm (List.range s.posted)) (phase : s.Phase)
    (happens : Happens s e t) : (t.finished ++ t.current ++ t.queue).Perm (List.range t.posted) := by
  cases happens with
  | start _ _ joined =>
    have none : s.current = [] := by
      have gone := phase.gone joined
      unfold current
      split
      · next place => simp [place,Place.alive] at gone
      · rfl
    rw [none] at once
    exact once
  | post =>
    rw [List.range_succ,← List.append_assoc]
    exact once.append_right [s.posted]
  | pass place _ => simpa [current,place] using once
  | enter place _ => simpa [current,place] using once
  | @take i task place _ here =>
    -- the task goes from the queue to the thread
    obtain ⟨inside,is⟩ := List.getElem?_eq_some_iff.mp here
    have moved := List.getElem_cons_eraseIdx_perm inside
    rw [is] at moved
    simp only [current,place,List.append_nil] at once ⊢
    rw [List.append_assoc]
    exact (moved.append_left s.finished).trans once
  | leave place _ => simpa [current,place] using once
  | finish place => simpa [current,settle,place] using once
  | back place => simpa [current,place] using once
  | dispatch place => simpa [current,place] using once
  | crash _ posted finished place queue =>
    have same : t.current = s.current := by unfold current; rw [place]
    rw [posted,finished,same,queue]
    exact once
  | _ => exact once

theorem kept_init : Kept {} := ⟨.refl _,fun _ => ⟨nofun,fun _ => rfl,nofun,nofun,nofun,nofun⟩⟩

theorem kept_step (kept : s.Kept) (taken : s.step e = some t) : t.Kept := by
  obtain ⟨up,happens⟩ := happens_of_step taken
  exact ⟨once_step kept.once (kept.phase up) happens,phase_step (kept.phase up) happens⟩

theorem kept_run {es : List Event} (reached : run step {} es = some s) : s.Kept :=
  (always_of_invariant (fun _ _ _ => kept_step) kept_init es).last reached

/-! ### A thread that was left to itself -/

/-- The worker does not run and its thread was not joined. -/
structure Abandoned (s : WorkThread) : Prop where
  stage : s.stage = .outside
  idle : s.running = false
  unjoined : s.joinable = true

theorem abandoned_step (abandoned : s.Abandoned) (taken : s.step e = some t) (up : t.ended = false) :
    t.Abandoned := by
  obtain ⟨stage,idle,unjoined⟩ := abandoned
  cases (happens_of_step taken).2 with
  | start _ _ joined => simp [unjoined] at joined
  | stop _ runs => simp [idle] at runs
  | release wrong => simp [stage] at wrong
  | join wrong _ => simp [stage] at wrong
  | halt wrong => simp [stage] at wrong
  | caught _ found => simp [stage,idle] at found
  | crash ended _ _ _ _ => exact absurd (up.symm.trans ended) nofun
  | _ => exact ⟨stage,idle,unjoined⟩

/-- It never runs again. -/
theorem abandoned_run {later : List Event} (abandoned : s.Abandoned) (done : run step s later = some t) :
    t.ended = true ∨ t.running = false := by
  have last : t.ended = true ∨ t.Abandoned := by
    refine (always_of_invariant (P := fun s : WorkThread => s.ended = true ∨ s.Abandoned)
      (fun s e t before taken => ?_) (.inr abandoned) later).last done
    cases up : t.ended with
    | true => exact .inl rfl
    | false =>
      rcases before with ended | abandoned
      · exact absurd ((happens_of_step taken).1.symm.trans ended) nofun
      · exact .inr (abandoned_step abandoned taken up)
  exact last.imp_right (fun abandoned => abandoned.idle)

/-- Only a task that calls `Stop` leaves the thread to itself. -/
theorem abandoned_called {es : List Event} (reached : run step {} es = some s) :
    s.ended = false → s.Abandoned → .stopInside true ∈ es := by
  refine run_history (P := fun es s => s.ended = false → s.Abandoned → .stopInside true ∈ es)
    (fun before u e v first called taken up abandoned => ?_) (fun _ abandoned => ?_) reached
  · obtain ⟨up',happens⟩ := happens_of_step taken
    obtain ⟨stage,idle,unjoined⟩ := abandoned
    refine List.mem_append.mpr ?_
    cases happens with
    | caught _ _ => exact .inr (List.mem_singleton.mpr rfl)
    | start _ _ _ => cases idle
    | stop _ _ => cases stage
    | release _ => cases stage
    | join _ _ => cases stage
    | halt stage' => simp [((kept_run first).phase up').halting stage'] at unjoined
    | crash ended _ _ _ _ => exact absurd (up.symm.trans ended) nofun
    | _ => exact .inl (called up' ⟨stage,idle,unjoined⟩)
  · exact absurd abandoned.unjoined nofun

/-! ### Tasks that have finished -/

/-- The first tasks have finished. -/
def Done (n : Nat) (s : WorkThread) : Prop := ∀ i < n, i ∈ s.finished

/-- When none runs and none waits every task has finished. -/
theorem done_of_empty (kept : s.Kept) (none : s.current = []) (empty : s.queue = []) : Done s.posted s := by
  intro i before
  have once := kept.once
  rw [none,empty,List.append_nil,List.append_nil] at once
  exact once.mem_iff.mpr (List.mem_range.mpr before)

/-- Without work for `ioc_` every task has finished. -/
theorem done_of_idle (kept : s.Kept) (idle : s.outstanding = 0) : Done s.posted s := by
  obtain ⟨empty,none,-⟩ := outstanding_eq_zero.mp idle
  exact done_of_empty kept none empty

theorem done_mono {n m : Nat} (done : Done m s) (le : n ≤ m) : Done n s :=
  fun i before => done i (before.trans_le le)

theorem done_step {n : Nat} (done : Done n s) (taken : s.step e = some t) : Done n t := by
  cases (happens_of_step taken).2 with
  | finish _ => exact fun i before => List.mem_append_left _ (done i before)
  | crash _ _ finished _ _ =>
    unfold Done
    rw [finished]
    exact done
  | _ => exact done

/-! ### Steps that can be taken -/

/-- The steps that the thread and a call of `Stop` take by themselves. -/
def Event.own : Event → Bool
  | .release | .join | .halt | .enter | .take _ | .finish | .leave => true
  | _ => false

/-- One of them is possible. -/
def GoesOn (s : WorkThread) : Prop := ∃ e t, Event.own e = true ∧ s.step e = some t

/-- What others add: a task that is posted is taken and finished, one that is
    dispatched inside another is finished, a new thread has to enter `ioc_.run()` and to
    leave it, and a call of `Stop` has three steps. -/
def Event.charge : Event → Nat
  | .post | .start => 2
  | .dispatch => 1
  | .stop => 3
  | _ => 0

/-- How far the thread is from its exit, with what is queued. -/
def Place.rank : Place → Nat
  | .absent | .exited => 0
  | .polling => 1
  | .entering => 2
  | .executing _ nested => nested + 2

/-- How far a call of `Stop` is from its end. -/
def Stage.rank : Stage → Nat
  | .outside => 0
  | .halting => 1
  | .joining => 2
  | .releasing => 3

/-- How much there is to do. -/
def load (s : WorkThread) : Nat := 2 * s.queue.length + s.place.rank + s.stage.rank

theorem load_step (happens : Happens s e t) (up : t.ended = false) :
    t.load + (if e.own then 1 else 0) ≤ s.load + e.charge := by
  cases happens with
  | same => simp [Event.own]
  | idle _ => simp [Event.own,load]
  | start _ _ _ => simp only [Event.own,Event.charge,load,Place.rank,Bool.false_eq_true,if_false]; omega
  | stop stage _ => simp [Event.own,Event.charge,load,Stage.rank,stage]
  | release stage => simp [Event.own,load,settle,Stage.rank,stage]
  | join stage _ => simp [Event.own,load,Stage.rank,stage]
  | halt stage => simp [Event.own,load,Stage.rank,stage]
  | post => simp [Event.own,Event.charge,load]; omega
  | pass place _ => simp [Event.own,load,Place.rank,place]; omega
  | enter place _ => simp [Event.own,load,Place.rank,place]; omega
  | take place _ here =>
    obtain ⟨inside,-⟩ := List.getElem?_eq_some_iff.mp here
    simp only [Event.own,load,Place.rank,place,List.length_eraseIdx_of_lt inside,if_true]
    omega
  | leave place _ => simp [Event.own,load,Place.rank,place]; omega
  | finish place => simp [Event.own,load,settle,Place.rank,place]; omega
  | back place => simp [Event.own,load,Place.rank,place]; omega
  | dispatch place => simp [Event.own,Event.charge,load,Place.rank,place]; omega
  | caught _ _ => simp [Event.own,load]
  | crash ended _ _ _ _ => exact absurd (up.symm.trans ended) nofun

theorem goesOn_of_proceed (up : s.ended = false) (thread : e = .enter ∨ e = .take 0 ∨ e = .leave ∨ e = .finish)
    (does : ∃ t, s.proceed s.place e = some t) : s.GoesOn := by
  obtain ⟨t,does⟩ := does
  have open' : ¬ s.ended = true := by simp [up]
  have taken : s.step e = some t := by
    unfold step
    rw [if_neg open']
    rcases thread with rfl | rfl | rfl | rfl <;> exact does
  refine ⟨e,t,?_,taken⟩
  rcases thread with rfl | rfl | rfl | rfl <;> rfl

/-- Inside `ioc_.run()` the thread gets on unless there is nothing to do. -/
theorem goesOn_alive (up : s.ended = false) (alive : s.place.alive = true)
    (work : s.place = .polling → s.queue = [] → s.stopped = true) : s.GoesOn := by
  cases place : s.place with
  | entering => exact goesOn_of_proceed up (.inl rfl) ⟨_,by rw [place]; rfl⟩
  | polling =>
    cases ends : s.stopped with
    | true =>
      refine goesOn_of_proceed up (.inr (.inr (.inl rfl))) ⟨{ s with place := .exited },?_⟩
      rw [place]
      exact if_pos ends
    | false =>
      cases queue : s.queue with
      | nil => simp [work place queue] at ends
      | cons task rest =>
        refine goesOn_of_proceed up (.inr (.inl rfl)) ⟨{ s with queue := rest, place := .executing task 0 },?_⟩
        simp [place,proceed,queue,ends]
  | executing task nested =>
    refine goesOn_of_proceed up (.inr (.inr (.inr rfl))) ?_
    rw [place]
    cases nested <;> exact ⟨_,rfl⟩
  | absent => simp [place,Place.alive] at alive
  | exited => simp [place,Place.alive] at alive

/-! ### Tasks that were posted -/

/-- The thread is at work and has to run the first tasks. -/
structure Owes (n : Nat) (s : WorkThread) : Prop where
  kept : s.Kept
  up : s.ended = false
  goesOn : s.stopped = false
  alive : s.place.alive = true
  known : n ≤ s.posted

/-- The first tasks have finished, unless the process has ended. -/
def Ran (n : Nat) (s : WorkThread) : Prop := s.ended = true ∨ Done n s

theorem posted_le (taken : s.step e = some t) : s.posted ≤ t.posted := by
  cases (happens_of_step taken).2 with
  | post => exact Nat.le_succ _
  | crash _ posted _ _ _ => rw [posted]
  | _ => exact le_rfl

theorem ran_step {n : Nat} (ran : Ran n s) (taken : s.step e = some t) : Ran n t := by
  rcases ran with ended | done
  · exact absurd ((happens_of_step taken).1.symm.trans ended) nofun
  · exact .inr (done_step done taken)

/-- `ioc_` only stops when everything has run. -/
theorem stops_ran (kept : t.Kept) (phase : s.Phase) (goesOn : s.stopped = false) (alive : s.place.alive = true)
    (happens : Happens s e t) (up : t.ended = false) :
    t.stopped = false ∧ t.place.alive = true ∨ Done t.posted t := by
  cases happens with
  | start _ _ _ => exact .inl ⟨rfl,rfl⟩
  | release _ =>
    by_cases idle : outstanding { s with guard := false, stage := .joining } = 0
    · exact .inr (done_of_idle kept idle)
    · exact .inl ⟨settle_goesOn goesOn idle,alive⟩
  | halt stage => simp [phase.gone (phase.halting stage)] at alive
  | pass place idle =>
    refine .inr (done_of_idle kept ?_)
    obtain ⟨empty,-,free⟩ := outstanding_eq_zero.mp idle
    exact outstanding_eq_zero.mpr ⟨empty,rfl,free⟩
  | enter _ _ => exact .inl ⟨goesOn,rfl⟩
  | take _ _ _ => exact .inl ⟨goesOn,rfl⟩
  | leave _ ends => simp [goesOn] at ends
  | @finish task _ =>
    by_cases idle : outstanding { s with place := .polling, finished := s.finished ++ [task] } = 0
    · exact .inr (done_of_idle kept idle)
    · exact .inl ⟨settle_goesOn goesOn idle,rfl⟩
  | back _ => exact .inl ⟨goesOn,rfl⟩
  | dispatch _ => exact .inl ⟨goesOn,rfl⟩
  | crash ended _ _ _ _ => exact absurd (up.symm.trans ended) nofun
  | _ => exact .inl ⟨goesOn,alive⟩

theorem ends_posted (n : Nat) : Ends step Event.own Event.charge (Owes n) (Ran n) load where
  stays := fun _ _ _ => ran_step
  lowers := by
    intro s e t owes taken
    obtain ⟨-,happens⟩ := happens_of_step taken
    have kept := kept_step owes.kept taken
    cases up : t.ended with
    | true => exact .inl (.inl up)
    | false =>
      have known := owes.known.trans (posted_le taken)
      rcases stops_ran kept (owes.kept.phase owes.up) owes.goesOn owes.alive happens up with ⟨goesOn,alive⟩ | all
      · exact .inr ⟨⟨kept,up,goesOn,alive,known⟩,load_step happens up⟩
      · exact .inl (.inr (done_mono all known))
  goesOn := by
    intro s owes
    by_cases done : Done n s
    · exact .inl (.inr done)
    · refine .inr (goesOn_alive owes.up owes.alive (fun place empty => ?_))
      have all := done_of_empty owes.kept (by simp [current,place]) empty
      exact absurd (done_mono all owes.known) done

/-! ### Calls of `Stop` -/

/-- A call of `Stop` goes on. When `ioc_` has stopped the first tasks have run. -/
structure Stopping (n r : Nat) (s : WorkThread) : Prop where
  kept : s.Kept
  up : s.ended = false
  known : n ≤ s.posted
  same : s.returned = r
  inside : s.stage ≠ .outside
  waits : s.stopped = true → Done n s
  halts : s.stage = .halting → Done n s

/-- The call has returned and the first tasks have run, unless the process has ended. -/
def Returned (n r : Nat) (s : WorkThread) : Prop := s.ended = true ∨ r < s.returned ∧ Done n s

theorem returned_le (taken : s.step e = some t) (up : t.ended = false) : s.returned ≤ t.returned := by
  cases (happens_of_step taken).2 with
  | idle _ => exact Nat.le_succ _
  | halt _ => exact Nat.le_succ _
  | crash ended _ _ _ _ => exact absurd (up.symm.trans ended) nofun
  | _ => exact le_rfl

theorem returned_step {n r : Nat} (returned : Returned n r s) (taken : s.step e = some t) : Returned n r t := by
  rcases returned with ended | ⟨later,done⟩
  · exact absurd ((happens_of_step taken).1.symm.trans ended) nofun
  · cases up : t.ended with
    | true => exact .inl up
    | false => exact .inr ⟨later.trans_le (returned_le taken up),done_step done taken⟩

/-- When `ioc_` stops while the owner waits, the first tasks have run. -/
theorem waits_settle {n : Nat} (kept : s.settle.Kept) (known : n ≤ s.posted) (before : s.stopped = true → Done n s) :
    s.settle.stopped = true → Done n s.settle := by
  intro ends
  by_cases idle : s.outstanding = 0
  · exact done_mono (done_of_idle kept idle) known
  · cases stopped : s.stopped with
    | true => exact before stopped
    | false => simp [settle_goesOn stopped idle] at ends

theorem stopping_step {n r : Nat} (stopping : Stopping n r s) (taken : s.step e = some t) :
    Returned n r t ∨ Stopping n r t := by
  obtain ⟨kept,up,known,same,inside,waits,halts⟩ := stopping
  have phase := kept.phase up
  have known' := known.trans (posted_le taken)
  have kept' := kept_step kept taken
  cases up' : t.ended with
  | true => exact .inl (.inl up')
  | false =>
    cases (happens_of_step taken).2 with
    | idle stage => exact absurd stage inside
    | start stage _ _ => exact absurd stage inside
    | stop stage _ => exact absurd stage inside
    | release stage => exact .inr ⟨kept',up',known',same,nofun,waits_settle kept' known waits,nofun⟩
    | join stage place =>
      -- the thread has left, so `ioc_` has stopped
      have done : Done n s := by
        rcases phase.works (phase.joining stage).1 with held | unguarded
        · have alive := held.alive
          simp only [place,Place.alive] at alive
          cases alive
        · exact waits (unguarded.exits place)
      exact .inr ⟨kept',up',known',same,nofun,fun _ => done,fun _ => done⟩
    | halt stage => exact .inl (.inr ⟨same ▸ Nat.lt_succ_self _,halts stage⟩)
    | pass _ idle =>
      have done : Done n s := done_mono (done_of_idle kept idle) known
      exact .inr ⟨kept',up',known',same,inside,fun _ => done,fun _ => done⟩
    | @finish task _ =>
      have more : Done n s → Done n (settle { s with place := .polling, finished := s.finished ++ [task] }) :=
        fun done => done_step done taken
      exact .inr ⟨kept',up',known',same,inside,waits_settle kept' known (fun ends => more (waits ends)),
        fun stage => more (halts stage)⟩
    | crash ended _ _ _ _ => exact absurd (up'.symm.trans ended) nofun
    | _ => exact .inr ⟨kept',up',known',same,inside,waits,halts⟩

theorem ends_stop (n r : Nat) : Ends step Event.own Event.charge (Stopping n r) (Returned n r) load where
  stays := fun _ _ _ => returned_step
  lowers := by
    intro s e t stopping taken
    cases up : t.ended with
    | true => exact .inl (.inl up)
    | false =>
      exact (stopping_step stopping taken).imp_right (fun kept => ⟨kept,load_step (happens_of_step taken).2 up⟩)
  goesOn := by
    intro s stopping
    have open' : ¬ s.ended = true := by simp [stopping.up]
    have phase := stopping.kept.phase stopping.up
    refine .inr ?_
    cases stage : s.stage with
    | outside => exact absurd stage stopping.inside
    | releasing => exact ⟨.release,_,rfl,(if_neg open').trans (if_pos stage)⟩
    | joining =>
      obtain ⟨joinable,free⟩ := phase.joining stage
      rcases phase.works joinable with held | unguarded
      · exact absurd (free.symm.trans held.holds) nofun
      · cases alive : s.place.alive with
        | true => exact goesOn_alive stopping.up alive unguarded.idle
        | false =>
          have there := unguarded.there
          have exited : s.place = .exited := by
            cases place : s.place <;> simp_all [Place.alive]
          exact ⟨.join,_,rfl,(if_neg open').trans (if_pos ⟨stage,exited⟩)⟩
    | halting => exact ⟨.halt,_,rfl,(if_neg open').trans (if_pos stage)⟩

end

/-- Every task that was queued has finished, runs or waits, once. Outside of a call of
    `Stop` the thread is in `ioc_.run()` just while `running_` is set, unless a task has
    called `Stop` and was spared the exception; then the worker never runs again. -/
theorem runs_once {es : List Event} {s : WorkThread} (reached : run step {} es = some s) :
    (s.finished ++ s.current ++ s.queue).Perm (List.range s.posted) ∧
      (s.ended = false → s.stage = .outside → s.place.alive = s.running ∨
        .stopInside true ∈ es ∧ ∀ later t, run step s later = some t → t.ended = true ∨ t.running = false) := by
  have kept := kept_run reached
  refine ⟨kept.once,fun up stage => ?_⟩
  have phase := kept.phase up
  cases runs : s.running with
  | true =>
    obtain ⟨-,joinable,holds⟩ := phase.runs runs
    rcases phase.works joinable with held | unguarded
    · exact .inl held.alive
    · exact absurd (unguarded.free.symm.trans holds) nofun
  | false =>
    cases joinable : s.joinable with
    | false => exact .inl (phase.gone joinable)
    | true =>
      have abandoned : s.Abandoned := ⟨stage,runs,joinable⟩
      exact .inr ⟨abandoned_called reached up abandoned,fun later t => abandoned_run abandoned⟩

/-- A worker whose scheduled task has called `Stop`. -/
def left : WorkThread := { joinable := true, place := .executing 0 0, posted := 1 }

/-- The thread goes on, and `Start` ends the process. -/
theorem runs_once_inside :
    ∃ t, run step {} [.start,.post,.enter,.take 0,.stopInside true] = some left ∧ left.place.alive = true ∧
      left.running = false ∧ run step left [.finish,.leave,.start] = some t ∧ t.ended = true := by
  have reached : run step {} [.start,.post,.enter,.take 0,.stopInside true] = some left := by decide
  have later : run step left [.finish,.leave,.start] = some _ := rfl
  refine ⟨_,reached,rfl,rfl,later,?_⟩
  obtain same | ⟨-,never⟩ := (runs_once reached).2 rfl rfl
  · exact absurd same (by decide)
  · exact (never _ _ later).resolve_right nofun

theorem phase_of_running {s : WorkThread} (phase : s.Phase) (runs : s.running = true) :
    s.stage = .outside ∧ s.stopped = false ∧ s.place.alive = true := by
  obtain ⟨stage,joinable,holds⟩ := phase.runs runs
  rcases phase.works joinable with held | unguarded
  · exact ⟨stage,held.goesOn,held.alive⟩
  · exact absurd (unguarded.free.symm.trans holds) nofun

/-- What was posted while the worker runs is run, also when it is stopped meanwhile:
    the tasks have finished, or a task has ended the process, or the thread and `Stop`
    have not taken more steps than the work of that moment and what was added since
    are charged with, and one of them can take another. -/
theorem posted_runs {before later : List Event} {s t : WorkThread} (reached : run step {} before = some s)
    (up : s.ended = false) (runs : s.running = true) (done : run step s later = some t) :
    (t.ended = true ∨ ∀ i < s.posted, i ∈ t.finished) ∨
      later.countP Event.own ≤ s.load + (later.map Event.charge).sum ∧ t.GoesOn := by
  have kept := kept_run reached
  obtain ⟨-,goesOn,alive⟩ := phase_of_running (kept.phase up) runs
  exact (ends_posted s.posted).pays ⟨kept,up,goesOn,alive,le_rfl⟩ done

/-- A worker with a task that waits. -/
def busy : WorkThread :=
  { running := true, guard := true, joinable := true, queue := [0], place := .polling, posted := 1 }

theorem run_busy : run step {} [.start,.post,.enter] = some busy := by decide

/-- The same worker when it was stopped. -/
def served : WorkThread := { stopped := true, place := .exited, posted := 1, finished := [0], returned := 1 }

theorem run_served : run step busy [.stop,.release,.take 0,.finish,.leave,.join,.halt] = some served := by decide

theorem not_goesOn_served : ¬ served.GoesOn := by
  rintro ⟨e,t,own,taken⟩
  cases e with
  | release | join | halt | enter | take _ | finish | leave => cases taken
  | _ => cases own

/-- The worker is stopped before its thread has taken the task: there is more to do
    then, and the thread runs it. -/
theorem posted_runs_busy :
    (∃ t, run step busy [.stop,.release] = some t ∧ t.running = false ∧ t.GoesOn) ∧
      run step busy [.stop,.release,.take 0,.finish,.leave,.join,.halt] = some served ∧ 0 ∈ served.finished := by
  have first : run step busy [.stop,.release] = some _ := rfl
  refine ⟨⟨_,first,rfl,?_⟩,run_served,?_⟩
  · obtain ran | ⟨-,goesOn⟩ := posted_runs run_busy rfl rfl first
    · exact absurd ran (by decide)
    · exact goesOn
  · obtain (ended | done) | ⟨-,goesOn⟩ := posted_runs run_busy rfl rfl run_served
    · cases ended
    · exact done 0 Nat.zero_lt_one
    · exact absurd goesOn not_goesOn_served

/-- `Stop` returns, and the tasks that were posted before it have finished then: it has,
    or a task has ended the process, or no more steps were taken than the work of that
    moment, the call and what was added since are charged with, and there is another. -/
theorem stop_waits {before later : List Event} {s t : WorkThread} (reached : run step {} before = some s)
    (up : s.ended = false) (runs : s.running = true) (done : run step s (.stop :: later) = some t) :
    (t.ended = true ∨ s.returned < t.returned ∧ ∀ i < s.posted, i ∈ t.finished) ∨
      later.countP Event.own ≤ s.load + 3 + (later.map Event.charge).sum ∧ t.GoesOn := by
  have kept := kept_run reached
  obtain ⟨stage,goesOn,-⟩ := phase_of_running (kept.phase up) runs
  obtain ⟨u,first,rest⟩ := Option.bind_eq_some_iff.mp done
  have kept' := kept_step kept first
  have call : { s with running := false, stage := .releasing } = u := by
    simpa [step,up,stage,stop,runs] using first
  have start : Stopping s.posted s.returned u := by
    subst call
    exact ⟨kept',up,le_rfl,rfl,nofun,fun ends => absurd (goesOn.symm.trans ends) nofun,nofun⟩
  have load : u.load = s.load + 3 := by
    subst call
    simp [WorkThread.load,Stage.rank,stage]
  have ends := (ends_stop s.posted s.returned).pays start rest
  rwa [load] at ends

/-- The owner waits while the task runs and returns after it. -/
theorem stop_waits_busy :
    (∃ t, run step busy [.stop,.release,.take 0] = some t ∧ t.current = [0] ∧ t.GoesOn) ∧
      run step busy [.stop,.release,.take 0,.finish,.leave,.join,.halt] = some served ∧ 0 < served.returned := by
  have first : run step busy [.stop,.release,.take 0] = some _ := rfl
  refine ⟨⟨_,first,rfl,?_⟩,run_served,?_⟩
  · obtain returned | ⟨-,goesOn⟩ := stop_waits run_busy rfl rfl first
    · exact absurd returned (by decide)
    · exact goesOn
  · obtain (ended | ⟨returned,-⟩) | ⟨-,goesOn⟩ := stop_waits run_busy rfl rfl run_served
    · cases ended
    · exact returned
    · exact absurd goesOn not_goesOn_served

end WorkThread
end LicodeClient
