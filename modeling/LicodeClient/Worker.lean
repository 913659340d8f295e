import LicodeClient.Json
import LicodeClient.Lib.Run
import Mathlib.Data.Int.Order.Basic
import Mathlib.Data.List.Perm.Basic

/-!
`Worker`: one thread with a queue, and a scheduler that it may outlive. A function
that is to run later waits in the scheduler, is handed over to the worker's queue
when its time has come, and is run from there unless its reference was cancelled.
The scheduler's threads, the worker's thread and the callers interleave in any
order; a step that reads the clock is given its readings, and what follows from
it never reads an earlier time.
-/
namespace LicodeClient

/-- In nanoseconds, as the clock counts. -/
def millisecond : Int := 1000000

/-- A pending invocation of `ScheduleEvery`'s task: its arguments, the time read
    at its start, and the time point from which the scheduler may run it. -/
structure Loop where
  period : Int
  nextDelay : Int
  start : Int
  point : Int
  deriving DecidableEq

/-- `ScheduleEvery`, and `ScheduleFromNow` in whole milliseconds from a later
    reading of the clock. -/
def scheduleEvery (period nextDelay start now : Int) : Loop :=
  ⟨period,nextDelay,start,now + max nextDelay 0 / millisecond * millisecond⟩

/-- A task has returned `true`: the next delay makes up for the time lost. -/
def Loop.again (l : Loop) (ended start now : Int) : Loop :=
  scheduleEvery l.period (l.period - (ended - l.start - l.nextDelay)) start now

/-- The time that an invocation is aimed at. -/
def Loop.target (l : Loop) : Int := l.start + l.nextDelay

theorem millisecond_pos : 0 < millisecond := by decide

/-- Whole milliseconds fall short of the target by less than one of them. -/
theorem early_scheduleEvery {start now : Int} (later : start ≤ now) (period nextDelay : Int) :
    (scheduleEvery period nextDelay start now).target - millisecond <
      (scheduleEvery period nextDelay start now).point := by
  have whole := Int.ediv_mul_add_emod (max nextDelay 0) millisecond
  have rest := Int.emod_lt_of_pos (max nextDelay 0) millisecond_pos
  have most := Int.le_max_left nextDelay 0
  simp only [Loop.target,scheduleEvery]
  omega

namespace Worker

/-- What the worker is to run: the task of a call of `ScheduleFromNow`, or that of
    a call of `ScheduleEvery`, both by the number of the call. -/
inductive Job where
  | once (call : Nat)
  | every (chain : Nat) (loop : Loop)
  deriving DecidableEq

/-- A function that waits in the scheduler, with the number of its reference. -/
structure Timer where
  point : Int
  ref : Nat
  job : Job
  deriving DecidableEq

/-- A function in the worker's queue. -/
structure Handler where
  posted : Int
  ref : Nat
  job : Job
  deriving DecidableEq

/-- The task that the worker's thread is running. -/
structure Running where
  began : Int
  ref : Nat
  job : Job
  deriving DecidableEq

/-- How a task ends. What is not a `std::exception` is caught nowhere. -/
inductive Outcome where
  | returned (again : Bool)
  | threw (standard : Bool)
  deriving DecidableEq

/-- A call of `ScheduleFromNow`: whether `scheduler_` could be locked, and the
    reference that it has returned. -/
structure Call where
  locked : Bool
  returned : Option Nat
  deriving DecidableEq

/-- What has become of a call of `ScheduleEvery`: the time read first, the targets
    of the schedulings, the times between the end of a task and the start of the
    next scheduling, the times of the invocations, and how many there were when
    the task returned `false` or threw. -/
structure Chain where
  period : Int
  made : Int
  targets : List Int
  gaps : List Int := []
  invocations : List Int := []
  stopped : Option Nat := none
  deriving DecidableEq

end Worker

open Worker in
/-- `Worker`. `scheduler` says whether `scheduler_` can be locked, `cancelled` is
    `cancelled_` of the references made so far; for what has happened, the calls,
    those whose task was started, the jobs that were dropped as cancelled, and the
    calls that were unscheduled before their task was started. -/
structure Worker where
  scheduler : Bool
  cancelled : List Bool := []
  timers : List Timer := []
  queue : List Handler := []
  current : Option Running := none
  calls : List Worker.Call := []
  chains : List Worker.Chain := []
  started : List Nat := []
  dropped : List Job := []
  unscheduled : List Nat := []
  crashed : Option Fault := none
  deriving DecidableEq

namespace Worker

/-- A worker that was constructed with a scheduler. -/
def init : Worker := { scheduler := true }

/-- `Worker::ScheduleFromNow` with the clock as the scheduler reads it. -/
def scheduleFromNow (w : Worker) (job : Job) (duration now : Int) : Worker × Option Nat :=
  let ref := w.cancelled.length
  let w := { w with cancelled := w.cancelled ++ [false] }
  if !w.scheduler then (w,some ref)
  else
    let point := now + duration.tdiv millisecond * millisecond
    ({ w with timers := w.timers ++ [⟨point,ref,job⟩] },none)

/-- `Worker::Unschedule`. -/
def unschedule (w : Worker) : Option Nat → Worker
  | none => { w with crashed := some .undefined }
  | some ref => { w with cancelled := w.cancelled.set ref true }

/-- The private `Worker::ScheduleEvery`, from its reading of the clock on. -/
def scheduleLoop (w : Worker) (chain : Nat) (l : Loop) (now : Int) : Worker :=
  (w.scheduleFromNow (.every chain l) (max l.nextDelay 0) now).1

def updateChain (w : Worker) (chain : Nat) (f : Chain → Chain) : Worker := { w with chains := w.chains.modify chain f }

/-- A task is started. -/
def invoke (w : Worker) (time : Int) : Job → Worker
  | .once call => { w with started := w.started ++ [call] }
  | .every chain _ => w.updateChain chain (fun c => { c with invocations := c.invocations ++ [time] })

/-- The end of a task that is to be run again. -/
def again (w : Worker) (ended start now : Int) : Job → Worker
  | .once _ => w
  | .every chain l =>
    let next := l.again ended start now
    (w.scheduleLoop chain next now).updateChain chain (fun c =>
      { c with targets := c.targets ++ [next.target], gaps := c.gaps ++ [start - ended] })

/-- What follows the end of a task. -/
def conclude (w : Worker) (job : Job) (ended start now : Int) : Outcome → Worker
  | .returned true => w.again ended start now job
  | .returned false => w
  | .threw true => w
  | .threw false => { w with crashed := some .exception }

/-- The task has returned `false` or thrown. -/
def Outcome.ends : Outcome → Bool
  | .returned again => !again
  | .threw _ => true

/-- What a task's end says about its chain. -/
def noteEnd (w : Worker) (outcome : Outcome) : Job → Worker
  | .once _ => w
  | .every chain _ => w.updateChain chain (fun c =>
      { c with stopped := if outcome.ends then some c.invocations.length else c.stopped })

/-- What can happen next: the calls, the scheduler running a function that hands a
    job over, the worker's thread taking the next function and coming to the end
    of a task, and the end of the scheduler: `scheduler_` can no longer be locked,
    and once its threads have ended what still waits is destroyed. -/
inductive Event where
  | scheduleFromNow (duration now : Int)
  | unschedule (call : Nat)
  | scheduleEvery (period start now : Int)
  | fire (i : Nat) (time : Int)
  | take (time : Int)
  | finish (outcome : Outcome) (ended start now : Int)
  | expire
  | discard
  deriving DecidableEq

/-- The worker's thread takes a function from its queue. -/
def take (w : Worker) (h : Handler) (rest : List Handler) (time : Int) : Worker :=
  if w.cancelled.getD h.ref false then { w with queue := rest, dropped := w.dropped ++ [h.job] }
  else { w with queue := rest, current := some ⟨time,h.ref,h.job⟩ }.invoke time h.job

/-- What an event does, when it can happen. -/
def effect (w : Worker) : Event → Option Worker
  | .scheduleFromNow duration now =>
    let (made,ref) := w.scheduleFromNow (.once w.calls.length) duration now
    some { made with calls := w.calls ++ [⟨w.scheduler,ref⟩] }
  | .unschedule call => do
    let made ← w.calls[call]?
    let late := w.started.contains call
    return { w.unschedule made.returned with
      unscheduled := if late then w.unscheduled else w.unscheduled ++ [call] }
  | .scheduleEvery period start now =>
    if start ≤ now then
      let l := LicodeClient.scheduleEvery period period start now
      some { w.scheduleLoop w.chains.length l now with chains := w.chains ++ [⟨period,start,[l.target],[],[],none⟩] }
    else none
  | .fire i time => do
    let t ← w.timers[i]?
    if t.point ≤ time then
      some { w with timers := w.timers.eraseIdx i, queue := w.queue ++ [⟨time,t.ref,t.job⟩] }
    else none
  | .take time =>
    match w.current,w.queue with
    | none,h :: rest => if h.posted ≤ time then some (w.take h rest time) else none
    | _,_ => none
  | .finish outcome ended start now => do
    let r ← w.current
    if r.began ≤ ended ∧ ended ≤ start ∧ start ≤ now then
      some (({ w with current := none }.noteEnd outcome r.job).conclude r.job ended start now outcome)
    else none
  | .expire => some { w with scheduler := false }
  | .discard => if w.scheduler then none else some { w with timers := [] }

/-- One step, unless the process has ended. -/
def step (w : Worker) (e : Event) : Option Worker := if w.crashed = none then w.effect e else none

/-! ### What is pending -/

/-- How far a function has come: it waits for its time point, has been posted, or
    its task is running. -/
inductive Stage where
  | waiting (point : Int)
  | posted (time : Int)
  | running (began : Int)
  deriving DecidableEq

structure Pending where
  ref : Nat
  job : Job
  stage : Stage
  deriving DecidableEq

def Timer.pending (t : Timer) : Pending := ⟨t.ref,t.job,.waiting t.point⟩

def Handler.pending (h : Handler) : Pending := ⟨h.ref,h.job,.posted h.posted⟩

def Running.pending (r : Running) : Pending := ⟨r.ref,r.job,.running r.began⟩

/-- Everything that is pending, wherever it is. -/
def pendings (w : Worker) : List Pending :=
  w.timers.map Timer.pending ++ w.queue.map Handler.pending ++ (w.current.map Running.pending).toList

section
variable {w : Worker}

theorem scheduleFromNow_fst (job : Job) (duration now : Int) :
    (w.scheduleFromNow job duration now).1 = { w with
      cancelled := w.cancelled ++ [false]
      timers := w.timers ++ if w.scheduler then
        [⟨now + duration.tdiv millisecond * millisecond,w.cancelled.length,job⟩] else [] } := by
  unfold scheduleFromNow
  cases w.scheduler <;> simp

theorem pendings_scheduleFromNow (job : Job) (duration now : Int) :
    (w.scheduleFromNow job duration now).1.pendings.Perm
      ((if w.scheduler then
          [⟨w.cancelled.length,job,.waiting (now + duration.tdiv millisecond * millisecond)⟩]
        else []) ++ w.pendings) := by
  rw [scheduleFromNow_fst]
  cases w.scheduler with
  | false => simp [pendings]
  | true =>
    simp only [pendings,if_true,List.map_append,List.append_assoc]
    exact List.perm_middle

/-- The time point of a loop is the one that the scheduler is given. -/
theorem pendings_scheduleLoop (chain : Nat) (period nextDelay start now : Int) :
    let l := LicodeClient.scheduleEvery period nextDelay start now
    (w.scheduleLoop chain l now).pendings.Perm
      ((if w.scheduler then [⟨w.cancelled.length,.every chain l,.waiting l.point⟩] else []) ++ w.pendings) := by
  intro l
  have point : now + (max l.nextDelay 0).tdiv millisecond * millisecond = l.point := by
    rw [Int.tdiv_eq_ediv_of_nonneg (Int.le_max_right _ _)]
    rfl
  have all := pendings_scheduleFromNow (w := w) (.every chain l) (max l.nextDelay 0) now
  rw [point] at all
  exact all

theorem pendings_fire {i : Nat} {t : Timer} (found : w.timers[i]? = some t) (time : Int) :
    ∃ rest, w.pendings.Perm (t.pending :: rest) ∧
      ({ w with timers := w.timers.eraseIdx i, queue := w.queue ++ [⟨time,t.ref,t.job⟩] } : Worker).pendings.Perm
        (⟨t.ref,t.job,.posted time⟩ :: rest) := by
  obtain ⟨exist,rfl⟩ := List.getElem?_eq_some_iff.mp found
  refine ⟨(w.timers.eraseIdx i).map Timer.pending ++ w.queue.map Handler.pending ++
    (w.current.map Running.pending).toList,?_,?_⟩
  · have front := (List.getElem_cons_eraseIdx_perm exist).symm.map Timer.pending
    exact (front.append_right _).append_right _
  · simp only [pendings,List.map_append,List.map_cons,List.map_nil,← List.append_assoc]
    exact (List.perm_append_singleton _ _).append_right _

theorem pendings_drop {h : Handler} {rest : List Handler} (queue : w.queue = h :: rest) (dropped : List Job) :
    w.pendings.Perm (h.pending :: ({ w with queue := rest, dropped } : Worker).pendings) := by
  simp only [pendings,queue,List.map_cons,List.append_assoc,List.cons_append]
  exact List.perm_middle

theorem pendings_begin {h : Handler} {rest : List Handler} (idle : w.current = none) (queue : w.queue = h :: rest)
    (time : Int) :
    ∃ others, w.pendings.Perm (h.pending :: others) ∧
      ({ w with queue := rest, current := some ⟨time,h.ref,h.job⟩ } : Worker).pendings.Perm
        (⟨h.ref,h.job,.running time⟩ :: others) := by
  refine ⟨w.timers.map Timer.pending ++ rest.map Handler.pending,?_,?_⟩
  · simp only [pendings,queue,idle,List.map_cons,Option.map_none,Option.toList_none,List.append_nil]
    exact List.perm_middle
  · simp only [pendings,Option.map_some,Option.toList_some]
    exact List.perm_append_singleton _ _

theorem pendings_finish {r : Running} (busy : w.current = some r) :
    w.pendings.Perm (r.pending :: ({ w with current := none } : Worker).pendings) := by
  simp only [pendings,busy,Option.map_some,Option.toList_some,Option.map_none,Option.toList_none,List.append_nil]
  exact List.perm_append_singleton _ _

theorem pendings_discard : ({ w with timers := [] } : Worker).pendings.Sublist w.pendings := by
  simp only [pendings,List.map_nil,List.nil_append,List.append_assoc]
  exact List.sublist_append_right _ _

/-! ### What a step does -/

/-- All that a step can do. -/
inductive Change (w : Worker) : Worker → Prop where
  | call (duration now : Int) :
      Change w { (w.scheduleFromNow (.once w.calls.length) duration now).1 with
        calls := w.calls ++ [⟨w.scheduler,(w.scheduleFromNow (.once w.calls.length) duration now).2⟩] }
  | cancel {call : Nat} {made : Call} (found : w.calls[call]? = some made) :
      Change w { w.unschedule made.returned with
        unscheduled := if w.started.contains call then w.unscheduled else w.unscheduled ++ [call] }
  | loop {start now : Int} (period : Int) (later : start ≤ now) :
      Change w { w.scheduleLoop w.chains.length (LicodeClient.scheduleEvery period period start now) now with
        chains := w.chains ++
          [⟨period,start,[(LicodeClient.scheduleEvery period period start now).target],[],[],none⟩] }
  | fire {i : Nat} {t : Timer} {time : Int} (found : w.timers[i]? = some t) (due : t.point ≤ time) :
      Change w { w with timers := w.timers.eraseIdx i, queue := w.queue ++ [⟨time,t.ref,t.job⟩] }
  | drop {h : Handler} {rest : List Handler} (queue : w.queue = h :: rest)
      (cancelled : w.cancelled.getD h.ref false = true) :
      Change w { w with queue := rest, dropped := w.dropped ++ [h.job] }
  | begin {h : Handler} {rest : List Handler} {time : Int} (idle : w.current = none) (queue : w.queue = h :: rest)
      (kept : w.cancelled.getD h.ref false = false) (later : h.posted ≤ time) :
      Change w ({ w with queue := rest, current := some ⟨time,h.ref,h.job⟩ }.invoke time h.job)
  | finish {r : Running} {ended start now : Int} (outcome : Outcome) (busy : w.current = some r)
      (ends : r.began ≤ ended) (starts : ended ≤ start) (later : start ≤ now) :
      Change w (({ w with current := none }.noteEnd outcome r.job).conclude r.job ended start now outcome)
  | expire : Change w { w with scheduler := false }
  | discard : Change w { w with timers := [] }

theorem step_change {w' : Worker} {e : Event} (taken : w.step e = some w') : Change w w' := by
  unfold step at taken
  split at taken
  · cases e with
    | scheduleFromNow duration now =>
      cases taken
      exact .call duration now
    | unschedule call =>
      obtain ⟨made,found,rest⟩ := Option.bind_eq_some_iff.mp taken
      cases rest
      exact .cancel found
    | scheduleEvery period start now =>
      simp only [effect] at taken
      split at taken
      · next later =>
        cases taken
        exact .loop period later
      · cases taken
    | fire i time =>
      obtain ⟨t,found,rest⟩ := Option.bind_eq_some_iff.mp taken
      split at rest
      · next due =>
        cases rest
        exact .fire found due
      · cases rest
    | take time =>
      simp only [effect] at taken
      split at taken
      · next h rest idle queue =>
        split at taken
        · next later =>
          cases taken
          unfold take
          split
          · next cancelled => exact .drop queue cancelled
          · next kept => exact .begin idle queue (by simpa using kept) later
        · cases taken
      · cases taken
    | finish outcome ended start now =>
      obtain ⟨r,busy,rest⟩ := Option.bind_eq_some_iff.mp taken
      split at rest
      · next order =>
        cases rest
        exact .finish outcome busy order.1 order.2.1 order.2.2
      · cases rest
    | expire =>
      cases taken
      exact .expire
    | discard =>
      simp only [effect] at taken
      split at taken
      · cases taken
      · cases taken
        exact .discard
  · cases taken

end

end Worker
end LicodeClient
