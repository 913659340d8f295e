import LicodeClient.Lib.Run
import Mathlib.Data.List.Sort

/-!
`Scheduler`: threads that take functions from a queue ordered by time point. Every
thread runs `ProcessFunctionQueue`; a step takes one thread from one point of it
to the next, so that threads interleave wherever they may, with `Schedule` and
`Stop` called from elsewhere and the clock moving on in between. Sleeping threads
wake up at any moment, notified or not, and time out once the clock has reached
the time they wait for. A function is known by the call that scheduled it.
-/
namespace LicodeClient

/-- `std::chrono::steady_clock::time_point`. -/
abbrev TimePoint := Int

namespace Scheduler

/-- An entry of `function_queue_`; `ticket` is the number of the `Schedule` call. -/
structure Entry where
  point : TimePoint
  ticket : Nat
  deriving DecidableEq, Repr

/-- By time point, then by insertion. -/
def Earlier (f g : Entry) : Prop := f.point < g.point ∨ f.point = g.point ∧ f.ticket < g.ticket

/-- The points of `ProcessFunctionQueue` between which others may run. -/
inductive Point where
  /-- Before the lock is taken for the first time. -/
  | locking
  /-- At the test of the first loop. -/
  | idling
  /-- In `wait`, and woken there but without the lock yet. -/
  | sleeping
  | woken
  /-- Before `time` is set, ahead of the second loop or in its body. -/
  | aiming
  /-- At the test of the second loop. -/
  | awaiting (time : TimePoint)
  /-- In `wait_until`, and woken there but without the lock yet. -/
  | sleepingUntil (time : TimePoint)
  | wokenUntil (timedOut : Bool)
  /-- At the first test after the loops. -/
  | checking
  /-- From the removal of a function to its end. -/
  | running (f : Entry)
  /-- Before the lock is taken again. -/
  | relocking
  /-- At the test of the outer loop. -/
  | testing
  | exited
  deriving DecidableEq, Repr

namespace Point

/-- The points at which a thread has the lock. -/
def holds : Point → Bool
  | .idling | .aiming | .awaiting _ | .checking | .testing => true
  | _ => false

/-- The function that a thread runs. -/
def function : Point → Option Entry
  | .running f => some f
  | _ => none

end Point
end Scheduler

open Scheduler in
/-- `Scheduler`, with the clock and, for what has happened so far, the functions
    that were scheduled, started and finished, started ones with the time then. -/
structure Scheduler where
  threadCount : Int
  threads : List Point
  functionQueue : List Entry := []
  queueMutex : Option Nat := none
  stopRequested : Bool := false
  stopWhenEmpty : Bool := false
  now : TimePoint
  scheduled : List Entry := []
  started : List (Entry × TimePoint) := []
  finished : List Entry := []
  deriving DecidableEq

namespace Scheduler

/-- A scheduler that was constructed with a number of threads. -/
def init (threadCount : Nat) (now : TimePoint) : Scheduler :=
  { threadCount, threads := List.replicate threadCount .locking, now }

/-- The scheduler that `ThreadPool` makes. -/
def threadPool (now : TimePoint) : Scheduler := init 2 now

/-- What can happen next. `Schedule` is called by the function that a thread runs
    or from elsewhere. -/
inductive Event where
  | turn (i : Nat)
  | wake (i : Nat)
  | expire (i : Nat)
  | tick (now : TimePoint)
  | schedule (caller : Option Nat) (point : TimePoint)
  | stop (drain : Bool)
  deriving DecidableEq, Repr

/-- What a step does. A shift moves a thread to another point and leaves the lock
    to the thread that is given. -/
inductive Effect where
  | shift (i : Nat) (p : Point) (mutex : Option Nat)
  | pop (i : Nat) (f : Entry)
  | finish (i : Nat) (f : Entry)
  | exit (i : Nat)
  | tick (now : TimePoint)
  | schedule (point : TimePoint)
  | stop (drain : Bool)

/-- A thread takes the lock, when it is free, and goes on. -/
def lock (s : Scheduler) (i : Nat) (p : Point) : Option Effect :=
  if s.queueMutex = none then some (.shift i p (some i)) else none

/-- `ProcessFunctionQueue`: what a thread does next at each point. -/
def processFunctionQueue (s : Scheduler) (i : Nat) : Point → Option Effect
  | .locking => s.lock i .idling
  | .idling =>
    if !s.stopRequested && !s.stopWhenEmpty && s.functionQueue.isEmpty then some (.shift i .sleeping none)
    else some (.shift i .aiming s.queueMutex)
  | .sleeping => none
  | .woken => s.lock i .idling
  | .aiming =>
    let time := match s.functionQueue with
      | [] => s.now
      | f :: _ => f.point
    some (.shift i (.awaiting time) s.queueMutex)
  | .awaiting time =>
    if !s.stopRequested && !s.functionQueue.isEmpty then some (.shift i (.sleepingUntil time) none)
    else some (.shift i .checking s.queueMutex)
  | .sleepingUntil _ => none
  | .wokenUntil timedOut => if timedOut then s.lock i .checking else s.lock i .aiming
  | .checking =>
    if s.stopRequested then some (.exit i)
    else
      match s.functionQueue with
      | [] => some (.shift i .testing s.queueMutex)
      | f :: _ => some (.pop i f)
  | .running f => some (.finish i f)
  | .relocking => s.lock i .testing
  | .testing =>
    if !s.stopRequested && !(s.stopWhenEmpty && s.functionQueue.isEmpty) then some (.shift i .idling s.queueMutex)
    else some (.exit i)
  | .exited => none

/-- A thread wakes up without its time being over. -/
def wake (s : Scheduler) (i : Nat) : Point → Option Effect
  | .sleeping => some (.shift i .woken s.queueMutex)
  | .sleepingUntil _ => some (.shift i (.wokenUntil false) s.queueMutex)
  | _ => none

/-- A thread times out. -/
def expire (s : Scheduler) (i : Nat) : Point → Option Effect
  | .sleepingUntil time => if time ≤ s.now then some (.shift i (.wokenUntil true) s.queueMutex) else none
  | _ => none

/-- Whether `Schedule` can be called from there. -/
def calls (s : Scheduler) : Option Nat → Bool
  | none => true
  | some i => (s.threads[i]?.bind Point.function).isSome

/-- What an event does, if it can happen. The bodies of `Schedule` and `Stop` hold
    the lock from their beginning to their end. -/
def effect (s : Scheduler) : Event → Option Effect
  | .turn i => s.threads[i]?.bind (s.processFunctionQueue i)
  | .wake i => s.threads[i]?.bind (s.wake i)
  | .expire i => s.threads[i]?.bind (s.expire i)
  | .tick now => if s.now ≤ now then some (.tick now) else none
  | .schedule caller point => if s.queueMutex = none ∧ s.calls caller then some (.schedule point) else none
  | .stop drain => if s.queueMutex = none then some (.stop drain) else none

/-- `std::multimap::emplace`: behind the entries with the same key. -/
def emplace (f : Entry) (queue : List Entry) : List Entry := queue.orderedInsert (fun f g => f.point < g.point) f

def Effect.apply (s : Scheduler) : Effect → Scheduler
  | .shift i p mutex => { s with threads := s.threads.set i p, queueMutex := mutex }
  | .pop i f =>
    { s with
      threads := s.threads.set i (.running f)
      queueMutex := none
      functionQueue := s.functionQueue.tail
      started := s.started ++ [(f,s.now)] }
  | .finish i f => { s with threads := s.threads.set i .relocking, finished := s.finished ++ [f] }
  | .exit i => { s with threads := s.threads.set i .exited, queueMutex := none, threadCount := s.threadCount - 1 }
  | .tick now => { s with now }
  | .schedule point =>
    { s with
      functionQueue := emplace ⟨point,s.scheduled.length⟩ s.functionQueue
      scheduled := s.scheduled ++ [⟨point,s.scheduled.length⟩] }
  | .stop true => { s with stopWhenEmpty := true }
  | .stop false => { s with stopRequested := true }

/-- One step of the scheduler. -/
def step (s : Scheduler) (e : Event) : Option Scheduler := (s.effect e).map (·.apply s)

/-! ### What an effect says of the state before it -/

/-- A thread only moves on: it takes the lock, keeps it, gives it back or wakes up
    without it. -/
structure Shifts (s : Scheduler) (i : Nat) (p q : Point) (mutex : Option Nat) : Prop where
  here : s.threads[i]? = some p
  idle : p.function = none ∧ q.function = none
  stays : p ≠ .exited ∧ q ≠ .exited
  lock : s.queueMutex = none ∧ mutex = some i ∨ mutex = s.queueMutex ∧ p.holds = q.holds ∨
    mutex = none ∧ p.holds = true ∧ q.holds = false

/-- Where an effect can take place. -/
inductive Allows (s : Scheduler) : Event → Effect → Prop where
  | shift {e : Event} {i : Nat} {p q : Point} {mutex : Option Nat} (shifts : s.Shifts i p q mutex) :
      Allows s e (.shift i q mutex)
  | pop {i : Nat} {f : Entry} {rest : List Entry} (here : s.threads[i]? = some .checking)
      (goesOn : s.stopRequested = false) (queue : s.functionQueue = f :: rest) : Allows s (.turn i) (.pop i f)
  | finish {i : Nat} {f : Entry} (here : s.threads[i]? = some (.running f)) : Allows s (.turn i) (.finish i f)
  | exit {i : Nat} {p : Point} (here : s.threads[i]? = some p) (held : p.holds = true)
      (ends : s.stopRequested = true ∨ s.stopWhenEmpty = true ∧ s.functionQueue = []) : Allows s (.turn i) (.exit i)
  | tick {now : TimePoint} (later : s.now ≤ now) : Allows s (.tick now) (.tick now)
  | schedule {caller : Option Nat} {point : TimePoint} (free : s.queueMutex = none) (calls : s.calls caller = true) :
      Allows s (.schedule caller point) (.schedule point)
  | stop {drain : Bool} (free : s.queueMutex = none) : Allows s (.stop drain) (.stop drain)

section
variable {s t : Scheduler} {e : Event} {i : Nat} {p : Point} {c : Effect}

theorem allows_lock {q : Point} (here : s.threads[i]? = some p) (takes : s.lock i q = some c)
    (idle : p.function = none ∧ q.function = none) (stays : p ≠ .exited ∧ q ≠ .exited) : s.Allows e c := by
  unfold lock at takes
  split at takes
  · next free =>
    cases takes
    exact .shift ⟨here,idle,stays,.inl ⟨free,rfl⟩⟩
  · cases takes

theorem allows_process (here : s.threads[i]? = some p) (does : s.processFunctionQueue i p = some c) :
    s.Allows (.turn i) c := by
  have keeps : ∀ {q : Point}, p.holds = q.holds → p.function = none ∧ q.function = none → p ≠ .exited ∧ q ≠ .exited →
      s.Allows (.turn i) (.shift i q s.queueMutex) :=
    fun same idle stays => .shift ⟨here,idle,stays,.inr (.inl ⟨rfl,same⟩)⟩
  have gives : ∀ {q : Point}, p.holds = true ∧ q.holds = false → p.function = none ∧ q.function = none →
      p ≠ .exited ∧ q ≠ .exited → s.Allows (.turn i) (.shift i q none) :=
    fun held idle stays => .shift ⟨here,idle,stays,.inr (.inr ⟨rfl,held⟩)⟩
  cases p with
  | locking => exact allows_lock here does ⟨rfl,rfl⟩ ⟨nofun,nofun⟩
  | idling =>
    simp only [processFunctionQueue] at does
    split at does <;> cases does
    · exact gives ⟨rfl,rfl⟩ ⟨rfl,rfl⟩ ⟨nofun,nofun⟩
    · exact keeps rfl ⟨rfl,rfl⟩ ⟨nofun,nofun⟩
  | sleeping => cases does
  | woken => exact allows_lock here does ⟨rfl,rfl⟩ ⟨nofun,nofun⟩
  | aiming => cases does; exact keeps rfl ⟨rfl,rfl⟩ ⟨nofun,nofun⟩
  | awaiting time =>
    simp only [processFunctionQueue] at does
    split at does <;> cases does
    · exact gives ⟨rfl,rfl⟩ ⟨rfl,rfl⟩ ⟨nofun,nofun⟩
    · exact keeps rfl ⟨rfl,rfl⟩ ⟨nofun,nofun⟩
  | sleepingUntil time => cases does
  | wokenUntil timedOut =>
    simp only [processFunctionQueue] at does
    split at does <;> exact allows_lock here does ⟨rfl,rfl⟩ ⟨nofun,nofun⟩
  | checking =>
    simp only [processFunctionQueue] at does
    split at does
    · next stopped => cases does; exact .exit here rfl (.inl stopped)
    · next goesOn =>
      split at does <;> cases does
      · exact keeps rfl ⟨rfl,rfl⟩ ⟨nofun,nofun⟩
      · next queue => exact .pop here (by simpa using goesOn) queue
  | running f => cases does; exact .finish here
  | relocking => exact allows_lock here does ⟨rfl,rfl⟩ ⟨nofun,nofun⟩
  | testing =>
    simp only [processFunctionQueue] at does
    split at does
    · cases does; exact keeps rfl ⟨rfl,rfl⟩ ⟨nofun,nofun⟩
    · next ends =>
      cases does
      refine .exit here rfl ?_
      simp only [Bool.and_eq_true,Bool.not_eq_true',not_and,Bool.not_eq_false,List.isEmpty_iff] at ends
      cases stopped : s.stopRequested with
      | true => exact .inl rfl
      | false => exact .inr (ends stopped)
  | exited => cases does

theorem allows_of_effect (does : s.effect e = some c) : s.Allows e c := by
  cases e with
  | turn i =>
    obtain ⟨p,here,does⟩ := Option.bind_eq_some_iff.mp does
    exact allows_process here does
  | wake i =>
    obtain ⟨p,here,does⟩ := Option.bind_eq_some_iff.mp does
    cases p <;> cases does
    · exact .shift ⟨here,⟨rfl,rfl⟩,⟨nofun,nofun⟩,.inr (.inl ⟨rfl,rfl⟩)⟩
    · exact .shift ⟨here,⟨rfl,rfl⟩,⟨nofun,nofun⟩,.inr (.inl ⟨rfl,rfl⟩)⟩
  | expire i =>
    obtain ⟨p,here,does⟩ := Option.bind_eq_some_iff.mp does
    cases p with
    | sleepingUntil time =>
      simp only [expire] at does
      split at does <;> cases does
      exact .shift ⟨here,⟨rfl,rfl⟩,⟨nofun,nofun⟩,.inr (.inl ⟨rfl,rfl⟩)⟩
    | _ => cases does
  | tick now =>
    simp only [effect] at does
    split at does <;> cases does
    exact .tick (by assumption)
  | schedule caller point =>
    simp only [effect] at does
    split at does <;> cases does
    next can => exact .schedule can.1 can.2
  | stop drain =>
    simp only [effect] at does
    split at does <;> cases does
    exact .stop (by assumption)

theorem step_eq_some (taken : s.step e = some t) : ∃ c, s.effect e = some c ∧ s.Allows e c ∧ t = c.apply s := by
  obtain ⟨c,does,rfl⟩ := Option.map_eq_some_iff.mp taken
  exact ⟨c,does,allows_of_effect does,rfl⟩

/-! ### Threads -/

/-- What holds of every thread holds after one of them has moved if it holds of
    the others still and of this one at its new point. -/
theorem forall_set {P : Nat → Point → Prop} {threads : List Point} (new : P i p)
    (others : ∀ j q, j ≠ i → threads[j]? = some q → P j q) : ∀ j q, (threads.set i p)[j]? = some q → P j q := by
  intro j q here
  by_cases same : j = i
  · subst same
    rw [List.getElem?_set_self'] at here
    obtain ⟨-,-,rfl⟩ := Option.map_eq_some_iff.mp here
    exact new
  · rw [List.getElem?_set_ne (Ne.symm same)] at here
    exact others j q same here

/-- Only the thread that has the lock is at a point where it needs it. -/
def Exclusive (s : Scheduler) : Prop := ∀ j q, s.threads[j]? = some q → q.holds = true → s.queueMutex = some j

theorem exclusive_init (threadCount : Nat) (now : TimePoint) : (init threadCount now).Exclusive := by
  intro j q here held
  obtain ⟨-,rfl⟩ : _ ∧ _ := by simpa [init,List.getElem?_replicate] using here
  cases held

theorem exclusive_step (exclusive : s.Exclusive) (taken : s.step e = some t) : t.Exclusive := by
  obtain ⟨c,-,allows,rfl⟩ := step_eq_some taken
  -- A thread that holds the lock gives it back or moves on with it; nobody else holds it.
  have gives : ∀ {i p q}, s.threads[i]? = some p → p.holds = true → q.holds = false →
      ∀ j q', (s.threads.set i q)[j]? = some q' → q'.holds = true → (none : Option Nat) = some j := by
    intro i p q here held released
    refine forall_set (fun holds => ?_) (fun j q' other there holds => ?_)
    · simp [released] at holds
    · have mine := exclusive i p here held
      rw [exclusive j q' there holds] at mine
      exact absurd (Option.some.inj mine) other
  cases allows with
  | shift shifts =>
    obtain ⟨here,-,-,⟨free,rfl⟩ | ⟨rfl,same⟩ | ⟨rfl,held,released⟩⟩ := shifts
    · refine forall_set (fun _ => rfl) ?_
      intro j q' _ there holds
      rw [exclusive j q' there holds] at free
      cases free
    · exact forall_set (fun holds => exclusive _ _ here (same.trans holds))
        (fun j q' _ there holds => exclusive j q' there holds)
    · exact gives here held released
  | pop here _ _ => exact gives here rfl rfl
  | finish here => exact forall_set (fun holds => by cases holds) (fun j q' _ there holds => exclusive j q' there holds)
  | exit here held _ => exact gives here held rfl
  | tick _ => exact exclusive
  | schedule _ _ => exact exclusive
  | @stop drain _ => cases drain <;> exact exclusive

end

end Scheduler
end LicodeClient
