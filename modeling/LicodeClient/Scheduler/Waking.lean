import LicodeClient.Lib.Simulation
import LicodeClient.Scheduler.Timing
import LicodeClient.Scheduler.Walk

/-!
Who is notified, and when. `Schedule` and `Stop` give the lock back before they
notify, so that threads may go on in between, and a notification reaches threads
that wait at that moment, one of them or all. Nobody is forgotten (`Alert`), and
therefore somebody gets on without a wake-up that nobody asked for whenever a stop
calls a thread (`goesOn_called`) or a function is due (`goesOn_due`). Apart from
the notifications a run is one of `Scheduler` (`simulates`).
-/
namespace LicodeClient
open LicodeClient.Run

namespace Scheduler

/-- What `Schedule` and `Stop` have to do once they have given the lock back. -/
inductive Notice where
  | one
  | all
  deriving DecidableEq

end Scheduler

open Scheduler in
/-- A scheduler with `queue_schedule_cv_`: the waiting threads that were notified,
    until they go on, and the notifications that are still to come. -/
structure Signalled where
  scheduler : Scheduler
  notified : List Nat := []
  notices : List Notice := []
  deriving DecidableEq

namespace Signalled
open Scheduler

def init (threadCount : Nat) (now : TimePoint) : Signalled := { scheduler := Scheduler.init threadCount now }

/-- What can happen next. A thread that wakes up was notified, one that stirs was
    not. -/
inductive Move where
  | turn (i : Nat)
  | wake (i : Nat)
  | stir (i : Nat)
  | expire (i : Nat)
  | tick (now : TimePoint)
  | schedule (caller : Option Nat) (point : TimePoint)
  | stop (drain : Bool)
  | notifyOne (target : Option Nat)
  | notifyAll
  deriving DecidableEq

/-- The same for the scheduler without the condition variable. -/
def Move.event : Move → Option Event
  | .turn i => some (.turn i)
  | .wake i | .stir i => some (.wake i)
  | .expire i => some (.expire i)
  | .tick now => some (.tick now)
  | .schedule caller point => some (.schedule caller point)
  | .stop drain => some (.stop drain)
  | .notifyOne _ | .notifyAll => none

/-- A thread waits. -/
def waits (s : Signalled) (i : Nat) : Bool := s.scheduler.threads[i]?.any Point.waits

/-- The threads that wait. -/
def waiting (s : Signalled) : List Nat := (List.range s.scheduler.threads.length).filter s.waits

/-- `notify_one` reaches a thread that waits, if there is one. -/
def reaches (s : Signalled) : Option Nat → Prop
  | some i => i ∈ s.waiting ∧ i ∉ s.notified
  | none => ∀ i ∈ s.waiting, i ∈ s.notified

instance (s : Signalled) (target : Option Nat) : Decidable (s.reaches target) := by
  cases target <;> unfold reaches <;> infer_instance

/-- One step. A thread that times out does not need its notification any more. -/
def step (s : Signalled) : Move → Option Signalled
  | .turn i => (s.scheduler.step (.turn i)).map ({ s with scheduler := · })
  | .wake i =>
    if i ∈ s.notified then
      (s.scheduler.step (.wake i)).map ({ s with scheduler := ·, notified := s.notified.erase i })
    else none
  | .stir i => if i ∈ s.notified then none else (s.scheduler.step (.wake i)).map ({ s with scheduler := · })
  | .expire i => (s.scheduler.step (.expire i)).map ({ s with scheduler := ·, notified := s.notified.erase i })
  | .tick now => (s.scheduler.step (.tick now)).map ({ s with scheduler := · })
  | .schedule caller point =>
    (s.scheduler.step (.schedule caller point)).map ({ s with scheduler := ·, notices := s.notices ++ [.one] })
  | .stop drain => (s.scheduler.step (.stop drain)).map ({ s with scheduler := ·, notices := s.notices ++ [.all] })
  | .notifyOne target =>
    if .one ∈ s.notices ∧ s.reaches target then
      some { s with notified := target.toList ++ s.notified, notices := s.notices.erase .one }
    else none
  | .notifyAll =>
    if .all ∈ s.notices then some { s with notified := s.waiting, notices := s.notices.erase .all } else none

/-! ### What a step does -/

/-- A wake-up that nobody asked for. -/
def Move.unasked : Move → Nat
  | .stir _ => 1
  | _ => 0

/-- The ways a step can go. -/
inductive Follows (s : Signalled) : Move → Signalled → Prop where
  | thread {m : Move} {t : Signalled} {e : Event} {i : Nat} {p q : Point}
      (walks : Walks s.scheduler t.scheduler e i p q) (notices : t.notices = s.notices)
      (others : ∀ j, j ≠ i → j ∈ s.notified → j ∈ t.notified)
      (spent : t.notified.length + (if e = .wake i then 1 else 0) ≤ s.notified.length + m.unasked) : Follows s m t
  | tick {now : TimePoint} (later : s.scheduler.now ≤ now) :
      Follows s (.tick now) { s with scheduler := { s.scheduler with now } }
  | schedule {caller : Option Nat} {point : TimePoint} :
      Follows s (.schedule caller point)
        { s with scheduler := (Effect.schedule point).apply s.scheduler, notices := s.notices ++ [.one] }
  | stop {drain : Bool} :
      Follows s (.stop drain)
        { s with scheduler := (Effect.stop drain).apply s.scheduler, notices := s.notices ++ [.all] }
  | notifyOne {target : Option Nat} (pending : .one ∈ s.notices) (reaches : s.reaches target) :
      Follows s (.notifyOne target) { s with notified := target.toList ++ s.notified, notices := s.notices.erase .one }
  | notifyAll (pending : .all ∈ s.notices) :
      Follows s .notifyAll { s with notified := s.waiting, notices := s.notices.erase .all }

section
variable {s t : Signalled} {m : Move} {e : Event} {i : Nat} {p q : Point} {n : Nat}

theorem follows_of_step (taken : s.step m = some t) : Follows s m t := by
  cases m with
  | turn i =>
    obtain ⟨u,moved,rfl⟩ := Option.map_eq_some_iff.mp taken
    cases happens_of_step moved with
    | walks walks => exact .thread walks rfl (fun _ _ => id) (by simp)
  | wake i =>
    obtain ⟨asked,wakes⟩ := Option.ite_none_right_eq_some.mp taken
    obtain ⟨u,moved,rfl⟩ := Option.map_eq_some_iff.mp wakes
    cases happens_of_step moved with
    | walks walks =>
      obtain rfl : i = _ := by simpa using walks.walk.event
      refine .thread walks rfl (fun j other => (List.mem_erase_of_ne other).mpr) ?_
      have fewer := List.length_erase_add_one asked
      simp only [if_true]
      omega
  | stir i =>
    obtain ⟨-,wakes⟩ := Option.ite_none_left_eq_some.mp taken
    obtain ⟨u,moved,rfl⟩ := Option.map_eq_some_iff.mp wakes
    cases happens_of_step moved with
    | walks walks => exact .thread walks rfl (fun _ _ => id) (by simp only [Move.unasked]; split <;> omega)
  | expire i =>
    obtain ⟨u,moved,rfl⟩ := Option.map_eq_some_iff.mp taken
    cases happens_of_step moved with
    | walks walks =>
      obtain rfl : i = _ := by simpa using walks.walk.event
      refine .thread walks rfl (fun j other => (List.mem_erase_of_ne other).mpr) ?_
      simpa [Move.unasked] using List.length_erase_le
  | tick now =>
    obtain ⟨u,moved,rfl⟩ := Option.map_eq_some_iff.mp taken
    cases happens_of_step moved with
    | walks walks => simpa using walks.walk.event
    | tick later => exact .tick later
  | schedule caller point =>
    obtain ⟨u,moved,rfl⟩ := Option.map_eq_some_iff.mp taken
    cases happens_of_step moved with
    | walks walks => simpa using walks.walk.event
    | schedule _ => exact .schedule
  | stop drain =>
    obtain ⟨u,moved,rfl⟩ := Option.map_eq_some_iff.mp taken
    cases happens_of_step moved with
    | walks walks => simpa using walks.walk.event
    | stop _ => exact .stop
  | notifyOne target =>
    obtain ⟨can,done⟩ := Option.ite_none_right_eq_some.mp taken
    cases done
    exact .notifyOne can.1 can.2
  | notifyAll =>
    obtain ⟨pending,done⟩ := Option.ite_none_right_eq_some.mp taken
    cases done
    exact .notifyAll pending

/-- The scheduler takes the steps that it takes without the condition variable. -/
theorem scheduler_step (taken : s.step m = some t) :
    (∃ e, m.event = some e ∧ s.scheduler.step e = some t.scheduler) ∨ m.event = none ∧ t.scheduler = s.scheduler := by
  cases m with
  | turn i | expire i | tick now | schedule caller point | stop drain =>
    obtain ⟨u,moved,rfl⟩ := Option.map_eq_some_iff.mp taken
    exact .inl ⟨_,rfl,moved⟩
  | wake i =>
    obtain ⟨-,wakes⟩ := Option.ite_none_right_eq_some.mp taken
    obtain ⟨u,moved,rfl⟩ := Option.map_eq_some_iff.mp wakes
    exact .inl ⟨_,rfl,moved⟩
  | stir i =>
    obtain ⟨-,wakes⟩ := Option.ite_none_left_eq_some.mp taken
    obtain ⟨u,moved,rfl⟩ := Option.map_eq_some_iff.mp wakes
    exact .inl ⟨_,rfl,moved⟩
  | notifyOne target | notifyAll =>
    obtain ⟨-,done⟩ := Option.ite_none_right_eq_some.mp taken
    cases done
    exact .inr ⟨rfl,rfl⟩

/-- A run shows a run of the scheduler without the condition variable. -/
theorem simulates :
    Simulation step Scheduler.step (fun _ _ => True) (fun m => m.event.toList) (fun e => [e])
      (fun s u => s.scheduler = u) := by
  rintro s m t _ rfl taken
  rcases scheduler_step taken with ⟨e,event,moved⟩ | ⟨event,same⟩
  · exact ⟨t.scheduler,[e],by simp only [event]; exact .one moved trivial,rfl⟩
  · exact ⟨s.scheduler,[],by simp only [event]; exact .nil _,same⟩

/-! ### Nobody is forgotten -/

/-- All threads have exited. -/
def Gone (s : Signalled) : Prop := ∀ p ∈ s.scheduler.threads, p = .exited

instance (s : Signalled) : Decidable s.Gone := by
  unfold Gone
  infer_instance

/-- A thread at this point would go on because a stop was requested. -/
def Called (s : Signalled) : Point → Prop
  | .sleeping => s.scheduler.stopRequested = true ∨ s.scheduler.stopWhenEmpty = true
  | .sleepingUntil _ => s.scheduler.stopRequested = true
  | _ => False

/-- A thread will come back to the queue by the time of a function. -/
def Attends (s : Signalled) (f : Entry) (i : Nat) (p : Point) : Prop :=
  p ≠ .exited ∧ (p.waits = true → i ∈ s.notified ∨ ∃ time, p = .sleepingUntil time ∧ time ≤ f.point)

/-- Whoever a stop calls is notified or will be; some thread will come back to the
    first function, unless a notification is still to come or all have exited. -/
structure Alert (s : Signalled) : Prop where
  heard : .all ∈ s.notices ∨ ∀ (i : Nat) p, s.scheduler.threads[i]? = some p → s.Called p → i ∈ s.notified
  attended : s.scheduler.stopRequested = false → ∀ f ∈ s.scheduler.functionQueue.head?, .one ∈ s.notices ∨
    (∃ (i : Nat) (p : Point), s.scheduler.threads[i]? = some p ∧ s.Attends f i p) ∨ s.Gone

theorem exists_of_not_gone (left : ¬ s.Gone) :
    ∃ (i : Nat) (p : Point), s.scheduler.threads[i]? = some p ∧ p ≠ .exited := by
  unfold Gone at left
  push Not at left
  obtain ⟨p,member,stays⟩ := left
  obtain ⟨i,here⟩ := List.getElem?_of_mem member
  exact ⟨i,p,here,stays⟩

theorem alert_init (threadCount : Nat) (now : TimePoint) : (init threadCount now).Alert := by
  refine ⟨.inr (fun i p here called => ?_),nofun⟩
  have both : i < threadCount ∧ Point.locking = p := by
    simpa [init,Scheduler.init,List.getElem?_replicate] using here
  cases both.2
  cases called

theorem waits_of_called (called : s.Called p) : p.waits = true := by
  cases p <;> first | rfl | cases called

theorem mem_waiting : i ∈ s.waiting ↔ ∃ p, s.scheduler.threads[i]? = some p ∧ p.waits = true := by
  have inside : ∀ p, s.scheduler.threads[i]? = some p → i < s.scheduler.threads.length :=
    fun p here => (List.getElem?_eq_some_iff.mp here).1
  simp only [waiting,List.mem_filter,List.mem_range,waits,Option.any_eq_true]
  constructor
  · exact And.right
  · rintro ⟨p,here,waits⟩
    exact ⟨inside p here,p,here,waits⟩

/-- Who walks has not fallen asleep for good. -/
theorem not_called_of_walk (walk : Walk s.scheduler i e p q) : ¬ s.Called q := by
  cases walk with
  | sleep goesOn keeps _ => simp [Called,goesOn,keeps]
  | doze goesOn _ => simp [Called,goesOn]
  | _ => exact id

/-- A thread that walks while functions wait comes back to the first of them. -/
theorem attends_of_walks {f : Entry} (sound : s.scheduler.Sound) (walks : Walks s.scheduler t.scheduler e i p q)
    (goesOn : s.scheduler.stopRequested = false) (first : t.scheduler.functionQueue.head? = some f) :
    t.Attends f i q := by
  rcases walks.queue with ⟨-,queue,-⟩ | ⟨g,-,rfl,-,-⟩
  · rw [queue] at first
    have some : s.scheduler.functionQueue ≠ [] := by rintro none; simp [none] at first
    have here := walks.here
    cases walks.walk with
    | sleep _ _ empty => exact absurd empty some
    | @doze time _ _ => exact ⟨nofun,fun _ => .inr ⟨time,rfl,(sound.aimed i time here f first).ge⟩⟩
    | quit stopped => simp [goesOn] at stopped
    | leave ends => simp [goesOn,some] at ends
    | _ => exact ⟨nofun,nofun⟩
  · exact ⟨nofun,nofun⟩

theorem alert_walks (sound : s.scheduler.Sound) (alert : s.Alert) (walks : Walks s.scheduler t.scheduler e i p q)
    (notices : t.notices = s.notices) (others : ∀ j, j ≠ i → j ∈ s.notified → j ∈ t.notified) : t.Alert := by
  constructor
  · rw [notices]
    refine alert.heard.imp_right (fun heard => ?_)
    have flags : ∀ r, t.Called r = s.Called r := by
      intro r
      cases r <;> simp [Called,walks.flags]
    rw [walks.threads]
    refine forall_set (fun called => ?_) (fun j r other there called => ?_)
    · exact absurd (flags q ▸ called) (not_called_of_walk walks.walk)
    · exact others j other (heard j r there (flags r ▸ called))
  · intro goesOn f first
    have inside := (List.getElem?_eq_some_iff.mp walks.here).1
    refine .inr (.inl ⟨i,q,?_,attends_of_walks sound walks (walks.flags.1 ▸ goesOn) first⟩)
    rw [walks.threads,List.getElem?_set_self inside]

/-- Where everyone who waits is notified somebody comes back. -/
theorem attended_of_notified (f : Entry) (all : ∀ j ∈ s.waiting, j ∈ s.notified) :
    (∃ (i : Nat) (p : Point), s.scheduler.threads[i]? = some p ∧ s.Attends f i p) ∨ s.Gone := by
  refine or_iff_not_imp_right.mpr (fun left => ?_)
  obtain ⟨i,p,here,stays⟩ := exists_of_not_gone left
  exact ⟨i,p,here,stays,fun waits => .inl (all i (mem_waiting.mpr ⟨p,here,waits⟩))⟩

theorem alert_notifyOne {target : Option Nat} (alert : s.Alert) (reaches : s.reaches target) :
    Alert { s with notified := target.toList ++ s.notified, notices := s.notices.erase .one } := by
  constructor
  · refine alert.heard.imp (List.mem_erase_of_ne (by decide)).mpr (fun heard i p here called => ?_)
    exact List.mem_append_right _ (heard i p here called)
  · intro _ f _
    refine .inr ?_
    cases target with
    | none => exact attended_of_notified f reaches
    | some i =>
      obtain ⟨p,here,waits⟩ := mem_waiting.mp reaches.1
      refine .inl ⟨i,p,here,?_,fun _ => .inl (by simp)⟩
      rintro rfl
      cases waits

theorem alert_step (sound : s.scheduler.Sound) (alert : s.Alert) (taken : s.step m = some t) : t.Alert := by
  cases follows_of_step taken with
  | thread walks notices others _ => exact alert_walks sound alert walks notices others
  | tick _ => exact ⟨alert.heard,alert.attended⟩
  | schedule => exact ⟨alert.heard.imp_left (List.mem_append_left _),fun _ _ _ => .inl (by simp)⟩
  | @stop drain =>
    refine ⟨.inl (by simp),fun goesOn f first => ?_⟩
    cases drain with
    | true => exact (alert.attended goesOn f first).imp_left (List.mem_append_left _)
    | false => cases goesOn
  | notifyOne _ reaches => exact alert_notifyOne alert reaches
  | notifyAll _ =>
    refine ⟨.inr (fun i p here called => ?_),fun _ f _ => .inr (attended_of_notified f (fun _ => id))⟩
    exact mem_waiting.mpr ⟨p,here,waits_of_called called⟩

/-- What holds of a scheduler with a number of threads at every time. -/
structure Ready (n : Nat) (s : Signalled) : Prop where
  sound : s.scheduler.Sound
  alert : s.Alert
  size : s.scheduler.threads.length = n

theorem ready_init (threadCount : Nat) (now : TimePoint) : Ready threadCount (init threadCount now) :=
  ⟨sound_init threadCount now,alert_init threadCount now,List.length_replicate⟩

theorem ready_step (ready : Ready n s) (taken : s.step m = some t) : Ready n t := by
  refine ⟨?_,alert_step ready.sound ready.alert taken,?_⟩
  · rcases scheduler_step taken with ⟨e,-,moved⟩ | ⟨-,same⟩
    · exact sound_step ready.sound moved
    · rw [same]
      exact ready.sound
  · cases follows_of_step taken with
    | thread walks _ _ _ => rw [walks.threads,List.length_set,ready.size]
    | @stop drain => cases drain <;> exact ready.size
    | _ => exact ready.size

theorem ready_run {now : TimePoint} {ms : List Move} (reached : run step (init n now) ms = some s) : Ready n s :=
  (always_of_invariant (fun _ _ _ => ready_step) (ready_init n now) ms).last reached

/-! ### Steps that can be taken -/

/-- The steps that a thread or a call takes by itself. -/
def Move.own : Move → Bool
  | .turn _ | .wake _ | .expire _ | .notifyOne _ | .notifyAll => true
  | _ => false

/-- One of them is possible. -/
def GoesOn (s : Signalled) : Prop := ∃ m t, Move.own m = true ∧ s.step m = some t

theorem goesOn_turn (sound : s.scheduler.Sound) (here : s.scheduler.threads[i]? = some p) (stays : p ≠ .exited)
    (awake : p.waits = false) : s.GoesOn := by
  obtain ⟨j,u,moved⟩ := exists_turn sound here stays awake
  exact ⟨.turn j,_,rfl,by simp only [step,moved,Option.map_some]; rfl⟩

theorem goesOn_wake (here : s.scheduler.threads[i]? = some p) (waits : p.waits = true) (asked : i ∈ s.notified) :
    s.GoesOn := by
  obtain ⟨u,moved⟩ := step_wake here waits
  exact ⟨.wake i,_,rfl,by simp only [step,if_pos asked,moved,Option.map_some]; rfl⟩

theorem goesOn_expire {time : TimePoint} (here : s.scheduler.threads[i]? = some (.sleepingUntil time))
    (late : time ≤ s.scheduler.now) : s.GoesOn := by
  obtain ⟨u,moved⟩ := step_expire here late
  exact ⟨.expire i,_,rfl,by simp only [step,moved,Option.map_some]; rfl⟩

theorem goesOn_notifyAll (pending : .all ∈ s.notices) : s.GoesOn :=
  ⟨.notifyAll,_,rfl,if_pos pending⟩

/-- `notify_one` finds somebody or nobody. -/
theorem goesOn_notifyOne (pending : .one ∈ s.notices) : s.GoesOn := by
  by_cases all : ∀ j ∈ s.waiting, j ∈ s.notified
  · exact ⟨.notifyOne none,_,rfl,if_pos ⟨pending,all⟩⟩
  · push Not at all
    obtain ⟨i,waits,unheard⟩ := all
    exact ⟨.notifyOne (some i),_,rfl,if_pos ⟨pending,waits,unheard⟩⟩

/-- Whoever a stop calls gets on. -/
theorem goesOn_called (alert : s.Alert) (here : s.scheduler.threads[i]? = some p) (called : s.Called p) :
    s.GoesOn := by
  rcases alert.heard with pending | heard
  · exact goesOn_notifyAll pending
  · exact goesOn_wake here (waits_of_called called) (heard i p here called)

/-- While a function is due and a thread is left something goes on. -/
theorem goesOn_due (ready : Ready n s) (goesOn : s.scheduler.stopRequested = false)
    (due : s.scheduler.Due s.scheduler.now) (left : ¬ s.Gone) : s.GoesOn := by
  obtain ⟨f,rest,queue,late⟩ := due
  rcases ready.alert.attended goesOn f (by simp [queue]) with pending | ⟨i,p,here,stays,back⟩ | gone
  · exact goesOn_notifyOne pending
  · cases waits : p.waits with
    | false => exact goesOn_turn ready.sound here stays waits
    | true =>
      rcases back waits with asked | ⟨time,rfl,early⟩
      · exact goesOn_wake here waits asked
      · exact goesOn_expire here (early.trans late)
  · exact absurd gone left

end
end Signalled
end LicodeClient
