import LicodeClient.Scheduler

/-!
Functions start on time. A thread that has timed out takes whatever entry is first
once it has the lock again. With one thread that entry is due, because the queue
only grows while the thread waits. With two threads the other one may have taken
the entry that both waited for, and the next one need not be due (`onTime_iff`).
-/
namespace LicodeClient.Scheduler
open LicodeClient.Run

/-- No function was started before its time. -/
def OnTime (s : Scheduler) : Prop := ∀ f time, (f,time) ∈ s.started → f.point ≤ time

/-- The first entry is due at a time. -/
def Due (s : Scheduler) (time : TimePoint) : Prop := ∃ f rest, s.functionQueue = f :: rest ∧ f.point ≤ time

/-- What the only thread knows of the queue at each point. -/
def Knows (s : Scheduler) : Point → Prop
  | .awaiting time => s.functionQueue = [] ∨ s.Due time
  | .sleepingUntil time => s.Due time
  | .wokenUntil true => s.Due s.now
  | .checking => s.stopRequested = true ∨ s.functionQueue = [] ∨ s.Due s.now
  | _ => True

section
variable {s t : Scheduler} {e : Event} {i : Nat} {p q : Point}

theorem Due.mono {time later : TimePoint} (due : s.Due time) (le : time ≤ later) : s.Due later := by
  obtain ⟨f,rest,queue,reached⟩ := due
  exact ⟨f,rest,queue,reached.trans le⟩

/-- A new entry does not move the first one to a later time. -/
theorem due_schedule {time : TimePoint} (due : s.Due time) (point : TimePoint) :
    ((Effect.schedule point).apply s).Due time := by
  obtain ⟨f,rest,queue,reached⟩ := due
  unfold Due
  simp only [Effect.apply,emplace,queue,List.orderedInsert]
  split
  · next before => exact ⟨_,_,rfl,(le_of_lt before).trans reached⟩
  · exact ⟨f,_,rfl,reached⟩

theorem knows_lock {c : Effect} (takes : s.lock i q = some c) (known : s.Knows q) :
    ∀ j q' mutex, c = .shift j q' mutex → s.Knows q' := by
  unfold lock at takes
  split at takes <;> cases takes
  rintro _ _ _ ⟨⟩
  exact known

/-- A thread that moves on knows what its new point says. -/
theorem knows_process {c : Effect} (knows : s.Knows p) (does : s.processFunctionQueue i p = some c) :
    ∀ j q mutex, c = .shift j q mutex → s.Knows q := by
  cases p with
  | locking => exact knows_lock does trivial
  | idling =>
    simp only [processFunctionQueue] at does
    split at does <;> cases does <;> rintro _ _ _ ⟨⟩ <;> trivial
  | woken => exact knows_lock does trivial
  | aiming =>
    cases does
    rintro _ _ _ ⟨⟩
    cases queue : s.functionQueue with
    | nil => exact .inl queue
    | cons f rest => exact .inr ⟨f,rest,queue,le_rfl⟩
  | awaiting time =>
    simp only [processFunctionQueue] at does
    split at does
    · next waits =>
      cases does
      rintro _ _ _ ⟨⟩
      simp only [Bool.and_eq_true,Bool.not_eq_true',List.isEmpty_eq_false_iff] at waits
      exact knows.resolve_left waits.2
    · next goesOn =>
      cases does
      rintro _ _ _ ⟨⟩
      simp only [Bool.and_eq_true,Bool.not_eq_true',List.isEmpty_eq_false_iff,not_and,not_not] at goesOn
      cases stopped : s.stopRequested with
      | true => exact .inl stopped
      | false => exact .inr (.inl (goesOn stopped))
  | wokenUntil timedOut =>
    simp only [processFunctionQueue] at does
    split at does
    · next late =>
      subst late
      exact knows_lock does (.inr (.inr knows))
    · exact knows_lock does trivial
  | checking =>
    simp only [processFunctionQueue] at does
    split at does
    · cases does; rintro _ _ _ ⟨⟩
    · split at does <;> cases does <;> rintro _ _ _ ⟨⟩
      trivial
  | running f => cases does; rintro _ _ _ ⟨⟩
  | relocking => exact knows_lock does trivial
  | testing =>
    simp only [processFunctionQueue] at does
    split at does <;> cases does <;> rintro _ _ _ ⟨⟩
    trivial
  | _ => cases does

theorem knows_shift {mutex : Option Nat} (knows : ∀ (j : Nat) p, s.threads[j]? = some p → s.Knows p)
    (does : s.effect e = some (.shift i q mutex)) : s.Knows q := by
  cases e with
  | turn j =>
    obtain ⟨p,here,does⟩ := Option.bind_eq_some_iff.mp does
    exact knows_process (knows j p here) does i q mutex rfl
  | wake j =>
    obtain ⟨p,here,does⟩ := Option.bind_eq_some_iff.mp does
    cases p <;> cases does <;> trivial
  | expire j =>
    obtain ⟨p,here,does⟩ := Option.bind_eq_some_iff.mp does
    cases p with
    | sleepingUntil time =>
      simp only [expire] at does
      split at does <;> cases does
      exact Due.mono (knows _ _ here) (by assumption)
    | _ => cases does
  | tick now => simp [effect] at does
  | schedule caller point => simp [effect] at does
  | stop drain => simp [effect] at does

/-- A thread without the lock knows the same after another entry came. -/
theorem knows_schedule (point : TimePoint) (open' : p.holds = false) (knows : s.Knows p) :
    ((Effect.schedule point).apply s).Knows p := by
  cases p with
  | sleepingUntil time => exact due_schedule knows point
  | wokenUntil timedOut =>
    cases timedOut with
    | true => exact due_schedule (show s.Due s.now from knows) point
    | false => trivial
  | awaiting time => cases open'
  | checking => cases open'
  | _ => trivial

theorem knows_tick {now : TimePoint} (later : s.now ≤ now) (knows : s.Knows p) :
    ((Effect.tick now).apply s).Knows p := by
  cases p with
  | wokenUntil timedOut =>
    cases timedOut with
    | true => exact Due.mono (show s.Due s.now from knows) later
    | false => trivial
  | checking => exact knows.imp_right (Or.imp_right (fun due : s.Due s.now => due.mono later))
  | awaiting time => exact knows
  | sleepingUntil time => exact knows
  | _ => trivial

theorem knows_stop (drain : Bool) (knows : s.Knows p) : ((Effect.stop drain).apply s).Knows p := by
  cases drain with
  | true => exact knows
  | false =>
    cases p with
    | checking => exact .inl rfl
    | wokenUntil timedOut => cases timedOut <;> exact knows
    | _ => exact knows

/-- At most one thread, which knows what its point says, and nothing started
    early. -/
structure Timely (s : Scheduler) : Prop where
  exclusive : s.Exclusive
  single : s.threads.length ≤ 1
  knows : ∀ (j : Nat) p, s.threads[j]? = some p → s.Knows p
  onTime : s.OnTime

theorem timely_init {threadCount : Nat} (few : threadCount ≤ 1) (now : TimePoint) : (init threadCount now).Timely := by
  refine ⟨exclusive_init threadCount now,by simpa [init] using few,fun j p here => ?_,
    fun f time member => by cases member⟩
  obtain ⟨-,rfl⟩ : _ ∧ _ := by simpa [init,List.getElem?_replicate] using here
  trivial

theorem timely_step (timely : s.Timely) (taken : s.step e = some t) : t.Timely := by
  have exclusive := exclusive_step timely.exclusive taken
  obtain ⟨c,does,allows,rfl⟩ := step_eq_some taken
  -- There is no other thread that could know anything.
  have alone : ∀ {i : Nat} {p q : Point} {t : Scheduler}, s.threads[i]? = some p → t.Knows q →
      ∀ (j : Nat) q', (s.threads.set i q)[j]? = some q' → t.Knows q' := by
    intro i p q t here known
    refine forall_set known ?_
    intro j q' other there
    have first := (List.getElem?_eq_some_iff.mp here).1
    have second := (List.getElem?_eq_some_iff.mp there).1
    have single := timely.single
    omega
  have single : ∀ {i : Nat} {q : Point}, (s.threads.set i q).length ≤ 1 := by
    intro i q
    rw [List.length_set]
    exact timely.single
  cases allows with
  | shift shifts =>
    have known := knows_shift timely.knows does
    exact ⟨exclusive,single,alone shifts.here known,timely.onTime⟩
  | @pop i f rest here goesOn queue =>
    refine ⟨exclusive,single,alone here trivial,fun g time member => ?_⟩
    rcases List.mem_append.mp member with before | new
    · exact timely.onTime g time before
    · obtain ⟨rfl,rfl⟩ : g = f ∧ time = s.now := by simpa using new
      have due : s.Due s.now := by simpa [Knows,goesOn,queue] using timely.knows i _ here
      obtain ⟨h,rest',queue',reached⟩ := due
      rw [queue] at queue'
      cases queue'
      exact reached
  | finish here => exact ⟨exclusive,single,alone here trivial,timely.onTime⟩
  | exit here _ _ => exact ⟨exclusive,single,alone here trivial,timely.onTime⟩
  | tick later => exact ⟨exclusive,timely.single,fun j p here => knows_tick later (timely.knows j p here),timely.onTime⟩
  | schedule free calls =>
    refine ⟨exclusive,timely.single,fun j p here => knows_schedule _ ?_ (timely.knows j p here),timely.onTime⟩
    cases held : p.holds with
    | false => rfl
    | true =>
      rw [timely.exclusive j p here held] at free
      cases free
  | @stop drain free =>
    have knows : ∀ (j : Nat) p, s.threads[j]? = some p → ((Effect.stop drain).apply s).Knows p :=
      fun j p here => knows_stop drain (timely.knows j p here)
    cases drain <;> exact ⟨exclusive,timely.single,knows,timely.onTime⟩

/-! ### More threads -/

/-- The same scheduler with further threads, which have not done anything. -/
def withMore (s : Scheduler) (more : Nat) : Scheduler :=
  { s with threads := s.threads ++ List.replicate more .locking, threadCount := s.threadCount + more }

theorem effect_withMore {c : Effect} (more : Nat) (does : s.effect e = some c) :
    (s.withMore more).effect e = some c := by
  have found : ∀ {i : Nat} {p : Point}, s.threads[i]? = some p → (s.withMore more).threads[i]? = some p := by
    intro i p here
    exact (List.getElem?_append_left (List.getElem?_eq_some_iff.mp here).1).trans here
  cases e with
  | turn i =>
    obtain ⟨p,here,does⟩ := Option.bind_eq_some_iff.mp does
    exact Option.bind_eq_some_iff.mpr ⟨p,found here,does⟩
  | wake i =>
    obtain ⟨p,here,does⟩ := Option.bind_eq_some_iff.mp does
    exact Option.bind_eq_some_iff.mpr ⟨p,found here,does⟩
  | expire i =>
    obtain ⟨p,here,does⟩ := Option.bind_eq_some_iff.mp does
    exact Option.bind_eq_some_iff.mpr ⟨p,found here,does⟩
  | tick now => exact does
  | stop drain => exact does
  | schedule caller point =>
    have calls : s.calls caller = true → (s.withMore more).calls caller = true := by
      cases caller with
      | none => exact id
      | some i =>
        intro inside
        obtain ⟨f,running⟩ := Option.isSome_iff_exists.mp inside
        obtain ⟨p,here,function⟩ := Option.bind_eq_some_iff.mp running
        exact Option.isSome_iff_exists.mpr ⟨f,Option.bind_eq_some_iff.mpr ⟨p,found here,function⟩⟩
    simp only [effect] at does ⊢
    split at does <;> cases does
    next can => exact if_pos ⟨can.1,calls can.2⟩

theorem apply_withMore {c : Effect} (more : Nat) (allows : s.Allows e c) :
    c.apply (s.withMore more) = (c.apply s).withMore more := by
  have moves : ∀ {i : Nat} {p q : Point}, s.threads[i]? = some p →
      (s.threads ++ List.replicate more Point.locking).set i q =
        s.threads.set i q ++ List.replicate more Point.locking :=
    fun here => List.set_append_left _ _ (List.getElem?_eq_some_iff.mp here).1
  cases allows with
  | shift shifts => simp only [Effect.apply,withMore,moves shifts.here]
  | pop here _ _ => simp only [Effect.apply,withMore,moves here]
  | finish here => simp only [Effect.apply,withMore,moves here]
  | exit here _ _ =>
    simp only [Effect.apply,withMore,moves here]
    congr 1
    omega
  | tick _ => rfl
  | schedule _ _ => rfl
  | @stop drain _ => cases drain <;> rfl

theorem step_withMore (more : Nat) (taken : s.step e = some t) : (s.withMore more).step e = some (t.withMore more) := by
  obtain ⟨c,does,allows,rfl⟩ := step_eq_some taken
  rw [step,effect_withMore more does,Option.map_some,apply_withMore more allows]

theorem run_withMore (more : Nat) {es : List Event} (done : run step s es = some t) :
    run step (s.withMore more) es = some (t.withMore more) := by
  induction es generalizing s with
  | nil => cases done; rfl
  | cons e es ih =>
    obtain ⟨u,first,rest⟩ := Option.bind_eq_some_iff.mp done
    exact Option.bind_eq_some_iff.mpr ⟨_,step_withMore more first,ih rest⟩

end

/-- Two functions are scheduled, two threads time out together, and both take one. -/
def together : List Event :=
  [.schedule none 1,.schedule none 100] ++ [.turn 0,.turn 0,.turn 0,.turn 0] ++ [.turn 1,.turn 1,.turn 1,.turn 1] ++
    [.tick 1,.expire 0,.expire 1,.turn 0,.turn 0,.turn 1,.turn 1]

/-- The second thread starts the function of time 100 at time 1. -/
theorem run_together :
    (run step (threadPool 0) together).map (fun s => (s.now,s.started)) = some (1,[(⟨1,0⟩,1),(⟨100,1⟩,1)]) := by
  decide +kernel

/-- Functions start on time in every run exactly when there is at most one thread. -/
theorem onTime_iff (threadCount : Nat) :
    (∀ now es, Always step OnTime (init threadCount now) es) ↔ threadCount ≤ 1 := by
  constructor
  · intro all
    by_contra many
    obtain ⟨more,rfl⟩ := Nat.exists_eq_add_of_le (Nat.lt_of_not_le many)
    obtain ⟨s,runs,facts⟩ := Option.map_eq_some_iff.mp run_together
    have started : s.started = [(⟨1,0⟩,1),(⟨100,1⟩,1)] := (Prod.mk.inj facts).2
    have same : init (1 + 1 + more) 0 = (threadPool 0).withMore more := by
      simp [threadPool,init,withMore,List.replicate_add]
    have onTime := (same ▸ all 0 together).last (run_withMore more runs)
    exact absurd (onTime ⟨100,1⟩ 1 (by simp [withMore,started])) (by decide)
  · intro few now es
    exact (always_of_invariant (fun _ _ _ => timely_step) (timely_init few now) es).mono (fun _ timely => timely.onTime)

/-- The two threads of a pool start the function of time 100 at time 1. -/
theorem onTime_fails :
    ∃ s, run step (threadPool 0) together = some s ∧ s.now = 1 ∧ (⟨100,1⟩,1) ∈ s.started ∧ ¬ s.OnTime := by
  obtain ⟨s,done,facts⟩ := Option.map_eq_some_iff.mp run_together
  obtain ⟨now,started⟩ := Prod.mk.inj facts
  have early : (⟨100,1⟩,1) ∈ s.started := by simp [started]
  refine ⟨s,done,now,early,fun onTime => ?_⟩
  exact absurd (onTime ⟨100,1⟩ 1 early) (by decide)

end LicodeClient.Scheduler
