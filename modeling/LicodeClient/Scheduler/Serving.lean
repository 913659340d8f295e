import LicodeClient.Lib.Progress
import LicodeClient.Scheduler.Waking
import Mathlib.Algebra.BigOperators.Group.List.Basic

/-!
The scheduler comes to an end. Once a stop was requested the threads exit
(`stop_ends`), while a function is due one is started (`serves`), and a scheduler
that drains runs what it was given and exits (`drain_ends`), without any wake-up that
nobody asks for. Each takes a number of steps that is known before apart from what
happens meanwhile, which is charged: a call of `Schedule` or `Stop` in the first case
with its notification (`Move.calls`), in the others also with the threads that it, or
a wake-up that nobody asked for, sends back to aim again (`Move.charge`). Functions are
taken to return.
-/
namespace LicodeClient.Signalled
open LicodeClient.Run Scheduler

section
variable {s t : Signalled} {m : Move} {e : Event} {i : Nat} {p q : Point} {n : Nat}

/-! ### The way to the exit -/

/-- How far a thread is from its exit once the loops let it through. -/
def toLeave : Point → Nat
  | .exited => 0
  | .testing => 1
  | .checking | .relocking => 2
  | .awaiting _ | .wokenUntil true | .running _ => 3
  | .aiming => 4
  | .idling | .wokenUntil false => 5
  | .locking | .woken | .sleepingUntil _ => 6
  | .sleeping => 7

theorem toLeave_le (p : Point) : toLeave p ≤ 7 := by
  unfold toLeave
  split <;> omega

/-- Every step is on the way. -/
theorem toLeave_walk {u : Scheduler} (walk : Walk u i e p q)
    (ends : u.stopRequested = true ∨ u.stopWhenEmpty = true ∧ u.functionQueue = []) : toLeave q + 1 ≤ toLeave p := by
  cases walk with
  | sleep goesOn keeps _ => simp [goesOn,keeps] at ends
  | doze goesOn some => simp [goesOn,some] at ends
  | pop goesOn first =>
    have some : u.functionQueue ≠ [] := by rintro none; simp [none] at first
    simp [goesOn,some] at ends
  | again goesOn more =>
    rcases ends with stopped | ⟨drains,empty⟩
    · simp [goesOn] at stopped
    · exact absurd empty (more drains)
  | _ => simp [toLeave]

/-- Calls of `Schedule` and `Stop`. -/
def Move.calls : Move → Nat
  | .schedule _ _ | .stop _ => 1
  | _ => 0

theorem stopRequested_step (stopped : s.scheduler.stopRequested = true) (taken : s.step m = some t) :
    t.scheduler.stopRequested = true := by
  cases follows_of_step taken with
  | thread walks _ _ _ => rw [walks.flags.1,stopped]
  | @stop drain => cases drain <;> first | rfl | exact stopped
  | _ => exact stopped

theorem gone_step (gone : s.Gone) (taken : s.step m = some t) : t.Gone := by
  cases follows_of_step taken with
  | thread walks _ _ _ => exact absurd (gone _ (List.mem_of_getElem? walks.here)) walks.walk.stays
  | @stop drain => cases drain <;> exact gone
  | _ => exact gone

/-- Then nothing happens by itself. -/
theorem not_goesOn_of_gone (gone : s.Gone) (settled : s.notices = []) : ¬ s.GoesOn := by
  rintro ⟨m,t,own,taken⟩
  cases follows_of_step taken with
  | thread walks _ _ _ => exact absurd (gone _ (List.mem_of_getElem? walks.here)) walks.walk.stays
  | notifyOne pending _ => simp [settled] at pending
  | notifyAll pending => simp [settled] at pending
  | _ => cases own

theorem ends_stop (n : Nat) :
    Ends step Move.own Move.calls (fun s => Ready n s ∧ s.scheduler.stopRequested = true) Gone
      (fun s => (s.scheduler.threads.map toLeave).sum + s.notices.length) where
  stays := fun _ _ _ => gone_step
  lowers := by
    rintro s m t ⟨ready,stopped⟩ taken
    refine .inr ⟨⟨ready_step ready taken,stopRequested_step stopped taken⟩,?_⟩
    cases follows_of_step taken with
    | @thread m t e i p q walks notices _ _ =>
      have sum := sum_map_set toLeave walks.here q
      have nearer := toLeave_walk walks.walk (.inl stopped)
      rw [walks.threads,notices]
      split <;> omega
    | tick _ => simp [Move.own]
    | schedule => simp [Move.own,Move.calls,Effect.apply]; omega
    | @stop drain => cases drain <;> simp [Move.own,Move.calls,Effect.apply] <;> omega
    | notifyOne pending _ =>
      have fewer := List.length_erase_add_one pending
      simp only [Move.own,if_true]
      omega
    | notifyAll pending =>
      have fewer := List.length_erase_add_one pending
      simp only [Move.own,if_true]
      omega
  goesOn := by
    rintro s ⟨ready,stopped⟩
    refine or_iff_not_imp_left.mpr (fun left => ?_)
    obtain ⟨i,p,here,stays⟩ := exists_of_not_gone left
    cases waits : p.waits with
    | false => exact goesOn_turn ready.sound here stays waits
    | true =>
      refine goesOn_called ready.alert here ?_
      cases p with
      | sleeping => exact .inl stopped
      | sleepingUntil time => exact stopped
      | _ => cases waits

/-- When all have exited nobody is left. -/
theorem threadCount_of_gone (sound : s.scheduler.Sound) (gone : s.Gone) : s.scheduler.threadCount = 0 := by
  have none : s.scheduler.threads.countP (· ≠ .exited) = 0 :=
    List.countP_eq_zero.mpr (fun p member => by simp [gone p member])
  rw [sound.counted,none]
  rfl

/-! ### The way to the next function -/

/-- How far a thread is from taking a function while one waits. -/
def toStart : Point → Nat
  | .exited => 0
  | .checking => 1
  | .wokenUntil true => 2
  | .sleepingUntil _ => 3
  | .awaiting _ => 4
  | .aiming => 5
  | .idling | .wokenUntil false => 6
  | .locking | .woken | .testing => 7
  | .relocking | .sleeping => 8
  | .running _ => 9

theorem toStart_le (p : Point) : toStart p ≤ 9 := by
  unfold toStart
  split <;> omega

/-- Every step is on the way, except that of a thread that is woken before its time. -/
theorem toStart_walk {u : Scheduler} (walk : Walk u i e p q) (goesOn : u.stopRequested = false)
    (some : u.functionQueue ≠ []) (idle : ∀ f, q ≠ .running f) :
    toStart q + 1 ≤ toStart p + if e = .wake i then 4 else 0 := by
  cases walk with
  | sleep _ _ empty => exact absurd empty some
  | check ends => simp [goesOn,some] at ends
  | quit stopped => simp [goesOn] at stopped
  | skip _ empty => exact absurd empty some
  | pop _ _ => exact absurd rfl (idle _)
  | leave ends => simp [goesOn,some] at ends
  | _ => simp [toStart]

/-- What a notification can lead to: a thread, or each of them, has to aim again. -/
def effort (n : Nat) : Notice → Nat
  | .one => 5
  | .all => 4 * n + 1

/-- What comes from elsewhere and may take threads back. -/
def Move.charge (n : Nat) : Move → Nat
  | .stir _ => 4
  | .schedule _ _ => 5
  | .stop _ => 4 * n + 1
  | _ => 0

/-- What the notifications on their way can lead to. -/
def unrest (n : Nat) (s : Signalled) : Nat := 4 * s.notified.length + (s.notices.map (effort n)).sum

/-- Notifications settle. -/
theorem unrest_step (ready : Ready n s) (taken : s.step m = some t) :
    (∃ e i p q, Walks s.scheduler t.scheduler e i p q ∧
        unrest n t + (if e = .wake i then 4 else 0) ≤ unrest n s + m.charge n) ∨
      (t.scheduler.threads = s.scheduler.threads ∧ (t.scheduler.functionQueue = s.scheduler.functionQueue ∨
          s.scheduler.scheduled.length < t.scheduler.scheduled.length)) ∧
        unrest n t + (if m.own then 1 else 0) ≤ unrest n s + m.charge n := by
  cases follows_of_step taken with
  | @thread m t e i p q walks notices _ spent =>
    refine .inl ⟨e,i,p,q,walks,?_⟩
    have charged : 4 * m.unasked ≤ m.charge n := by cases m <;> simp [Move.unasked,Move.charge]
    unfold unrest
    rw [notices]
    split at spent <;> simp only [*,if_true,if_false] <;> omega
  | tick _ => exact .inr ⟨⟨rfl,.inl rfl⟩,by simp [Move.own,unrest]⟩
  | schedule =>
    refine .inr ⟨⟨rfl,.inr (by simp [Effect.apply])⟩,?_⟩
    simp [Move.own,Move.charge,unrest,effort]
    omega
  | @stop drain =>
    refine .inr ⟨by cases drain <;> exact ⟨rfl,.inl rfl⟩,?_⟩
    simp [Move.own,Move.charge,unrest,effort]
    omega
  | @notifyOne target pending _ =>
    refine .inr ⟨⟨rfl,.inl rfl⟩,?_⟩
    have fewer := List.sum_map_erase (effort n) pending
    have one : target.toList.length ≤ 1 := by cases target <;> simp
    simp only [unrest,Move.own,if_true,List.length_append,effort] at fewer ⊢
    omega
  | notifyAll pending =>
    refine .inr ⟨⟨rfl,.inl rfl⟩,?_⟩
    have fewer := List.sum_map_erase (effort n) pending
    have all : s.waiting.length ≤ n := by
      rw [← ready.size,waiting]
      exact (List.length_filter_le _ _).trans_eq List.length_range
    simp only [unrest,Move.own,if_true,effort] at fewer ⊢
    omega

/-! ### While a function is due -/

/-- A function is due, nobody has stopped the scheduler and a thread is left. -/
structure Waits (n start : Nat) (s : Signalled) : Prop where
  ready : Ready n s
  goesOn : s.scheduler.stopRequested = false
  due : s.scheduler.Due s.scheduler.now
  left : ¬ s.Gone
  same : s.scheduler.started.length = start

theorem queue_of_due {u : Scheduler} {time : TimePoint} (due : u.Due time) : u.functionQueue ≠ [] := by
  obtain ⟨f,rest,queue,-⟩ := due
  simp [queue]

/-- Nobody exits while functions wait. -/
theorem stays_of_walk {u : Scheduler} (walk : Walk u i e p q) (goesOn : u.stopRequested = false)
    (some : u.functionQueue ≠ []) : q ≠ .exited := by
  rintro rfl
  cases walk with
  | quit stopped => simp [goesOn] at stopped
  | leave ends => simp [goesOn,some] at ends

theorem not_gone_of_walks (walks : Walks s.scheduler t.scheduler e i p q) (stays : q ≠ .exited) : ¬ t.Gone := by
  intro gone
  refine stays (gone q ?_)
  rw [walks.threads]
  exact mem_set_of_getElem? walks.here q

/-- A function is started, a stop is requested or the function is due still. -/
theorem waits_step {start : Nat} (waits : Waits n start s) (taken : s.step m = some t) :
    (t.scheduler.stopRequested = true ∨ start < t.scheduler.started.length) ∨ Waits n start t := by
  have ready := ready_step waits.ready taken
  cases follows_of_step taken with
  | @thread m t e i p q walks _ _ _ =>
    rcases walks.queue with ⟨-,queue,started⟩ | ⟨f,-,-,-,started⟩
    · refine .inr ⟨ready,walks.flags.1.trans waits.goesOn,?_,?_,by rw [started,waits.same]⟩
      · unfold Due
        rw [queue,walks.time.2]
        exact waits.due
      · exact not_gone_of_walks walks (stays_of_walk walks.walk waits.goesOn (queue_of_due waits.due))
    · refine .inl (.inr ?_)
      rw [started,List.length_append,waits.same]
      simp
  | tick later => exact .inr ⟨ready,waits.goesOn,waits.due.mono later,waits.left,waits.same⟩
  | schedule => exact .inr ⟨ready,waits.goesOn,due_schedule waits.due _,waits.left,waits.same⟩
  | @stop drain =>
    cases drain with
    | true => exact .inr ⟨ready,waits.goesOn,waits.due,waits.left,waits.same⟩
    | false => exact .inl (.inl rfl)
  | notifyOne _ _ => exact .inr ⟨ready,waits.goesOn,waits.due,waits.left,waits.same⟩
  | notifyAll _ => exact .inr ⟨ready,waits.goesOn,waits.due,waits.left,waits.same⟩

theorem started_le (taken : s.step m = some t) : s.scheduler.started.length ≤ t.scheduler.started.length := by
  rcases scheduler_step taken with ⟨e,-,moved⟩ | ⟨-,same⟩
  · rcases started_step moved with none | ⟨f,rest,-,-,starts⟩
    · rw [none]
    · rw [starts,List.length_append]
      omega
  · rw [same]

theorem ends_due (n start : Nat) :
    Ends step Move.own (Move.charge n) (Waits n start)
      (fun s => s.scheduler.stopRequested = true ∨ start < s.scheduler.started.length)
      (fun s => (s.scheduler.threads.map toStart).sum + unrest n s) where
  stays := fun s m t done taken =>
    done.imp (fun stopped => stopRequested_step stopped taken) (fun more => more.trans_le (started_le taken))
  lowers := by
    intro s m t waits taken
    refine (waits_step waits taken).imp_right (fun kept => ⟨kept,?_⟩)
    rcases unrest_step waits.ready taken with ⟨e,i,p,q,walks,settles⟩ | ⟨same,settles⟩
    · have idle : ∀ f, q ≠ .running f := by
        rintro f rfl
        rcases walks.queue with ⟨none,-,-⟩ | ⟨g,-,-,-,started⟩
        · cases none
        · have more := kept.same
          rw [started,List.length_append,waits.same] at more
          simp at more
      have sum := sum_map_set toStart walks.here q
      have nearer := toStart_walk walks.walk waits.goesOn (queue_of_due waits.due) idle
      rw [walks.threads]
      split <;> omega
    · rw [same.1]
      omega
  goesOn := fun s waits => .inr (goesOn_due waits.ready waits.goesOn waits.due waits.left)

/-! ### Draining -/

end

/-- Once a stop was requested nothing is started any more, and all threads have exited
    and the assertion of the destructor holds, or no more than seven steps for each
    thread and one for each notification and later call were taken and one of them or a
    notification gets on. -/
theorem stop_ends {n : Nat} {now : TimePoint} {before later : List Move} {s t : Signalled}
    (reached : run step (init n now) before = some s) (stopped : s.scheduler.stopRequested = true)
    (done : run step s later = some t) :
    t.scheduler.started = s.scheduler.started ∧
      (t.Gone ∧ t.scheduler.threadCount = 0 ∨
        later.countP Move.own ≤ 7 * n + s.notices.length + (later.map Move.calls).sum ∧ t.GoesOn) := by
  have ready := ready_run reached
  constructor
  · have keep : ∀ (u : Signalled) (m : Move) (v : Signalled),
        u.scheduler.stopRequested = true ∧ u.scheduler.started = s.scheduler.started → u.step m = some v →
        v.scheduler.stopRequested = true ∧ v.scheduler.started = s.scheduler.started := by
      rintro u m v ⟨stopped,same⟩ taken
      refine ⟨stopRequested_step stopped taken,?_⟩
      rcases scheduler_step taken with ⟨e,-,moved⟩ | ⟨-,kept⟩
      · rcases started_step moved with none | ⟨-,-,goesOn,-,-⟩
        · rw [none,same]
        · simp [stopped] at goesOn
      · rw [kept,same]
    exact ((always_of_invariant keep ⟨stopped,rfl⟩ later).last done).2
  · refine ((ends_stop n).pays ⟨ready,stopped⟩ done).imp (fun gone => ?_) (fun more => ⟨?_,more.2⟩)
    · have kept := (always_of_invariant (fun _ _ _ => ready_step) ready later).last done
      exact ⟨gone,threadCount_of_gone kept.sound gone⟩
    · have bound := sum_map_le toLeave_le s.scheduler.threads
      rw [ready.size] at bound
      have paid := more.1
      omega

/-- The only thread sleeps when the stop is requested. -/
def stoppedAsleep : Signalled :=
  { scheduler := { threadCount := 1, threads := [.sleeping], stopRequested := true, now := 0 }, notices := [.all] }

/-- The same scheduler when the thread has exited. -/
def stoppedGone : Signalled :=
  { scheduler := { threadCount := 0, threads := [.exited], stopRequested := true, now := 0 } }

theorem run_stoppedAsleep : run step (init 1 0) [.turn 0,.turn 0,.stop false] = some stoppedAsleep := by decide

theorem run_stoppedGone :
    run step stoppedAsleep [.notifyAll,.wake 0,.turn 0,.turn 0,.turn 0,.turn 0,.turn 0] = some stoppedGone := by decide

/-- It can be woken, and exits. -/
theorem stop_ends_asleep :
    stoppedAsleep.GoesOn ∧ stoppedGone.scheduler.started = [] ∧ stoppedGone.Gone ∧
      stoppedGone.scheduler.threadCount = 0 := by
  constructor
  · obtain ⟨-,⟨gone,-⟩ | ⟨-,goesOn⟩⟩ := stop_ends run_stoppedAsleep rfl (show run step stoppedAsleep [] = _ from rfl)
    · exact absurd gone (by decide)
    · exact goesOn
  · obtain ⟨started,gone | ⟨-,goesOn⟩⟩ := stop_ends run_stoppedAsleep rfl run_stoppedGone
    · exact ⟨started,gone⟩
    · exact absurd goesOn (not_goesOn_of_gone (by decide) rfl)

/-- While a function is due, a thread is left and no stop is requested: a function has
    been started since, or no more than nine steps for each thread, what the
    notifications can lead to and what has happened since is charged with were taken,
    and a thread or a notification gets on. -/
theorem serves {n : Nat} {now : TimePoint} {before later : List Move} {s t : Signalled} {f : Entry}
    (reached : run step (init n now) before = some s) (goesOn : s.scheduler.stopRequested = false)
    (waits : f ∈ s.scheduler.functionQueue) (late : f.point ≤ s.scheduler.now) (left : ¬ s.Gone)
    (done : run step s later = some t) :
    (t.scheduler.stopRequested = true ∨ s.scheduler.started.length < t.scheduler.started.length) ∨
      later.countP Move.own ≤ 9 * n + unrest n s + (later.map (Move.charge n)).sum ∧ t.GoesOn := by
  have ready := ready_run reached
  have due : s.scheduler.Due s.scheduler.now := by
    obtain ⟨g,rest,queue⟩ := List.exists_cons_of_ne_nil (List.ne_nil_of_mem waits)
    refine ⟨g,rest,queue,le_trans ?_ late⟩
    have sorted := ready.sound.books.sorted
    rw [queue] at sorted waits
    rcases List.mem_cons.mp waits with rfl | behind
    · exact le_rfl
    · rcases List.rel_of_pairwise_cons sorted behind with less | ⟨same,-⟩
      · exact less.le
      · exact same.le
  refine ((ends_due n _).pays ⟨ready,goesOn,due,left,rfl⟩ done).imp_right (fun more => ⟨?_,more.2⟩)
  have bound := sum_map_le toStart_le s.scheduler.threads
  rw [ready.size] at bound
  have paid := more.1
  omega

/-- A function is scheduled while the only thread sleeps. -/
def calledAsleep : Signalled :=
  { scheduler :=
      { threadCount := 1, threads := [.sleeping], functionQueue := [⟨0,0⟩], now := 0, scheduled := [⟨0,0⟩] }
    notices := [.one] }

/-- The thread after it has run the function. -/
def servedAsleep : Signalled :=
  { scheduler :=
      { threadCount := 1, threads := [.sleeping], now := 0, scheduled := [⟨0,0⟩], started := [(⟨0,0⟩,0)],
        finished := [⟨0,0⟩] } }

theorem not_goesOn_served : ¬ servedAsleep.GoesOn := by
  rintro ⟨m,t,own,taken⟩
  cases m with
  | turn i | expire i => cases i <;> cases taken
  | wake i | notifyOne target | notifyAll => cases taken
  | _ => cases own

theorem run_calledAsleep : run step (init 1 0) [.turn 0,.turn 0,.schedule none 0] = some calledAsleep := by decide

theorem run_servedAsleep :
    run step calledAsleep [.notifyOne (some 0),.wake 0,.turn 0,.turn 0,.turn 0,.turn 0,.expire 0,.turn 0,.turn 0,
      .turn 0,.turn 0,.turn 0,.turn 0] = some servedAsleep := by decide

/-- It can be woken, and runs it. -/
theorem serves_asleep : calledAsleep.GoesOn ∧ 0 < servedAsleep.scheduler.started.length := by
  have serves' {later : List Move} {t : Signalled} (done : run step calledAsleep later = some t) :=
    serves run_calledAsleep rfl (f := ⟨0,0⟩) (by decide) (by decide) (by decide) done
  constructor
  · obtain more | ⟨-,goesOn⟩ := serves' (show run step calledAsleep [] = _ from rfl)
    · exact absurd more (by decide)
    · exact goesOn
  · obtain (stopped | more) | ⟨-,goesOn⟩ := serves' run_servedAsleep
    · cases stopped
    · exact more
    · exact absurd goesOn not_goesOn_served

end LicodeClient.Signalled
