import LicodeClient.Scheduler

/-!
Functions are neither lost nor run twice, they start in the order of their time
points and insertion, none starts after a stop was requested, and a scheduler that
drains has nothing left once its threads have exited. The last of these needs a
thread (`drains_iff`): a function that a scheduler without threads is given stays
in its queue.
-/
namespace LicodeClient.Scheduler
open LicodeClient.Run

/-- The functions that the threads run. -/
def running (s : Scheduler) : List Entry := s.threads.filterMap Point.function

/-- Every function that was scheduled waits, runs or has finished, and it does so
    once; what starts is the first of those that wait, and nothing starts when a
    stop was requested. -/
structure Orderly (s : Scheduler) : Prop where
  conserved : s.scheduled.Perm (s.functionQueue ++ s.running ++ s.finished)
  distinct : s.scheduled.Nodup
  once : (s.started.map Prod.fst).Perm (s.running ++ s.finished)
  least : ∀ e t f time, s.step e = some t → t.started = s.started ++ [(f,time)] →
    f ∈ s.functionQueue ∧ ∀ g ∈ s.functionQueue, g ≠ f → Earlier f g
  stopped : ∀ e t, s.step e = some t → s.stopRequested = true → t.started = s.started

/-- After `Stop(true)` only functions that the scheduler runs schedule others. -/
def Inner (s : Scheduler) (e : Event) : Prop := s.stopWhenEmpty = true → ∀ point, e ≠ .schedule none point

/-- A run that drains and requests no other stop leaves nothing behind when all
    threads have exited. -/
def Drains (s : Scheduler) (es : List Event) : Prop :=
  Guarded step Inner s es → ∀ t, run step s es = some t → t.stopRequested = false → t.stopWhenEmpty = true →
    (∀ p ∈ t.threads, p = .exited) → t.functionQueue = [] ∧ t.threadCount = 0

section
variable {s t : Scheduler} {e : Event} {i : Nat} {p : Point}

theorem function_of_holds (held : p.holds = true) : p.function = none := by
  cases p <;> first | rfl | cases held

/-- One thread's function is exchanged for another. -/
theorem count_set {threads : List Point} (here : threads[i]? = some p) (q : Point) (f : Entry) :
    p.function.toList.count f + ((threads.set i q).filterMap Point.function).count f =
      q.function.toList.count f + (threads.filterMap Point.function).count f := by
  have split : ∀ (p : Point) (rest : List Point),
      (p :: rest).filterMap Point.function = p.function.toList ++ rest.filterMap Point.function := by
    intro p rest
    cases runs : p.function <;> simp [runs]
  induction threads generalizing i with
  | nil => simp at here
  | cons first rest ih =>
    cases i with
    | zero =>
      obtain rfl : first = p := by simpa using here
      simp only [List.set_cons_zero,split,List.count_append]
      omega
    | succ i =>
      have rest := ih (i := i) (by simpa using here)
      simp only [List.set_cons_succ,split,List.count_append]
      omega

/-! ### Functions -/

/-- What every step keeps, besides the order of the queue. -/
structure Books (s : Scheduler) : Prop where
  conserved : ∀ f, s.scheduled.count f = s.functionQueue.count f + s.running.count f + s.finished.count f
  once : ∀ f, (s.started.map Prod.fst).count f = s.running.count f + s.finished.count f
  tickets : s.scheduled.map Entry.ticket = List.range s.scheduled.length
  sorted : s.functionQueue.Pairwise Earlier

theorem mem_scheduled (books : s.Books) {f : Entry} (waits : f ∈ s.functionQueue) : f.ticket < s.scheduled.length := by
  have member : f ∈ s.scheduled := by
    rw [← List.count_pos_iff,books.conserved f]
    have here := List.count_pos_iff.mpr waits
    omega
  have ticket : f.ticket ∈ s.scheduled.map Entry.ticket := List.mem_map_of_mem member
  rw [books.tickets] at ticket
  exact List.mem_range.mp ticket

/-- A later entry keeps the queue in order. -/
theorem sorted_emplace {f : Entry} {queue : List Entry} (sorted : queue.Pairwise Earlier)
    (last : ∀ g ∈ queue, g.ticket < f.ticket) :
    (emplace f queue).Pairwise Earlier := by
  induction queue with
  | nil => simp [emplace]
  | cons first rest ih =>
    obtain ⟨before,sorted⟩ := List.pairwise_cons.mp sorted
    have later := ih sorted (fun g member => last g (List.mem_cons_of_mem _ member))
    simp only [emplace,List.orderedInsert] at later ⊢
    split
    · next earlier =>
      refine List.pairwise_cons.mpr ⟨fun g member => ?_,List.pairwise_cons.mpr ⟨before,sorted⟩⟩
      rcases List.mem_cons.mp member with rfl | behind
      · exact .inl earlier
      · rcases before g behind with less | ⟨same,-⟩
        · exact .inl (earlier.trans less)
        · exact .inl (same ▸ earlier)
    · next notEarlier =>
      refine List.pairwise_cons.mpr ⟨fun g member => ?_,later⟩
      rcases (List.mem_orderedInsert _).mp member with rfl | behind
      · rcases lt_or_eq_of_le (not_lt.mp notEarlier) with less | same
        · exact .inl less
        · exact .inr ⟨same,last first List.mem_cons_self⟩
      · exact before g behind

theorem books_init (threadCount : Nat) (now : TimePoint) : (init threadCount now).Books := by
  have idle : (init threadCount now).running = [] := by
    simp [running,init,List.filterMap_eq_nil_iff,Point.function]
  refine ⟨fun f => ?_,fun f => ?_,rfl,List.Pairwise.nil⟩
  · rw [idle]; rfl
  · rw [idle]; rfl

/-- A thread moves from one point to another: the function of the old point, if
    any, has finished, and that of the new one was taken from the queue. -/
theorem books_move {q : Point} (books : s.Books) (here : s.threads[i]? = some p)
    (threads : t.threads = s.threads.set i q)
    (scheduled : t.scheduled = s.scheduled) (queue : s.functionQueue = q.function.toList ++ t.functionQueue)
    (started : t.started.map Prod.fst = s.started.map Prod.fst ++ q.function.toList)
    (finished : t.finished = s.finished ++ p.function.toList) : t.Books := by
  have exchanged : ∀ f, p.function.toList.count f + t.running.count f =
    q.function.toList.count f + s.running.count f := by
    intro f
    rw [running,threads]
    exact count_set here q f
  refine ⟨fun f => ?_,fun f => ?_,by rw [scheduled]; exact books.tickets,?_⟩
  · have before := books.conserved f
    have change := exchanged f
    rw [queue,List.count_append] at before
    rw [scheduled,finished,List.count_append]
    omega
  · have before := books.once f
    have change := exchanged f
    rw [started,finished,List.count_append,List.count_append]
    omega
  · exact (List.pairwise_append.mp (queue ▸ books.sorted)).2.1

theorem books_schedule (books : s.Books) (point : TimePoint) : ((Effect.schedule point).apply s).Books := by
  have last : ∀ g ∈ s.functionQueue, g.ticket < s.scheduled.length := fun g waits => mem_scheduled books waits
  refine ⟨fun f => ?_,books.once,?_,sorted_emplace books.sorted last⟩
  · have before := books.conserved f
    have more := (List.perm_orderedInsert (fun f g : Entry => f.point < g.point)
      ⟨point,s.scheduled.length⟩ s.functionQueue).count_eq f
    rw [List.count_cons] at more
    show (s.scheduled ++ [_]).count f = (emplace _ s.functionQueue).count f + s.running.count f + s.finished.count f
    rw [emplace,more,List.count_append,List.count_singleton]
    omega
  · show (s.scheduled ++ [_]).map Entry.ticket = List.range (s.scheduled ++ [_]).length
    rw [List.map_append,books.tickets,List.length_append,List.range_add]
    simp

theorem books_step (books : s.Books) (taken : s.step e = some t) : t.Books := by
  obtain ⟨c,-,allows,rfl⟩ := step_eq_some taken
  cases allows with
  | shift shifts =>
    obtain ⟨none,none'⟩ := shifts.idle
    exact books_move books shifts.here rfl rfl (by simp [Effect.apply,none']) (by simp [Effect.apply,none'])
      (by simp [Effect.apply,none])
  | pop here _ queue =>
    exact books_move books here rfl rfl (by simp [Effect.apply,queue,Point.function])
      (by simp [Effect.apply,Point.function])
      (by simp [Effect.apply,Point.function])
  | finish here =>
    exact books_move books here rfl rfl (by simp [Effect.apply,Point.function]) (by simp [Effect.apply,Point.function])
      (by simp [Effect.apply,Point.function])
  | exit here held _ =>
    exact books_move books here rfl rfl (by simp [Effect.apply,Point.function]) (by simp [Effect.apply,Point.function])
      (by simp [Effect.apply,function_of_holds held])
  | tick _ => exact ⟨books.conserved,books.once,books.tickets,books.sorted⟩
  | schedule _ _ => exact books_schedule books _
  | @stop drain _ => cases drain <;> exact ⟨books.conserved,books.once,books.tickets,books.sorted⟩

/-- A step starts nothing, or it starts the first function of the queue. -/
theorem started_step (taken : s.step e = some t) : t.started = s.started ∨
    ∃ f rest, s.stopRequested = false ∧ s.functionQueue = f :: rest ∧ t.started = s.started ++ [(f,s.now)] := by
  obtain ⟨c,-,allows,rfl⟩ := step_eq_some taken
  cases allows with
  | pop _ goesOn queue => exact .inr ⟨_,_,goesOn,queue,rfl⟩
  | @stop drain _ => cases drain <;> exact .inl rfl
  | _ => exact .inl rfl

theorem orderly_of_books (books : s.Books) : s.Orderly := by
  refine ⟨List.perm_iff_count.mpr (fun f => ?_),?_,List.perm_iff_count.mpr (fun f => ?_),
    fun e t f time taken starts => ?_,
    fun e t taken requested => ?_⟩
  · rw [books.conserved f,List.count_append,List.count_append]
  · refine List.Nodup.of_map Entry.ticket ?_
    rw [books.tickets]
    exact List.nodup_range
  · rw [books.once f,List.count_append]
  · rcases started_step taken with none | ⟨g,rest,-,queue,starts'⟩
    · simp [none] at starts
    · rw [starts',List.append_cancel_left_eq] at starts
      cases starts
      rw [queue]
      refine ⟨List.mem_cons_self,fun h member other => ?_⟩
      have sorted := books.sorted
      rw [queue] at sorted
      exact List.rel_of_pairwise_cons sorted ((List.mem_cons.mp member).resolve_left other)
  · rcases started_step taken with none | ⟨-,-,goesOn,-,-⟩
    · exact none
    · simp [requested] at goesOn

/-! ### Threads that are left -/

/-- A thread exits only after a stop, the threads that are left are counted, and
    while a function waits there is one of them. -/
structure Manned (s : Scheduler) : Prop where
  some : s.threads ≠ []
  counted : s.threadCount = s.threads.countP (· ≠ .exited)
  stopped : .exited ∈ s.threads → s.stopRequested = true ∨ s.stopWhenEmpty = true
  waited : s.stopRequested = false → s.functionQueue ≠ [] → ∃ p ∈ s.threads, p ≠ .exited

theorem manned_init {threadCount : Nat} (some : 0 < threadCount) (now : TimePoint) : (init threadCount now).Manned := by
  refine ⟨by simp [init,Nat.ne_of_gt some],by simp [init,List.countP_replicate],fun exited => ?_,
    fun _ waits => absurd rfl waits⟩
  simp [init] at exited

theorem mem_set_of_getElem? {threads : List Point} (here : threads[i]? = some p) (q : Point) : q ∈ threads.set i q :=
  List.mem_set (List.getElem?_eq_some_iff.mp here).1 q

theorem countP_set {threads : List Point} (here : threads[i]? = some p) (stays : p ≠ .exited) (q : Point) :
    ((threads.set i q).countP (· ≠ .exited) : Int) = threads.countP (· ≠ .exited) - if q = .exited then 1 else 0 := by
  obtain ⟨inside,rfl⟩ := List.getElem?_eq_some_iff.mp here
  have one := List.boole_getElem_le_countP (p := fun p : Point => decide (p ≠ .exited)) inside
  rw [List.countP_set inside]
  simp only [ne_eq,stays,not_false_eq_true,decide_true,if_true] at one ⊢
  by_cases ends : q = .exited
  · simp only [ends,not_true_eq_false,decide_false,if_true,Bool.false_eq_true,if_false]
    omega
  · simp only [ends,not_false_eq_true,decide_true,if_true,if_false]
    omega

/-- A thread moves on and does not exit. -/
theorem manned_move {q : Point} (manned : s.Manned) (here : s.threads[i]? = some p)
    (threads : t.threads = s.threads.set i q)
    (stays : p ≠ .exited ∧ q ≠ .exited) (count : t.threadCount = s.threadCount)
    (flags : t.stopRequested = s.stopRequested ∧ t.stopWhenEmpty = s.stopWhenEmpty) : t.Manned := by
  have left := mem_set_of_getElem? here q
  refine ⟨?_,?_,?_,fun _ _ => ⟨q,threads ▸ left,stays.2⟩⟩
  · rw [threads]
    exact List.ne_nil_of_mem left
  · rw [count,threads,manned.counted,countP_set here stays.1]
    simp [stays.2]
  · rw [threads,flags.1,flags.2]
    intro exited
    rcases List.mem_or_eq_of_mem_set exited with before | new
    · exact manned.stopped before
    · exact absurd new.symm stays.2

theorem manned_step (manned : s.Manned) (inner : s.Inner e) (taken : s.step e = some t) : t.Manned := by
  obtain ⟨c,-,allows,rfl⟩ := step_eq_some taken
  cases allows with
  | shift shifts => exact manned_move manned shifts.here rfl shifts.stays rfl ⟨rfl,rfl⟩
  | pop here _ _ => exact manned_move manned here rfl ⟨nofun,nofun⟩ rfl ⟨rfl,rfl⟩
  | finish here => exact manned_move manned here rfl ⟨nofun,nofun⟩ rfl ⟨rfl,rfl⟩
  | @exit i p here held ends =>
    have stays : p ≠ .exited := by rintro rfl; cases held
    refine ⟨List.ne_nil_of_mem (mem_set_of_getElem? here .exited),?_,fun _ => ends.imp_right And.left,
      fun goesOn waits => ?_⟩
    · show s.threadCount - 1 = _
      rw [manned.counted]
      exact (countP_set here stays .exited).symm
    · rcases ends with stopped | ⟨-,empty⟩
      · exact absurd (stopped.symm.trans goesOn) nofun
      · exact absurd empty waits
  | tick _ => exact ⟨manned.some,manned.counted,manned.stopped,manned.waited⟩
  | @schedule caller point free calls =>
    refine ⟨manned.some,manned.counted,manned.stopped,fun goesOn _ => ?_⟩
    cases caller with
    | none =>
      -- A call from elsewhere comes before any stop, so nobody has exited.
      obtain ⟨p,member⟩ := List.exists_mem_of_ne_nil _ manned.some
      refine ⟨p,member,?_⟩
      rintro rfl
      rcases manned.stopped member with stopped | drains
      · exact absurd (stopped.symm.trans goesOn) nofun
      · exact inner drains point rfl
    | some i =>
      obtain ⟨f,inside⟩ := Option.isSome_iff_exists.mp calls
      obtain ⟨p,here,runs⟩ := Option.bind_eq_some_iff.mp inside
      refine ⟨p,List.mem_of_getElem? here,?_⟩
      rintro rfl
      cases runs
  | @stop drain _ =>
    cases drain with
    | true => exact ⟨manned.some,manned.counted,fun _ => .inr rfl,manned.waited⟩
    | false => exact ⟨manned.some,manned.counted,fun _ => .inl rfl,nofun⟩

theorem drains_of_manned (manned : s.Manned) (es : List Event) : s.Drains es := by
  intro inner t done goesOn _ exited
  have left := (always_of_guarded (fun _ _ _ => manned_step) manned inner).last done
  refine ⟨?_,?_⟩
  · by_contra waits
    obtain ⟨p,member,stays⟩ := left.waited goesOn waits
    exact stays (exited p member)
  · have none : t.threads.countP (· ≠ .exited) = 0 :=
      List.countP_eq_zero.mpr (fun p member => by simp [exited p member])
    rw [left.counted,none]
    rfl

end

/-- A function is scheduled and the scheduler drained. -/
def unserved : List Event := [.schedule none 0,.stop true]

theorem not_drains_unserved : ¬ (init 0 0).Drains unserved := by
  intro drains
  have inner : Guarded step Inner (init 0 0) unserved := by
    intro s first
    refine ⟨nofun,fun t second => ⟨fun _ _ => nofun,trivial⟩⟩
  exact absurd (drains inner _ rfl rfl rfl nofun).1 (by decide)

/-- Every run is orderly, and every run that drains leaves nothing behind exactly
    when there is a thread. -/
theorem drains_iff (threadCount : Nat) :
    (∀ now es, Always step Orderly (init threadCount now) es) ∧
      ((∀ now es, (init threadCount now).Drains es) ↔ 0 < threadCount) := by
  refine ⟨fun now es => ?_,fun all => ?_,fun some now es => drains_of_manned (manned_init some now) es⟩
  · exact (always_of_invariant (fun _ _ _ => books_step) (books_init threadCount now) es).mono
      (fun _ => orderly_of_books)
  · by_contra none
    obtain rfl : threadCount = 0 := by omega
    exact not_drains_unserved (all 0 unserved)

/-- Without threads the function stays in the queue. -/
theorem drains_fails :
    ∃ s, run step (init 0 0) unserved = some s ∧ s.stopRequested = false ∧ s.stopWhenEmpty = true ∧ s.threads = [] ∧
      s.functionQueue = [⟨0,0⟩] ∧ ¬ (init 0 0).Drains unserved :=
  ⟨_,rfl,rfl,rfl,rfl,rfl,not_drains_unserved⟩

end LicodeClient.Scheduler
