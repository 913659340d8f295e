import LicodeClient.Scheduler.Drain

/-!
The ways of a thread through `ProcessFunctionQueue`, each with the tests on it.
`Walk` says once what a step of a thread can be, `Happens` what a step of the
scheduler can be; what follows about the lock, the time a thread waits for and the
number of threads is `Sound`.
-/
namespace LicodeClient.Scheduler
open LicodeClient.Run

/-- The points at which a thread waits on `queue_schedule_cv_`. -/
def Point.waits : Point → Bool
  | .sleeping | .sleepingUntil _ => true
  | _ => false

/-- From one point to the next, with the event that takes a thread there. -/
inductive Walk (s : Scheduler) (i : Nat) : Event → Point → Point → Prop where
  | enter : Walk s i (.turn i) .locking .idling
  | sleep (goesOn : s.stopRequested = false) (keeps : s.stopWhenEmpty = false) (empty : s.functionQueue = []) :
      Walk s i (.turn i) .idling .sleeping
  | rise : Walk s i (.turn i) .idling .aiming
  | wake : Walk s i (.wake i) .sleeping .woken
  | resume : Walk s i (.turn i) .woken .idling
  | aim {time : TimePoint} (first : ∀ f ∈ s.functionQueue.head?, f.point = time) :
      Walk s i (.turn i) .aiming (.awaiting time)
  | doze {time : TimePoint} (goesOn : s.stopRequested = false) (some : s.functionQueue ≠ []) :
      Walk s i (.turn i) (.awaiting time) (.sleepingUntil time)
  | check {time : TimePoint} (ends : s.stopRequested = true ∨ s.functionQueue = []) :
      Walk s i (.turn i) (.awaiting time) .checking
  | stir {time : TimePoint} : Walk s i (.wake i) (.sleepingUntil time) (.wokenUntil false)
  | expire {time : TimePoint} : Walk s i (.expire i) (.sleepingUntil time) (.wokenUntil true)
  | checkLate : Walk s i (.turn i) (.wokenUntil true) .checking
  | aimAgain : Walk s i (.turn i) (.wokenUntil false) .aiming
  | quit (stopped : s.stopRequested = true) : Walk s i (.turn i) .checking .exited
  | skip (goesOn : s.stopRequested = false) (empty : s.functionQueue = []) : Walk s i (.turn i) .checking .testing
  | pop {f : Entry} (goesOn : s.stopRequested = false) (first : s.functionQueue.head? = some f) :
      Walk s i (.turn i) .checking (.running f)
  | finish {f : Entry} : Walk s i (.turn i) (.running f) .relocking
  | relock : Walk s i (.turn i) .relocking .testing
  | again (goesOn : s.stopRequested = false) (more : s.stopWhenEmpty = true → s.functionQueue ≠ []) :
      Walk s i (.turn i) .testing .idling
  | leave (ends : s.stopRequested = true ∨ s.stopWhenEmpty = true ∧ s.functionQueue = []) :
      Walk s i (.turn i) .testing .exited

/-- What becomes of the lock when a thread walks. -/
inductive Hands (s t : Scheduler) (i : Nat) (p q : Point) : Prop where
  | takes (holds : q.holds = true) (mine : t.queueMutex = some i)
  | keeps (same : p.holds = q.holds) (kept : t.queueMutex = s.queueMutex)
  | gives (held : p.holds = true) (holds : q.holds = false) (free : t.queueMutex = none)

/-- A thread walks. It leaves the functions alone unless it takes the first one. -/
structure Walks (s t : Scheduler) (e : Event) (i : Nat) (p q : Point) : Prop where
  here : s.threads[i]? = some p
  threads : t.threads = s.threads.set i q
  walk : Walk s i e p q
  hands : Hands s t i p q
  count : t.threadCount = s.threadCount - if q = .exited then 1 else 0
  flags : t.stopRequested = s.stopRequested ∧ t.stopWhenEmpty = s.stopWhenEmpty
  time : t.scheduled = s.scheduled ∧ t.now = s.now
  queue : q.function = none ∧ t.functionQueue = s.functionQueue ∧ t.started = s.started ∨
    ∃ f, p = .checking ∧ q = .running f ∧ s.functionQueue = f :: t.functionQueue ∧
      t.started = s.started ++ [(f,s.now)]

/-- What can happen to a scheduler. -/
inductive Happens (s : Scheduler) : Event → Scheduler → Prop where
  | walks {e : Event} {t : Scheduler} {i : Nat} {p q : Point} (walks : Walks s t e i p q) : Happens s e t
  | tick {now : TimePoint} (later : s.now ≤ now) : Happens s (.tick now) { s with now }
  | schedule {caller : Option Nat} {point : TimePoint} (free : s.queueMutex = none) :
      Happens s (.schedule caller point) ((Effect.schedule point).apply s)
  | stop {drain : Bool} (free : s.queueMutex = none) : Happens s (.stop drain) ((Effect.stop drain).apply s)

section
variable {s t : Scheduler} {e : Event} {i : Nat} {p q : Point} {c : Effect}

/-- A walk without effect on the functions. -/
theorem walks_shift {mutex : Option Nat} (here : s.threads[i]? = some p) (walk : Walk s i e p q)
    (idle : q ≠ .exited ∧ q.function = none) (hands : Hands s ((Effect.shift i q mutex).apply s) i p q) :
    Walks s ((Effect.shift i q mutex).apply s) e i p q :=
  ⟨here,rfl,walk,hands,by simp [Effect.apply,idle.1],⟨rfl,rfl⟩,⟨rfl,rfl⟩,.inl ⟨idle.2,rfl,rfl⟩⟩

theorem walks_exit (here : s.threads[i]? = some p) (walk : Walk s i e p .exited) (held : p.holds = true) :
    Walks s ((Effect.exit i).apply s) e i p .exited :=
  ⟨here,rfl,walk,.gives held rfl rfl,rfl,⟨rfl,rfl⟩,⟨rfl,rfl⟩,.inl ⟨rfl,rfl,rfl⟩⟩

theorem walks_lock (here : s.threads[i]? = some p) (takes : s.lock i q = some c) (walk : Walk s i e p q)
    (holds : q.holds = true) : ∃ q, Walks s (c.apply s) e i p q := by
  have stays : q ≠ .exited := by rintro rfl; cases holds
  unfold lock at takes
  split at takes <;> cases takes
  exact ⟨q,walks_shift here walk ⟨stays,function_of_holds holds⟩ (.takes holds rfl)⟩

theorem walks_process (here : s.threads[i]? = some p) (does : s.processFunctionQueue i p = some c) :
    ∃ q, Walks s (c.apply s) (.turn i) i p q := by
  cases p with
  | locking => exact walks_lock here does .enter rfl
  | idling =>
    simp only [processFunctionQueue] at does
    split at does <;> cases does
    · next idle =>
      simp only [Bool.and_eq_true,Bool.not_eq_true',List.isEmpty_iff] at idle
      exact ⟨_,walks_shift here (.sleep idle.1.1 idle.1.2 idle.2) ⟨by simp,rfl⟩ (.gives rfl rfl rfl)⟩
    · exact ⟨_,walks_shift here .rise ⟨by simp,rfl⟩ (.keeps rfl rfl)⟩
  | woken => exact walks_lock here does .resume rfl
  | aiming =>
    cases does
    refine ⟨_,walks_shift here (.aim ?_) ⟨by simp,rfl⟩ (.keeps rfl rfl)⟩
    cases s.functionQueue with
    | nil => intro f first; cases first
    | cons f rest => rintro _ ⟨⟩; rfl
  | awaiting time =>
    simp only [processFunctionQueue] at does
    split at does <;> cases does
    · next waits =>
      simp only [Bool.and_eq_true,Bool.not_eq_true',List.isEmpty_eq_false_iff] at waits
      exact ⟨_,walks_shift here (.doze waits.1 waits.2) ⟨by simp,rfl⟩ (.gives rfl rfl rfl)⟩
    · next ends =>
      simp only [Bool.and_eq_true,Bool.not_eq_true',List.isEmpty_eq_false_iff,not_and,not_not] at ends
      refine ⟨_,walks_shift here (.check ?_) ⟨by simp,rfl⟩ (.keeps rfl rfl)⟩
      cases stopped : s.stopRequested with
      | true => exact .inl rfl
      | false => exact .inr (ends stopped)
  | wokenUntil timedOut =>
    cases timedOut with
    | true => exact walks_lock here does .checkLate rfl
    | false => exact walks_lock here does .aimAgain rfl
  | checking =>
    simp only [processFunctionQueue] at does
    split at does
    · next stopped => cases does; exact ⟨_,walks_exit here (.quit stopped) rfl⟩
    · next goesOn =>
      have goesOn : s.stopRequested = false := by simpa using goesOn
      split at does <;> cases does
      · next empty => exact ⟨_,walks_shift here (.skip goesOn empty) ⟨by simp,rfl⟩ (.keeps rfl rfl)⟩
      · next f rest queue =>
        refine ⟨.running f,here,rfl,.pop goesOn (by simp [queue]),.gives rfl rfl rfl,by simp [Effect.apply],⟨rfl,rfl⟩,
          ⟨rfl,rfl⟩,.inr ⟨f,rfl,rfl,?_,rfl⟩⟩
        simp [Effect.apply,queue]
  | running f =>
    cases does
    exact ⟨.relocking,here,rfl,.finish,.keeps rfl rfl,by simp [Effect.apply],⟨rfl,rfl⟩,⟨rfl,rfl⟩,.inl ⟨rfl,rfl,rfl⟩⟩
  | relocking => exact walks_lock here does .relock rfl
  | testing =>
    simp only [processFunctionQueue] at does
    split at does <;> cases does
    · next again =>
      simp only [Bool.and_eq_true,Bool.not_eq_true',Bool.and_eq_false_imp,List.isEmpty_eq_false_iff] at again
      exact ⟨_,walks_shift here (.again again.1 again.2) ⟨by simp,rfl⟩ (.keeps rfl rfl)⟩
    · next ends =>
      refine ⟨_,walks_exit here (.leave ?_) rfl⟩
      simp only [Bool.and_eq_true,Bool.not_eq_true',not_and,Bool.not_eq_false,List.isEmpty_iff] at ends
      cases stopped : s.stopRequested with
      | true => exact .inl rfl
      | false => exact .inr (ends stopped)
  | _ => cases does

theorem happens_of_step (taken : s.step e = some t) : Happens s e t := by
  obtain ⟨c,does,rfl⟩ := Option.map_eq_some_iff.mp taken
  cases e with
  | turn i =>
    obtain ⟨p,here,does⟩ := Option.bind_eq_some_iff.mp does
    obtain ⟨q,walks⟩ := walks_process here does
    exact .walks walks
  | wake i =>
    obtain ⟨p,here,does⟩ := Option.bind_eq_some_iff.mp does
    cases p <;> cases does
    · exact .walks (walks_shift here .wake ⟨by simp,rfl⟩ (.keeps rfl rfl))
    · exact .walks (walks_shift here .stir ⟨by simp,rfl⟩ (.keeps rfl rfl))
  | expire i =>
    obtain ⟨p,here,does⟩ := Option.bind_eq_some_iff.mp does
    cases p with
    | sleepingUntil time =>
      simp only [expire] at does
      split at does <;> cases does
      exact .walks (walks_shift here .expire ⟨by simp,rfl⟩ (.keeps rfl rfl))
    | _ => cases does
  | tick now =>
    simp only [effect] at does
    split at does <;> cases does
    exact .tick (by assumption)
  | schedule caller point =>
    simp only [effect] at does
    split at does <;> cases does
    next can => exact .schedule can.1
  | stop drain =>
    simp only [effect] at does
    split at does <;> cases does
    exact .stop (by assumption)

/-- A thread walks by its own events. -/
theorem Walk.event (walk : Walk s i e p q) : e = .turn i ∨ e = .wake i ∨ e = .expire i := by
  cases walk <;> simp

theorem Walk.stays (walk : Walk s i e p q) : p ≠ .exited := by
  cases walk <;> simp

/-! ### The lock, the time waited for and the number of threads -/

/-- The lock is with a thread that needs it, a thread that is about to wait for a
    time has it from the first entry, a thread that waits for a time has it from an
    entry, and the threads that are left are counted. -/
structure Sound (s : Scheduler) : Prop where
  exclusive : s.Exclusive
  held : ∀ i, s.queueMutex = some i → ∃ p, s.threads[i]? = some p ∧ p.holds = true
  aimed : ∀ (i : Nat) time, s.threads[i]? = some (.awaiting time) → ∀ f ∈ s.functionQueue.head?, f.point = time
  dozes : ∀ (i : Nat) time, s.threads[i]? = some (.sleepingUntil time) → ∃ f ∈ s.scheduled, f.point = time
  counted : s.threadCount = s.threads.countP (· ≠ .exited)
  books : s.Books

theorem sound_init (threadCount : Nat) (now : TimePoint) : (init threadCount now).Sound := by
  have start : ∀ (i : Nat) p, (init threadCount now).threads[i]? = some p → p = .locking := by
    intro i p here
    have both : i < threadCount ∧ Point.locking = p := by simpa [init,List.getElem?_replicate] using here
    exact both.2.symm
  refine ⟨exclusive_init threadCount now,by simp [init],fun i time here => ?_,fun i time here => ?_,?_,
    books_init threadCount now⟩
  · cases start i _ here
  · cases start i _ here
  · simp [init,List.countP_replicate]

/-- A waiting function was scheduled. -/
theorem Books.scheduled (books : s.Books) {f : Entry} (waits : f ∈ s.functionQueue) : f ∈ s.scheduled := by
  rw [← List.count_pos_iff,books.conserved f]
  have here := List.count_pos_iff.mpr waits
  omega

/-- The lock stays with a thread that needs it. -/
theorem held_walks (sound : s.Sound) (walks : Walks s t e i p q) (j : Nat) (mine : t.queueMutex = some j) :
    ∃ r, t.threads[j]? = some r ∧ r.holds = true := by
  have inside := (List.getElem?_eq_some_iff.mp walks.here).1
  have moved : t.threads[i]? = some q := by rw [walks.threads,List.getElem?_set_self inside]
  rcases walks.hands with ⟨holds,taken⟩ | ⟨same,kept⟩ | ⟨-,-,free⟩
  · obtain rfl : i = j := Option.some.inj (taken.symm.trans mine)
    exact ⟨q,moved,holds⟩
  · obtain ⟨r,there,holds⟩ := sound.held j (kept.symm.trans mine)
    by_cases other : j = i
    · subst other
      cases walks.here.symm.trans there
      exact ⟨q,moved,same.symm.trans holds⟩
    · refine ⟨r,?_,holds⟩
      rw [walks.threads,List.getElem?_set_ne (Ne.symm other)]
      exact there
  · cases free.symm.trans mine

/-- A thread that is about to wait has the lock, so that nobody takes a function. -/
theorem aimed_walks (sound : s.Sound) (walks : Walks s t e i p q) (j : Nat) (time : TimePoint)
    (there : t.threads[j]? = some (.awaiting time)) : ∀ f ∈ t.functionQueue.head?, f.point = time := by
  revert j time there
  rw [walks.threads]
  have others : ∀ j r, j ≠ i → s.threads[j]? = some r → ∀ time, r = .awaiting time →
      ∀ f ∈ t.functionQueue.head?, f.point = time := by
    rintro j r other there time rfl
    rcases walks.queue with ⟨-,queue,-⟩ | ⟨f,rfl,-,-,-⟩
    · rw [queue]
      exact sound.aimed j time there
    · have mine := sound.exclusive i _ walks.here rfl
      rw [sound.exclusive j _ there rfl] at mine
      exact absurd (Option.some.inj mine) other
  have all := forall_set (P := fun _ r => ∀ time, r = .awaiting time → ∀ f ∈ t.functionQueue.head?, f.point = time)
    (p := q) ?_ others
  · exact fun j time there => all j _ there time rfl
  · rintro time rfl
    rcases walks.queue with ⟨-,queue,-⟩ | ⟨f,-,runs,-⟩
    · rw [queue]
      cases walks.walk with
      | aim first => exact first
    · cases runs

theorem dozes_walks (sound : s.Sound) (walks : Walks s t e i p q) (j : Nat) (time : TimePoint)
    (there : t.threads[j]? = some (.sleepingUntil time)) : ∃ f ∈ t.scheduled, f.point = time := by
  revert j time there
  rw [walks.threads,walks.time.1]
  have others : ∀ j r, j ≠ i → s.threads[j]? = some r → ∀ time, r = .sleepingUntil time →
      ∃ f ∈ s.scheduled, f.point = time :=
    fun j r _ there time same => sound.dozes j time (same ▸ there)
  have all := forall_set (P := fun _ r => ∀ time, r = .sleepingUntil time → ∃ f ∈ s.scheduled, f.point = time)
    (p := q) ?_ others
  · exact fun j time there => all j _ there time rfl
  · rintro time rfl
    have here := walks.here
    cases walks.walk with
    | doze goesOn some =>
      obtain ⟨f,rest,queue⟩ := List.exists_cons_of_ne_nil some
      have aimed := sound.aimed i time here f (by simp [queue])
      exact ⟨f,sound.books.scheduled (by simp [queue]),aimed⟩

theorem sound_walks (sound : s.Sound) (walks : Walks s t e i p q) (exclusive : t.Exclusive) (books : t.Books) :
    t.Sound := by
  refine ⟨exclusive,held_walks sound walks,aimed_walks sound walks,dozes_walks sound walks,?_,books⟩
  rw [walks.count,walks.threads,sound.counted,countP_set walks.here walks.walk.stays]

theorem sound_step (sound : s.Sound) (taken : s.step e = some t) : t.Sound := by
  have exclusive := exclusive_step sound.exclusive taken
  have books := books_step sound.books taken
  cases happens_of_step taken with
  | walks walks => exact sound_walks sound walks exclusive books
  | tick _ => exact ⟨exclusive,sound.held,sound.aimed,sound.dozes,sound.counted,books⟩
  | schedule free =>
    refine ⟨exclusive,sound.held,fun i time here => ?_,fun i time here => ?_,sound.counted,books⟩
    · cases free.symm.trans (sound.exclusive i _ here rfl)
    · obtain ⟨f,member,point⟩ := sound.dozes i time here
      exact ⟨f,List.mem_append_left _ member,point⟩
  | @stop drain free =>
    cases drain <;> exact ⟨exclusive,sound.held,sound.aimed,sound.dozes,sound.counted,books⟩

/-! ### Steps that can be taken -/

theorem process_of_holds (holds : p.holds = true) (i : Nat) : ∃ c, s.processFunctionQueue i p = some c := by
  cases p with
  | idling | awaiting time | testing =>
    simp only [processFunctionQueue]
    split <;> exact ⟨_,rfl⟩
  | aiming => exact ⟨_,rfl⟩
  | checking =>
    simp only [processFunctionQueue]
    split
    · exact ⟨_,rfl⟩
    · split <;> exact ⟨_,rfl⟩
  | _ => cases holds

theorem process_of_free (free : s.queueMutex = none) (stays : p ≠ .exited) (awake : p.waits = false) (i : Nat) :
    ∃ c, s.processFunctionQueue i p = some c := by
  cases p with
  | locking | woken | relocking => exact ⟨_,if_pos free⟩
  | wokenUntil timedOut => cases timedOut <;> exact ⟨_,if_pos free⟩
  | running f => exact ⟨_,rfl⟩
  | sleeping | sleepingUntil time => cases awake
  | exited => exact absurd rfl stays
  | _ => exact process_of_holds rfl i

theorem step_turn (here : s.threads[i]? = some p) (does : ∃ c, s.processFunctionQueue i p = some c) :
    ∃ t, s.step (.turn i) = some t := by
  obtain ⟨c,does⟩ := does
  exact ⟨c.apply s,by simp [step,effect,here,does]⟩

/-- A thread that does not wait can go on, or another one has the lock and can. -/
theorem exists_turn (sound : s.Sound) (here : s.threads[i]? = some p) (stays : p ≠ .exited) (awake : p.waits = false) :
    ∃ j t, s.step (.turn j) = some t := by
  cases mutex : s.queueMutex with
  | some j =>
    obtain ⟨r,there,holds⟩ := sound.held j mutex
    exact ⟨j,step_turn there (process_of_holds holds j)⟩
  | none => exact ⟨i,step_turn here (process_of_free mutex stays awake i)⟩

/-- A thread that waits can be woken. -/
theorem step_wake (here : s.threads[i]? = some p) (waits : p.waits = true) : ∃ t, s.step (.wake i) = some t := by
  cases p with
  | sleeping | sleepingUntil time =>
    exact ⟨_,by simp only [step,effect,here,Option.bind_some,wake,Option.map_some]; rfl⟩
  | _ => cases waits

/-- A thread whose time has come can time out. -/
theorem step_expire {time : TimePoint} (here : s.threads[i]? = some (.sleepingUntil time)) (late : time ≤ s.now) :
    ∃ t, s.step (.expire i) = some t :=
  ⟨_,by simp only [step,effect,here,Option.bind_some,expire,if_pos late,Option.map_some]; rfl⟩

end
end LicodeClient.Scheduler
