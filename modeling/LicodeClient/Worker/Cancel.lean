import LicodeClient.Worker

/-!
Cancelling what was scheduled. `ScheduleFromNow` keeps the reference of a task
that it has scheduled to itself and returns an empty pointer; the reference that
it does return, when `scheduler_` cannot be locked, belongs to no task. So no task
is ever dropped as cancelled, and `Unschedule` before a task has started is a call
on an empty pointer.
-/
namespace LicodeClient.Worker
open LicodeClient.Run

/-- A call that was unscheduled before its task was started is never started, and
    nothing else is dropped. -/
structure Effective (w : Worker) : Prop where
  unstarted : ∀ call ∈ w.unscheduled, call ∉ w.started
  only : ∀ job ∈ w.dropped, ∃ call ∈ w.unscheduled, job = .once call

/-- `Unschedule` before the task was started comes to its end. -/
def Succeeds (w : Worker) : Event → Prop
  | .unschedule call => call ∉ w.started → ∀ w', w.step (.unschedule call) = some w' → w'.crashed = none
  | _ => True

/-- A call that is unscheduled before its task was started had found no scheduler. -/
def Unlocked (w : Worker) : Event → Prop
  | .unschedule call => call ∉ w.started → ∀ made, w.calls[call]? = some made → made.locked = false
  | _ => True

/-! ### The references of what is pending -/

/-- The reference of a job is not cancelled, and no call has returned it; the job
    of a call is pending only when the call has found the scheduler. -/
structure Hidden (cancelled : List Bool) (calls : List Call) (ref : Nat) (job : Job) : Prop where
  made : ref < cancelled.length
  kept : cancelled.getD ref false = false
  unknown : ∀ call ∈ calls, call.returned ≠ some ref
  locked : ∀ i, job = .once i → ∃ call, calls[i]? = some call ∧ call.locked = true

section
variable {cancelled : List Bool} {calls : List Call} {ref : Nat} {job : Job}

theorem Hidden.grow (hidden : Hidden cancelled calls ref job) {more : List Call}
    (unknown : ∀ call ∈ more, call.returned ≠ some ref) : Hidden (cancelled ++ [false]) (calls ++ more) ref job where
  made := by simpa using Nat.lt_succ_of_lt hidden.made
  kept := by
    rw [List.getD_eq_getElem?_getD,List.getElem?_append_left hidden.made,← List.getD_eq_getElem?_getD]
    exact hidden.kept
  unknown call member := (List.mem_append.mp member).elim (hidden.unknown call) (unknown call)
  locked i same := by
    obtain ⟨call,found,locked⟩ := hidden.locked i same
    exact ⟨call,by rwa [List.getElem?_append_left (List.getElem?_eq_some_iff.mp found).1],locked⟩

theorem hidden_new (older : ∀ call ∈ calls, ∀ ref, call.returned = some ref → ref < cancelled.length)
    (locked : ∀ i, job = .once i → ∃ call, calls[i]? = some call ∧ call.locked = true) :
    Hidden (cancelled ++ [false]) calls cancelled.length job where
  made := by simp
  kept := by simp
  unknown call member same := Nat.lt_irrefl _ (older call member _ same)
  locked := locked

theorem Hidden.cancel (hidden : Hidden cancelled calls ref job) {call : Call} {other : Nat} (member : call ∈ calls)
    (returned : call.returned = some other) : Hidden (cancelled.set other true) calls ref job where
  made := by simpa using hidden.made
  kept := by
    have apart : other ≠ ref := by
      rintro rfl
      exact hidden.unknown call member returned
    rw [List.getD_eq_getElem?_getD,List.getElem?_set_ne apart,← List.getD_eq_getElem?_getD]
    exact hidden.kept
  unknown := hidden.unknown
  locked := hidden.locked

end

/-! ### Every step -/

/-- What every step keeps: the references of what is pending stay hidden, and only
    calls without a task are unscheduled. -/
structure Concealing (w : Worker) : Prop where
  empty : ∀ call ∈ w.calls, call.returned = none ↔ call.locked = true
  older : ∀ call ∈ w.calls, ∀ ref, call.returned = some ref → ref < w.cancelled.length
  hidden : ∀ p ∈ w.pendings, Hidden w.cancelled w.calls p.ref p.job
  unlocked : w.crashed = none → ∀ i ∈ w.unscheduled, ∃ call, w.calls[i]? = some call ∧ call.locked = false
  unstarted : ∀ i ∈ w.unscheduled, i ∉ w.started
  none_dropped : w.dropped = []

section
variable {w w' : Worker}

theorem concealing_init : init.Concealing := by constructor <;> simp [init,pendings]

theorem Concealing.effective (kept : w.Concealing) : w.Effective := by
  refine ⟨kept.unstarted,?_⟩
  rw [kept.none_dropped]
  exact fun job member => absurd member List.not_mem_nil

/-- A step that only moves what is pending. -/
theorem Concealing.move (kept : w.Concealing) (alive : w.crashed = none)
    (carried : ∀ p ∈ w'.pendings, ∃ q ∈ w.pendings, q.ref = p.ref ∧ q.job = p.job)
    (same : (w'.cancelled,w'.calls,w'.unscheduled,w'.started,w'.dropped) =
      (w.cancelled,w.calls,w.unscheduled,w.started,w.dropped)) : w'.Concealing := by
  simp only [Prod.mk.injEq] at same
  obtain ⟨cancelled,calls,unscheduled,started,dropped⟩ := same
  constructor
  · rw [calls]
    exact kept.empty
  · rw [calls,cancelled]
    exact kept.older
  · intro p member
    obtain ⟨q,was,ref,job⟩ := carried p member
    rw [calls,cancelled,← ref,← job]
    exact kept.hidden q was
  · intro _
    rw [calls,unscheduled]
    exact kept.unlocked alive
  · rw [unscheduled,started]
    exact kept.unstarted
  · rw [dropped]
    exact kept.none_dropped

theorem Concealing.chains (kept : w.Concealing) (chains : List Chain) : ({ w with chains } : Worker).Concealing :=
  ⟨kept.empty,kept.older,kept.hidden,kept.unlocked,kept.unstarted,kept.none_dropped⟩

theorem carried_of_perm {p p' : Pending} {rest : List Pending} (before : w.pendings.Perm (p :: rest))
    (after : w'.pendings.Perm (p' :: rest)) (ref : p.ref = p'.ref) (job : p.job = p'.job) :
    ∀ q' ∈ w'.pendings, ∃ q ∈ w.pendings, q.ref = q'.ref ∧ q.job = q'.job := by
  intro q' member
  rcases List.mem_cons.mp (after.mem_iff.mp member) with rfl | member
  · exact ⟨p,before.mem_iff.mpr List.mem_cons_self,ref,job⟩
  · exact ⟨q',before.mem_iff.mpr (List.mem_cons_of_mem _ member),rfl,rfl⟩

theorem carried_of_subset (fewer : w'.pendings ⊆ w.pendings) :
    ∀ q' ∈ w'.pendings, ∃ q ∈ w.pendings, q.ref = q'.ref ∧ q.job = q'.job :=
  fun q' member => ⟨q',fewer member,rfl,rfl⟩

/-- What is pending after something was scheduled, whoever has called. -/
theorem Concealing.hidden_scheduled (kept : w.Concealing) (job : Job) (duration now : Int) (more : List Call)
    (older : ∀ call ∈ more, call.returned = none ∨ call.returned = some w.cancelled.length)
    (locked : w.scheduler = true → (∀ call ∈ more, call.returned = none) ∧
      ∀ i, job = .once i → ∃ call, (w.calls ++ more)[i]? = some call ∧ call.locked = true) :
    ∀ p ∈ (w.scheduleFromNow job duration now).1.pendings,
      Hidden (w.cancelled ++ [false]) (w.calls ++ more) p.ref p.job := by
  intro p member
  rcases List.mem_append.mp ((pendings_scheduleFromNow job duration now).mem_iff.mp member) with new | old
  · split at new
    · next scheduler =>
      cases List.mem_singleton.mp new
      obtain ⟨none,found⟩ := locked scheduler
      refine hidden_new (fun call member ref returned => ?_) found
      rcases List.mem_append.mp member with old | new
      · exact kept.older call old ref returned
      · rw [none call new] at returned
        cases returned
    · cases new
  · have hidden := kept.hidden p old
    refine hidden.grow (fun call member same => ?_)
    rcases older call member with none | fresh
    · rw [none] at same
      cases same
    · exact absurd hidden.made (by rw [Option.some.inj (fresh.symm.trans same)]; exact Nat.lt_irrefl _)

/-- A loop is scheduled. -/
theorem Concealing.scheduleLoop (kept : w.Concealing) (chain : Nat) (l : Loop) (now : Int) :
    (w.scheduleLoop chain l now).Concealing := by
  have hidden := kept.hidden_scheduled (.every chain l) (max l.nextDelay 0) now [] (by simp) (by simp)
  unfold Worker.scheduleLoop
  rw [scheduleFromNow_fst] at hidden ⊢
  refine ⟨kept.empty,fun call member ref returned => ?_,?_,kept.unlocked,kept.unstarted,kept.none_dropped⟩
  · simpa using Nat.lt_succ_of_lt (kept.older call member ref returned)
  · simpa using hidden

/-- `ScheduleFromNow` is called. -/
theorem Concealing.call (kept : w.Concealing) (duration now : Int) :
    ({ (w.scheduleFromNow (.once w.calls.length) duration now).1 with
      calls := w.calls ++
        [⟨w.scheduler,(w.scheduleFromNow (.once w.calls.length) duration now).2⟩] } : Worker).Concealing := by
  have returned : (w.scheduleFromNow (.once w.calls.length) duration now).2 =
      if w.scheduler then none else some w.cancelled.length := by
    unfold scheduleFromNow
    cases w.scheduler <;> rfl
  have hidden := kept.hidden_scheduled (.once w.calls.length) duration now
    [⟨w.scheduler,if w.scheduler then none else some w.cancelled.length⟩]
    (by cases w.scheduler <;> simp) (by intro scheduler; simp [scheduler])
  rw [returned]
  rw [scheduleFromNow_fst] at hidden ⊢
  constructor
  · intro call member
    rcases List.mem_append.mp member with old | new
    · exact kept.empty call old
    · cases List.mem_singleton.mp new
      cases w.scheduler <;> simp
  · intro call member ref same
    rw [List.length_append,List.length_singleton]
    rcases List.mem_append.mp member with old | new
    · exact Nat.lt_succ_of_lt (kept.older call old ref same)
    · cases List.mem_singleton.mp new
      cases scheduler : w.scheduler with
      | false =>
        simp only [scheduler] at same
        cases same
        exact Nat.lt_succ_self _
      | true => simp [scheduler] at same
  · exact hidden
  · intro alive i member
    obtain ⟨call,found,locked⟩ := kept.unlocked alive i member
    exact ⟨call,by rwa [List.getElem?_append_left (List.getElem?_eq_some_iff.mp found).1],locked⟩
  · exact kept.unstarted
  · exact kept.none_dropped

/-- `Unschedule` is called. -/
theorem Concealing.cancel (kept : w.Concealing) (alive : w.crashed = none) {i : Nat} {made : Call}
    (found : w.calls[i]? = some made) :
    ({ w.unschedule made.returned with
      unscheduled := if w.started.contains i then w.unscheduled else w.unscheduled ++ [i] } : Worker).Concealing := by
  have member := List.mem_of_getElem? found
  have unstarted : ∀ j ∈ (if w.started.contains i then w.unscheduled else w.unscheduled ++ [i]), j ∉ w.started := by
    intro j member
    split at member
    · exact kept.unstarted j member
    · next before =>
      rcases List.mem_append.mp member with old | new
      · exact kept.unstarted j old
      · cases List.mem_singleton.mp new
        simpa using before
  cases returned : made.returned with
  | none =>
    have ends : (w.unschedule none).crashed ≠ none := by simp [unschedule]
    exact ⟨kept.empty,kept.older,kept.hidden,fun crashed => absurd crashed ends,unstarted,kept.none_dropped⟩
  | some ref =>
    have hidden : ∀ p ∈ w.pendings, Hidden (w.cancelled.set ref true) w.calls p.ref p.job :=
      fun p pending => (kept.hidden p pending).cancel member returned
    refine ⟨kept.empty,?_,hidden,?_,unstarted,kept.none_dropped⟩
    · intro call member ref same
      simpa [unschedule] using kept.older call member ref same
    · intro _ j member
      have unlocked : made.locked = false := by
        have empty := kept.empty made (List.mem_of_getElem? found)
        simpa [returned] using empty
      split at member
      · exact kept.unlocked alive j member
      · rcases List.mem_append.mp member with old | new
        · exact kept.unlocked alive j old
        · cases List.mem_singleton.mp new
          exact ⟨made,found,unlocked⟩

/-- A task is started that no call has cancelled. -/
theorem Concealing.begin (kept : w.Concealing) (alive : w.crashed = none) {h : Handler} {rest : List Handler}
    {time : Int} (idle : w.current = none) (queue : w.queue = h :: rest) :
    ({ w with queue := rest, current := some ⟨time,h.ref,h.job⟩ }.invoke time h.job).Concealing := by
  obtain ⟨others,before,after⟩ := pendings_begin idle queue time
  have moved : ({ w with queue := rest, current := some ⟨time,h.ref,h.job⟩ } : Worker).Concealing :=
    kept.move alive (carried_of_perm before after rfl rfl) rfl
  have hidden := kept.hidden h.pending (before.mem_iff.mpr List.mem_cons_self)
  obtain ⟨posted,ref,job⟩ := h
  cases job with
  | once i =>
    refine ⟨moved.empty,moved.older,moved.hidden,moved.unlocked,?_,moved.none_dropped⟩
    intro j member started
    rcases List.mem_append.mp started with old | new
    · exact kept.unstarted j member old
    · -- The call that has found the scheduler is none of those that were unscheduled.
      cases List.mem_singleton.mp new
      obtain ⟨call,found,locked⟩ := hidden.locked i rfl
      obtain ⟨call',found',unlocked⟩ := kept.unlocked alive i member
      cases found.symm.trans found'
      exact absurd (locked.symm.trans unlocked) (by decide)
  | every chain l => exact moved.chains _

/-- The end of a task. -/
theorem Concealing.conclude (kept : w.Concealing) (job : Job) (ended start now : Int) (outcome : Outcome) :
    (w.conclude job ended start now outcome).Concealing := by
  have crashes : ({ w with crashed := some .exception } : Worker).Concealing :=
    ⟨kept.empty,kept.older,kept.hidden,fun crashed => absurd crashed (by simp),kept.unstarted,kept.none_dropped⟩
  cases job with
  | once i =>
    rcases outcome with (_ | _) | (_ | _)
    exacts [kept,kept,crashes,kept]
  | every chain l =>
    have next := kept.scheduleLoop chain (l.again ended start now) now
    rcases outcome with (_ | _) | (_ | _)
    exacts [kept,next.chains _,crashes,kept]

theorem Concealing.noteEnd (kept : w.Concealing) (outcome : Outcome) (job : Job) :
    (w.noteEnd outcome job).Concealing := by
  cases job with
  | once i => exact kept
  | every chain l => exact kept.chains _

theorem alive_of_step {e : Event} (taken : w.step e = some w') : w.crashed = none := by
  unfold step at taken
  split at taken
  · assumption
  · cases taken

theorem concealing_step {e : Event} (kept : w.Concealing) (taken : w.step e = some w') : w'.Concealing := by
  have alive := alive_of_step taken
  cases step_change taken with
  | call duration now => exact kept.call duration now
  | cancel found => exact kept.cancel alive found
  | loop period later => exact (kept.scheduleLoop _ _ _).chains _
  | fire found due =>
    obtain ⟨rest,before,after⟩ := pendings_fire found _
    exact kept.move alive (carried_of_perm before after rfl rfl) rfl
  | drop queue cancelled =>
    -- No reference of what is pending was ever cancelled.
    have hidden := kept.hidden _ ((pendings_drop queue []).mem_iff.mpr List.mem_cons_self)
    exact absurd (hidden.kept.symm.trans cancelled) (by decide)
  | begin idle queue uncancelled later => exact kept.begin alive idle queue
  | finish outcome busy ends starts later =>
    have fewer : ({ w with current := none } : Worker).pendings ⊆ w.pendings :=
      fun p member => (pendings_finish busy).mem_iff.mpr (List.mem_cons_of_mem _ member)
    exact ((kept.move alive (carried_of_subset fewer) rfl).noteEnd outcome _).conclude _ _ _ _ outcome
  | expire => exact kept.move alive (carried_of_subset (List.Subset.refl _)) rfl
  | discard => exact kept.move alive (carried_of_subset pendings_discard.subset) rfl

/-- The call is on an empty pointer exactly when the scheduler had been found. -/
theorem succeeds_iff {e : Event} (kept : w.Concealing) (taken : w.step e = some w') : w.Succeeds e ↔ w.Unlocked e := by
  cases e with
  | unschedule i =>
    refine imp_congr_right (fun _ => ?_)
    have alive := alive_of_step taken
    rw [step,if_pos alive] at taken
    obtain ⟨made,found,rest⟩ := Option.bind_eq_some_iff.mp taken
    have empty := kept.empty made (List.mem_of_getElem? found)
    have steps : w.step (.unschedule i) = some w' := by rw [step,if_pos alive]; exact taken
    simp only [steps,found,Option.some.injEq,forall_eq']
    cases rest
    cases returned : made.returned with
    | none => simp [unschedule,empty.mp returned]
    | some ref =>
      have unlocked : made.locked = false := by simpa [returned] using empty
      simp [unschedule,alive,unlocked]
  | _ => exact Iff.rfl

end

/-- Cancelling works exactly in the runs in which nothing is unscheduled that was
    scheduled and has not started. -/
theorem cancels_iff (es : List Event) :
    Always step Effective init es ∧ Guarded step Succeeds init es ↔ Guarded step Unlocked init es := by
  have keep : ∀ w e w', Concealing w → step w e = some w' → Concealing w' :=
    fun _ _ _ kept taken => concealing_step kept taken
  have same : Guarded step Succeeds init es ↔ Guarded step Unlocked init es :=
    guarded_congr keep (fun _ _ _ kept taken => succeeds_iff kept taken) concealing_init es
  rw [same]
  exact and_iff_right ((always_of_invariant keep concealing_init es).mono (fun _ kept => kept.effective))

/-- A task is scheduled in ten milliseconds and cancelled at once. -/
theorem cancels_fails :
    ¬(Always step Effective init [.scheduleFromNow 10000000 0,.unschedule 0] ∧
      Guarded step Succeeds init [.scheduleFromNow 10000000 0,.unschedule 0]) := by
  rintro ⟨-,all⟩
  obtain ⟨-,rest⟩ := all _ rfl
  obtain ⟨succeeds,-⟩ := rest _ rfl
  exact absurd (succeeds (by decide) _ rfl) (by decide)

end LicodeClient.Worker
