import LicodeClient.Worker
import Mathlib.Algebra.BigOperators.Group.List.Basic
import Mathlib.Tactic.Ring

/-!
The periodic tasks of a worker. A rescheduling aims at the target before it plus
the period, and the time between its two readings of the clock (`Loop.again`), so
what a late invocation loses is made up for by the next delay. Of a chain at most
one invocation is pending, whatever else the worker has to do, and none once the
task has returned `false` or thrown.
-/
namespace LicodeClient.Worker
open LicodeClient.Run

/-- The loop and the stage of what is pending for a chain. -/
def Pending.of (chain : Nat) (p : Pending) : Option (Loop × Stage) :=
  match p.job with
  | .once _ => none
  | .every i l => if i = chain then some (l,p.stage) else none

def pendingOf (w : Worker) (chain : Nat) : List (Loop × Stage) := w.pendings.filterMap (Pending.of chain)

/-- The targets are a period apart but for the gaps, an invocation comes less than
    a millisecond before its target, and none comes after the task has ended the
    chain. -/
structure Chain.Paced (c : Chain) : Prop where
  aimed : ∀ (k : Nat) target, c.targets[k]? = some target →
    target = c.made + (k + 1) * c.period + (c.gaps.take k).sum
  prompt : ∀ (k : Nat) time, c.invocations[k]? = some time →
    ∃ target, c.targets[k]? = some target ∧ target - millisecond < time
  ended : ∀ n, c.stopped = some n → c.invocations.length = n

/-- Every chain is paced, and at most one of its invocations is pending. -/
structure Steady (w : Worker) : Prop where
  paced : ∀ c ∈ w.chains, c.Paced
  single : ∀ i, (w.pendingOf i).length ≤ 1

/-! ### One chain -/

theorem getElem?_concat_cases {α : Type} {as : List α} {a b : α} {k : Nat} (found : (as ++ [a])[k]? = some b) :
    as[k]? = some b ∨ (k = as.length ∧ a = b) := by
  rcases Nat.lt_trichotomy k as.length with old | here | beyond
  · exact .inl (by rwa [List.getElem?_append_left old] at found)
  · rw [here,List.getElem?_concat_length] at found
    exact .inr ⟨here,Option.some.inj found⟩
  · rw [List.getElem?_eq_none (by simp; omega)] at found
    cases found

/-- What is pending for a chain goes with the last target. -/
structure Chain.Fits (c : Chain) (l : Loop) (s : Stage) : Prop where
  period : l.period = c.period
  aim : c.targets.getLast? = some l.target
  going : c.stopped = none
  stage : match s with
    | .waiting time | .posted time => c.invocations.length + 1 = c.targets.length ∧ l.target - millisecond < time
    | .running _ => c.invocations.length = c.targets.length

/-- A chain and what is pending for it. -/
structure Chain.Kept (c : Chain) (pending : List (Loop × Stage)) : Prop extends Chain.Paced c where
  length : c.targets.length = c.gaps.length + 1
  single : pending.length ≤ 1
  fits : ∀ x ∈ pending, c.Fits x.1 x.2

section
variable {c : Chain} {l : Loop} {pending pending' : List (Loop × Stage)}

theorem Chain.Kept.subperm (kept : c.Kept pending) (fewer : pending'.Subperm pending) : c.Kept pending' where
  toPaced := kept.toPaced
  length := kept.length
  single := fewer.length_le.trans kept.single
  fits x member := kept.fits x (fewer.subset member)

/-- What is pending alone. -/
theorem Chain.Kept.head {s : Stage} (kept : c.Kept ((l,s) :: pending)) : pending = [] ∧ c.Fits l s := by
  have single := kept.single
  rw [List.length_cons] at single
  exact ⟨List.length_eq_zero_iff.mp (by omega),kept.fits (l,s) List.mem_cons_self⟩

theorem kept_first (period start now : Int) (later : start ≤ now) :
    let l := LicodeClient.scheduleEvery period period start now
    Chain.Kept ⟨period,start,[l.target],[],[],none⟩ [(l,.waiting l.point)] := by
  intro l
  refine ⟨⟨?_,by simp,by simp⟩,rfl,Nat.le_refl _,?_⟩
  · intro k target found
    cases k with
    | zero =>
      cases found
      simp [l,Loop.target,LicodeClient.scheduleEvery]
    | succ k => simp at found
  · intro x member
    cases List.mem_singleton.mp member
    exact ⟨rfl,rfl,rfl,rfl,early_scheduleEvery later period period⟩

theorem Chain.Kept.posted {point time : Int} (kept : c.Kept [(l,.waiting point)]) (due : point ≤ time) :
    c.Kept [(l,.posted time)] := by
  refine ⟨kept.toPaced,kept.length,Nat.le_refl _,?_⟩
  intro x member
  cases List.mem_singleton.mp member
  obtain ⟨period,aim,going,count,near⟩ := kept.head.2
  exact ⟨period,aim,going,count,near.trans_le due⟩

/-- The task is started at a time that is not before it was posted. -/
theorem Chain.Kept.invoked {posted time : Int} (kept : c.Kept [(l,.posted posted)]) (later : posted ≤ time) :
    Chain.Kept { c with invocations := c.invocations ++ [time] } [(l,.running time)] := by
  obtain ⟨period,aim,going,count,near⟩ := kept.head.2
  refine ⟨⟨kept.aimed,?_,?_⟩,kept.length,Nat.le_refl _,?_⟩
  · intro k time' found
    rcases getElem?_concat_cases found with old | ⟨here,rfl⟩
    · exact kept.prompt k time' old
    · -- The new invocation is that of the last target.
      have last : k = c.targets.length - 1 := by omega
      exact ⟨l.target,by rw [← aim,List.getLast?_eq_getElem?,last],near.trans_le later⟩
  · intro n stopped
    exact absurd (going.symm.trans stopped) (by simp)
  · intro x member
    cases List.mem_singleton.mp member
    exact ⟨period,aim,going,by simpa using count⟩

theorem Chain.Kept.stopped (kept : c.Kept []) : Chain.Kept { c with stopped := some c.invocations.length } [] where
  aimed := kept.aimed
  prompt := kept.prompt
  ended _ same := Option.some.inj same
  length := kept.length
  single := kept.single
  fits _ member := absurd member List.not_mem_nil

/-- The next target is a period behind the last one, and the gap. -/
theorem target_again (l : Loop) (ended start now : Int) :
    (l.again ended start now).target = l.target + l.period + (start - ended) := by
  simp only [Loop.target,Loop.again,LicodeClient.scheduleEvery]
  omega

theorem Chain.Kept.again {began ended start now : Int} (kept : c.Kept [(l,.running began)]) (later : start ≤ now) :
    let next := l.again ended start now
    Chain.Kept { c with targets := c.targets ++ [next.target], gaps := c.gaps ++ [start - ended] }
      [(next,.waiting next.point)] := by
  intro next
  obtain ⟨period,aim,going,count⟩ := kept.head.2
  have last : l.target = c.made + c.targets.length * c.period + c.gaps.sum := by
    have here := kept.aimed (c.targets.length - 1) l.target (by rw [← aim,List.getLast?_eq_getElem?])
    rw [List.take_of_length_le (by have := kept.length; omega)] at here
    rw [here,kept.length]
    simp
  refine ⟨⟨?_,?_,?_⟩,by simp [kept.length],Nat.le_refl _,?_⟩
  · intro k target found
    show target = c.made + (k + 1) * c.period + ((c.gaps ++ [start - ended]).take k).sum
    have length := kept.length
    rcases getElem?_concat_cases found with old | ⟨here,rfl⟩
    · have before := (List.getElem?_eq_some_iff.mp old).1
      rw [List.take_append_of_le_length (by omega)]
      exact kept.aimed k target old
    · rw [List.take_of_length_le (by simp; omega),List.sum_append,List.sum_singleton,target_again,last,period,here]
      ring
  · intro k time found
    obtain ⟨target,aimed,near⟩ := kept.prompt k time found
    exact ⟨target,List.getElem?_append_left (List.getElem?_eq_some_iff.mp aimed).1 ▸ aimed,near⟩
  · intro n stopped
    exact absurd (going.symm.trans stopped) (by simp)
  · intro x member
    cases List.mem_singleton.mp member
    exact ⟨period,List.getLast?_concat,going,by simpa using count,early_scheduleEvery later _ _⟩

end

/-! ### Every chain -/

/-- The chains that there are, each with what is pending for it, and nothing is
    pending for any other. -/
structure Kept (w : Worker) : Prop where
  chains : ∀ (i : Nat) c, w.chains[i]? = some c → c.Kept (w.pendingOf i)
  fresh : ∀ i, w.chains.length ≤ i → w.pendingOf i = []

section
variable {w w' : Worker}

theorem kept_init : init.Kept where
  chains i c found := by simp [init] at found
  fresh i _ := rfl

theorem Kept.steady (kept : w.Kept) : w.Steady := by
  constructor
  · intro c member
    obtain ⟨i,found⟩ := List.mem_iff_getElem?.mp member
    exact (kept.chains i c found).toPaced
  · intro i
    rcases Nat.lt_or_ge i w.chains.length with old | new
    · exact (kept.chains i _ (List.getElem?_eq_getElem old)).single
    · rw [kept.fresh i new]
      exact Nat.zero_le _

theorem of_cons_once (ref call : Nat) (s : Stage) (rest : List Pending) (j : Nat) :
    ((⟨ref,.once call,s⟩ : Pending) :: rest).filterMap (Pending.of j) = rest.filterMap (Pending.of j) := rfl

theorem of_cons_every (ref i : Nat) (l : Loop) (s : Stage) (rest : List Pending) (j : Nat) :
    ((⟨ref,.every i l,s⟩ : Pending) :: rest).filterMap (Pending.of j) =
      (if i = j then [(l,s)] else []) ++ rest.filterMap (Pending.of j) := by
  by_cases same : i = j <;> simp [Pending.of,same]

/-- Less may be pending. -/
theorem Kept.fewer (kept : w.Kept) (chains : w'.chains = w.chains)
    (fewer : ∀ j, (w'.pendingOf j).Subperm (w.pendingOf j)) : w'.Kept := by
  constructor
  · intro i c found
    rw [chains] at found
    exact (kept.chains i c found).subperm (fewer i)
  · intro i new
    rw [chains] at new
    exact List.subperm_nil.mp (kept.fresh i new ▸ fewer i)

/-- What is pending for none of the chains gives way to something of that kind. -/
theorem Kept.once {ref ref' call call' : Nat} {s s' : Stage} {rest : List Pending} (kept : w.Kept)
    (before : w.pendings.Perm (⟨ref,.once call,s⟩ :: rest)) (after : w'.pendings.Perm (⟨ref',.once call',s'⟩ :: rest))
    (chains : w'.chains = w.chains) : w'.Kept := by
  refine kept.fewer chains (fun j => ?_)
  have was := before.filterMap (Pending.of j)
  have now := after.filterMap (Pending.of j)
  rw [of_cons_once] at was now
  exact (now.trans was.symm).subperm

/-- What is pending for one chain gives way to something else. -/
theorem Kept.replace {ref i : Nat} {l : Loop} {s : Stage} {rest : List Pending} {f : Chain → Chain} (kept : w.Kept)
    (before : w.pendings.Perm (⟨ref,.every i l,s⟩ :: rest)) (new : List (Loop × Stage))
    (after : ∀ j, (w'.pendingOf j).Perm ((if i = j then new else []) ++ rest.filterMap (Pending.of j)))
    (chains : w'.chains = w.chains.modify i f) (step : ∀ c, c.Kept [(l,s)] → (f c).Kept new) : w'.Kept := by
  have old : ∀ j, (w.pendingOf j).Perm ((if i = j then [(l,s)] else []) ++ rest.filterMap (Pending.of j)) := by
    intro j
    rw [← of_cons_every ref]
    exact before.filterMap _
  have other : ∀ j, i ≠ j → (w'.pendingOf j).Perm (w.pendingOf j) := by
    intro j apart
    have was := old j
    have now := after j
    rw [if_neg apart] at was now
    exact now.trans was.symm
  constructor
  · intro j c found
    rw [chains,List.getElem?_modify] at found
    by_cases here : i = j
    · subst here
      obtain ⟨c,was,rfl⟩ := Option.map_eq_some_iff.mp (by simpa using found)
      have both : c.Kept ((l,s) :: rest.filterMap (Pending.of i)) := by
        have all := old i
        rw [if_pos rfl] at all
        exact (kept.chains i c was).subperm all.symm.subperm
      have alone := both.head.1
      have now := after i
      rw [if_pos rfl,alone,List.append_nil] at now
      rw [alone] at both
      exact (step c both).subperm now.subperm
    · exact (kept.chains j c (by simpa [here] using found)).subperm (other j here).subperm
  · intro j new
    rw [chains,List.length_modify] at new
    have none := kept.fresh j new
    have apart : i ≠ j := by
      rintro rfl
      have all := old i
      rw [none,if_pos rfl] at all
      simpa using all.length_eq
    exact List.perm_nil.mp (none ▸ other j apart)

/-- A new chain. -/
theorem Kept.loop {start now : Int} (kept : w.Kept) (period : Int) (later : start ≤ now) :
    let l := LicodeClient.scheduleEvery period period start now
    ({ w.scheduleLoop w.chains.length l now with
        chains := w.chains ++ [⟨period,start,[l.target],[],[],none⟩] } : Worker).Kept := by
  intro l
  have all : ∀ j, (({ w.scheduleLoop w.chains.length l now with
      chains := w.chains ++ [⟨period,start,[l.target],[],[],none⟩] } : Worker).pendingOf j).Subperm
        ((if w.chains.length = j then [(l,.waiting l.point)] else []) ++ w.pendingOf j) := by
    intro j
    have perm := (pendings_scheduleLoop (w := w) w.chains.length period period start now).filterMap (Pending.of j)
    cases scheduler : w.scheduler with
    | false =>
      rw [scheduler] at perm
      exact perm.subperm.trans (List.sublist_append_right _ _).subperm
    | true =>
      rw [scheduler,if_pos rfl,List.singleton_append,of_cons_every] at perm
      exact perm.subperm
  constructor
  · intro i c found
    rcases getElem?_concat_cases found with old | ⟨rfl,rfl⟩
    · have before := (List.getElem?_eq_some_iff.mp old).1
      have same := all i
      rw [if_neg (by omega)] at same
      exact (kept.chains i c old).subperm same
    · have only := all w.chains.length
      rw [if_pos rfl,kept.fresh _ (Nat.le_refl _),List.append_nil] at only
      exact (kept_first period start now later).subperm only
  · intro i new
    rw [List.length_append,List.length_singleton] at new
    have none := all i
    rw [if_neg (by omega),kept.fresh i (by omega)] at none
    exact List.subperm_nil.mp none

/-- The task of a chain has returned `true`. Without a scheduler nothing comes of it. -/
theorem Kept.again {began ended start now : Int} {ref i : Nat} {l : Loop} {rest : List Pending} (kept : w.Kept)
    (before : w.pendings.Perm (⟨ref,.every i l,.running began⟩ :: rest)) (pendings : w'.pendings = rest)
    (chains : w'.chains = w.chains) (later : start ≤ now) : (w'.again ended start now (.every i l)).Kept := by
  have perm : (w'.scheduleLoop i (l.again ended start now) now).pendings.Perm
      ((if w'.scheduler then
          [⟨w'.cancelled.length,.every i (l.again ended start now),.waiting (l.again ended start now).point⟩]
        else []) ++ w'.pendings) := pendings_scheduleLoop i l.period _ start now
  have same : (w'.again ended start now (.every i l)).chains = w.chains.modify i (fun c =>
      { c with
        targets := c.targets ++ [(l.again ended start now).target]
        gaps := c.gaps ++ [start - ended] }) := by
    simp only [Worker.again,updateChain,scheduleLoop,scheduleFromNow_fst,chains]
  rw [pendings] at perm
  cases scheduler : w'.scheduler with
  | false =>
    rw [scheduler] at perm
    refine kept.replace before [] (fun j => ?_) same (fun c old => old.again later |>.subperm List.nil_subperm)
    rw [ite_self]
    exact perm.filterMap _
  | true =>
    rw [scheduler,if_pos rfl,List.singleton_append] at perm
    refine kept.replace before _ (fun j => ?_) same (fun c old => old.again later)
    rw [← of_cons_every w'.cancelled.length]
    exact perm.filterMap _

/-- The end of a task. -/
theorem Kept.finish {r : Running} {ended start now : Int} (kept : w.Kept) (outcome : Outcome)
    (busy : w.current = some r) (later : start ≤ now) :
    (({ w with current := none }.noteEnd outcome r.job).conclude r.job ended start now outcome).Kept := by
  have before := pendings_finish busy
  obtain ⟨began,ref,job⟩ := r
  cases job with
  | once call =>
    have fewer : ({ w with current := none } : Worker).Kept := kept.fewer rfl (fun j =>
      ((List.sublist_cons_self _ _).filterMap _).subperm.trans (before.filterMap _).symm.subperm)
    rcases outcome with (_ | _) | (_ | _) <;> exact ⟨fewer.chains,fewer.fresh⟩
  | every i l =>
    have stops : ∀ o : Outcome, o.ends = true → ({ w with current := none }.noteEnd o (.every i l)).Kept := by
      intro o ends
      refine kept.replace before [] (fun j => ?_) rfl (fun c old => ?_)
      · rw [ite_self]
        exact List.Perm.refl _
      · rw [if_pos ends]
        exact (old.subperm List.nil_subperm).stopped
    rcases outcome with (_ | _) | (_ | _)
    · exact stops _ rfl
    · exact kept.again before rfl (List.modify_id _ _) later
    · exact ⟨(stops (.threw false) rfl).chains,(stops (.threw false) rfl).fresh⟩
    · exact stops _ rfl

theorem Kept.fire {i : Nat} {t : Timer} {time : Int} (kept : w.Kept) (found : w.timers[i]? = some t)
    (due : t.point ≤ time) :
    ({ w with timers := w.timers.eraseIdx i, queue := w.queue ++ [⟨time,t.ref,t.job⟩] } : Worker).Kept := by
  obtain ⟨rest,before,after⟩ := pendings_fire found time
  obtain ⟨point,ref,job⟩ := t
  cases job with
  | once call => exact kept.once before after rfl
  | every chain l =>
    refine kept.replace before _ (fun j => ?_) (List.modify_id _ _).symm (fun c old => old.posted due)
    rw [← of_cons_every ref]
    exact after.filterMap _

theorem Kept.begin {h : Handler} {rest : List Handler} {time : Int} (kept : w.Kept) (idle : w.current = none)
    (queue : w.queue = h :: rest) (later : h.posted ≤ time) :
    ({ w with queue := rest, current := some ⟨time,h.ref,h.job⟩ }.invoke time h.job).Kept := by
  obtain ⟨others,before,after⟩ := pendings_begin idle queue time
  obtain ⟨posted,ref,job⟩ := h
  cases job with
  | once call => exact kept.once before after rfl
  | every chain l =>
    refine kept.replace before _ (fun j => ?_) rfl (fun c old => old.invoked later)
    rw [← of_cons_every ref]
    exact after.filterMap _

theorem kept_step {e : Event} (kept : w.Kept) (taken : w.step e = some w') : w'.Kept := by
  cases step_change taken with
  | call duration now =>
    have perm := pendings_scheduleFromNow (w := w) (.once w.calls.length) duration now
    refine kept.fewer (by rw [scheduleFromNow_fst]) (fun j => ?_)
    refine (perm.filterMap _).subperm.trans ?_
    cases w.scheduler <;> exact List.Subperm.refl _
  | cancel found =>
    rename_i call made
    cases returned : made.returned <;> exact kept.fewer rfl (fun j => List.Subperm.refl _)
  | loop period later => exact kept.loop period later
  | fire found due => exact kept.fire found due
  | drop queue cancelled =>
    refine kept.fewer rfl (fun j => ?_)
    exact ((List.sublist_cons_self _ _).filterMap _).subperm.trans ((pendings_drop queue _).filterMap _).symm.subperm
  | begin idle queue kept' later => exact kept.begin idle queue later
  | finish outcome busy ends starts later => exact kept.finish outcome busy later
  | expire => exact ⟨kept.chains,kept.fresh⟩
  | discard => exact kept.fewer rfl (fun j => (pendings_discard.filterMap _).subperm)

/-- Whatever the readings of the clock, however long the tasks take and whatever
    else the worker is given to do, periodic tasks do not drift. -/
theorem always_steady (es : List Event) : Always step Steady init es :=
  (always_of_invariant (fun _ _ _ kept taken => kept_step kept taken) kept_init es).mono (fun _ kept => kept.steady)

end

-- Late by three milliseconds at first, early by nine tenths of one then, the task keeps to its period of ten.
example :
    (run step init [.scheduleEvery 10000000 0 0,.fire 0 13000000,.take 13000000,
      .finish (.returned true) 14100000 14100000 14100000,.fire 0 19100000,.take 19100000,
      .finish (.returned false) 30000000 30000000 30000000]).map chains =
        some [⟨10000000,0,[10000000,20000000],[0],[13000000,19100000],some 2⟩] := by
  decide

end LicodeClient.Worker
