import LicodeClient.Roster

/-!
Own streams and the streams of others. What makes a stream an own one is a publish
ack; what makes it a remote one is a response or an announcement. All of them wait
in one queue, so an announcement finds the ack that came before it already done. As
long as the server names an own stream to the room only after its ack, and no own
stream in a response, no stream is ever both (`apart_always`).
-/
namespace LicodeClient
open LicodeClient.Table LicodeClient.Program LicodeClient.Run

/-! ### What the server may say -/

/-- Whether a stream is named. -/
def Notice.mentions (streamId : UInt64) : Notice → Bool
  | .listed ids => streamId ∈ ids
  | .refused => false
  | .added id | .removed id | .acked id => id = streamId

/-- The server gives a published stream an id that it has not mentioned before,
    so the ack comes before any announcement of the stream, and lists no stream of
    this client. -/
def Notice.Allowed (before : List Notice) : Notice → Prop
  | .acked streamId => ∀ n ∈ before, n.mentions streamId = false
  | .listed ids => ∀ streamId ∈ ids, .acked streamId ∉ before
  | _ => True

instance (before : List Notice) : DecidablePred (Notice.Allowed before)
  | .acked streamId => inferInstanceAs (Decidable (∀ n ∈ before, n.mentions streamId = false))
  | .listed ids => List.decidableBAll (fun streamId => Notice.acked streamId ∉ before) ids
  | .refused | .added _ | .removed _ => inferInstanceAs (Decidable True)

/-- Everything that is said after `before` is allowed where it is said. -/
def ProperAfter (before : List Notice) : List Notice → Prop
  | [] => True
  | n :: rest => n.Allowed before ∧ ProperAfter (before ++ [n]) rest

instance decidableProperAfter (before : List Notice) : DecidablePred (ProperAfter before)
  | [] => inferInstanceAs (Decidable True)
  | n :: rest =>
    have := decidableProperAfter (before ++ [n]) rest
    inferInstanceAs (Decidable (n.Allowed before ∧ ProperAfter (before ++ [n]) rest))

/-- The server keeps to its part. -/
abbrev Proper (notices : List Notice) : Prop := ProperAfter [] notices

theorem properAfter_append {before notices later : List Notice} :
    ProperAfter before (notices ++ later) ↔ ProperAfter before notices ∧ ProperAfter (before ++ notices) later := by
  induction notices generalizing before with
  | nil => simp [ProperAfter]
  | cons n rest ih => simp [ProperAfter,ih,and_assoc]

/-- A stream was listed or announced. -/
def Told (notices : List Notice) (streamId : UInt64) : Prop :=
  .added streamId ∈ notices ∨ ∃ ids, .listed ids ∈ notices ∧ streamId ∈ ids

theorem Told.mono {notices : List Notice} {streamId : UInt64} (told : Told notices streamId) (later : List Notice) :
    Told (notices ++ later) streamId := by
  rcases told with added | ⟨ids,listed,member⟩
  · exact .inl (List.mem_append_left _ added)
  · exact .inr ⟨ids,List.mem_append_left _ listed,member⟩

/-- No stream that was listed or announced is acked later. -/
theorem Told.not_acked {notices : List Notice} {streamId : UInt64} (told : Told notices streamId) :
    ¬ (Notice.acked streamId).Allowed notices := by
  intro fresh
  rcases told with added | ⟨ids,listed,member⟩
  · have silent := fresh _ added
    simp [Notice.mentions] at silent
  · have silent := fresh _ listed
    simp [Notice.mentions,member] at silent

/-! ### What arrives -/

/-- The tasks that come with what is said, of which there is at most one thing. -/
structure Brings (nl : Nlohmann) (new : List Task) (heard : List Notice) : Prop where
  joined : ∀ info, .joinedStream info ∈ new → ∃ ids, .listed ids ∈ heard ∧ info.id ∈ ids
  added : ∀ info, .onAddStream info ∈ new → .added info.id ∈ heard
  acked : ∀ streamId, .acked streamId ∈ heard ↔ ∃ task ∈ new, task.notice nl = some (.acked streamId)
  single : heard.length ≤ 1

theorem length_posted {nl : Nlohmann} {w : World} {e : Event} (other : ∀ token, e.frame w ≠ .initToken token) :
    (posted nl w e).length ≤ 1 := by
  have frames : ∀ frame : Frame, (∀ token, frame ≠ .initToken token) → (frame.tasks nl).length ≤ 1 := by
    intro frame other
    cases frame with
    | initToken token => exact absurd rfl (other token)
    | subscribeStream msg =>
      simp only [Frame.tasks,List.length_map]
      cases (nl.parseOrThrow msg).toOption <;> simp
    | event msg =>
      simp only [Frame.tasks]
      cases (eventTask nl msg).toOption.join <;> simp
    | publishStream msg => exact Nat.le_refl 1
    | _ => exact Nat.zero_le 1
  cases e with
  | call api => exact Nat.le_refl 1
  | _ => exact frames _ other

theorem brings_posted (nl : Nlohmann) (w : World) (e : Event) : Brings nl (posted nl w e) ((e.frame w).notices nl) := by
  by_cases response : ∃ token, e.frame w = .initToken token
  · obtain ⟨token,frame⟩ := response
    rw [(posted_of_token frame nl).2,frame]
    simp only [Frame.tasks,Frame.notices]
    cases outcome : joinOutcome nl token with
    | admitted response =>
      refine ⟨?_,?_,?_,Nat.le_refl 1⟩
      · intro info member
        have listed : info ∈ response.existStreams := by simpa using member
        exact ⟨_,List.mem_singleton_self _,List.mem_map.mpr ⟨info,listed,rfl⟩⟩
      · intro info member
        simp at member
      · intro streamId
        simp [Task.notice]
    | refused => exact ⟨by simp,by simp,by simp,Nat.le_refl 1⟩
    | undefined => exact ⟨by simp,by simp,by simp,Nat.le_refl 1⟩
  · have other : ∀ token, e.frame w ≠ .initToken token := fun token frame => response ⟨token,frame⟩
    rw [← notices_posted other]
    refine ⟨?_,?_,?_,?_⟩
    · intro info member
      exact absurd rfl (not_joined_posted other _ member info)
    · intro info member
      exact List.mem_filterMap.mpr ⟨_,member,rfl⟩
    · intro streamId
      exact List.mem_filterMap
    · exact Nat.le_trans (List.length_filterMap_le _ _) (length_posted other)

theorem Brings.alone {nl : Nlohmann} {new : List Task} {heard : List Notice} (brings : Brings nl new heard) {n : Notice}
    (member : n ∈ heard) : heard = [n] := by
  obtain ⟨front,back,rfl⟩ := List.append_of_mem member
  have single := brings.single
  simp only [List.length_append,List.length_cons] at single
  have first : front = [] := List.length_eq_zero_iff.mp (by omega)
  have last : back = [] := List.length_eq_zero_iff.mp (by omega)
  rw [first,last,List.nil_append]

/-! ### The tables -/

/-- A task makes a stream an own one exactly when it takes in its ack. -/
theorem own_task {nl : Nlohmann} {task : Task} {order : Order UInt64 StreamPtr} {w : World}
    (fine : faultOf (task.run nl order) w = none) (streamId : UInt64) :
    (((task.change nl w).apply w.view).own streamId).isSome ↔
      (w.view.own streamId).isSome ∨ task.notice nl = some (.acked streamId) := by
  cases task with
  | joinedStream info =>
    simp only [Task.change]
    split <;> simp [Change.apply,View.allocate,Task.notice]
  | onAddStream info =>
    simp only [Task.change]
    cases found : entry w.room.localStreamInfos info.id with
    | some own =>
      have known : w.view.own info.id = some own := found
      by_cases here : streamId = info.id
      · subst here
        simp [Change.apply,known]
      · simp [Change.apply,View.allocate,here,Task.notice]
    | none => simp [Change.apply,View.allocate,Task.notice]
  | onPublishStream msg =>
    obtain ⟨erizoId,acked,p,connId,change,notice⟩ := change_onPublishStream fine
    simp only [change,notice,Change.apply]
    by_cases here : streamId = acked
    · subst here
      simp
    · simp [here,Ne.symm here]
  | onSubscribeStream json =>
    obtain ⟨_,_,_,_,change⟩ := change_onSubscribeStream nl fine
    simp [change,Change.apply,Task.notice]
  | _ => simp [Task.change,Change.apply,Task.notice]

/-- A stream that becomes a remote one is reported. -/
theorem remote_reported {nl : Nlohmann} {task : Task} {order : Order UInt64 StreamPtr} {w : World}
    (fine : faultOf (task.run nl order) w = none) {streamId : UInt64}
    (remote : (((task.change nl w).apply w.view).remote streamId).isSome) :
    (w.view.remote streamId).isSome ∨ streamId ∈ task.reports w := by
  cases task with
  | joinedStream info =>
    by_cases here : streamId = info.id
    · exact .inr (by simp [Task.reports,here])
    · left
      simp only [Task.change] at remote
      split at remote <;> simpa [Change.apply,View.allocate,here] using remote
  | onAddStream info =>
    simp only [Task.change] at remote
    cases found : entry w.room.localStreamInfos info.id with
    | some own =>
      rw [found] at remote
      exact .inl remote
    | none =>
      by_cases here : streamId = info.id
      · exact .inr (by simp [Task.reports,here,found])
      · rw [found] at remote
        left
        simpa [Change.apply,here] using remote
  | onRemoveStream removed =>
    left
    by_cases here : streamId = removed
    · simp [Task.change,Change.apply,here] at remote
    · simpa [Task.change,Change.apply,here] using remote
  | onPublishStream msg =>
    obtain ⟨_,_,_,_,change,-⟩ := change_onPublishStream fine
    rw [change] at remote
    exact .inl remote
  | onSubscribeStream json =>
    obtain ⟨_,_,_,_,change⟩ := change_onSubscribeStream nl fine
    rw [change] at remote
    exact .inl remote
  | _ => exact .inl remote

/-! ### Runs -/

/-- Own streams are those whose acks were taken in, remote streams were reported,
    and no stream that was reported or is to be entered was acked. An announcement
    of an own stream waits behind its ack. -/
structure Apart (nl : Nlohmann) (h : Heard) : Prop where
  own : ∀ streamId, ((h.world.view.own streamId).isSome ∨
    ∃ task ∈ h.world.tasks, task.notice nl = some (.acked streamId)) ↔ .acked streamId ∈ h.notices
  remote : ∀ streamId, (h.world.view.remote streamId).isSome → streamId ∈ h.reported
  reported : ∀ streamId ∈ h.reported, Told h.notices streamId ∧ .acked streamId ∉ h.notices
  joined : ∀ info, .joinedStream info ∈ h.world.tasks → Told h.notices info.id ∧ .acked info.id ∉ h.notices
  added : ∀ front info back, h.world.tasks = front ++ .onAddStream info :: back → Told h.notices info.id ∧
    (.acked info.id ∈ h.notices → (h.world.view.own info.id).isSome ∨
      ∃ task ∈ front, task.notice nl = some (.acked info.id))

namespace Apart
variable {nl : Nlohmann} {h h' : Heard}

theorem init (nl : Nlohmann) (token : LicodeToken) : Apart nl (Heard.init token) := by
  refine ⟨fun streamId => ?_,fun streamId some => ?_,fun _ member => ?_,fun _ member => ?_,
    fun front info back queue => ?_⟩
  · simp [Heard.init,World.init,World.view,Streams.view,World.streams]
  · simp [Heard.init,World.init,World.view,Streams.view,World.streams] at some
  · cases member
  · cases member
  · simp [Heard.init,World.init] at queue

/-- A call of the application runs its task at once. -/
theorem call {api : Api} {order : Order UInt64 StreamPtr} (apart : Apart nl h)
    (runs : h.Runs nl (api.task h.world) order h.world h') : Apart nl h' := by
  have own : ∀ streamId, (h'.world.view.own streamId).isSome ↔ (h.world.view.own streamId).isSome := by
    intro streamId
    rw [runs.view,own_task runs.fine,notice_api]
    simp
  have silent : (api.task h.world).reports h.world = [] := by cases api <;> rfl
  have reported : h'.reported = h.reported := by rw [runs.reported,silent,List.append_nil]
  refine ⟨?_,?_,?_,?_,?_⟩
  · simp only [own,runs.tasks,runs.notices]
    exact apart.own
  · intro streamId remote
    rw [runs.view] at remote
    rcases remote_reported runs.fine remote with before | new
    · exact reported ▸ apart.remote streamId before
    · rw [silent] at new
      cases new
  · rw [reported,runs.notices]
    exact apart.reported
  · rw [runs.tasks,runs.notices]
    exact apart.joined
  · simp only [own,runs.tasks,runs.notices]
    exact apart.added

/-- The head of the queue runs. -/
theorem task {task : Task} {order : Order UInt64 StreamPtr} {v : World} (apart : Apart nl h)
    (queue : h.world.tasks = task :: v.tasks) (runs : h.Runs nl task order v h') : Apart nl h' := by
  have own : ∀ streamId, (h'.world.view.own streamId).isSome ↔
      (h.world.view.own streamId).isSome ∨ task.notice nl = some (.acked streamId) := by
    intro streamId
    rw [runs.view,own_task runs.fine,runs.tables.2]
  -- What the task reports was told and is no own stream: if it had been acked, the ack would be done.
  have new : ∀ streamId ∈ task.reports v, Told h.notices streamId ∧ .acked streamId ∉ h.notices := by
    intro streamId reports
    cases task with
    | joinedStream info =>
      obtain rfl := List.mem_singleton.mp reports
      exact apart.joined info (by rw [queue]; exact List.mem_cons_self)
    | onAddStream info =>
      simp only [Task.reports] at reports
      split at reports
      · next other =>
        obtain rfl := List.mem_singleton.mp reports
        obtain ⟨told,behind⟩ := apart.added [] info v.tasks queue
        refine ⟨told,fun acked => ?_⟩
        rcases behind acked with own | ⟨_,member,-⟩
        · rw [← runs.tables.2,show v.view.own info.id = none from other] at own
          cases own
        · cases member
      · cases reports
    | _ => cases reports
  refine ⟨?_,?_,?_,?_,?_⟩
  · intro streamId
    rw [own,runs.tasks,runs.notices,← apart.own streamId,queue]
    simp [or_assoc]
  · intro streamId remote
    rw [runs.reported]
    rw [runs.view] at remote
    rcases remote_reported runs.fine remote with before | reports
    · exact List.mem_append_left _ (apart.remote streamId (runs.tables.1 ▸ before))
    · exact List.mem_append_right _ reports
  · intro streamId member
    rw [runs.notices]
    rw [runs.reported] at member
    rcases List.mem_append.mp member with before | reports
    · exact apart.reported streamId before
    · exact new streamId reports
  · intro info member
    rw [runs.notices]
    exact apart.joined info (by rw [queue,← runs.tasks]; exact List.mem_cons_of_mem _ member)
  · intro front info back split
    rw [runs.notices]
    have whole : h.world.tasks = (task :: front) ++ .onAddStream info :: back := by rw [queue,← runs.tasks,split]; rfl
    obtain ⟨told,behind⟩ := apart.added (task :: front) info back whole
    refine ⟨told,fun acked => ?_⟩
    rcases behind acked with before | ⟨ack,member,found⟩
    · exact .inl ((own info.id).mpr (.inl before))
    · rcases List.mem_cons.mp member with rfl | later
      · exact .inl ((own info.id).mpr (.inr found))
      · exact .inr ⟨ack,later,found⟩

/-- Something is heard. -/
theorem arrival {new : List Task} {heard : List Notice} (apart : Apart nl h) (arrives : h.Arrives new heard h')
    (brings : Brings nl new heard) (proper : ProperAfter h.notices heard) : Apart nl h' := by
  have own : ∀ streamId, h'.world.view.own streamId = h.world.view.own streamId := by
    intro streamId
    simp only [World.view,Streams.view,World.streams,arrives.own]
  have allowed : ∀ n ∈ heard, n.Allowed h.notices := by
    intro n member
    rw [brings.alone member] at proper
    exact proper.1
  -- What was told stays apart from what is acked now.
  have stays : ∀ streamId, Told h.notices streamId ∧ .acked streamId ∉ h.notices →
      Told h'.notices streamId ∧ .acked streamId ∉ h'.notices := by
    rintro streamId ⟨told,unacked⟩
    rw [arrives.notices]
    refine ⟨told.mono heard,fun acked => ?_⟩
    rcases List.mem_append.mp acked with before | now
    · exact unacked before
    · exact told.not_acked (allowed _ now)
  refine ⟨?_,?_,?_,?_,?_⟩
  · intro streamId
    rw [own,arrives.tasks,arrives.notices,List.mem_append,← apart.own streamId,brings.acked streamId]
    simp only [List.mem_append,or_and_right,exists_or,or_assoc]
  · intro streamId remote
    rw [arrives.reported]
    exact apart.remote streamId (arrives.known remote)
  · intro streamId member
    exact stays streamId (apart.reported streamId (arrives.reported ▸ member))
  · intro info member
    rw [arrives.tasks] at member
    rcases List.mem_append.mp member with before | now
    · exact stays info.id (apart.joined info before)
    · obtain ⟨ids,listed,here⟩ := brings.joined info now
      have only := brings.alone listed
      rw [arrives.notices]
      refine ⟨.inr ⟨ids,List.mem_append_right _ listed,here⟩,fun acked => ?_⟩
      rcases List.mem_append.mp acked with before | acked
      · exact allowed _ listed info.id here before
      · rw [only] at acked
        cases List.mem_singleton.mp acked
  · intro front info back split
    rw [own,arrives.notices]
    rw [arrives.tasks] at split
    -- The announcement is new: an ack before it is done or waits in the queue as it was.
    have fresh : (∃ later, front = h.world.tasks ++ later) → .onAddStream info ∈ new →
        Told (h.notices ++ heard) info.id ∧ (.acked info.id ∈ h.notices ++ heard →
          (h.world.view.own info.id).isSome ∨ ∃ task ∈ front, task.notice nl = some (.acked info.id)) := by
      rintro ⟨later,rfl⟩ member
      have added := brings.added info member
      refine ⟨.inl (List.mem_append_right _ added),fun acked => ?_⟩
      rcases List.mem_append.mp acked with before | now
      · rcases (apart.own info.id).mpr before with done | ⟨ack,waits,found⟩
        · exact .inl done
        · exact .inr ⟨ack,List.mem_append_left _ waits,found⟩
      · rw [brings.alone added] at now
        cases List.mem_singleton.mp now
    rcases List.append_eq_append_iff.mp split with ⟨later,whole,rest⟩ | ⟨later,whole,rest⟩
    · exact fresh ⟨later,whole⟩ (by rw [rest]; simp)
    · cases later with
      | nil =>
        rw [List.append_nil] at whole
        rw [List.nil_append] at rest
        refine fresh ⟨[],by rw [whole,List.append_nil]⟩ ?_
        rw [← rest]
        exact List.mem_cons_self
      | cons first later =>
        obtain ⟨rfl,rfl⟩ := List.cons.inj rest
        obtain ⟨told,behind⟩ := apart.added front info later whole
        refine ⟨told.mono heard,fun acked => ?_⟩
        rcases List.mem_append.mp acked with before | now
        · exact behind before
        · exact absurd (allowed _ now) told.not_acked

end Apart

/-- Every step of a run keeps own and remote streams apart as long as the server
    keeps to its part. -/
theorem apart_step {nl : Nlohmann} {h h' : Heard} {e : Event} (valid : h.world.view.Valid) (apart : Apart nl h)
    (taken : h.step nl e = some h') (lives : h'.world.crashed = none) (proper : Proper h'.notices) : Apart nl h' := by
  cases starts : started h.world e with
  | some start =>
    obtain ⟨task,order,v⟩ := start
    have runs := Heard.runs_of_started valid starts taken lives
    rcases runs.source with queue | ⟨rfl,api,rfl⟩
    · exact apart.task queue runs
    · exact apart.call runs
  | none =>
    have arrives := Heard.arrives_of_idle starts taken
    refine apart.arrival arrives (brings_posted nl h.world e) ?_
    rw [arrives.notices,Proper,properAfter_append] at proper
    exact proper.2

/-- A run that goes on has valid tables and keeps own and remote streams apart. -/
structure Heard.Separate (nl : Nlohmann) (h : Heard) : Prop where
  valid : h.world.crashed = none → h.world.view.Valid
  apart : h.world.crashed = none → Proper h.notices → Apart nl h

theorem Heard.separate_step {nl : Nlohmann} {h h' : Heard} {e : Event} (separate : h.Separate nl)
    (taken : h.step nl e = some h') : h'.Separate nl := by
  obtain ⟨steps,notices,-⟩ := Heard.step_eq_some taken
  have lives := (LicodeClient.step_eq_some steps).1
  have valid := separate.valid lives
  refine ⟨step_valid valid steps,fun lives' proper => ?_⟩
  have before : Proper h.notices := by
    rw [notices,Proper,properAfter_append] at proper
    exact proper.1
  exact apart_step valid (separate.apart lives before) taken lives' proper

/-- No stream is both an own and a remote one, and none that was reported to the
    observer as a remote stream is an own one. -/
theorem apart_always {nl : Nlohmann} {token : LicodeToken} {es : List Event} {h : Heard}
    (runs : run (Heard.step nl) (Heard.init token) es = some h) (lives : h.world.crashed = none)
    (proper : Proper h.notices) :
    (∀ streamId p q, entry h.world.room.localStreamInfos streamId = some p →
      entry h.world.room.remoteStreamInfos streamId ≠ some q) ∧
    ∀ streamId ∈ h.reported, entry h.world.room.localStreamInfos streamId = none := by
  have separate : h.Separate nl := (always_of_invariant (fun _ _ _ kept taken => Heard.separate_step kept taken)
    (⟨fun _ => valid_init token,fun _ _ => Apart.init nl token⟩ : (Heard.init token).Separate nl) es).last runs
  have apart := separate.apart lives proper
  have other : ∀ streamId ∈ h.reported, entry h.world.room.localStreamInfos streamId = none := by
    intro streamId reported
    by_contra some
    exact (apart.reported streamId reported).2 ((apart.own streamId).mp (.inl (Option.isSome_iff_ne_none.mpr some)))
  refine ⟨fun streamId p q own remote => ?_,other⟩
  have none := other streamId (apart.remote streamId (Option.isSome_iff_exists.mpr ⟨q,remote⟩))
  rw [own] at none
  cases none

/-- A camera of the application. -/
def camera : LicodeStreamInfo := ⟨0,true,true,true,lit "own",false,[],[],false⟩

/-- The answer to a publish request: the stream's id, its erizo and connection. -/
def publishAnswer (streamId : UInt64) : Json :=
  .array [.unsigned streamId,Builder.text "e",Builder.text "c"]

/-- Stream 5 is in the room; the application publishes stream 9, which is
    announced to everyone, and stream 7 comes. -/
def bringing : List Event :=
  opening ++ [arrives TOKEN_INIT_RESPONSE (welcome [5]),.work .listed,.work .listed,.makeStream camera,
    .call (.publishStream 1),.work .listed,arrives PUBLISH_STREAM_RESPONSE (publishAnswer 9),
    arrives SOCKET_IO_WEBSOCKET_EVENT (eventBody "onAddStream" (described 9)),
    arrives SOCKET_IO_WEBSOCKET_EVENT (eventBody "onAddStream" (described 7)),.work .listed,.work .listed,.work .listed]

def published : Nlohmann :=
  library [welcome [5],publishAnswer 9,eventBody "onAddStream" (described 9),described 9,
    eventBody "onAddStream" (described 7),described 7]

theorem apart_publishing :
    ∃ h, run (Heard.step published) (Heard.init ⟨[],[],false,[]⟩) bringing = some h ∧ h.world.crashed = none ∧
      Proper h.notices ∧ h.reported = [5,7] ∧ (∃ p, entry h.world.room.localStreamInfos 9 = some p) ∧
      (∀ q, entry h.world.room.remoteStreamInfos 9 ≠ some q) ∧ entry h.world.room.localStreamInfos 7 = none := by
  have runs : (run (Heard.step published) (Heard.init ⟨[],[],false,[]⟩) bringing).map (fun h =>
      (h.world.crashed,h.notices,h.reported,(entry h.world.room.localStreamInfos 9).isSome)) =
      some (none,[.listed [5],.acked 9,.added 9,.added 7],[5,7],true) := by decide +kernel
  obtain ⟨h,reached,facts⟩ := Option.map_eq_some_iff.mp runs
  obtain ⟨lives,notices,reported,own⟩ : h.world.crashed = none ∧ _ ∧ _ ∧ _ := by
    simpa only [Prod.mk.injEq] using facts
  have proper : Proper h.notices := by rw [notices]; decide
  obtain ⟨apart,other⟩ := apart_always reached lives proper
  obtain ⟨p,found⟩ := Option.isSome_iff_exists.mp own
  exact ⟨h,reached,lives,proper,reported,⟨p,found⟩,fun q => apart 9 p q found,other 7 (by rw [reported]; simp)⟩

end LicodeClient
