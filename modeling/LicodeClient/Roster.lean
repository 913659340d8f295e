import LicodeClient.Arrivals
import LicodeClient.Printer
import Mathlib.Data.Finset.Basic
import Mathlib.Data.Finset.Dedup
import Mathlib.Data.Finset.Lattice.Lemmas

/-!
The remote streams of a room and what the server has said of them. The room hears
of streams on one thread and changes its tables on another, later and one task at
a time. A `Roster` takes in what is heard at once. In the first session of a room
the two agree whenever the queue is empty: the roster is always what the tables
will show once the tasks that still wait have run (`Tells.pending`). Streams of
the join response are entered with `emplace`, which does nothing for a key that is
bound to null; such keys appear only once a stream of the room itself was acked,
and by then no stream of the response is left to enter.
-/
namespace LicodeClient
open LicodeClient.Table LicodeClient.Program LicodeClient.Run

/-- A stream of the response finds its key unbound or bound to a stream. -/
def Task.Enters (w : World) : Task → Prop
  | .joinedStream info => info.id ∈ w.room.remoteStreamInfos → (entry w.room.remoteStreamInfos info.id).isSome
  | _ => True

/-- The streams that are known to be in the room, those of others and own ones. -/
structure Roster where
  remote : Finset UInt64
  own : Finset UInt64
  deriving DecidableEq

namespace Roster

/-- What is heard changes the roster at once. -/
def hear (r : Roster) : Notice → Roster
  | .listed ids => { r with remote := ids.toFinset }
  | .refused => r
  | .added streamId => if streamId ∈ r.own then r else { r with remote := insert streamId r.remote }
  | .removed streamId => { r with remote := r.remote.erase streamId }
  | .acked streamId => { r with own := insert streamId r.own }

/-- The roster after everything that was heard. -/
def of (notices : List Notice) : Roster := notices.foldl hear ⟨∅,∅⟩

theorem of_append (before later : List Notice) : of (before ++ later) = later.foldl hear (of before) :=
  List.foldl_append

/-- What a task does to the roster when it runs. -/
def enter (nl : Nlohmann) (r : Roster) : Task → Roster
  | .joinedStream info => { r with remote := insert info.id r.remote }
  | task => (task.notice nl).elim r r.hear

/-- The tables of the room hold the streams of the roster. -/
structure Shows (r : Roster) (v : View) : Prop where
  remote : ∀ streamId, streamId ∈ r.remote ↔ (v.remote streamId).isSome
  own : ∀ streamId, streamId ∈ r.own ↔ (v.own streamId).isSome

theorem isSome_update (f : UInt64 → Option StreamPtr) (k : UInt64) (p : Option StreamPtr) (streamId : UInt64) :
    (Function.update f k p streamId).isSome ↔ streamId = k ∧ p.isSome ∨ streamId ≠ k ∧ (f streamId).isSome := by
  by_cases same : streamId = k
  · subst same; simp
  · simp [same]

/-- A remote stream arrives. -/
theorem Shows.added {r : Roster} {v : View} (agrees : r.Shows v) (streamId : UInt64) (connId : Text) :
    ({ r with remote := insert streamId r.remote } : Roster).Shows ((Change.added streamId connId).apply v) := by
  refine ⟨fun id => ?_,agrees.own⟩
  have same := agrees.remote id
  simp only [Change.apply,isSome_update,Finset.mem_insert,Option.isSome_some,and_true]
  by_cases here : id = streamId <;> simp [here,same]

/-- A task that does not fault changes the tables as it changes the roster. -/
theorem shows_task {nl : Nlohmann} {order : Order UInt64 StreamPtr} {task : Task} {w : World} {r : Roster}
    (agrees : r.Shows w.view) (valid : w.view.Valid) (enters : task.Enters w)
    (fine : faultOf (task.run nl order) w = none) :
    (r.enter nl task).Shows (after (task.run nl order) w).view := by
  rw [view_task nl order task valid fine]
  cases task with
  | joinedStream info =>
    simp only [Task.change]
    split
    · next bound =>
      refine ⟨fun id => ?_,agrees.own⟩
      have known : info.id ∈ r.remote := (agrees.remote info.id).mpr (enters bound)
      rw [enter,Finset.insert_eq_of_mem known]
      exact agrees.remote id
    · exact agrees.added info.id info.connectionId
  | onAddStream info =>
    simp only [Task.change,enter,Task.notice,Option.elim_some,hear]
    cases found : entry w.room.localStreamInfos info.id with
    | some own =>
      have bound : w.view.own info.id = some own := found
      have known : info.id ∈ r.own := (agrees.own info.id).mpr (by simp [bound])
      rw [if_pos known]
      refine ⟨agrees.remote,fun id => ?_⟩
      have same := agrees.own id
      simp only [Change.apply,isSome_update,Option.isSome_some,and_true]
      by_cases here : id = info.id
      · subst here; simp [known]
      · simp [here,same]
    | none =>
      have other : info.id ∉ r.own := by
        intro known
        have own := (agrees.own info.id).mp known
        rw [show w.view.own info.id = none from found] at own
        cases own
      rw [if_neg other]
      exact agrees.added info.id info.connectionId
  | onRemoveStream streamId =>
    refine ⟨fun id => ?_,agrees.own⟩
    have same := agrees.remote id
    simp only [Task.change,enter,Task.notice,Option.elim_some,hear,Change.apply,isSome_update,Finset.mem_erase]
    simp [same]
  | onPublishStream msg =>
    obtain ⟨erizoId,streamId,p,connId,change,notice⟩ := change_onPublishStream fine
    simp only [change,enter,notice,Option.elim_some,hear]
    refine ⟨agrees.remote,fun id => ?_⟩
    have same := agrees.own id
    simp only [Change.apply,isSome_update,Finset.mem_insert,Option.isSome_some,and_true]
    by_cases here : id = streamId <;> simp [here,same]
  | onSubscribeStream json =>
    obtain ⟨_,_,_,_,change⟩ := change_onSubscribeStream nl fine
    rw [change]
    exact ⟨agrees.remote,agrees.own⟩
  | publishStream info label => exact ⟨agrees.remote,agrees.own⟩
  | _ => exact agrees

/-- Tasks that enter no stream of a response change the roster by what was heard. -/
theorem foldl_enter {nl : Nlohmann} {tasks : List Task} (entered : ∀ task ∈ tasks, ∀ info, task ≠ .joinedStream info)
    (r : Roster) : tasks.foldl (enter nl) r = (tasks.filterMap (Task.notice nl)).foldl hear r := by
  induction tasks generalizing r with
  | nil => rfl
  | cons task rest ih =>
    have here : r.enter nl task = (task.notice nl).elim r r.hear := by
      cases task with
      | joinedStream info => exact absurd rfl (entered _ List.mem_cons_self info)
      | _ => rfl
    rw [List.foldl_cons,here,ih (fun task member => entered task (List.mem_cons_of_mem _ member))]
    cases found : task.notice nl <;> simp [found]

theorem foldl_joined (nl : Nlohmann) (infos : List LicodeStreamInfo) (r : Roster) :
    (infos.map Task.joinedStream).foldl (enter nl) r =
      { r with remote := r.remote ∪ (infos.map (·.id)).toFinset } := by
  induction infos generalizing r with
  | nil => simp only [List.map_nil,List.foldl_nil,List.toFinset_nil,Finset.union_empty]
  | cons info rest ih =>
    simp only [List.map_cons,List.foldl_cons,ih,enter,List.toFinset_cons]
    congr 1
    ext id
    simp only [Finset.mem_union,Finset.mem_insert]
    tauto

end Roster

/-! ### The remote table -/

/-- The remote table after a task that does not fault. -/
def Task.remoteTable (w : World) : Task → StreamTable
  | .joinedStream info => emplace w.room.remoteStreamInfos info.id w.heap.next
  | .onAddStream info =>
    if entry w.room.localStreamInfos info.id = none then w.room.remoteStreamInfos.insert info.id (some w.heap.next)
    else w.room.remoteStreamInfos
  | .onRemoveStream streamId => w.room.remoteStreamInfos.erase streamId
  | .sendIceCandidate streamId _ _ _ => index w.room.remoteStreamInfos streamId
  | _ => w.room.remoteStreamInfos

theorem remote_runSendIceCandidate {streamId : UInt64} {sdpMid candidate : Text} {sdpMLineIndex : Int32} {w : World}
    (fine : faultOf (Task.runSendIceCandidate streamId sdpMid sdpMLineIndex candidate) w = none) :
    (after (Task.runSendIceCandidate streamId sdpMid sdpMLineIndex candidate) w).room.remoteStreamInfos =
      index w.room.remoteStreamInfos streamId := by
  have runs := run_runSendIceCandidate streamId sdpMid sdpMLineIndex candidate w
  cases found : entry w.room.remoteStreamInfos streamId with
  | some p =>
    rw [found] at runs
    rw [after_congr runs,index_of_entry found]
    exact congrArg Streams.remoteStreamInfos (streams_signalingSendMsg _ w)
  | none =>
    cases own : entry w.room.localStreamInfos streamId with
    | some p =>
      rw [found,own] at runs
      rw [after_congr runs]
      exact congrArg Streams.remoteStreamInfos (streams_signalingSendMsg _ (w.indexRemote streamId))
    | none => rw [found,own] at runs; simp [faultOf,runs] at fine

theorem remote_runOfferOrAnswer {type : String} {streamId : UInt64} {sdp : Text} {w : World}
    (fine : faultOf (Task.runOfferOrAnswer type streamId sdp) w = none) :
    (after (Task.runOfferOrAnswer type streamId sdp) w).room.remoteStreamInfos = w.room.remoteStreamInfos := by
  have runs := run_runOfferOrAnswer type streamId sdp w
  cases found : entry w.room.remoteStreamInfos streamId with
  | none => rw [found] at runs; simp [faultOf,runs] at fine
  | some p =>
    rw [found] at runs
    rw [after_congr runs]
    exact congrArg Streams.remoteStreamInfos (streams_signalingSendMsg _ w)

theorem remote_task {nl : Nlohmann} {order : Order UInt64 StreamPtr} {task : Task} {w : World}
    (fine : faultOf (task.run nl order) w = none) :
    (after (task.run nl order) w).room.remoteStreamInfos = task.remoteTable w := by
  have sends : ∀ msg, (after (signalingSendMsg msg) w).room.remoteStreamInfos = w.room.remoteStreamInfos :=
    fun msg => congrArg Streams.remoteStreamInfos (streams_signalingSendMsg msg w)
  cases task with
  | onJoinRoom => rfl
  | joinedStream info => rfl
  | onAddStream info =>
    have runs := run_runOnAddStream info w
    simp only [Task.run,Task.remoteTable,after_of_ok runs]
    cases entry w.room.localStreamInfos info.id <;> rfl
  | onRemoveStream streamId => rfl
  | onSubscribeStream json =>
    obtain ⟨_,_,_,_,_,-,-,-,same⟩ := after_runOnSubscribeStream fine
    simp only [Task.run,same]
    rfl
  | onPublishStream msg =>
    obtain ⟨_,_,_,_,_,-,-,same⟩ := after_runOnPublishStream fine
    simp only [Task.run,same]
    rfl
  | onPeerConnectionConnectErizoReady connId =>
    have runs := run_runOnPeerConnectionConnectErizoReady order connId w
    simp only [Task.run]
    cases stream : w.streamOf order connId with
    | error fault => rw [stream] at runs; rw [after_of_error runs]; rfl
    | ok found =>
      rw [stream] at runs
      cases found <;> rw [after_of_ok runs] <;> rfl
  | receiveOffer connId sdp =>
    have runs := run_runReceiveOffer order connId sdp w
    simp only [Task.run]
    cases stream : findIn w.heap.cell connId (order.arrange w.room.remoteStreamInfos.entries) with
    | error fault => rw [stream] at runs; rw [after_of_error runs]; rfl
    | ok found => rw [stream] at runs; rw [after_of_ok runs]; rfl
  | publishStream info label => exact congrArg Streams.remoteStreamInfos (streams_request _ w)
  | unPublishStream streamId => exact sends _
  | subscribeStream streamId => exact congrArg Streams.remoteStreamInfos (streams_request _ w)
  | unSubscriberStream streamId => exact sends _
  | sendAnswer streamId sdp => exact remote_runOfferOrAnswer fine
  | sendOffer streamId sdp => exact remote_runOfferOrAnswer fine
  | sendIceCandidate streamId sdpMid sdpMLineIndex candidate => exact remote_runSendIceCandidate fine

/-- A candidate is sent for a stream that is known. -/
theorem known_of_sendIceCandidate {nl : Nlohmann} {order : Order UInt64 StreamPtr} {streamId : UInt64}
    {sdpMid candidate : Text} {sdpMLineIndex : Int32} {w : World}
    (fine : faultOf ((Task.sendIceCandidate streamId sdpMid sdpMLineIndex candidate).run nl order) w = none) :
    (entry w.room.remoteStreamInfos streamId).isSome ∨ (entry w.room.localStreamInfos streamId).isSome := by
  have runs := run_runSendIceCandidate streamId sdpMid sdpMLineIndex candidate w
  cases found : entry w.room.remoteStreamInfos streamId with
  | some p => exact .inl rfl
  | none =>
    cases own : entry w.room.localStreamInfos streamId with
    | some p => exact .inr rfl
    | none =>
      rw [found,own] at runs
      simp [faultOf,Task.run,runs] at fine

/-- While no own stream is known, a task that does not fault leaves no null
    pointer among the remote streams. -/
theorem noNull_remoteTable {nl : Nlohmann} {order : Order UInt64 StreamPtr} {task : Task} {w : World}
    (clean : NoNull w.room.remoteStreamInfos) (alone : ∀ streamId, entry w.room.localStreamInfos streamId = none)
    (fine : faultOf (task.run nl order) w = none) : NoNull (task.remoteTable w) := by
  cases task with
  | joinedStream info => exact noNull_emplace clean _ _
  | onAddStream info =>
    simp only [Task.remoteTable,alone info.id,if_true]
    exact noNull_insert clean _ _
  | onRemoveStream streamId => exact noNull_erase clean _
  | sendIceCandidate streamId sdpMid sdpMLineIndex candidate =>
    rcases known_of_sendIceCandidate fine with known | known
    · obtain ⟨p,found⟩ := Option.isSome_iff_exists.mp known
      simp only [Task.remoteTable,index_of_entry found]
      exact clean
    · rw [alone streamId] at known
      cases known
  | _ => exact clean

/-! ### Before the first session and in it -/

/-- A task that takes in no publish ack makes no stream an own one. -/
theorem alone_task {nl : Nlohmann} {order : Order UInt64 StreamPtr} {task : Task} {w : World} (valid : w.view.Valid)
    (alone : ∀ streamId, w.view.own streamId = none) (unacked : ∀ streamId, task.notice nl ≠ some (.acked streamId))
    (fine : faultOf (task.run nl order) w = none) (streamId : UInt64) :
    (after (task.run nl order) w).view.own streamId = none := by
  rw [view_task nl order task valid fine]
  cases task with
  | joinedStream info =>
    simp only [Task.change]
    split <;> exact alone streamId
  | onAddStream info =>
    have other : entry w.room.localStreamInfos info.id = none := alone info.id
    simp only [Task.change,other]
    exact alone streamId
  | onPublishStream msg =>
    obtain ⟨_,acked,_,_,-,notice⟩ := change_onPublishStream fine
    exact absurd notice (unacked acked)
  | onSubscribeStream json =>
    obtain ⟨_,_,_,_,change⟩ := change_onSubscribeStream nl fine
    rw [change]
    exact alone streamId
  | _ => exact alone streamId

/-- Nothing was heard of streams, nothing of it waits in the queue, and no stream
    is an own one. -/
structure Waits (nl : Nlohmann) (h : Heard) : Prop where
  refused : ∀ n ∈ h.notices, n = .refused
  tasks : ∀ task ∈ h.world.tasks, task.notice nl = none ∧ ∀ info, task ≠ .joinedStream info
  alone : ∀ streamId, h.world.view.own streamId = none

/-- The tables show `r` now, and once the tasks in the queue have run they will
    show what was heard. Publish acks wait behind the streams of the response, and
    until those are entered no own stream is known. -/
structure Tells (nl : Nlohmann) (h : Heard) (r : Roster) (front back : List Task) : Prop where
  agrees : r.Shows h.world.view
  pending : h.world.tasks.foldl (Roster.enter nl) r = Roster.of h.notices
  queue : h.world.tasks = front ++ back
  unacked : ∀ task ∈ front, ∀ streamId, task.notice nl ≠ some (.acked streamId)
  entered : ∀ task ∈ back, ∀ info, task ≠ .joinedStream info
  alone : front ≠ [] → (∀ streamId, h.world.view.own streamId = none) ∧ NoNull h.world.room.remoteStreamInfos

theorem enter_api (nl : Nlohmann) (r : Roster) (api : Api) (w : World) : r.enter nl (api.task w) = r := by
  cases api <;> rfl

/-- A stream of the response is entered while no key is bound to null. -/
theorem enters_of_noNull {w : World} (clean : NoNull w.room.remoteStreamInfos) (task : Task) : task.Enters w := by
  cases task with
  | joinedStream info => exact fun bound => Option.isSome_iff_exists.mpr ((mem_iff_entry clean info.id).mp bound)
  | _ => trivial

theorem enters_of_not_joined {task : Task} (other : ∀ info, task ≠ .joinedStream info) (w : World) : task.Enters w := by
  cases task with
  | joinedStream info => exact absurd rfl (other info)
  | _ => trivial

/-- A task runs in the session. -/
theorem tells_task {nl : Nlohmann} {h h' : Heard} {r : Roster} {front back : List Task} {task : Task}
    {order : Order UInt64 StreamPtr} {v : World} {e : Event} (tells : Tells nl h r front back)
    (valid : h.world.view.Valid) (starts : started h.world e = some (task,order,v)) (taken : h.step nl e = some h')
    (lives : h'.world.crashed = none) : ∃ front' back', Tells nl h' (r.enter nl task) front' back' := by
  have runs := Heard.runs_of_started valid starts taken lives
  have tables := runs.tables
  have agrees : r.Shows v.view := ⟨tables.1 ▸ tells.agrees.remote,tables.2 ▸ tells.agrees.own⟩
  have remote : h'.world.room.remoteStreamInfos = task.remoteTable v := by
    rw [runs.world,← remote_task runs.fine]
    rfl
  have shows_ : task.Enters v → (r.enter nl task).Shows h'.world.view := by
    intro enters
    rw [runs.world]
    exact Roster.shows_task agrees runs.valid enters runs.fine
  -- What is kept while streams of the response wait.
  have alone : front ≠ [] → (∀ streamId, task.notice nl ≠ some (.acked streamId)) →
      (∀ streamId, h'.world.view.own streamId = none) ∧ NoNull h'.world.room.remoteStreamInfos := by
    intro waiting unacked
    obtain ⟨none,clean⟩ := tells.alone waiting
    refine ⟨?_,?_⟩
    · rw [runs.world]
      exact alone_task runs.valid (tables.2 ▸ none) unacked runs.fine
    · rw [remote]
      exact noNull_remoteTable (runs.room ▸ clean) (fun streamId => by rw [runs.room]; exact none streamId) runs.fine
  rcases runs.source with taken | ⟨rfl,api,rfl⟩
  · have pending := tells.pending
    rw [taken,List.foldl_cons] at pending
    cases front with
    | nil =>
      have last := tells.queue
      rw [taken,List.nil_append] at last
      have enters := enters_of_not_joined (tells.entered task (by rw [← last]; exact List.mem_cons_self)) v
      refine ⟨[],v.tasks,⟨shows_ enters,?_,runs.tasks,?_,?_,fun none => absurd rfl none⟩⟩
      · rw [runs.tasks,runs.notices]; exact pending
      · intro task member; cases member
      · intro task' member; exact tells.entered task' (by rw [← last]; exact List.mem_cons_of_mem _ member)
    | cons first front =>
      have split := tells.queue
      rw [taken,List.cons_append,List.cons.injEq] at split
      obtain ⟨rfl,rest⟩ := split
      have clean := (tells.alone (List.cons_ne_nil _ _)).2
      refine ⟨front,back,⟨shows_ (enters_of_noNull (runs.room ▸ clean) task),?_,runs.tasks.trans rest,?_,
        tells.entered,?_⟩⟩
      · rw [runs.tasks,runs.notices]; exact pending
      · intro task' member; exact tells.unacked task' (List.mem_cons_of_mem _ member)
      · intro _; exact alone (List.cons_ne_nil _ _) (tells.unacked task List.mem_cons_self)
  · refine ⟨front,back,⟨shows_ (enters_of_not_joined (not_joined_api api h.world) _),?_,
      runs.tasks.trans tells.queue,tells.unacked,tells.entered,?_⟩⟩
    · rw [runs.tasks,runs.notices,enter_api]; exact tells.pending
    · intro waiting
      exact alone waiting (fun streamId acked => by rw [notice_api] at acked; cases acked)

/-- Something arrives in the session, or nothing happens to the streams. -/
theorem tells_idle {nl : Nlohmann} {h h' : Heard} {r : Roster} {front back : List Task} {e : Event}
    (tells : Tells nl h r front back) (idle : started h.world e = none)
    (other : ∀ token, e.frame h.world ≠ .initToken token) (taken : h.step nl e = some h') :
    Tells nl h' r front (back ++ posted nl h.world e) := by
  have arrives := Heard.arrives_of_idle idle taken
  have remote := (step_idle (Heard.step_eq_some taken).1 idle).2.2 other
  have tables : h'.world.view.remote = h.world.view.remote ∧ h'.world.view.own = h.world.view.own := by
    simp only [World.view,Streams.view,World.streams,arrives.own,remote,and_self]
  refine ⟨⟨?_,?_⟩,?_,?_,tells.unacked,?_,?_⟩
  · rw [tables.1]; exact tells.agrees.remote
  · rw [tables.2]; exact tells.agrees.own
  · rw [arrives.tasks,List.foldl_append,tells.pending,Roster.foldl_enter (not_joined_posted other),
      notices_posted other,arrives.notices,Roster.of_append]
  · rw [arrives.tasks,tells.queue,List.append_assoc]
  · intro task member
    rcases List.mem_append.mp member with before | new
    · exact tells.entered task before
    · exact not_joined_posted other task new
  · intro some
    rw [tables.2,remote]
    exact tells.alone some

/-- Before the first session. -/
theorem waits_step {nl : Nlohmann} {h h' : Heard} {e : Event} (waits : Waits nl h) (valid : h.world.view.Valid)
    (taken : h.step nl e = some h') (lives : h'.world.crashed = none) (refused : ∀ n ∈ h'.notices, n = .refused) :
    Waits nl h' := by
  obtain ⟨steps,notices,-⟩ := Heard.step_eq_some taken
  -- Nothing that is posted tells of streams.
  have silent : ∀ task ∈ posted nl h.world e, task.notice nl = none ∧ ∀ info, task ≠ .joinedStream info := by
    have new : ∀ n ∈ (e.frame h.world).notices nl, n = .refused :=
      fun n member => refused n (notices ▸ List.mem_append_right _ member)
    by_cases response : ∃ token, e.frame h.world = .initToken token
    · obtain ⟨token,frame⟩ := response
      rw [(posted_of_token frame nl).2]
      rw [frame] at new
      simp only [Frame.notices] at new
      simp only [Frame.tasks]
      cases outcome : joinOutcome nl token with
      | admitted response => rw [outcome] at new; exact absurd (new _ List.mem_cons_self) (by simp)
      | refused => intro task member; cases member
      | undefined => intro task member; cases member
    · have other : ∀ token, e.frame h.world ≠ .initToken token := fun token frame => response ⟨token,frame⟩
      intro task member
      refine ⟨?_,not_joined_posted other task member⟩
      by_contra some
      obtain ⟨n,found⟩ := Option.ne_none_iff_exists'.mp some
      have heard : n ∈ (e.frame h.world).notices nl := by
        rw [← notices_posted other]
        exact List.mem_filterMap.mpr ⟨task,member,found⟩
      have none := new n heard
      subst none
      cases task <;> simp [Task.notice] at found
  refine ⟨refused,?_,?_⟩
  · intro task member
    rw [step_tasks steps] at member
    rcases List.mem_append.mp member with before | new
    · exact waits.tasks task (mem_of_base before)
    · exact silent task new
  · cases starts : started h.world e with
    | none =>
      intro streamId
      have none := waits.alone streamId
      simp only [World.view,Streams.view,World.streams,(step_idle steps starts).1] at none ⊢
      exact none
    | some start =>
      obtain ⟨task,order,v⟩ := start
      have runs := Heard.runs_of_started valid starts taken lives
      have unacked : ∀ streamId, task.notice nl ≠ some (.acked streamId) := by
        intro streamId acked
        rcases runs.source with queue | ⟨-,api,rfl⟩
        · rw [(waits.tasks task (by rw [queue]; exact List.mem_cons_self)).1] at acked
          cases acked
        · rw [notice_api] at acked
          cases acked
      rw [runs.world]
      exact alone_task runs.valid (runs.tables.2 ▸ waits.alone) unacked runs.fine

theorem of_refused {notices : List Notice} (refused : ∀ n ∈ notices, n = .refused) :
    Roster.of notices = ⟨∅,∅⟩ := by
  unfold Roster.of
  induction notices with
  | nil => rfl
  | cons n rest ih =>
    rw [List.foldl_cons,refused n List.mem_cons_self]
    exact ih (fun n member => refused n (List.mem_cons_of_mem _ member))

/-- The response that begins the first session. -/
theorem tells_admitted {nl : Nlohmann} {h h' : Heard} {e : Event} {token : Text} {response : JoinResponse}
    (waits : Waits nl h) (frame : e.frame h.world = .initToken token)
    (outcome : joinOutcome nl token = .admitted response)
    (taken : h.step nl e = some h') : Tells nl h' ⟨∅,∅⟩ h'.world.tasks [] := by
  obtain ⟨steps,notices,-⟩ := Heard.step_eq_some taken
  obtain ⟨idle,posts⟩ := posted_of_token frame nl
  have remote : h'.world.room.remoteStreamInfos = ∅ := by
    obtain ⟨v,-,same⟩ := step_token (f := fun w => w.room.remoteStreamInfos) (fun _ _ _ => rfl) (fun _ _ => rfl) steps
      frame
    have spec := onJoinRoom_spec nl token v
    rw [outcome] at spec
    rw [same,after_of_ok spec]
    rfl
  have own : ∀ streamId, h'.world.view.own streamId = none := by
    intro streamId
    have none := waits.alone streamId
    simp only [World.view,Streams.view,World.streams,(step_idle steps idle).1] at none ⊢
    exact none
  have queue : h'.world.tasks = h.world.tasks ++ .onJoinRoom :: response.existStreams.map .joinedStream := by
    rw [step_tasks steps,posts]
    simp [base,idle,Frame.tasks,outcome]
  refine ⟨⟨?_,?_⟩,?_,(List.append_nil _).symm,?_,?_,fun _ => ⟨own,remote ▸ noNull_empty⟩⟩
  · intro streamId
    simp [World.view,Streams.view,World.streams,remote]
  · intro streamId
    simp [own streamId]
  · have before : h.world.tasks.foldl (Roster.enter nl) ⟨∅,∅⟩ = ⟨∅,∅⟩ := by
      rw [Roster.foldl_enter (fun task member => (waits.tasks task member).2)]
      have none : h.world.tasks.filterMap (Task.notice nl) = [] :=
        List.filterMap_eq_nil_iff.mpr (fun task member => (waits.tasks task member).1)
      rw [none]
      rfl
    rw [queue,List.foldl_append,before,List.foldl_cons,Roster.foldl_joined,notices,Roster.of_append,
      of_refused waits.refused,frame]
    simp [Frame.notices,outcome,Roster.hear,Roster.enter,Task.notice]
  · intro task member streamId acked
    rw [queue] at member
    rcases List.mem_append.mp member with before | new
    · rw [(waits.tasks task before).1] at acked
      cases acked
    · rcases List.mem_cons.mp new with rfl | joined
      · cases acked
      · obtain ⟨info,-,rfl⟩ := List.mem_map.mp joined
        cases acked
  · intro task member
    cases member

/-! ### The first session -/

/-- What comes with a token response. -/
def Notice.ofToken : Notice → Bool
  | .listed _ | .refused => true
  | _ => false

/-- What was heard up to some point of the first session: one response that
    admitted the room, and none after it. -/
def FirstSession (notices : List Notice) : Prop :=
  ∃ before ids later, notices = before ++ .listed ids :: later ∧ (∀ n ∈ before, n = .refused) ∧
    ∀ n ∈ later, n.ofToken = false

theorem firstSession_of_append {notices new : List Notice} (others : ∀ n ∈ new, n.ofToken = false)
    (first : FirstSession (notices ++ new)) : FirstSession notices := by
  obtain ⟨before,ids,later,whole,early,late⟩ := first
  rcases List.append_eq_append_iff.mp whole with ⟨rest,rfl,split⟩ | ⟨rest,rfl,split⟩
  · exact absurd (others (.listed ids) (by rw [split]; simp)) (by simp [Notice.ofToken])
  · cases rest with
    | nil =>
      have wrong := others (.listed ids) (by rw [List.nil_append] at split; rw [← split]; simp)
      simp [Notice.ofToken] at wrong
    | cons n rest =>
      simp only [List.cons_append,List.cons.injEq] at split
      obtain ⟨rfl,rfl⟩ := split
      exact ⟨before,ids,rest,rfl,early,fun n member => late n (List.mem_append_left _ member)⟩

/-- A token response can only be the one that begins the session. -/
theorem firstSession_snoc {notices : List Notice} {n : Notice} (response : n.ofToken = true)
    (first : FirstSession (notices ++ [n])) : (∃ ids, n = .listed ids) ∧ ∀ n ∈ notices, n = .refused := by
  obtain ⟨before,ids,later,whole,early,late⟩ := first
  rcases later.eq_nil_or_concat with rfl | ⟨rest,last,rfl⟩
  · obtain ⟨rfl,same⟩ := List.append_inj' whole rfl
    exact ⟨⟨ids,List.singleton_inj.mp same⟩,early⟩
  · rw [List.concat_eq_append,← List.cons_append,← List.append_assoc] at whole
    have same := List.singleton_inj.mp (List.append_inj' whole rfl).2
    have wrong := late last (by simp)
    rw [← same,response] at wrong
    cases wrong

/-- A run is waiting for its first session or in it. -/
structure Heard.Kept (nl : Nlohmann) (h : Heard) : Prop where
  valid : h.world.crashed = none → h.world.view.Valid
  waits : h.world.crashed = none → (∀ n ∈ h.notices, n = .refused) → Waits nl h
  tells : h.world.crashed = none → FirstSession h.notices → ∃ r front back, Tells nl h r front back

theorem Heard.kept_init (nl : Nlohmann) (token : LicodeToken) : (Heard.init token).Kept nl := by
  refine ⟨fun _ => valid_init token,fun _ refused => ⟨refused,?_,?_⟩,fun _ first => ?_⟩
  · intro task member
    cases member
  · intro streamId
    simp [init,World.init,World.view,Streams.view,World.streams]
  · obtain ⟨before,ids,later,whole,-⟩ := first
    cases before <;> cases whole

theorem ofToken_notices {nl : Nlohmann} {frame : Frame} (other : ∀ token, frame ≠ .initToken token) :
    ∀ n ∈ frame.notices nl, n.ofToken = false := by
  have heard : frame.notices nl = (frame.tasks nl).filterMap (Task.notice nl) := by
    cases frame with
    | initToken token => exact absurd rfl (other token)
    | _ => rfl
  intro n member
  rw [heard] at member
  obtain ⟨task,-,found⟩ := List.mem_filterMap.mp member
  cases task <;> simp [Task.notice] at found
  · subst found; rfl
  · subst found; rfl
  · obtain ⟨streamId,-,rfl⟩ := found; rfl

theorem Heard.kept_step {nl : Nlohmann} {h h' : Heard} {e : Event} (kept : h.Kept nl) (taken : h.step nl e = some h') :
    h'.Kept nl := by
  obtain ⟨steps,notices,-⟩ := Heard.step_eq_some taken
  have lives := (LicodeClient.step_eq_some steps).1
  have valid := kept.valid lives
  refine ⟨step_valid valid steps,fun lives' refused => ?_,fun lives' first => ?_⟩
  · refine waits_step (kept.waits lives (fun n member => refused n ?_)) valid taken lives' refused
    rw [notices]
    exact List.mem_append_left _ member
  · by_cases response : ∃ token, e.frame h.world = .initToken token
    · obtain ⟨token,frame⟩ := response
      rw [notices,frame] at first
      simp only [Frame.notices] at first
      cases outcome : joinOutcome nl token with
      | admitted response =>
        rw [outcome] at first
        obtain ⟨-,refused⟩ := firstSession_snoc rfl first
        exact ⟨_,_,_,tells_admitted (kept.waits lives refused) frame outcome taken⟩
      | refused =>
        rw [outcome] at first
        obtain ⟨⟨ids,wrong⟩,-⟩ := firstSession_snoc rfl first
        cases wrong
      | undefined =>
        rw [outcome] at first
        obtain ⟨⟨ids,wrong⟩,-⟩ := firstSession_snoc rfl first
        cases wrong
    · have other : ∀ token, e.frame h.world ≠ .initToken token := fun token frame => response ⟨token,frame⟩
      rw [notices] at first
      obtain ⟨r,front,back,tells⟩ := kept.tells lives (firstSession_of_append (ofToken_notices other) first)
      cases starts : started h.world e with
      | none => exact ⟨r,front,_,tells_idle tells starts other taken⟩
      | some start =>
        obtain ⟨front',back',tells'⟩ := tells_task tells valid starts taken lives'
        exact ⟨_,front',back',tells'⟩

/-- In the first session, whenever no task waits, the remote streams are those
    that the server has told of. -/
theorem remote_refines {nl : Nlohmann} {token : LicodeToken} {es : List Event} {h : Heard}
    (runs : run (Heard.step nl) (Heard.init token) es = some h) (lives : h.world.crashed = none)
    (first : FirstSession h.notices) (drained : h.world.tasks = []) (streamId : UInt64) :
    (∃ p, entry h.world.room.remoteStreamInfos streamId = some p) ↔ streamId ∈ (Roster.of h.notices).remote := by
  have kept : h.Kept nl := (always_of_invariant (fun _ _ _ kept taken => Heard.kept_step kept taken)
    (Heard.kept_init nl token) es).last runs
  obtain ⟨r,front,back,tells⟩ := kept.tells lives first
  have pending := tells.pending
  rw [drained,List.foldl_nil] at pending
  rw [← pending,tells.agrees.remote streamId,Option.isSome_iff_exists]
  rfl

/-! ### A visit -/

/-- A stream as the server describes it. -/
def described (streamId : UInt64) : Json :=
  Builder.object [("attributes",.object []),("audio",.boolean true),("data",.boolean true),("id",.unsigned streamId),
    ("label",Builder.text "cam"),("screen",.boolean false),("video",.boolean true)]

/-- The response to a token that is accepted. -/
def welcome (ids : List UInt64) : Json :=
  .array [Builder.text "success",
    Builder.object [("clientId",Builder.text "c"),("defaultVideoBW",.integer 300),("iceServers",.array []),
      ("id",Builder.text "r"),("maxVideoBW",.integer 300),("singlePC",.boolean false),
      ("streams",.array (ids.map described))]]

/-- An event with its argument. -/
def eventBody (name : String) (argument : Json) : Json := .array [Builder.text name,argument]

def named (streamId : UInt64) : Json := Builder.object [("id",.unsigned streamId)]

/-- A frame arrives on the first session. -/
def arrives (header : Text) (body : Json) : Event := .read 0 (some (header ++ body.print))

/-- Stream 5 is in the room, stream 7 comes and stream 5 goes. -/
def visit : List Event :=
  opening ++ [arrives TOKEN_INIT_RESPONSE (welcome [5]),.work .listed,
    arrives SOCKET_IO_WEBSOCKET_EVENT (eventBody "onAddStream" (described 7)),.work .listed,.work .listed,
    arrives SOCKET_IO_WEBSOCKET_EVENT (eventBody "onRemoveStream" (named 5)),.work .listed]

def visited : Nlohmann :=
  library [welcome [5],eventBody "onAddStream" (described 7),described 7,eventBody "onRemoveStream" (named 5),named 5]

theorem remote_refines_visit :
    ∃ h, run (Heard.step visited) (Heard.init ⟨[],[],false,[]⟩) visit = some h ∧ h.world.crashed = none ∧
      FirstSession h.notices ∧ h.world.tasks = [] ∧ (∃ p, entry h.world.room.remoteStreamInfos 7 = some p) ∧
      ¬ ∃ p, entry h.world.room.remoteStreamInfos 5 = some p := by
  have runs : (run (Heard.step visited) (Heard.init ⟨[],[],false,[]⟩) visit).map (fun h =>
      (h.world.crashed,h.world.tasks.isEmpty,h.notices)) = some (none,true,[.listed [5],.added 7,.removed 5]) := by
    decide +kernel
  obtain ⟨h,reached,facts⟩ := Option.map_eq_some_iff.mp runs
  obtain ⟨lives,drained,notices⟩ : h.world.crashed = none ∧ _ ∧ _ := by simpa only [Prod.mk.injEq] using facts
  have first : FirstSession h.notices := ⟨[],[5],[.added 7,.removed 5],notices,by simp,by simp [Notice.ofToken]⟩
  have drained := List.isEmpty_iff.mp drained
  refine ⟨h,reached,lives,first,drained,?_,?_⟩
  · rw [remote_refines reached lives first drained 7,notices]
    decide
  · rw [remote_refines reached lives first drained 5,notices]
    decide

end LicodeClient
