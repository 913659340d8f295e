import LicodeClient.Application
import LicodeClient.Events

/-!
How the application negotiates. It publishes nothing, so its room knows remote
streams only, each under its own id and after it was reported (`Viewing`). Every
stream that is reported gets a peer connection and one place in the queue of the
subscribe requests, and connections are given out in that order
(`allocates_in_order`). So the application ends the process by itself only when an
offer comes for a connection that no stream has, or for one for which WebRTC made no
peer connection (`stays_up_iff`).
-/
namespace LicodeClient
open LicodeClient.Table LicodeClient.Program LicodeClient.Run
open LicodeClient.Peer (SdpType)

/-- The id of the stream that is named with the connection it was given. -/
def Call.allocated (heap : Heap) : Call → Option UInt64
  | .onSubscribeStreamAllocateConnId (some p) => some (heap.cell p).id
  | _ => none

/-- The stream that a call names. -/
def Call.stream : Call → Option StreamPtr
  | .onJoinRoom _ => none
  | .onAddRemoteStream p => some p
  | .onSubscribeStreamAllocateConnId info | .onStreamConnectReady info | .onReceiveOffer info _ => info

/-- The ids of the streams that were reported to the observer. -/
def World.reported (w : World) : List UInt64 := w.calls.filterMap (Call.reported w.heap)

/-- The ids of the streams that the observer was told a connection of. -/
def World.allocated (w : World) : List UInt64 := w.calls.filterMap (Call.allocated w.heap)

/-- The streams that a task asks the server for. -/
def Task.asked : Task → List UInt64
  | .subscribeStream streamId => [streamId]
  | _ => []

/-- A room whose application publishes nothing and subscribes on the worker's
    thread: it has no stream of its own, its queue holds no request, and every stream
    that it knows was reported and is known under its id. -/
structure Viewing (w : World) : Prop where
  own : ∀ streamId, entry w.room.localStreamInfos streamId = none
  unpublished : w.room.pendingPublishLocalStreams = []
  idle : ∀ task ∈ w.tasks, task.published = none ∧ task.asked = []
  named : ∀ streamId p, entry w.room.remoteStreamInfos streamId = some p →
    (w.heap.cell p).id = streamId ∧ .onAddRemoteStream p ∈ w.calls
  exist : ∀ call ∈ w.calls, ∀ p, call.stream = some p → p < w.heap.next

/-! ### Tasks -/

/-- The call that a task can make. -/
def Task.Calls : Task → Call → Prop
  | .onJoinRoom,.onJoinRoom _ | .joinedStream _,.onAddRemoteStream _ | .onAddStream _,.onAddRemoteStream _ => True
  | .onSubscribeStream _,.onSubscribeStreamAllocateConnId info => info.isSome
  | .onPeerConnectionConnectErizoReady _,.onStreamConnectReady _ => True
  | .receiveOffer _ sdp,.onReceiveOffer _ sdp' => sdp' = sdp
  | _,_ => False

/-- What a task does when it returns: the call that it makes, with a stream that the
    room knows or reports, the connections that it gives out in the order of the queue,
    and streams that are known under their ids. -/
structure Effect (task : Task) (w w' : World) (call : Option Call) : Prop where
  made : ∀ c, call = some c → task.Calls c
  called : w'.calls = w.calls ++ call.toList
  queue : (call.bind (Call.allocated w'.heap)).toList ++ w'.room.pendingSubscribeStreams =
    w.room.pendingSubscribeStreams ++ task.asked
  next : w.heap.next ≤ w'.heap.next
  ids : ∀ p < w.heap.next, (w'.heap.cell p).id = (w.heap.cell p).id
  own : ∀ streamId, entry w'.room.localStreamInfos streamId = none
  unpublished : w'.room.pendingPublishLocalStreams = []
  remote : ∀ streamId p, entry w'.room.remoteStreamInfos streamId = some p →
    entry w.room.remoteStreamInfos streamId = some p ∨
      (w'.heap.cell p).id = streamId ∧ call = some (.onAddRemoteStream p)
  stream : ∀ p, call.bind Call.stream = some p →
    (∃ streamId, entry w.room.remoteStreamInfos streamId = some p) ∨
      call = some (.onAddRemoteStream p) ∧ p < w'.heap.next

section
variable {nl : Nlohmann} {order : Order UInt64 StreamPtr} {task : Task} {w w' : World} {call : Option Call}

/-- A task that leaves the streams alone. -/
theorem effect_of_streams (viewing : Viewing w) (same : w'.streams = w.streams)
    (made : ∀ c, call = some c → task.Calls c) (called : w'.calls = w.calls ++ call.toList)
    (quiet : call.bind (Call.allocated w'.heap) = none) (unasked : task.asked = [])
    (known : ∀ p, call.bind Call.stream = some p → ∃ streamId, entry w.room.remoteStreamInfos streamId = some p) :
    Effect task w w' call := by
  have pending := congrArg Streams.pendingSubscribeStreams same
  have heap := congrArg Streams.heap same
  have own := congrArg Streams.localStreamInfos same
  have remote := congrArg Streams.remoteStreamInfos same
  have unpublished := congrArg Streams.pendingPublishLocalStreams same
  simp only [World.streams] at pending heap own remote unpublished
  refine ⟨made,called,?_,by rw [heap],fun p _ => by rw [heap],fun streamId => by rw [own]; exact viewing.own streamId,
    unpublished.trans viewing.unpublished,fun streamId p found => .inl (by rwa [remote] at found),
    fun p names => .inl (known p names)⟩
  rw [quiet,pending,unasked,List.append_nil]
  rfl

/-- A task that only sends. -/
theorem effect_send (viewing : Viewing w) (same : w'.streams = w.streams) (called : w'.calls = w.calls)
    (unasked : task.asked = []) : Effect task w w' none :=
  effect_of_streams viewing same (fun _ makes => by cases makes) (called.trans (List.append_nil _).symm) rfl unasked
    (fun _ names => by cases names)

theorem effect_joinedStream (viewing : Viewing w) (info : LicodeStreamInfo) :
    Effect (.joinedStream info) w (after (Task.runJoinedStream info) w) (some (.onAddRemoteStream w.heap.next)) := by
  rw [after_of_ok (run_runJoinedStream info w)]
  refine ⟨fun c makes => by cases makes; trivial,rfl,(List.append_nil _).symm,Nat.le_succ _,fun p before => ?_,
    viewing.own,viewing.unpublished,fun streamId p found => ?_,fun p names => ?_⟩
  · simp only [World.allocate,Function.update_of_ne (Nat.ne_of_lt before)]
  · simp only [World.allocate,emplace] at found ⊢
    split at found
    · exact .inl found
    · rw [entry_insert] at found
      split at found
      · next here =>
        cases found
        exact .inr ⟨by rw [Function.update_self,here],rfl⟩
      · exact .inl found
  · cases names
    exact .inr ⟨rfl,Nat.lt_succ_self _⟩

theorem effect_onAddStream (viewing : Viewing w) (info : LicodeStreamInfo) :
    Effect (.onAddStream info) w (after (Task.runOnAddStream info) w) (some (.onAddRemoteStream w.heap.next)) := by
  have runs := run_runOnAddStream info w
  simp only [viewing.own info.id] at runs
  rw [after_of_ok runs]
  refine ⟨fun c makes => by cases makes; trivial,rfl,(List.append_nil _).symm,Nat.le_succ _,fun p before => ?_,
    fun streamId => (entry_index _ info.id streamId).trans (viewing.own streamId),viewing.unpublished,
    fun streamId p found => ?_,fun p names => ?_⟩
  · simp only [World.indexLocal,World.allocate,Function.update_of_ne (Nat.ne_of_lt before)]
  · simp only [World.indexLocal,World.allocate,entry_insert] at found ⊢
    split at found
    · next here =>
      cases found
      exact .inr ⟨by rw [Function.update_self,here],rfl⟩
    · exact .inl found
  · cases names
    exact .inr ⟨rfl,Nat.lt_succ_self _⟩

theorem effect_onRemoveStream (viewing : Viewing w) (streamId : UInt64) :
    Effect (.onRemoveStream streamId) w (after (Task.runOnRemoveStream streamId) w) none := by
  refine ⟨fun c makes => (by cases makes),(List.append_nil _).symm,(List.append_nil _).symm,Nat.le_refl _,
    fun _ _ => rfl,viewing.own,viewing.unpublished,fun other p found => .inl ?_,fun p names => by cases names⟩
  have erased : entry (w.room.remoteStreamInfos.erase streamId) other = some p := found
  rw [entry_erase] at erased
  split at erased
  · cases erased
  · exact erased

/-- What is written to a description besides its id. -/
theorem id_setInfo {g : LicodeStreamInfo → LicodeStreamInfo} (same : ∀ info, (g info).id = info.id) (w : World)
    (p q : StreamPtr) : ((w.setInfo p g).heap.cell q).id = (w.heap.cell q).id := by
  simp only [World.setInfo,Function.update_apply]
  split
  · next here => rw [here,same]
  · rfl

/-- A subscribe ack gives its connection to the stream at the front of the queue. -/
theorem effect_onSubscribeStream (viewing : Viewing w) {json : Json}
    (fine : faultOf (Task.runOnSubscribeStream json) w = none) :
    ∃ call, Effect (.onSubscribeStream json) w (after (Task.runOnSubscribeStream json) w) call := by
  obtain ⟨streamId,rest,erizoId,connId,p,queue,-,found,same⟩ := after_runOnSubscribeStream fine
  rw [same]
  have ids := id_setInfo (g := fun info => { info with connectionId := connId }) (fun _ => rfl)
    (({ w with room.pendingSubscribeStreams := rest } : World).withErizoId erizoId) p
  refine ⟨some (.onSubscribeStreamAllocateConnId (some p)),fun c makes => by cases makes; rfl,rfl,?_,Nat.le_refl _,
    fun q _ => ids q,viewing.own,viewing.unpublished,fun _ _ found => .inl found,fun q names => ?_⟩
  · have unasked : (Task.onSubscribeStream json).asked = [] := rfl
    rw [queue,unasked,List.append_nil]
    exact congrArg (· :: rest) ((ids p).trans (viewing.named streamId p found).1)
  · cases names
    exact .inl ⟨streamId,found⟩

/-- The streams that a loop over the remote table finds. -/
theorem known_of_findIn {connId : Text} {p : StreamPtr}
    (finds : findIn w.heap.cell connId (order.arrange w.room.remoteStreamInfos.entries) = .ok (some p)) :
    ∃ streamId, entry w.room.remoteStreamInfos streamId = some p := by
  obtain ⟨⟨streamId,member⟩,-⟩ := findIn_some finds
  exact ⟨streamId,(mem_arrange_iff _ order streamId p).mp member⟩

theorem effect_receiveOffer (viewing : Viewing w) {connId sdp : Text}
    (fine : faultOf (Task.runReceiveOffer order connId sdp) w = none) :
    ∃ call, Effect (.receiveOffer connId sdp) w (after (Task.runReceiveOffer order connId sdp) w) call := by
  have runs := run_runReceiveOffer order connId sdp w
  cases finds : findIn w.heap.cell connId (order.arrange w.room.remoteStreamInfos.entries) with
  | error fault => rw [finds] at runs; simp [faultOf,runs] at fine
  | ok found =>
    rw [finds] at runs
    rw [after_of_ok runs]
    refine ⟨some (.onReceiveOffer found sdp),effect_of_streams viewing rfl ?_ rfl rfl rfl ?_⟩
    · intro c makes
      cases makes
      rfl
    · intro p names
      have here : found = some p := names
      rw [here] at finds
      exact known_of_findIn finds

/-- A ready event finds its stream among the remote ones, there being no others. -/
theorem effect_ready (viewing : Viewing w) {connId : Text}
    (fine : faultOf (Task.runOnPeerConnectionConnectErizoReady order connId) w = none) :
    ∃ call, Effect (.onPeerConnectionConnectErizoReady connId) w
      (after (Task.runOnPeerConnectionConnectErizoReady order connId) w) call := by
  have runs := run_runOnPeerConnectionConnectErizoReady order connId w
  cases finds : w.streamOf order connId with
  | error fault => rw [finds] at runs; simp [faultOf,runs] at fine
  | ok found =>
    rw [finds] at runs
    have made : ∀ c, some (.onStreamConnectReady found) = some c →
        (Task.onPeerConnectionConnectErizoReady connId).Calls c := by
      intro c makes
      cases makes
      trivial
    refine ⟨some (.onStreamConnectReady found),?_⟩
    cases found with
    | none =>
      rw [after_of_ok runs]
      exact effect_of_streams viewing rfl made rfl rfl rfl (fun _ names => by cases names)
    | some p =>
      have known : ∃ streamId, entry w.room.remoteStreamInfos streamId = some p := by
        simp only [World.streamOf] at finds
        split at finds
        · cases finds
        · next remote => cases finds; exact known_of_findIn remote
        · obtain ⟨⟨streamId,member⟩,-⟩ := findIn_some finds
          rw [mem_arrange_iff,viewing.own] at member
          cases member
      have ids := id_setInfo (g := fun info => { info with connected := true }) (fun _ => rfl) w p
      rw [after_of_ok runs]
      refine ⟨made,rfl,(List.append_nil _).symm,Nat.le_refl _,fun q _ => ids q,viewing.own,viewing.unpublished,
        fun _ _ found => .inl found,fun q names => ?_⟩
      cases names
      exact .inl known

theorem effect_subscribeStream (viewing : Viewing w) (streamId : UInt64) :
    Effect (.subscribeStream streamId) w (after (Task.runSubscribeStream streamId) w) none := by
  have same := streams_request (g := fun w =>
    { w with room.pendingSubscribeStreams := w.room.pendingSubscribeStreams ++ [streamId] }) (.subscribe streamId) w
  have called := calls_request (g := fun w =>
    { w with room.pendingSubscribeStreams := w.room.pendingSubscribeStreams ++ [streamId] }) (fun _ => rfl)
      (.subscribe streamId) w
  have heap : (after (Task.runSubscribeStream streamId) w).heap = w.heap := congrArg Streams.heap same
  refine ⟨fun c makes => (by cases makes),called.trans (List.append_nil _).symm,
    congrArg Streams.pendingSubscribeStreams same,by rw [heap],fun p _ => by rw [heap],fun other => ?_,
    (congrArg Streams.pendingPublishLocalStreams same).trans viewing.unpublished,fun other p found => .inl ?_,
    fun p names => by cases names⟩
  · exact (congrArg (fun s => entry s.localStreamInfos other) same).trans (viewing.own other)
  · exact (congrArg (fun s => entry s.remoteStreamInfos other) same).symm.trans found

theorem effect_offerOrAnswer (viewing : Viewing w) {type : String} {streamId : UInt64} {sdp : Text}
    (unasked : task.asked = []) (fine : faultOf (Task.runOfferOrAnswer type streamId sdp) w = none) :
    Effect task w (after (Task.runOfferOrAnswer type streamId sdp) w) none := by
  refine effect_send viewing ?_ (calls_runOfferOrAnswer type streamId sdp w) unasked
  have runs := run_runOfferOrAnswer type streamId sdp w
  cases found : entry w.room.remoteStreamInfos streamId with
  | none => rw [found] at runs; simp [faultOf,runs] at fine
  | some p => rw [found] at runs; rw [after_congr runs]; exact streams_signalingSendMsg _ w

theorem effect_sendIceCandidate (viewing : Viewing w) {streamId : UInt64} {sdpMid candidate : Text} {index : Int32}
    (fine : faultOf (Task.runSendIceCandidate streamId sdpMid index candidate) w = none) :
    Effect (.sendIceCandidate streamId sdpMid index candidate) w
      (after (Task.runSendIceCandidate streamId sdpMid index candidate) w) none := by
  refine effect_send viewing ?_ (calls_runSendIceCandidate streamId sdpMid index candidate w) rfl
  have runs := run_runSendIceCandidate streamId sdpMid index candidate w
  simp only [viewing.own streamId] at runs
  cases found : entry w.room.remoteStreamInfos streamId with
  | none => rw [found] at runs; simp [faultOf,runs] at fine
  | some p => rw [found] at runs; rw [after_congr runs]; exact streams_signalingSendMsg _ w

/-- Every task that publishes nothing has such an effect when it returns. -/
theorem effect_task (viewing : Viewing w) (unpublished : task.published = none)
    (fine : faultOf (task.run nl order) w = none) : ∃ call, Effect task w (after (task.run nl order) w) call := by
  cases task with
  | onJoinRoom =>
    refine ⟨some (.onJoinRoom w.room.id),effect_of_streams viewing rfl ?_ rfl rfl rfl ?_⟩
    · intro c makes
      cases makes
      trivial
    · intro p names
      cases names
  | joinedStream info => exact ⟨_,effect_joinedStream viewing info⟩
  | onAddStream info => exact ⟨_,effect_onAddStream viewing info⟩
  | onRemoveStream streamId => exact ⟨_,effect_onRemoveStream viewing streamId⟩
  | onSubscribeStream json => exact effect_onSubscribeStream viewing fine
  | onPublishStream msg =>
    -- No stream waits for the ack, so it faults.
    have runs := run_runOnPublishStream nl msg w
    rw [viewing.unpublished] at runs
    simp [Task.run,faultOf,runs] at fine
  | onPeerConnectionConnectErizoReady connId => exact effect_ready viewing fine
  | receiveOffer connId sdp => exact effect_receiveOffer viewing fine
  | publishStream info label => cases unpublished
  | unPublishStream streamId =>
    exact ⟨_,effect_send viewing (streams_signalingSendMsg _ w) (calls_signalingSendMsg _ w) rfl⟩
  | subscribeStream streamId => exact ⟨_,effect_subscribeStream viewing streamId⟩
  | unSubscriberStream streamId =>
    exact ⟨_,effect_send viewing (streams_signalingSendMsg _ w) (calls_signalingSendMsg _ w) rfl⟩
  | sendAnswer streamId sdp => exact ⟨_,effect_offerOrAnswer viewing rfl fine⟩
  | sendOffer streamId sdp => exact ⟨_,effect_offerOrAnswer viewing rfl fine⟩
  | sendIceCandidate streamId sdpMid index candidate => exact ⟨_,effect_sendIceCandidate viewing fine⟩

/-! ### The room -/

/-- The tasks that a frame posts make no request. -/
theorem unasked_frame (nl : Nlohmann) (frame : Frame) :
    ∀ task ∈ frame.tasks nl, task.published = none ∧ task.asked = [] := by
  intro task member
  cases frame with
  | initToken msg =>
    simp only [Frame.tasks] at member
    split at member
    · rcases List.mem_cons.mp member with rfl | later
      · exact ⟨rfl,rfl⟩
      · obtain ⟨info,-,rfl⟩ := List.mem_map.mp later
        exact ⟨rfl,rfl⟩
    · cases member
  | subscribeStream msg =>
    obtain ⟨json,-,rfl⟩ := List.mem_map.mp member
    exact ⟨rfl,rfl⟩
  | publishStream msg =>
    rw [List.mem_singleton.mp member]
    exact ⟨rfl,rfl⟩
  | event msg =>
    simp only [Frame.tasks,Option.mem_toList,Option.join_eq_some_iff] at member
    cases read : eventTask nl msg with
    | error fault => simp [read,Except.toOption] at member
    | ok found =>
      have yields := yields_eventTask nl msg task (by rw [read]; simpa [read,Except.toOption] using member)
      cases task <;> first | exact ⟨rfl,rfl⟩ | exact yields.elim
  | _ => cases member

theorem viewing_effect (viewing : Viewing w) (effect : Effect task w w' call)
    (idle : ∀ task ∈ w'.tasks, task.published = none ∧ task.asked = []) : Viewing w' where
  own := effect.own
  unpublished := effect.unpublished
  idle := idle
  named := by
    intro streamId p found
    rw [effect.called]
    rcases effect.remote streamId p found with before | ⟨named,new⟩
    · obtain ⟨named,told⟩ := viewing.named streamId p before
      exact ⟨(effect.ids p (viewing.exist _ told p rfl)).trans named,List.mem_append_left _ told⟩
    · exact ⟨named,List.mem_append_right _ (Option.mem_toList.mpr new)⟩
  exist := by
    intro c member p names
    rw [effect.called] at member
    rcases List.mem_append.mp member with before | new
    · exact Nat.lt_of_lt_of_le (viewing.exist c before p names) effect.next
    · have calls := Option.mem_toList.mp new
      rcases effect.stream p (by rw [calls]; exact names) with ⟨streamId,known⟩ | ⟨-,exist⟩
      · exact Nat.lt_of_lt_of_le (viewing.exist _ (viewing.named streamId p known).2 p rfl) effect.next
      · exact exist

/-- Clearing the remote table is all that happens to the streams besides tasks. -/
theorem viewing_cleared (viewing : Viewing w) (cleared : w.streams.Cleared w'.streams) (called : w'.calls = w.calls)
    (idle : ∀ task ∈ w'.tasks, task.published = none ∧ task.asked = []) : Viewing w' := by
  have heap : w'.heap = w.heap := by
    rcases cleared with same | same <;> exact congrArg Streams.heap same
  have own : w'.room.localStreamInfos = w.room.localStreamInfos := by
    rcases cleared with same | same <;> exact congrArg Streams.localStreamInfos same
  have unpublished : w'.room.pendingPublishLocalStreams = w.room.pendingPublishLocalStreams := by
    rcases cleared with same | same <;> exact congrArg Streams.pendingPublishLocalStreams same
  have remote : ∀ streamId p, entry w'.room.remoteStreamInfos streamId = some p →
      entry w.room.remoteStreamInfos streamId = some p := by
    intro streamId p found
    rcases cleared with same | same
    · exact (congrArg (fun s => entry s.remoteStreamInfos streamId) same).symm.trans found
    · have empty := congrArg (fun s => entry s.remoteStreamInfos streamId) same
      simp only [World.streams,entry_empty,found] at empty
      cases empty
  refine ⟨fun streamId => by rw [own]; exact viewing.own streamId,unpublished.trans viewing.unpublished,idle,
    fun streamId p found => ?_,fun c member p names => ?_⟩
  · rw [heap,called]
    exact viewing.named streamId p (remote streamId p found)
  · rw [heap]
    rw [called] at member
    exact viewing.exist c member p names

theorem posted_eq {e : Event} (other : ∀ api, e ≠ .call api) : posted nl w e = (e.frame w).tasks nl := by
  cases e with
  | call api => exact absurd rfl (other api)
  | _ => rfl

theorem idle_step {e : Event} (viewing : Viewing w) (uses : TestBasicExampleRoom.Uses w e)
    (taken : step nl w e = some w') : ∀ task ∈ w'.tasks, task.published = none ∧ task.asked = [] := by
  intro task member
  rw [step_tasks taken] at member
  rcases List.mem_append.mp member with before | new
  · exact viewing.idle task (mem_of_base before)
  · by_cases called : ∃ api, e = .call api
    · obtain ⟨api,rfl⟩ := called
      rw [List.mem_singleton.mp new]
      cases api <;> first | exact ⟨rfl,rfl⟩ | cases uses
    · rw [posted_eq (fun api same => called ⟨api,same⟩)] at new
      exact unasked_frame nl _ task new

/-- A task of the application's room that returns has its effect on the room. -/
theorem effect_step {e : Event} {v : World} (viewing : Viewing w) (uses : TestBasicExampleRoom.Uses w e)
    (taken : step nl w e = some w') (lives : w'.crashed = none) (starts : started w e = some (task,order,v)) :
    ∃ call, Effect task w w' call := by
  have unpublished : task.published = none := by
    cases e with
    | dispatch api order =>
      cases starts
      cases api <;> first | rfl | cases uses
    | work order => exact (viewing.idle task (by rw [(started_work starts).1]; exact List.mem_cons_self)).1
    | _ => cases starts
  have fewer : ∀ task ∈ v.tasks, task ∈ w.tasks := by
    intro task member
    exact mem_of_base (e := e) (by simpa [base,starts] using member)
  have same := started_eq starts
  have here : Viewing v := by
    rw [same]
    exact ⟨viewing.own,viewing.unpublished,fun task member => viewing.idle task (fewer task member),viewing.named,
      viewing.exist⟩
  have runs := step_started taken starts
  subst runs
  obtain ⟨call,effect⟩ := effect_task here unpublished lives
  rw [same] at effect ⊢
  exact ⟨call,effect.made,effect.called,effect.queue,effect.next,effect.ids,effect.own,effect.unpublished,
    effect.remote,effect.stream⟩

/-- The application's room goes on like that. -/
theorem viewing_step {e : Event} (viewing : Viewing w) (uses : TestBasicExampleRoom.Uses w e)
    (taken : step nl w e = some w') (lives : w'.crashed = none) : Viewing w' := by
  have idle := idle_step viewing uses taken
  rcases step_streams taken with ⟨task,order,v,starts,rfl⟩ | ⟨info,rfl,-⟩ | ⟨api,rfl,called⟩ | ⟨other,cleared,-⟩
  · obtain ⟨call,effect⟩ := effect_step viewing uses taken lives starts
    exact viewing_effect viewing effect idle
  · cases uses
  · refine viewing_cleared viewing (.inl ?_) (step_calls taken rfl) idle
    have unpublished : (api.task w).published = none := by
      cases api <;> first | rfl | cases uses
    rw [called,unpublished]
    exact congrArg (fun published => { w.streams with published }) (List.append_nil _)
  · exact viewing_cleared viewing cleared (step_calls taken (started_streamless other w)) idle

/-! ### The books of the application -/

/-- What the calls tell of streams by their ids, a task only adds to. -/
theorem filterMap_effect {β : Type} {f : Heap → Call → Option β}
    (reads : ∀ heap heap' c, (∀ p, Call.stream c = some p → (heap'.cell p).id = (heap.cell p).id) →
      f heap' c = f heap c) (viewing : Viewing w) (effect : Effect task w w' call) :
    w'.calls.filterMap (f w'.heap) = w.calls.filterMap (f w.heap) ++ (call.bind (f w'.heap)).toList := by
  have before : w.calls.filterMap (f w'.heap) = w.calls.filterMap (f w.heap) := by
    refine List.filterMap_congr (fun c member => reads _ _ c (fun p names => ?_))
    exact effect.ids p (viewing.exist c member p names)
  rw [effect.called,List.filterMap_append,before]
  cases call with
  | none => rfl
  | some c => cases told : f w'.heap c <;> simp [told]

theorem reported_effect (viewing : Viewing w) (effect : Effect task w w' call) :
    w'.reported = w.reported ++ (call.bind (Call.reported w'.heap)).toList := by
  refine filterMap_effect (fun heap heap' c same => ?_) viewing effect
  cases c with
  | onAddRemoteStream p => exact congrArg some (same p rfl)
  | _ => rfl

theorem allocated_effect (viewing : Viewing w) (effect : Effect task w w' call) :
    w'.allocated = w.allocated ++ (call.bind (Call.allocated w'.heap)).toList := by
  refine filterMap_effect (fun heap heap' c same => ?_) viewing effect
  cases c with
  | onSubscribeStreamAllocateConnId info =>
    cases info with
    | none => rfl
    | some p => exact congrArg some (same p rfl)
  | _ => rfl

/-- Connections are given out in the order in which they were asked for. -/
theorem queue_effect (viewing : Viewing w) (effect : Effect task w w' call) :
    w'.allocated ++ w'.room.pendingSubscribeStreams =
      w.allocated ++ w.room.pendingSubscribeStreams ++ task.asked := by
  rw [allocated_effect viewing effect,List.append_assoc,effect.queue,List.append_assoc]

end

namespace TestBasicExampleRoom

/-- The books of the application: every stream that was reported has a peer connection
    and has got its connection or waits for it, in the order of the reports. -/
structure Balanced (a : TestBasicExampleRoom) : Prop where
  wrapper : a.wrapper = true
  queue : a.world.reported = a.world.allocated ++ a.world.room.pendingSubscribeStreams
  peers : ∀ streamId, streamId ∈ a.world.reported ↔ ∃ peer, entry a.peerConnections streamId = some peer

section
variable {nl : Nlohmann} {rtc : Webrtc} {a b : TestBasicExampleRoom} {order inner : Order UInt64 StreamPtr}

/-- A task of the worker and what the application does in it. -/
theorem step_work (viewing : Viewing a.world) (taken : step nl rtc a (.work order inner) = some b) :
    ∃ task rest w, a.world.tasks = task :: rest ∧ LicodeClient.step nl a.world (.work order) = some w ∧
      (w.crashed ≠ none ∧ b = { a with world := w } ∨
        w.crashed = none ∧ Viewing w ∧ ∃ call, Effect task a.world w call ∧
          b = call.elim { a with world := w } (fun c => settle (react nl rtc inner c) { a with world := w })) := by
  obtain ⟨-,taken⟩ := Option.ite_none_left_eq_some.mp taken
  obtain ⟨w,moved,rfl⟩ := Option.map_eq_some_iff.mp taken
  have can := (step_eq_some moved).2.1
  have uses : Uses a.world (.work order) := trivial
  cases queue : a.world.tasks with
  | nil => simp [enabled,queue] at can
  | cons task rest =>
    have starts : started a.world (.work order) = some (task,order,{ a.world with tasks := rest }) := by
      simp [started,queue]
    refine ⟨task,rest,w,rfl,moved,?_⟩
    by_cases up : w.crashed = none
    · obtain ⟨call,effect⟩ := effect_step viewing uses moved up starts
      refine .inr ⟨up,viewing_step viewing uses moved up,call,effect,?_⟩
      rw [effect.called,List.drop_left]
      unfold heeds
      rw [show ({ a with world := w } : TestBasicExampleRoom).world.crashed = none from up]
      cases call <;> rfl
    · refine .inl ⟨up,?_⟩
      unfold heeds
      cases crash : w.crashed with
      | none => exact absurd crash up
      | some fault => rfl

/-- Where the room tells the same, and peer connections are only changed. -/
theorem balanced_of_peers (balanced : Balanced a) (wrapper : b.wrapper = a.wrapper)
    (reported : b.world.reported = a.world.reported) (allocated : b.world.allocated = a.world.allocated)
    (pending : b.world.room.pendingSubscribeStreams = a.world.room.pendingSubscribeStreams)
    (peers : ∀ id, (∃ peer, entry b.peerConnections id = some peer) ↔ ∃ peer, entry a.peerConnections id = some peer) :
    Balanced b where
  wrapper := wrapper.trans balanced.wrapper
  queue := by rw [reported,allocated,pending,balanced.queue]
  peers := fun id => by rw [reported,peers,balanced.peers]

theorem balanced_setPeer (balanced : Balanced a) {streamId : UInt64} {old : PeerConnection} (peer : PeerConnection)
    (found : entry a.peerConnections streamId = some old) : Balanced (a.setPeer streamId peer) := by
  refine balanced_of_peers balanced rfl rfl rfl rfl (fun id => ?_)
  rw [entry_setPeer]
  split
  · next here =>
    rw [here,found]
    exact ⟨fun _ => ⟨old,rfl⟩,fun _ => ⟨peer,rfl⟩⟩
  · exact Iff.rfl

/-- A peer connection is there once it was made, as are those that were there. -/
theorem run_made (wrapper : a.wrapper = true) (streamId : UInt64) :
    ∃ c, (createPeerConnection rtc streamId).run a = .ok () c ∧ c.world = a.world ∧ c.wrapper = true ∧
      ∀ id, (∃ peer, entry c.peerConnections id = some peer) ↔
        (∃ peer, entry a.peerConnections id = some peer) ∨ id = streamId := by
  have runs : (createPeerConnection rtc streamId).run a = _ := run_createPeerConnection streamId a
  cases found : entry a.peerConnections streamId with
  | some peer =>
    rw [found] at runs
    refine ⟨a,runs,rfl,wrapper,fun id => ⟨.inl,?_⟩⟩
    rintro (known | rfl)
    · exact known
    · exact ⟨peer,found⟩
  | none =>
    rw [found] at runs
    simp only [if_pos wrapper] at runs
    refine ⟨_,runs,rfl,wrapper,fun id => ?_⟩
    rw [entry_setPeer]
    split
    · next here => exact ⟨fun _ => .inr here,fun _ => ⟨_,rfl⟩⟩
    · next other =>
      simp only [indexPeer,entry_index]
      exact ⟨.inl,fun known => known.resolve_right other⟩

/-- The room tells nothing while the application subscribes in a reaction. -/
theorem effect_subscribed {w w' : World} {p : StreamPtr} (viewing : Viewing w)
    (told : .onAddRemoteStream p ∈ w.calls)
    (taken : LicodeClient.step nl w (.dispatch (.subscribeStream (w.heap.cell p).id) inner) = some w')
    (lives : w'.crashed = none) : Effect (.subscribeStream (w.heap.cell p).id) w w' none := by
  have uses : Uses w (.dispatch (.subscribeStream (w.heap.cell p).id) inner) := ⟨p,told,rfl⟩
  obtain ⟨call,effect⟩ := effect_step viewing uses taken lives rfl
  have quiet : call = none := Option.eq_none_iff_forall_ne_some.mpr (fun c makes => effect.made c makes)
  rw [quiet] at effect
  exact effect

/-- For a stream that is reported the application makes a peer connection and
    subscribes. -/
theorem settle_report {w : World} {p : StreamPtr} (wrapper : a.wrapper = true) (viewing : Viewing w)
    (up : w.crashed = none) (told : .onAddRemoteStream p ∈ w.calls)
    (same : b = settle (react nl rtc inner (.onAddRemoteStream p)) { a with world := w })
    (lives : b.world.crashed = none) :
    ∃ c, (createPeerConnection rtc (w.heap.cell p).id).run { a with world := w } = .ok () c ∧
      b.peerConnections = c.peerConnections ∧ b.wrapper = true ∧
      (∀ id, (∃ peer, entry c.peerConnections id = some peer) ↔
        (∃ peer, entry a.peerConnections id = some peer) ∨ id = (w.heap.cell p).id) ∧
      Effect (.subscribeStream (w.heap.cell p).id) w b.world none := by
  obtain ⟨c,made,world,wrapper,peers⟩ : ∃ c, (createPeerConnection rtc (w.heap.cell p).id).run _ = .ok () c ∧ _ :=
    run_made (a := { a with world := w }) wrapper (w.heap.cell p).id
  have runs : (react nl rtc inner (.onAddRemoteStream p)).run { a with world := w } =
      .ok () (c.dispatchRoom nl inner (.subscribeStream (w.heap.cell p).id)) := by
    rw [react,run_onAddRemoteStream,made]
  have done : b = { c.dispatchRoom nl inner (.subscribeStream (w.heap.cell p).id) with crashed := none } := by
    rw [same]
    simp only [settle,after,faultOf,runs]
  have moved : LicodeClient.step nl w (.dispatch (.subscribeStream (w.heap.cell p).id) inner) = some b.world := by
    rw [done,step_of_up up rfl,dispatchRoom,world]
  have effect := effect_subscribed viewing told moved lives
  rw [done] at effect ⊢
  exact ⟨c,made,rfl,wrapper,peers,effect⟩

/-- A stream that is reported gets its peer connection and its place in the queue. -/
theorem balanced_report {w : World} {p : StreamPtr} (balanced : Balanced a) (viewing : Viewing w)
    (up : w.crashed = none) (told : .onAddRemoteStream p ∈ w.calls)
    (reported : w.reported = a.world.reported ++ [(w.heap.cell p).id])
    (queue : w.allocated ++ w.room.pendingSubscribeStreams =
      a.world.allocated ++ a.world.room.pendingSubscribeStreams)
    (same : b = settle (react nl rtc inner (.onAddRemoteStream p)) { a with world := w })
    (lives : b.world.crashed = none) : Balanced b := by
  obtain ⟨c,-,kept,wrapper,peers,effect⟩ := settle_report balanced.wrapper viewing up told same lives
  have still := reported_effect viewing effect
  rw [Option.bind_none,Option.toList_none,List.append_nil] at still
  have asked : _ = _ ++ [(w.heap.cell p).id] := queue_effect viewing effect
  refine ⟨wrapper,?_,fun id => ?_⟩
  · rw [still,reported,asked,queue,balanced.queue]
  · rw [still,reported,kept,peers,List.mem_append,balanced.peers,List.mem_singleton]

/-- An offer that can be read is taken in by the peer connection of its stream. -/
theorem after_onReceiveOffer {info : Option StreamPtr} {sdp : Text}
    (fine : faultOf (onReceiveOffer rtc info sdp) a = none) :
    rtc.parses .kOffer sdp = false ∧ after (onReceiveOffer rtc info sdp) a = a ∨
      ∃ p peer, rtc.parses .kOffer sdp = true ∧ info = some p ∧
        entry a.peerConnections (a.world.heap.cell p).id = some peer ∧ after (onReceiveOffer rtc info sdp) a =
          (a.setPeer (a.world.heap.cell p).id (setRemoteDescription sdp peer)).setPeer (a.world.heap.cell p).id
            (createAnswer (setRemoteDescription sdp peer)) := by
  have runs : (onReceiveOffer rtc info sdp).run a = _ := run_onReceiveOffer info sdp a
  split at runs
  · next reads =>
    cases info with
    | none => simp [faultOf,runs] at fine
    | some p =>
      cases found : entry a.peerConnections (a.world.heap.cell p).id with
      | none =>
        simp only [found] at runs
        simp [faultOf,runs] at fine
      | some peer =>
        simp only [found] at runs
        split at runs
        · exact .inr ⟨p,peer,reads,rfl,found,after_of_ok runs⟩
        · simp [faultOf,runs] at fine
  · next unread => exact .inl ⟨Bool.eq_false_iff.mpr unread,after_of_ok runs⟩

/-- No other reaction adds a peer connection. -/
theorem balanced_react {c : Call} (balanced : Balanced a) (other : ∀ p, c ≠ .onAddRemoteStream p)
    (lives : faultOf (react nl rtc inner c) a = none) : Balanced (after (react nl rtc inner c) a) := by
  cases c with
  | onJoinRoom roomId => exact balanced
  | onAddRemoteStream p => exact absurd rfl (other p)
  | onSubscribeStreamAllocateConnId info => cases info <;> exact balanced
  | onStreamConnectReady info => exact balanced
  | onReceiveOffer info sdp =>
    rw [react]
    rcases after_onReceiveOffer lives with ⟨-,same⟩ | ⟨p,peer,-,-,found,same⟩
    · rw [same]
      exact balanced
    · have first := balanced_setPeer balanced (setRemoteDescription sdp peer) found
      rw [same]
      exact balanced_setPeer first _ ((entry_setPeer _ _ _).trans (if_pos rfl))

theorem balanced_work (viewing : Viewing a.world) (balanced : Balanced a)
    (taken : step nl rtc a (.work order inner) = some b) (lives : b.crashed = none ∧ b.world.crashed = none) :
    Balanced b := by
  obtain ⟨task,rest,w,queue,-,⟨crashed,rfl⟩ | ⟨up,viewing',call,effect,same⟩⟩ := step_work viewing taken
  · exact absurd lives.2 crashed
  · have reported := reported_effect viewing effect
    have given := queue_effect viewing effect
    have unasked : task.asked = [] := (viewing.idle task (by rw [queue]; exact List.mem_cons_self)).2
    rw [unasked,List.append_nil] at given
    have still : call.bind (Call.reported w.heap) = none → Balanced { a with world := w } := by
      intro quiet
      rw [quiet,Option.toList_none,List.append_nil] at reported
      exact ⟨balanced.wrapper,reported.trans (balanced.queue.trans given.symm),
        fun id => by rw [reported]; exact balanced.peers id⟩
    cases call with
    | none => rw [same]; exact still rfl
    | some c =>
      by_cases reports : ∃ p, c = .onAddRemoteStream p
      · obtain ⟨p,rfl⟩ := reports
        have told : .onAddRemoteStream p ∈ w.calls := by rw [effect.called]; simp
        exact balanced_report balanced viewing' up told reported given same lives.2
      · have other : ∀ p, c ≠ .onAddRemoteStream p := fun p here => reports ⟨p,here⟩
        have quiet : (some c).bind (Call.reported w.heap) = none := by
          cases c <;> first | rfl | exact absurd rfl (other _)
        have fine : faultOf (react nl rtc inner c) { a with world := w } = none := by
          rw [same] at lives
          exact lives.1
        have kept := balanced_react (still quiet) other fine
        rw [same]
        exact ⟨kept.wrapper,kept.queue,kept.peers⟩

/-- A call of the room from another thread leaves the books alone. -/
theorem balanced_callRoom (balanced : Balanced a) (api : Api) : Balanced (a.callRoom nl api) :=
  ⟨balanced.wrapper,balanced.queue,balanced.peers⟩

/-- What comes from elsewhere tells the observer nothing and takes no place in the queue. -/
theorem still_step {e : LicodeClient.Event} {w w' : World} (elsewhere : e.streamless = true)
    (taken : LicodeClient.step nl w e = some w') :
    w'.calls = w.calls ∧ w'.heap = w.heap ∧ w'.room.pendingSubscribeStreams = w.room.pendingSubscribeStreams := by
  have cleared : w.streams.Cleared w'.streams := by
    rcases step_streams taken with ⟨_,_,_,starts,-⟩ | ⟨_,rfl,-⟩ | ⟨_,rfl,-⟩ | ⟨-,cleared,-⟩
    · rw [started_streamless elsewhere] at starts; cases starts
    · cases elsewhere
    · cases elsewhere
    · exact cleared
  refine ⟨step_calls taken (started_streamless elsewhere w),?_,?_⟩
  · rcases cleared with same | same <;> exact congrArg Streams.heap same
  · rcases cleared with same | same <;> exact congrArg Streams.pendingSubscribeStreams same

theorem balanced_client {e : LicodeClient.Event} {w : World} (balanced : Balanced a) (elsewhere : e.streamless = true)
    (taken : LicodeClient.step nl a.world e = some w) : Balanced { a with world := w } := by
  obtain ⟨called,heap,pending⟩ := still_step elsewhere taken
  refine balanced_of_peers balanced rfl ?_ ?_ pending (fun _ => Iff.rfl)
  · simp only [World.reported,called,heap]
  · simp only [World.allocated,called,heap]

/-- Every step keeps the books. -/
theorem balanced_step {e : Event} (viewing : Viewing a.world) (balanced : Balanced a)
    (taken : step nl rtc a e = some b) (lives : b.crashed = none ∧ b.world.crashed = none) : Balanced b := by
  cases takes_of_step taken with
  | client elsewhere moved => exact balanced_client balanced elsewhere moved
  | work _ => exact balanced_work viewing balanced taken lives
  | answered found _ _ => exact balanced_callRoom (balanced_setPeer balanced _ found) _
  | unread found _ _ => exact balanced_setPeer balanced _ found
  | failed found _ => exact balanced_setPeer balanced _ found
  | candidate _ _ => exact balanced_callRoom balanced _

end

/-- The application's room stays one that only views, in every run. -/
theorem viewing_always (nl : Nlohmann) (rtc : Webrtc) (token : LicodeToken) (es : List Event) :
    Always (step nl rtc) (fun a => a.world.crashed = none → Viewing a.world) (init token) es := by
  have start : Viewing (.init token) :=
    ⟨fun streamId => entry_empty streamId,rfl,fun _ member => (by cases member),
      fun streamId p found => absurd found (by simp [World.init]),fun _ member => (by cases member)⟩
  refine (simulates nl rtc).transfers (P := fun w => w.crashed = none → Viewing w) ?_ ?_ (owns_init token)
    (fun _ => start) es
  · intro w e w' viewing uses taken lives
    exact viewing_step (viewing (step_eq_some taken).1) uses taken lives
  · rintro a _ ⟨rfl,-⟩ viewing
    exact viewing

/-- Every run keeps the books. -/
theorem balanced_always (nl : Nlohmann) (rtc : Webrtc) (token : LicodeToken) (es : List Event) :
    Always (step nl rtc) (fun a => a.crashed = none ∧ a.world.crashed = none → Balanced a) (init token) es := by
  have start : Balanced (init token) := by
    refine ⟨rfl,rfl,fun id => ⟨fun member => (by cases member),?_⟩⟩
    rintro ⟨peer,found⟩
    exact absurd found (by simp [init])
  refine (viewing_always nl rtc token es).keeps ?_ (fun _ => start)
  intro a e b viewing balanced taken lives
  have up := up_of_step taken
  exact balanced_step (viewing up.2) (balanced up) taken lives

theorem labelled_always (nl : Nlohmann) (rtc : Webrtc) (token : LicodeToken) (es : List Event) :
    Always (step nl rtc) Labelled (init token) es :=
  always_of_invariant (fun _ _ _ labelled taken => labelled_takes labelled (takes_of_step taken))
    (labelled_init token) es

/-- In every state of every run, the streams that were reported have got their
    connections or wait for them in the order of the reports, and they are the ones that
    have a peer connection. -/
theorem allocates_in_order (nl : Nlohmann) (rtc : Webrtc) (token : LicodeToken) (es : List Event) :
    Always (step nl rtc) (fun a => a.crashed = none ∧ a.world.crashed = none →
      a.world.reported = a.world.allocated ++ a.world.room.pendingSubscribeStreams ∧
        ∀ streamId, streamId ∈ a.world.reported ↔
          ∃ peer, entry a.peerConnections streamId = some peer ∧ peer.id = streamId) (init token) es := by
  have both : Always (step nl rtc) (fun a => a.Labelled ∧ (a.crashed = none ∧ a.world.crashed = none → Balanced a))
      (init token) es := (labelled_always nl rtc token es).and (balanced_always nl rtc token es)
  refine both.mono ?_
  rintro a ⟨labelled,balanced⟩ up
  refine ⟨(balanced up).queue,fun streamId => ?_⟩
  rw [(balanced up).peers streamId]
  exact exists_congr (fun peer => ⟨fun found => ⟨found,labelled streamId peer found⟩,And.left⟩)

/-! ### Offers -/

/-- An offer that comes up can be answered: when it can be read and its connection is
    looked for without a fault, a stream has the connection and WebRTC could make the
    stream's peer connection. -/
def Answerable (rtc : Webrtc) (a : TestBasicExampleRoom) : Event → Prop
  | .work order _ => ∀ connId sdp rest found, a.world.tasks = .receiveOffer connId sdp :: rest →
      rtc.parses .kOffer sdp = true →
      findIn a.world.heap.cell connId (order.arrange a.world.room.remoteStreamInfos.entries) = .ok found →
      ∃ p, found = some p ∧ ∀ peer, entry a.peerConnections (a.world.heap.cell p).id = some peer → peer.pc = true
  | _ => True

section
variable {nl : Nlohmann} {rtc : Webrtc} {a b : TestBasicExampleRoom} {order inner : Order UInt64 StreamPtr}

/-- What an offer does to the application. -/
theorem step_offer {connId sdp : Text} {rest : List Task} {found : Option StreamPtr}
    (queue : a.world.tasks = .receiveOffer connId sdp :: rest)
    (finds : findIn a.world.heap.cell connId (order.arrange a.world.room.remoteStreamInfos.entries) = .ok found)
    (taken : step nl rtc a (.work order inner) = some b) :
    ∃ w : World, w.heap = a.world.heap ∧
      b = settle (onReceiveOffer rtc found sdp) { a with world := w } := by
  obtain ⟨-,taken⟩ := Option.ite_none_left_eq_some.mp taken
  obtain ⟨w,moved,rfl⟩ := Option.map_eq_some_iff.mp taken
  have starts : started a.world (.work order) =
      some (.receiveOffer connId sdp,order,{ a.world with tasks := rest }) := by
    simp [started,queue]
  have runs := run_runReceiveOffer order connId sdp { a.world with tasks := rest }
  simp only [finds] at runs
  have same : w = { a.world with
      tasks := rest
      calls := a.world.calls ++ [.onReceiveOffer found sdp]
      crashed := none } := by
    rw [step_started moved starts]
    simp only [LicodeClient.settle,Task.run,after,faultOf,runs]
  refine ⟨w,by rw [same],?_⟩
  have heard : w.calls.drop a.world.calls.length = [.onReceiveOffer found sdp] := by
    rw [same]
    exact List.drop_left
  rw [heard]
  unfold heeds
  rw [show ({ a with world := w } : TestBasicExampleRoom).world.crashed = none by rw [same]]
  rfl

/-- A reaction to anything but an offer does not fault. -/
theorem fault_react {task : Task} {c : Call} (wrapper : a.wrapper = true) (made : task.Calls c)
    (other : ∀ connId sdp, task ≠ .receiveOffer connId sdp) : faultOf (react nl rtc inner c) a = none := by
  cases c with
  | onJoinRoom roomId => rfl
  | onAddRemoteStream p =>
    obtain ⟨d,runs,-⟩ : ∃ d, (createPeerConnection rtc (a.world.heap.cell p).id).run a = .ok () d ∧ _ :=
      run_made wrapper (a.world.heap.cell p).id
    simp only [react,faultOf,run_onAddRemoteStream,runs]
  | onSubscribeStreamAllocateConnId info =>
    cases info with
    | none => cases task <;> first | exact made.elim | cases made
    | some p => rfl
  | onStreamConnectReady info => rfl
  | onReceiveOffer info sdp =>
    cases task <;> first | exact made.elim | exact absurd rfl (other _ _)

/-- An offer that can be read needs a stream that has a peer connection. -/
theorem fault_onReceiveOffer (info : Option StreamPtr) (sdp : Text) :
    faultOf (onReceiveOffer rtc info sdp) a = none ↔ (rtc.parses .kOffer sdp = true →
      ∃ p peer, info = some p ∧ entry a.peerConnections (a.world.heap.cell p).id = some peer ∧ peer.pc = true) := by
  have runs : (onReceiveOffer rtc info sdp).run a = _ := run_onReceiveOffer info sdp a
  by_cases reads : rtc.parses .kOffer sdp = true
  · simp only [if_pos reads] at runs
    simp only [reads,forall_const]
    cases info with
    | none =>
      simp only at runs
      simp [faultOf,runs]
    | some p =>
      cases found : entry a.peerConnections (a.world.heap.cell p).id with
      | none =>
        simp only [found] at runs
        simp [faultOf,runs,found]
      | some peer =>
        simp only [found] at runs
        cases there : peer.pc <;> simp [there] at runs <;> simp [faultOf,runs,found,there]
  · simp only [if_neg reads] at runs
    simp [faultOf,runs,reads]

/-- Every stream that the room finds has a peer connection. -/
theorem peer_of_findIn (viewing : Viewing a.world) (balanced : Balanced a) {connId : Text} {p : StreamPtr}
    (finds : findIn a.world.heap.cell connId (order.arrange a.world.room.remoteStreamInfos.entries) = .ok (some p)) :
    ∃ peer, entry a.peerConnections (a.world.heap.cell p).id = some peer := by
  obtain ⟨streamId,known⟩ := known_of_findIn finds
  have told := (viewing.named streamId p known).2
  exact (balanced.peers _).mp (List.mem_filterMap.mpr ⟨_,told,rfl⟩)

/-- The task of an offer that returns has looked for its connection to the end. -/
theorem finds_of_lives {w w' : World} {connId sdp : Text} {rest : List Task}
    (queue : w.tasks = .receiveOffer connId sdp :: rest) (taken : LicodeClient.step nl w (.work order) = some w')
    (lives : w'.crashed = none) :
    ∃ found, findIn w.heap.cell connId (order.arrange w.room.remoteStreamInfos.entries) = .ok found := by
  have starts : started w (.work order) = some (.receiveOffer connId sdp,order,{ w with tasks := rest }) := by
    simp [started,queue]
  have runs := run_runReceiveOffer order connId sdp { w with tasks := rest }
  cases finds : findIn w.heap.cell connId (order.arrange w.room.remoteStreamInfos.entries) with
  | ok found => exact ⟨found,rfl⟩
  | error fault =>
    simp only [finds] at runs
    rw [step_started taken starts] at lives
    simp [LicodeClient.settle,Task.run,faultOf,runs] at lives

/-- Only the worker runs what can fault in the application. -/
theorem crashed_step {e : Event} (other : ∀ order inner, e ≠ .work order inner) (taken : step nl rtc a e = some b) :
    b.crashed = a.crashed := by
  cases takes_of_step taken with
  | work _ => exact absurd rfl (other _ _)
  | _ => rfl

/-- A step ends the process in the application exactly when an offer cannot be
    answered. -/
theorem crashed_iff {e : Event} (viewing : Viewing a.world) (balanced : Balanced a)
    (taken : step nl rtc a e = some b) : b.crashed = none ↔ Answerable rtc a e := by
  have up := up_of_step taken
  cases e with
  | work order inner =>
    by_cases offer : ∃ connId sdp rest found, a.world.tasks = .receiveOffer connId sdp :: rest ∧
        findIn a.world.heap.cell connId (order.arrange a.world.room.remoteStreamInfos.entries) = .ok found
    · obtain ⟨connId,sdp,rest,found,queue,finds⟩ := offer
      obtain ⟨w,heap,rfl⟩ := step_offer queue finds taken
      refine (fault_onReceiveOffer found sdp).trans ⟨fun answers => ?_,fun answers reads => ?_⟩
      · rintro connId' sdp' rest' found' queue' reads finds'
        rw [queue] at queue'
        cases queue'
        cases finds.symm.trans finds'
        obtain ⟨p,peer,here,has,made⟩ := answers reads
        rw [heap] at has
        exact ⟨p,here,fun peer' has' => (Option.some.inj (has.symm.trans has')) ▸ made⟩
      · obtain ⟨p,here,made⟩ := answers connId sdp rest found queue reads finds
        rw [here] at finds
        obtain ⟨peer,has⟩ := peer_of_findIn viewing balanced finds
        exact ⟨p,peer,here,by rw [heap]; exact has,made peer has⟩
    · have answerable : Answerable rtc a (.work order inner) := by
        intro connId sdp rest found queue reads finds
        exact absurd ⟨connId,sdp,rest,found,queue,finds⟩ offer
      refine iff_of_true ?_ answerable
      obtain ⟨task,rest,w,queue,moved,⟨crashed,rfl⟩ | ⟨lives,-,call,effect,rfl⟩⟩ := step_work viewing taken
      · exact up.1
      · cases call with
        | none => exact up.1
        | some c =>
          refine fault_react balanced.wrapper (effect.made c rfl) ?_
          rintro connId sdp rfl
          obtain ⟨found,finds⟩ := finds_of_lives queue moved lives
          exact offer ⟨connId,sdp,rest,found,queue,finds⟩
  | client e => exact iff_of_true ((crashed_step (fun _ _ same => by cases same) taken).trans up.1) trivial
  | _ => exact iff_of_true ((crashed_step (fun _ _ same => by cases same) taken).trans up.1) trivial

end

/-- No run ends in the application exactly as long as every offer can be answered. -/
theorem stays_up_iff (nl : Nlohmann) (rtc : Webrtc) (token : LicodeToken) (es : List Event) :
    Always (step nl rtc) (fun a => a.crashed = none) (init token) es ↔
      Guarded (step nl rtc) (Answerable rtc) (init token) es := by
  have start : (init token).crashed = none := rfl
  refine always_iff_guarded (P := fun a => a.crashed = none)
    (Q := fun a => ∃ before, run (step nl rtc) (init token) before = some a) ?_ ?_ ⟨[],rfl⟩ start es
  · rintro a e b ⟨before,done⟩ - - taken
    exact ⟨before ++ [e],(run_append done).trans (run_singleton taken)⟩
  · rintro a e b ⟨before,done⟩ - taken
    have up := up_of_step taken
    exact crashed_iff ((viewing_always nl rtc token before).last done up.2)
      ((balanced_always nl rtc token before).last done up) taken

end TestBasicExampleRoom
end LicodeClient
