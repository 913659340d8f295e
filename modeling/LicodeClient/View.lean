import LicodeClient.Streams

/-!
What a room knows of its streams, as far as its lookups tell: the pointer that
each id leads to, the connection at each pointer and the erizo. A key that is
bound to null reads like one that is not bound, so lookups do not show here. A
step that does not end the process changes this view in one of a few ways
(`Change`, `step_view`).
-/
namespace LicodeClient
open LicodeClient.Table LicodeClient.Program

structure View where
  erizoId : Text
  remote : UInt64 → Option StreamPtr
  own : UInt64 → Option StreamPtr
  connection : StreamPtr → Text
  next : StreamPtr
  pending : List StreamPtr
  published : List StreamPtr

def Streams.view (s : Streams) : View :=
  ⟨s.erizoId,entry s.remoteStreamInfos,entry s.localStreamInfos,fun p => (s.heap.cell p).connectionId,s.heap.next,
    s.pendingPublishLocalStreams,s.published⟩

def World.view (w : World) : View := w.streams.view

namespace View

/-- The view with a new stream. -/
def allocate (v : View) (connId : Text) : View :=
  { v with connection := Function.update v.connection v.next connId, next := v.next + 1 }

/-- The stream that an id leads to, remote streams before local ones. -/
def target (v : View) (streamId : UInt64) : Option StreamPtr := (v.remote streamId).or (v.own streamId)

/-- Every pointer that the room holds leads to a stream that exists. -/
structure Valid (v : View) : Prop where
  remote : ∀ streamId p, v.remote streamId = some p → p < v.next
  own : ∀ streamId p, v.own streamId = some p → p < v.next
  pending : ∀ p ∈ v.pending, p < v.next
  published : ∀ p ∈ v.published, p < v.next

theorem Valid.target {v : View} (valid : v.Valid) {streamId : UInt64} {p : StreamPtr}
    (found : v.target streamId = some p) :
    p < v.next := by
  rcases Option.or_eq_some_iff.mp found with here | ⟨-,here⟩
  · exact valid.remote streamId p here
  · exact valid.own streamId p here

end View

/-- The ways in which a view changes. -/
inductive Change where
  | nothing
  /-- A subscribe ack stores its connection. -/
  | stored (erizoId : Text) (streamId : UInt64) (p : StreamPtr) (connId : Text)
  /-- A publish ack stores its connection and names its stream. -/
  | bound (erizoId : Text) (streamId : UInt64) (p : StreamPtr) (connId : Text)
  /-- A remote stream arrives. -/
  | added (streamId : UInt64) (connId : Text)
  /-- The description of an own stream is replaced. -/
  | renewed (streamId : UInt64) (p : StreamPtr)
  | removed (streamId : UInt64)
  /-- A description is made that no table leads to. -/
  | made (connId : Text)
  /-- A stream is queued until the ack for it comes. -/
  | queued (p : StreamPtr)
  /-- A stream is handed to the worker to be published. -/
  | posted (p : StreamPtr)
  | cleared

namespace Change

def apply (v : View) : Change → View
  | .nothing => v
  | .stored erizoId _ p connId => { v with erizoId, connection := Function.update v.connection p connId }
  | .bound erizoId streamId p connId =>
    { v with
      erizoId
      connection := Function.update v.connection p connId
      own := Function.update v.own streamId (some p)
      pending := v.pending.tail }
  | .added streamId connId => { v.allocate connId with remote := Function.update v.remote streamId (some v.next) }
  | .renewed streamId p =>
    { v.allocate (v.connection p) with own := Function.update v.own streamId (some v.next) }
  | .removed streamId => { v with remote := Function.update v.remote streamId none }
  | .made connId => v.allocate connId
  | .queued p => { v with pending := v.pending ++ [p] }
  | .posted p => { v with published := v.published ++ [p] }
  | .cleared => { v with remote := fun _ => none }

/-- Where a change can happen. -/
def Fits (v : View) : Change → Prop
  | .stored _ streamId p _ => v.remote streamId = some p
  | .bound _ _ p _ => p ∈ v.pending
  | .renewed streamId p => v.own streamId = some p
  | .queued p | .posted p => p < v.next
  | _ => True

theorem valid_apply {v : View} (valid : v.Valid) {c : Change} (fits : c.Fits v) : (c.apply v).Valid := by
  have later : ∀ {p}, p < v.next → p < v.next + 1 := fun before => Nat.lt_succ_of_lt before
  have allocated : ∀ connId, (v.allocate connId).Valid := fun connId =>
    ⟨fun id p found => later (valid.remote id p found),fun id p found => later (valid.own id p found),
      fun p member => later (valid.pending p member),fun p member => later (valid.published p member)⟩
  have updated : ∀ {f : UInt64 → Option StreamPtr} {n : StreamPtr} {k : UInt64} {q : StreamPtr},
      (∀ id p, f id = some p → p < n) → q < n → ∀ id p, Function.update f k (some q) id = some p → p < n := by
    intro f n k q all new id p found
    rw [Function.update_apply] at found
    split at found
    · cases found; exact new
    · exact all id p found
  cases c with
  | nothing => exact valid
  | stored erizoId streamId p connId => exact ⟨valid.remote,valid.own,valid.pending,valid.published⟩
  | bound erizoId streamId p connId =>
    exact ⟨valid.remote,updated valid.own (valid.pending p fits),
      fun q member => valid.pending q (List.mem_of_mem_tail member),
      valid.published⟩
  | added streamId connId =>
    exact ⟨updated (allocated connId).remote (Nat.lt_succ_self _),(allocated connId).own,(allocated connId).pending,
      (allocated connId).published⟩
  | renewed streamId p =>
    exact ⟨(allocated (v.connection p)).remote,updated (allocated (v.connection p)).own (Nat.lt_succ_self _),
      (allocated (v.connection p)).pending,(allocated (v.connection p)).published⟩
  | removed streamId =>
    refine ⟨fun id p found => ?_,valid.own,valid.pending,valid.published⟩
    simp only [apply,Function.update_apply] at found
    split at found
    · cases found
    · exact valid.remote id p found
  | made connId => exact allocated connId
  | queued p =>
    refine ⟨valid.remote,valid.own,fun q member => ?_,valid.published⟩
    rcases List.mem_append.mp member with before | new
    · exact valid.pending q before
    · rw [List.mem_singleton.mp new]; exact fits
  | posted p =>
    refine ⟨valid.remote,valid.own,valid.pending,fun q member => ?_⟩
    rcases List.mem_append.mp member with before | new
    · exact valid.published q before
    · rw [List.mem_singleton.mp new]; exact fits
  | cleared => exact ⟨fun _ _ found => (by cases found),valid.own,valid.pending,valid.published⟩

end Change

/-! ### Tasks -/

/-- What a task changes when it does not fault. -/
def Task.change (nl : Nlohmann) (w : World) : Task → Change
  | .joinedStream info =>
    if info.id ∈ w.room.remoteStreamInfos then .made info.connectionId else .added info.id info.connectionId
  | .onAddStream info =>
    match entry w.room.localStreamInfos info.id with
    | some own => .renewed info.id own
    | none => .added info.id info.connectionId
  | .onRemoveStream streamId => .removed streamId
  | .onSubscribeStream json =>
    match w.room.pendingSubscribeStreams with
    | [] => .nothing
    | streamId :: _ =>
      match subscribeAck json w.room.erizoId,entry w.room.remoteStreamInfos streamId with
      | .complete erizoId connId,some p => .stored erizoId streamId p connId
      | _,_ => .nothing
  | .onPublishStream msg =>
    match w.room.pendingPublishLocalStreams with
    | [] => .nothing
    | p :: _ =>
      match publishAck nl msg w.room.erizoId with
      | .complete erizoId streamId connId => .bound erizoId streamId p connId
      | _ => .nothing
  | .publishStream info _ => .queued info
  | _ => .nothing

theorem view_indexRemote (w : World) (streamId : UInt64) : (w.indexRemote streamId).view = w.view := by
  simp only [World.view,Streams.view,World.streams,World.indexRemote,View.mk.injEq,true_and,and_true]
  exact funext (entry_index _ streamId)

theorem view_signalingSendMsg (msg : Packet) (w : World) : (after (signalingSendMsg msg) w).view = w.view :=
  congrArg Streams.view (streams_signalingSendMsg msg w)

/-- Storing a connection in a description. -/
theorem connection_setInfo (cell : StreamPtr → LicodeStreamInfo) (p : StreamPtr) (info : LicodeStreamInfo) :
    (fun q => (Function.update cell p info q).connectionId) =
      Function.update (fun q => (cell q).connectionId) p info.connectionId := by
  funext q
  simp only [Function.update_apply]
  split <;> rfl

theorem view_setConnected (w : World) (p : StreamPtr) :
    (w.setInfo p (fun info => { info with connected := true })).view = w.view := by
  simp only [World.view,Streams.view,World.streams,World.setInfo,connection_setInfo,Function.update_eq_self]

theorem view_runOnAddStream (nl : Nlohmann) (info : LicodeStreamInfo) (w : World) (valid : w.view.Valid) :
    (after (Task.runOnAddStream info) w).view = ((Task.onAddStream info).change nl w).apply w.view := by
  rw [after_of_ok (run_runOnAddStream info w)]
  simp only [Task.change]
  cases found : entry w.room.localStreamInfos info.id with
  | some own =>
    have older : own ≠ w.heap.next := Nat.ne_of_lt (valid.own info.id own found)
    simp only [World.view,Streams.view,World.streams,Change.apply,View.allocate,World.setInfo,World.allocate,
      LicodeStreamInfo.announced,connection_setInfo,Function.update_self,Function.update_idem,
        Function.update_of_ne older]
    congr 1
    funext id
    simp only [entry_insert,Function.update_apply]
  | none =>
    simp only [World.view,Streams.view,World.streams,Change.apply,View.allocate,World.allocate,World.indexLocal,
      connection_setInfo]
    congr 1
    · funext id
      simp only [entry_insert,Function.update_apply]
    · exact funext (entry_index _ info.id)

theorem view_runJoinedStream (nl : Nlohmann) (info : LicodeStreamInfo) (w : World) :
    (after (Task.runJoinedStream info) w).view = ((Task.joinedStream info).change nl w).apply w.view := by
  rw [after_of_ok (run_runJoinedStream info w)]
  simp only [Task.change]
  split
  · next known =>
    simp only [World.view,Streams.view,World.streams,Change.apply,View.allocate,World.allocate,connection_setInfo,
      emplace,if_pos known]
  · next fresh =>
    simp only [World.view,Streams.view,World.streams,Change.apply,View.allocate,World.allocate,connection_setInfo,
      emplace,if_neg fresh]
    congr 1
    funext id
    simp only [entry_insert,Function.update_apply]

theorem view_runOnSubscribeStream (nl : Nlohmann) (json : Json) {w : World}
    (fine : faultOf (Task.runOnSubscribeStream json) w = none) :
    (after (Task.runOnSubscribeStream json) w).view = ((Task.onSubscribeStream json).change nl w).apply w.view := by
  obtain ⟨streamId,rest,erizoId,connId,p,queue,ack,found,same⟩ := after_runOnSubscribeStream fine
  rw [same]
  simp only [World.view,Streams.view,World.streams,Task.change,queue,ack,found,Change.apply,World.setInfo,
    World.withErizoId,connection_setInfo]

theorem view_runOnPublishStream (nl : Nlohmann) (msg : Text) {w : World}
    (fine : faultOf (Task.runOnPublishStream nl msg) w = none) :
    (after (Task.runOnPublishStream nl msg) w).view = ((Task.onPublishStream msg).change nl w).apply w.view := by
  obtain ⟨p,rest,erizoId,streamId,connId,queue,ack,same⟩ := after_runOnPublishStream fine
  rw [same]
  simp only [World.view,Streams.view,World.streams,Task.change,queue,ack,Change.apply,World.setInfo,
    World.withErizoId,connection_setInfo,List.tail_cons]
  congr 1
  funext id
  simp only [entry_insert,Function.update_apply]

theorem view_runOfferOrAnswer (type : String) (streamId : UInt64) (sdp : Text) (w : World) :
    (after (Task.runOfferOrAnswer type streamId sdp) w).view = w.view := by
  have runs := run_runOfferOrAnswer type streamId sdp w
  cases found : entry w.room.remoteStreamInfos streamId with
  | none => rw [found] at runs; rw [after_of_error runs]; exact view_indexRemote w streamId
  | some p => rw [found] at runs; rw [after_congr runs]; exact view_signalingSendMsg _ w

theorem view_runSendIceCandidate (streamId : UInt64) (sdpMid : Text) (sdpMLineIndex : Int32) (candidate : Text)
    {w : World} (fine : faultOf (Task.runSendIceCandidate streamId sdpMid sdpMLineIndex candidate) w = none) :
    (after (Task.runSendIceCandidate streamId sdpMid sdpMLineIndex candidate) w).view = w.view := by
  have runs := run_runSendIceCandidate streamId sdpMid sdpMLineIndex candidate w
  cases found : entry w.room.remoteStreamInfos streamId with
  | some p => rw [found] at runs; rw [after_congr runs]; exact view_signalingSendMsg _ w
  | none =>
    cases own : entry w.room.localStreamInfos streamId with
    | some p =>
      rw [found,own] at runs
      rw [after_congr runs,view_signalingSendMsg]
      exact view_indexRemote w streamId
    | none => rw [found,own] at runs; simp [faultOf,runs] at fine

theorem view_runReady (order : Order UInt64 StreamPtr) (connId : Text) (w : World) :
    (after (Task.runOnPeerConnectionConnectErizoReady order connId) w).view = w.view := by
  have runs := run_runOnPeerConnectionConnectErizoReady order connId w
  cases stream : w.streamOf order connId with
  | error fault => rw [stream] at runs; rw [after_of_error runs]
  | ok found =>
    rw [stream] at runs
    cases found with
    | none => rw [after_of_ok runs]; rfl
    | some p => rw [after_of_ok runs]; exact view_setConnected w p

theorem view_runReceiveOffer (order : Order UInt64 StreamPtr) (connId sdp : Text) (w : World) :
    (after (Task.runReceiveOffer order connId sdp) w).view = w.view := by
  have runs := run_runReceiveOffer order connId sdp w
  cases stream : findIn w.heap.cell connId (order.arrange w.room.remoteStreamInfos.entries) with
  | error fault => rw [stream] at runs; rw [after_of_error runs]
  | ok found => rw [stream] at runs; rw [after_of_ok runs]; rfl

theorem view_request {g : World → World} (msg : Packet) (w : World) :
    (after (do modify g; signalingSendMsg msg : Exec Unit) w).view = (g w).view :=
  congrArg Streams.view (streams_request msg w)

/-- A task that does not fault changes the view by its change. -/
theorem view_task (nl : Nlohmann) (order : Order UInt64 StreamPtr) (task : Task) {w : World} (valid : w.view.Valid)
    (fine : faultOf (task.run nl order) w = none) :
    (after (task.run nl order) w).view = (task.change nl w).apply w.view := by
  cases task with
  | onJoinRoom => rfl
  | joinedStream info => exact view_runJoinedStream nl info w
  | onAddStream info => exact view_runOnAddStream nl info w valid
  | onRemoveStream streamId =>
    show ({ w with room.remoteStreamInfos := w.room.remoteStreamInfos.erase streamId } : World).view = _
    simp only [World.view,Streams.view,World.streams,Task.change,Change.apply]
    congr 1
    funext id
    simp only [entry_erase,Function.update_apply]
  | onSubscribeStream json => exact view_runOnSubscribeStream nl json fine
  | onPublishStream msg => exact view_runOnPublishStream nl msg fine
  | onPeerConnectionConnectErizoReady connId => exact view_runReady order connId w
  | receiveOffer connId sdp => exact view_runReceiveOffer order connId sdp w
  | publishStream info label => exact view_request _ w
  | unPublishStream streamId => exact view_signalingSendMsg _ w
  | subscribeStream streamId => exact view_request _ w
  | unSubscriberStream streamId => exact view_signalingSendMsg _ w
  | sendAnswer streamId sdp => exact view_runOfferOrAnswer "answer" streamId sdp w
  | sendOffer streamId sdp => exact view_runOfferOrAnswer "offer" streamId sdp w
  | sendIceCandidate streamId sdpMid sdpMLineIndex candidate =>
    exact view_runSendIceCandidate streamId sdpMid sdpMLineIndex candidate fine

/-- A task's change fits the view, given that a stream it publishes exists. -/
theorem fits_task (nl : Nlohmann) (task : Task) {w : World} (exist : ∀ p, task.published = some p → p < w.heap.next) :
    (task.change nl w).Fits w.view := by
  cases task with
  | joinedStream info => simp only [Task.change]; split <;> trivial
  | onAddStream info =>
    simp only [Task.change]
    cases found : entry w.room.localStreamInfos info.id with
    | some own => exact found
    | none => trivial
  | onSubscribeStream json =>
    simp only [Task.change]
    split
    · trivial
    · split
      · next found => exact found
      · trivial
  | onPublishStream msg =>
    simp only [Task.change]
    split
    · trivial
    · next p rest queue =>
      split
      · show p ∈ w.room.pendingPublishLocalStreams
        rw [queue]
        exact List.mem_cons_self
      · trivial
  | publishStream info label => exact exist info rfl
  | _ => trivial

/-! ### Steps -/

/-- The state that an event's task starts from, or the one before the event. -/
def base (w : World) (e : Event) : World := (started w e).elim w (fun start => start.2.2)

/-- What a step changes. A response that clears the remote table is known by the
    table it leaves behind. -/
def changeOf (nl : Nlohmann) (w : World) (e : Event) (w' : World) : Change :=
  match started w e with
  | some (task,_,v) => task.change nl v
  | none =>
    match e with
    | .makeStream info => .made info.connectionId
    | .call api => (api.task w).published.elim .nothing .posted
    | _ => if w'.room.remoteStreamInfos = ∅ then .cleared else .nothing

theorem base_eq (w : World) (e : Event) : base w e = { w with tasks := (base w e).tasks } := by
  unfold base
  cases starts : started w e with
  | none => rfl
  | some start => exact started_eq starts

theorem published_base (w : World) (e : Event) : ∀ p ∈ (base w e).view.published, p ∈ w.view.published := by
  intro p member
  unfold base at member
  cases e with
  | work order =>
    cases queue : w.tasks with
    | nil => simpa [started,queue] using member
    | cons task rest =>
      simp only [started,queue,List.head?_cons,Option.map_some,Option.elim_some,World.view,Streams.view,World.streams,
        List.tail_cons] at member
      simp only [World.view,Streams.view,World.streams,queue,List.mem_filterMap] at member ⊢
      obtain ⟨task',here,publishes⟩ := member
      exact ⟨task',List.mem_cons_of_mem _ here,publishes⟩
  | _ => exact member

theorem valid_base {w : World} (valid : w.view.Valid) (e : Event) : (base w e).view.Valid := by
  have fewer := published_base w e
  rw [base_eq w e] at fewer ⊢
  exact ⟨valid.remote,valid.own,valid.pending,fun p member => valid.published p (fewer p member)⟩

/-- The application publishes streams that exist. -/
theorem exist_of_enabled {w v : World} {e : Event} {task : Task} {order : Order UInt64 StreamPtr} (valid : w.view.Valid)
    (can : enabled w e = true) (starts : started w e = some (task,order,v)) :
    ∀ p, task.published = some p → p < v.heap.next := by
  intro p publishes
  rw [started_eq starts]
  cases e with
  | dispatch api order =>
    cases starts
    cases api <;> cases publishes
    simpa [enabled,Api.allowed] using can
  | work order =>
    obtain ⟨queue,-⟩ := started_work starts
    refine valid.published p ?_
    simp only [World.view,Streams.view,World.streams,queue,List.mem_filterMap]
    exact ⟨task,by simp,publishes⟩
  | _ => cases starts

/-- A step that does not end the process changes the view by its change, which
    fits there. -/
theorem step_view {nl : Nlohmann} {w w' : World} {e : Event} (valid : w.view.Valid) (taken : step nl w e = some w')
    (lives : w'.crashed = none) :
    (changeOf nl w e w').Fits (base w e).view ∧ w'.view = (changeOf nl w e w').apply (base w e).view := by
  have can := (step_eq_some taken).2.1
  rcases step_streams taken with ⟨task,order,v,starts,rfl⟩ | ⟨info,rfl,made⟩ | ⟨api,rfl,called⟩ |
    ⟨other,changed,-⟩
  · have same : base w e = v := by simp [base,starts]
    have change : changeOf nl w e (settle (task.run nl order) v) = task.change nl v := by simp [changeOf,starts]
    rw [change,same]
    exact ⟨fits_task nl task (exist_of_enabled valid can starts),
      view_task nl order task (same ▸ valid_base valid e) lives⟩
  · refine ⟨trivial,(congrArg Streams.view made).trans ?_⟩
    simp only [Streams.view,World.streams,World.allocate,connection_setInfo]
    rfl
  · have view := congrArg Streams.view called
    cases publishes : (api.task w).published with
    | none =>
      have change : changeOf nl w (.call api) w' = .nothing := by simp [changeOf,started,publishes]
      rw [change]
      refine ⟨trivial,view.trans ?_⟩
      simp only [publishes,Option.toList_none,List.append_nil]
      rfl
    | some p =>
      have change : changeOf nl w (.call api) w' = .posted p := by simp [changeOf,started,publishes]
      rw [change]
      refine ⟨?_,view.trans ?_⟩
      · cases api <;> cases publishes
        show p < w.heap.next
        simpa [enabled,Api.allowed] using can
      · simp only [publishes,Option.toList_some]
        rfl
  · have same : base w e = w := by simp [base,started_streamless other]
    have change : changeOf nl w e w' = if w'.room.remoteStreamInfos = ∅ then .cleared else .nothing := by
      cases e <;> first | rfl | cases other
    rw [change,same]
    split
    · next empty =>
      refine ⟨trivial,?_⟩
      have gone : w'.view = { w'.view with remote := fun _ => none } := by
        simp only [World.view,Streams.view,World.streams,empty,View.mk.injEq,true_and,and_true]
        exact funext entry_empty
      rw [gone]
      rcases changed with kept | cleared
      · rw [World.view,kept]
        rfl
      · rw [World.view,cleared]
        rfl
    · next some =>
      refine ⟨trivial,?_⟩
      rcases changed with kept | cleared
      · exact congrArg Streams.view kept
      · exact absurd (congrArg Streams.remoteStreamInfos cleared) some

theorem valid_init (token : LicodeToken) : (World.init token).view.Valid := by
  refine ⟨fun _ _ found => ?_,fun _ _ found => ?_,fun _ member => ?_,fun _ member => ?_⟩
  · simp [World.init,World.view,Streams.view,World.streams] at found
  · simp [World.init,World.view,Streams.view,World.streams] at found
  · cases member
  · cases member

theorem step_valid {nl : Nlohmann} {w w' : World} {e : Event} (valid : w.view.Valid) (taken : step nl w e = some w')
    (lives : w'.crashed = none) : w'.view.Valid := by
  obtain ⟨fits,view⟩ := step_view valid taken lives
  rw [view]
  exact Change.valid_apply (valid_base valid e) fits

/-- An event that runs no task leaves the own streams alone, and the remote ones
    unless it brings a token response, which may clear them. -/
theorem step_idle {nl : Nlohmann} {w w' : World} {e : Event} (taken : step nl w e = some w')
    (idle : started w e = none) :
    w'.room.localStreamInfos = w.room.localStreamInfos ∧
      (w'.room.remoteStreamInfos = w.room.remoteStreamInfos ∨ w'.room.remoteStreamInfos = ∅) ∧
      ((∀ token, e.frame w ≠ .initToken token) → w'.room.remoteStreamInfos = w.room.remoteStreamInfos) := by
  have kept : w'.room.remoteStreamInfos = w.room.remoteStreamInfos →
      (w'.room.remoteStreamInfos = w.room.remoteStreamInfos ∨ w'.room.remoteStreamInfos = ∅) ∧
      ((∀ token, e.frame w ≠ .initToken token) → w'.room.remoteStreamInfos = w.room.remoteStreamInfos) :=
    fun same => ⟨.inl same,fun _ => same⟩
  rcases step_streams taken with ⟨task,order,v,starts,-⟩ | ⟨info,rfl,made⟩ | ⟨api,rfl,called⟩ | ⟨-,changed,tokenless⟩
  · rw [idle] at starts
    cases starts
  · exact ⟨congrArg Streams.localStreamInfos made,kept (congrArg Streams.remoteStreamInfos made)⟩
  · exact ⟨congrArg Streams.localStreamInfos called,kept (congrArg Streams.remoteStreamInfos called)⟩
  · rcases changed with same | cleared
    · exact ⟨congrArg Streams.localStreamInfos same,kept (congrArg Streams.remoteStreamInfos same)⟩
    · exact ⟨congrArg Streams.localStreamInfos cleared,.inr (congrArg Streams.remoteStreamInfos cleared),
        fun other => congrArg Streams.remoteStreamInfos (tokenless other)⟩

end LicodeClient
