import LicodeClient.View

/-!
What the server tells the room, in the order in which it arrives. A frame is read
on the websocket's thread, which posts tasks and leaves the tables to them;
`Frame.tasks` says which, from the text alone, and `step_tasks` that nothing but
frames and the application's calls puts tasks into the queue. What is told of
streams by then is kept beside the client (`Heard`), together with the streams
that were reported to the observer.
-/
namespace LicodeClient
open LicodeClient.Table LicodeClient.Program LicodeClient.Run
open MonadExcept (ofExcept)

/-! ### What frames post -/

/-- An exception is caught where nothing was posted yet. -/
def caught : Except Fault (Option Task) → Except Fault (Option Task)
  | .error .exception => .ok none
  | read => read

/-- The task of a `connection_message_erizo`. -/
def connectionTask (nl : Nlohmann) (msg : Text) : Except Fault (Option Task) := do
  let event ← nl.parseOrThrow msg
  let connectionId ← event.member "connectionId" >>= Json.toText
  let info ← event.member "info" >>= Json.toInt32
  let evt ← event.member "evt"
  if info = 202 then
    let type ← evt.member "type"
    if type.isText "offer" then
      let sdp ← evt.member "sdp" >>= Json.toText
      return some (.receiveOffer connectionId sdp)
    else if type.isText "answer" then
      let _ ← evt.member "sdp" >>= Json.toText
      return none
    else return none
  else if info = 104 then return some (.onPeerConnectionConnectErizoReady connectionId)
  else return none

/-- The task of an `onAddStream`. -/
def addTask (nl : Nlohmann) (msg : Text) : Except Fault (Option Task) := do
  let stream ← nl.parseOrThrow msg
  let info ← streamInfo nl Json.member stream
  return some (.onAddStream info)

/-- The task of an `onRemoveStream`. -/
def removeTask (nl : Nlohmann) (msg : Text) : Except Fault (Option Task) := do
  let body ← nl.parseOrThrow msg
  let removeStreamId ← body.member "id" >>= Json.toUInt64
  return some (.onRemoveStream removeStreamId)

/-- The task of an event. -/
def eventTask (nl : Nlohmann) (msg : Text) : Except Fault (Option Task) := do
  let event ← nl.parseOrThrow msg
  let name ← event.index 0
  let body ← event.index 1
  let name ← name.toText
  if name = lit "connection_message_erizo" then connectionTask nl (nl.dump body)
  else if name = lit "onAddStream" then caught (addTask nl (nl.dump body))
  else if name = lit "onRemoveStream" then caught (removeTask nl (nl.dump body))
  else return none

/-- The tasks that a frame posts. -/
def Frame.tasks (nl : Nlohmann) : Frame → List Task
  | .initToken msg =>
    match joinOutcome nl msg with
    | .admitted response => .onJoinRoom :: response.existStreams.map .joinedStream
    | _ => []
  | .subscribeStream msg => (nl.parseOrThrow msg).toOption.toList.map .onSubscribeStream
  | .publishStream msg => [.onPublishStream msg]
  | .event msg => (eventTask nl msg).toOption.join.toList
  | _ => []

/-- What is read yields a task only with the property. -/
def Yields (P : Task → Prop) (read : Except Fault (Option Task)) : Prop := ∀ task, read = .ok (some task) → P task

section
variable {P : Task → Prop} {read read' : Except Fault (Option Task)}

theorem yields_none : Yields P (pure none) := by
  intro task yields
  cases yields

theorem yields_some {task : Task} (holds : P task) : Yields P (pure (some task)) := by
  intro task' yields
  cases yields
  exact holds

theorem yields_bind {α : Type} {d : Except Fault α} {rest : α → Except Fault (Option Task)}
    (goes : ∀ a, Yields P (rest a)) : Yields P (d >>= rest) := by
  intro task yields
  cases d with
  | error fault => cases yields
  | ok a => exact goes a task yields

theorem yields_ite {c : Prop} [Decidable c] (first : Yields P read) (second : Yields P read') :
    Yields P (if c then read else read') := by
  split
  · exact first
  · exact second

theorem yields_caught (goes : Yields P read) : Yields P (caught read) := by
  intro task yields
  cases read with
  | ok found => exact goes task yields
  | error fault => cases fault <;> cases yields

end

/-- The tasks that events post. -/
def Task.ofEvent : Task → Prop
  | .receiveOffer _ _ | .onPeerConnectionConnectErizoReady _ | .onAddStream _ | .onRemoveStream _ => True
  | _ => False

/-- What an event posts has a property that the tasks of its branches have. -/
theorem yields_event {P : Task → Prop} {nl : Nlohmann} (offer : ∀ connId sdp, P (.receiveOffer connId sdp))
    (ready : ∀ connId, P (.onPeerConnectionConnectErizoReady connId)) (add : ∀ msg, Yields P (addTask nl msg))
    (remove : ∀ streamId, P (.onRemoveStream streamId)) (msg : Text) : Yields P (eventTask nl msg) := by
  unfold eventTask connectionTask removeTask
  refine yields_bind (fun event => yields_bind (fun name => yields_bind (fun body => yields_bind (fun name => ?_))))
  refine yields_ite ?_ (yields_ite (yields_caught (add _)) (yields_ite ?_ yields_none))
  · refine yields_bind (fun event => yields_bind (fun connectionId => yields_bind
      (fun info => yields_bind (fun evt => ?_))))
    refine yields_ite (yields_bind (fun type => ?_)) (yields_ite (yields_some (ready _)) yields_none)
    exact yields_ite (yields_bind (fun sdp => yields_some (offer _ _)))
      (yields_ite (yields_bind (fun _ => yields_none)) yields_none)
  · exact yields_caught (yields_bind (fun body => yields_bind (fun streamId => yields_some (remove _))))

theorem yields_eventTask (nl : Nlohmann) (msg : Text) : Yields Task.ofEvent (eventTask nl msg) :=
  yields_event (fun _ _ => trivial) (fun _ => trivial)
    (fun _ => yields_bind (fun _ => yields_bind (fun _ => yields_some trivial))) (fun _ => trivial) msg

/-- The program posts what `read` yields and does nothing else. -/
def Posts (x : Exec Unit) (read : Except Fault (Option Task)) : Prop :=
  ∀ w, x.run w =
    match read with
    | .ok task => .ok () { w with tasks := w.tasks ++ task.toList }
    | .error fault => .error fault w

theorem posts_none : Posts (pure ()) (pure none) := by
  intro w
  show EStateM.Result.ok () w = .ok () { w with tasks := w.tasks ++ [] }
  rw [List.append_nil]

theorem posts_task (task : Task) : Posts (postTask task) (pure (some task)) := fun _ => rfl

theorem posts_read {α : Type} {d : Except Fault α} {k : α → Exec Unit} {rest : α → Except Fault (Option Task)}
    (goes : ∀ a, Posts (k a) (rest a)) : Posts (ofExcept d >>= k) (d >>= rest) := by
  intro w
  cases d with
  | error fault => simp [run_ofExcept]
  | ok a => simpa [run_ofExcept] using goes a w

theorem posts_ite {c : Prop} [Decidable c] {x y : Exec Unit} {read read' : Except Fault (Option Task)}
    (first : Posts x read) (second : Posts y read') : Posts (if c then x else y) (if c then read else read') := by
  split
  · exact first
  · exact second

theorem posts_catchException {x : Exec Unit} {read : Except Fault (Option Task)} (posts : Posts x read) :
    Posts (catchException x (pure ())) (caught read) := by
  intro w
  simp only [catchException,run_tryCatch,posts w]
  cases read with
  | ok task => rfl
  | error fault => cases fault <;> simp [caught]

theorem posts_onErizoConnectionEvent (nl : Nlohmann) (msg : Text) :
    Posts (onErizoConnectionEvent nl msg) (connectionTask nl msg) := by
  unfold onErizoConnectionEvent connectionTask
  refine posts_read (fun event => posts_read (fun connectionId => posts_read (fun info => posts_read (fun evt => ?_))))
  refine posts_ite (posts_read (fun type => ?_)) (posts_ite (posts_task _) posts_none)
  exact posts_ite (posts_read (fun sdp => posts_task _)) (posts_ite (posts_read (fun _ => posts_none)) posts_none)

theorem posts_onAddStream (nl : Nlohmann) (msg : Text) : Posts (onAddStream nl msg) (caught (addTask nl msg)) :=
  posts_catchException (posts_read (fun _ => posts_read (fun _ => posts_task _)))

theorem posts_processEvent (nl : Nlohmann) (msg : Text) : Posts (processEvent nl msg) (caught (eventTask nl msg)) := by
  refine posts_catchException ?_
  unfold eventTask
  refine posts_read (fun event => posts_read (fun name => posts_read (fun body => posts_read (fun name => ?_))))
  unfold onEvent
  refine posts_ite (posts_onErizoConnectionEvent nl _) (posts_ite (posts_onAddStream nl _) (posts_ite ?_ posts_none))
  exact posts_catchException (posts_read (fun _ => posts_read (fun _ => posts_task _)))

theorem tasks_posts {x : Exec Unit} {read : Except Fault (Option Task)} (posts : Posts x read) (w : World) :
    (after x w).tasks = w.tasks ++ read.toOption.join.toList := by
  have runs := posts w
  cases read with
  | ok task => rw [after_of_ok runs]; rfl
  | error fault => rw [after_of_error runs]; simp [Except.toOption]

theorem toOption_caught (read : Except Fault (Option Task)) : (caught read).toOption.join = read.toOption.join := by
  cases read with
  | ok task => rfl
  | error fault => cases fault <;> rfl

/-! ### What puts tasks into the queue -/

theorem detached_tasks : Detached World.tasks := fun _ _ _ _ => rfl

theorem tasks_onJoinRoom (nl : Nlohmann) (msg : Text) (w : World) :
    (after (onJoinRoom nl msg) w).tasks = w.tasks ++ (Frame.initToken msg).tasks nl := by
  simp only [Frame.tasks]
  rcases after_onJoinRoom nl msg w with ⟨response,admits,same⟩ | ⟨w',state,refuses,⟨whole,-,-⟩,same⟩
  · rw [same,admits]
    rfl
  · rw [same,whole]
    cases outcome : joinOutcome nl msg with
    | admitted response => exact absurd outcome (refuses response)
    | refused => simp
    | undefined => simp

theorem tasks_onWebsocketMsg (nl : Nlohmann) (msg : Text) (w : World) :
    (after (onWebsocketMsg nl msg) w).tasks = w.tasks ++ (frameOf msg).tasks nl := by
  have quiet : ∀ {x : Exec Unit}, Keeps World.tasks x → (after x w).tasks = w.tasks ++ [] :=
    fun keeps => (keeps w).trans (List.append_nil _).symm
  unfold onWebsocketMsg
  cases frameOf msg with
  | opened msg => exact quiet (keeps_processSocketIOOpen (fun _ _ _ _ => rfl) nl msg)
  | pong => exact quiet (keeps_pure _)
  | connect =>
    exact quiet (keeps_bind (keeps_modify (fun _ => rfl)) (fun _ => keeps_bind (keeps_modify (fun _ => rfl)) (fun _ =>
      keeps_bind keeps_get (fun _ => keeps_websocketSendMsg (fun _ _ => rfl)))))
  | initToken msg => exact tasks_onJoinRoom nl msg w
  | disconnect => exact quiet detached_tasks.processDisconnect
  | subscribeStream msg =>
    have posts : Posts (onSubscribeStream nl msg)
        (nl.parseOrThrow msg >>= fun json => pure (some (.onSubscribeStream json))) :=
      posts_read (fun json => posts_task _)
    have posted := tasks_posts posts w
    simp only [Frame.tasks]
    cases read : nl.parseOrThrow msg <;> rw [read] at posted <;> exact posted
  | publishStream msg => rfl
  | event msg =>
    have posted := tasks_posts (posts_processEvent nl msg) w
    rw [toOption_caught] at posted
    exact posted
  | other => exact quiet (keeps_pure _)

/-- The tasks that an event puts into the queue. -/
def posted (nl : Nlohmann) (w : World) : Event → List Task
  | .call api => [api.task w]
  | e => (e.frame w).tasks nl

theorem tasks_read (nl : Nlohmann) (frame : Text) {w : World} {k : Nat} (exist : k < w.sessions.length) :
    (after (onRead nl k (some frame)) w).tasks = w.tasks ++ (w.frame k frame).tasks nl := by
  rw [after_onRead (f := World.tasks) (fun _ _ _ => rfl) nl frame exist]
  simp only [World.deliver,World.frame]
  split
  · exact tasks_onWebsocketMsg nl _ _
  · exact (List.append_nil _).symm

/-- The queue after a step: what was in it, but for the task that was taken, and
    what the event posts. -/
theorem step_tasks {nl : Nlohmann} {w w' : World} {e : Event} (taken : step nl w e = some w') :
    w'.tasks = (base w e).tasks ++ posted nl w e := by
  obtain ⟨-,can,rfl⟩ := step_eq_some taken
  have quiet : ∀ {x : Exec Unit}, Keeps World.tasks x → (after x w).tasks = w.tasks ++ [] :=
    fun keeps => (keeps w).trans (List.append_nil _).symm
  show (after (handler nl e) w).tasks = _
  cases e with
  | join => exact quiet detached_tasks.join
  | leave => exact quiet detached_tasks.leave
  | makeStream info => exact quiet (fun _ => rfl)
  | call api => rfl
  | dispatch api order => exact quiet (keeps_bind keeps_get (fun _ => aloof_tasks.run nl order _))
  | work order =>
    cases queue : w.tasks with
    | nil => simp [enabled,queue] at can
    | cons task rest =>
      have runs : after (handler nl (.work order)) w = after (task.run nl order) { w with tasks := rest } := by
        simp [after,handler,work,queue]
      rw [runs,aloof_tasks.run nl order task]
      simp [base,started,queue,posted,Event.frame,Frame.tasks]
  | resolved k failed => exact quiet (detached_tasks.advanced k _ failed _)
  | connected k failed => exact quiet (detached_tasks.advanced k _ failed _)
  | handshaken k failed => exact quiet (detached_tasks.advanced k _ failed _)
  | read k frame =>
    cases frame with
    | none => exact quiet (detached_tasks.chained (keeps_pure _) k _ true)
    | some frame => exact tasks_read nl frame (exists_of_enabled can)
  | posted k closes => exact quiet (detached_tasks.runPosted k closes)
  | wrote k succeeded => exact quiet (keeps_modify (fun _ => rfl))
  | ping i =>
    refine quiet (keeps_bind detached_tasks.socketIoPing (fun goesOn => ?_))
    split
    · exact keeps_modify (fun _ => rfl)
    · exact keeps_pure _

/-- A token response is given to `OnJoinRoom` before anything else happens. -/
theorem step_token {γ : Type*} {f : World → γ} (blind : ∀ w k g, f (w.updateSession k g) = f w) {nl : Nlohmann}
    {w w' : World} {e : Event} {token : Text} (settles : ∀ w crashed, f { w with crashed } = f w)
    (taken : step nl w e = some w') (frame : e.frame w = .initToken token) :
    ∃ v, f v = f w ∧ f w' = f (after (onJoinRoom nl token) v) := by
  obtain ⟨-,can,rfl⟩ := step_eq_some taken
  cases e with
  | read k text =>
    cases text with
    | none => cases frame
    | some text =>
      refine ⟨w.received k text,blind w k _,?_⟩
      rw [settle,settles,handler,after_onRead blind nl text (exists_of_enabled can)]
      simp only [Event.frame,World.frame] at frame
      split at frame
      · next heard => simp only [World.deliver,if_pos heard,onWebsocketMsg,frame]
      · cases frame
  | _ => cases frame

/-! ### What looks neither at the connection nor at the queue -/

section
variable {γ : Type*} {f : World → γ}

def Aside (f : World → γ) : Prop :=
  ∀ w sessions signaling pings tasks crashed state,
    f { w with
        sessions := sessions
        signaling := signaling
        pings := pings
        tasks := tasks
        crashed := crashed
        room.state := state } = f w

namespace Aside

theorem offline (blind : Aside f) : Offline f := fun w _ _ _ _ => blind w _ _ _ w.tasks w.crashed _

theorem posts (blind : Aside f) (w : World) (tasks : List Task) : f { w with tasks } = f w :=
  blind w _ _ _ tasks w.crashed _

theorem settles (blind : Aside f) (w : World) (crashed : Option Fault) : f { w with crashed } = f w :=
  blind w _ _ _ w.tasks crashed _

theorem tokenless (blind : Aside f) (nl : Nlohmann) {msg : Text} (other : ∀ token, frameOf msg ≠ .initToken token) :
    Keeps f (onWebsocketMsg nl msg) := by
  have detached := blind.offline.detached
  unfold onWebsocketMsg
  cases frame : frameOf msg with
  | opened msg => exact keeps_processSocketIOOpen (fun w _ _ _ => detached w _ _ _) nl msg
  | pong => exact keeps_pure _
  | connect =>
    exact keeps_bind (keeps_modify (fun w => detached w _ _ _)) (fun _ =>
      keeps_bind (keeps_modify (fun w => blind.offline w _ _ _ _)) (fun _ =>
        keeps_bind keeps_get (fun _ => keeps_websocketSendMsg (fun w k => detached.updateSession w k _))))
  | initToken token => exact absurd frame (other token)
  | disconnect => exact detached.processDisconnect
  | subscribeStream msg => exact keeps_bind (keeps_ofExcept _) (fun _ => keeps_postTask (fun w => blind.posts w _))
  | publishStream msg => exact keeps_postTask (fun w => blind.posts w _)
  | event msg => exact keeps_processEvent (fun w _ _ => blind.posts w _) nl msg
  | other => exact keeps_pure _

/-- An event that runs no task, makes no stream and brings no token response
    changes the connection and the queue only. -/
theorem step (blind : Aside f) {nl : Nlohmann} {w w' : World} {e : Event} (taken : LicodeClient.step nl w e = some w')
    (idle : started w e = none) (other : ∀ token, e.frame w ≠ .initToken token)
    (made : ∀ info, e ≠ .makeStream info) : f w' = f w := by
  obtain ⟨-,can,rfl⟩ := step_eq_some taken
  have detached := blind.offline.detached
  rw [settle,blind.settles]
  cases e with
  | join => exact detached.join w
  | leave => exact detached.leave w
  | makeStream info => exact absurd rfl (made info)
  | call api => exact blind.posts w _
  | dispatch api order => cases idle
  | work order => cases queue : w.tasks <;> simp [started,enabled,queue] at idle can
  | resolved k failed => exact detached.advanced k _ failed _ w
  | connected k failed => exact detached.advanced k _ failed _ w
  | handshaken k failed => exact detached.advanced k _ failed _ w
  | read k frame =>
    cases frame with
    | none => exact detached.chained (keeps_pure _) k _ true w
    | some frame =>
      refine (after_onRead detached.updateSession nl frame (exists_of_enabled can)).trans ?_
      rw [← show f (w.received k frame) = f w from detached.updateSession w k _]
      simp only [Event.frame,World.frame] at other
      unfold World.deliver
      split
      · next heard =>
        rw [if_pos heard] at other
        exact blind.tokenless nl other _
      · rfl
  | posted k closes => exact detached.runPosted k closes w
  | wrote k succeeded => exact detached.updateSession w k _
  | ping i => exact blind.offline.firePing i w

end Aside
end

/-! ### What is reported to the observer -/

/-- The id of a stream as it is reported. -/
def Call.reported (heap : Heap) : Call → Option UInt64
  | .onAddRemoteStream p => some (heap.cell p).id
  | _ => none

/-- The ids of the streams that a step reports. -/
def reports (w w' : World) : List UInt64 := (w'.calls.drop w.calls.length).filterMap (Call.reported w'.heap)

/-- The ids of the streams that a task reports: every stream of a response, and
    the announced streams that are not own. -/
def Task.reports (w : World) : Task → List UInt64
  | .joinedStream info => [info.id]
  | .onAddStream info => if entry w.room.localStreamInfos info.id = none then [info.id] else []
  | _ => []

theorem reports_of_call {w w' : World} {c : Call} (calls : w'.calls = w.calls ++ [c]) :
    reports w w' = (c.reported w'.heap).toList := by
  cases reported : c.reported w'.heap <;> simp [reports,calls,reported]

theorem reports_of_calls {w w' : World} (same : w'.calls = w.calls) : reports w w' = [] := by
  simp [reports,same]

/-- Frames are sent without a call of the observer. -/
theorem calls_signalingSendMsg (msg : Packet) : Keeps World.calls (signalingSendMsg msg) :=
  keeps_signalingSendMsg (fun _ _ => rfl)

theorem calls_request {g : World → World} (same : ∀ w, (g w).calls = w.calls) (msg : Packet) :
    Keeps World.calls (do modify g; signalingSendMsg msg : Exec Unit) :=
  keeps_bind (keeps_modify same) (fun _ => calls_signalingSendMsg msg)

theorem calls_runOfferOrAnswer (type : String) (streamId : UInt64) (sdp : Text) :
    Keeps World.calls (Task.runOfferOrAnswer type streamId sdp) := by
  have looks : Keeps World.calls (remoteIndex streamId) := fun _ => rfl
  exact keeps_bind looks (fun _ => keeps_bind (keeps_nonNull _) (fun _ => keeps_bind keeps_get (fun _ =>
    calls_signalingSendMsg _)))

theorem calls_runSendIceCandidate (streamId : UInt64) (sdpMid : Text) (index : Int32) (candidate : Text) :
    Keeps World.calls (Task.runSendIceCandidate streamId sdpMid index candidate) := by
  intro w
  have runs := run_runSendIceCandidate streamId sdpMid index candidate w
  cases found : entry w.room.remoteStreamInfos streamId with
  | some p => rw [found] at runs; rw [after_congr runs,calls_signalingSendMsg]
  | none =>
    cases own : entry w.room.localStreamInfos streamId with
    | some p =>
      rw [found,own] at runs
      rw [after_congr runs,calls_signalingSendMsg]
      rfl
    | none =>
      rw [found,own] at runs
      rw [after_of_error runs]
      rfl

theorem reports_runOnAddStream (info : LicodeStreamInfo) (w : World) :
    reports w (after (Task.runOnAddStream info) w) = (Task.onAddStream info).reports w := by
  have runs := run_runOnAddStream info w
  simp only [Task.reports]
  cases own : entry w.room.localStreamInfos info.id with
  | some p =>
    rw [own] at runs
    rw [after_of_ok runs]
    exact reports_of_calls rfl
  | none =>
    rw [own] at runs
    rw [after_of_ok runs,reports_of_call (c := .onAddRemoteStream w.heap.next) rfl]
    simp [Call.reported,World.indexLocal,World.allocate]

/-- A task that does not fault reports what it has to. -/
theorem reports_task (nl : Nlohmann) (order : Order UInt64 StreamPtr) (task : Task) {w : World}
    (fine : faultOf (task.run nl order) w = none) : reports w (after (task.run nl order) w) = task.reports w := by
  cases task with
  | onJoinRoom => exact reports_of_call (c := .onJoinRoom w.room.id) rfl
  | joinedStream info =>
    refine (reports_of_call (c := .onAddRemoteStream w.heap.next) rfl).trans ?_
    simp [Call.reported,Task.run,Task.reports,after_of_ok (run_runJoinedStream info w),World.allocate]
  | onAddStream info => exact reports_runOnAddStream info w
  | onRemoveStream streamId => exact reports_of_calls rfl
  | onSubscribeStream json =>
    obtain ⟨_,_,_,_,p,-,-,-,same⟩ := after_runOnSubscribeStream fine
    refine (reports_of_call (c := .onSubscribeStreamAllocateConnId (some p)) ?_).trans rfl
    simp only [Task.run,same]
  | onPublishStream msg =>
    obtain ⟨_,_,_,_,_,-,-,same⟩ := after_runOnPublishStream fine
    refine reports_of_calls ?_
    simp only [Task.run,same]
    rfl
  | onPeerConnectionConnectErizoReady connId =>
    have runs := run_runOnPeerConnectionConnectErizoReady order connId w
    simp only [Task.run] at fine ⊢
    cases stream : w.streamOf order connId with
    | error fault => rw [stream] at runs; simp [faultOf,runs] at fine
    | ok found =>
      rw [stream] at runs
      cases found <;> rw [after_of_ok runs] <;> exact reports_of_call (c := .onStreamConnectReady _) rfl
  | receiveOffer connId sdp =>
    have runs := run_runReceiveOffer order connId sdp w
    simp only [Task.run] at fine ⊢
    cases stream : findIn w.heap.cell connId (order.arrange w.room.remoteStreamInfos.entries) with
    | error fault => rw [stream] at runs; simp [faultOf,runs] at fine
    | ok found =>
      rw [stream] at runs
      rw [after_of_ok runs]
      exact reports_of_call (c := .onReceiveOffer found sdp) rfl
  | publishStream info label =>
    refine reports_of_calls ?_
    exact calls_request (fun w => by rfl) _ w
  | unPublishStream streamId => exact reports_of_calls (calls_signalingSendMsg _ w)
  | subscribeStream streamId =>
    refine reports_of_calls ?_
    exact calls_request (fun w => by rfl) _ w
  | unSubscriberStream streamId => exact reports_of_calls (calls_signalingSendMsg _ w)
  | sendAnswer streamId sdp => exact reports_of_calls (calls_runOfferOrAnswer "answer" streamId sdp w)
  | sendOffer streamId sdp => exact reports_of_calls (calls_runOfferOrAnswer "offer" streamId sdp w)
  | sendIceCandidate streamId sdpMid sdpMLineIndex candidate =>
    exact reports_of_calls (calls_runSendIceCandidate streamId sdpMid sdpMLineIndex candidate w)

theorem aside_calls : Aside World.calls := fun _ _ _ _ _ _ _ => rfl

/-- An event that runs no task calls no observer. -/
theorem step_calls {nl : Nlohmann} {w w' : World} {e : Event} (taken : step nl w e = some w')
    (idle : started w e = none) : w'.calls = w.calls := by
  by_cases made : ∃ info, e = .makeStream info
  · obtain ⟨info,rfl⟩ := made
    obtain ⟨-,-,rfl⟩ := step_eq_some taken
    rfl
  · by_cases response : ∃ token, e.frame w = .initToken token
    · obtain ⟨token,frame⟩ := response
      obtain ⟨v,before,later⟩ := step_token (f := World.calls) (fun _ _ _ => rfl) (fun _ _ => rfl) taken frame
      exact later.trans ((keeps_onJoinRoom (f := World.calls) (fun _ _ _ => rfl) nl token v).trans before)
    · exact aside_calls.step taken idle (fun token frame => response ⟨token,frame⟩) (fun info same => made ⟨info,same⟩)

/-- A step that does not end the process reports what its task has to report. -/
theorem step_reports {nl : Nlohmann} {w w' : World} {e : Event} (taken : step nl w e = some w')
    (lives : w'.crashed = none) :
    reports w w' = (started w e).elim [] (fun start => start.1.reports start.2.2) := by
  cases starts : started w e with
  | none => exact reports_of_calls (step_calls taken starts)
  | some start =>
    obtain ⟨task,order,v⟩ := start
    have same := step_started taken starts
    subst same
    have before : v.calls = w.calls := by rw [started_eq starts]
    have step : reports w (settle (task.run nl order) v) = reports v (after (task.run nl order) v) := by
      simp only [reports,before,settle]
    exact step.trans (reports_task nl order task lives)

/-! ### What was heard of streams -/

/-- What the server says of streams: those that are there when the room is
    joined, that a token was not accepted, a stream that comes, one that goes, and
    the id of an own stream. -/
inductive Notice where
  | listed (ids : List UInt64)
  | refused
  | added (streamId : UInt64)
  | removed (streamId : UInt64)
  | acked (streamId : UInt64)
  deriving DecidableEq

/-- The id in a publish ack. -/
def ackedId (nl : Nlohmann) (msg : Text) : Option UInt64 :=
  (nl.parseOrThrow msg >>= fun json => json.index 0 >>= Json.toUInt64).toOption

/-- What a task goes back to. -/
def Task.notice (nl : Nlohmann) : Task → Option Notice
  | .onAddStream info => some (.added info.id)
  | .onRemoveStream streamId => some (.removed streamId)
  | .onPublishStream msg => (ackedId nl msg).map .acked
  | _ => none

/-- What a frame says of streams. -/
def Frame.notices (nl : Nlohmann) : Frame → List Notice
  | .initToken msg =>
    match joinOutcome nl msg with
    | .admitted response => [.listed (response.existStreams.map (·.id))]
    | _ => [.refused]
  | frame => (frame.tasks nl).filterMap (Task.notice nl)

/-- The client with what was heard of streams so far and with the ids of the
    streams that were reported to the observer. -/
structure Heard where
  world : World
  notices : List Notice := []
  reported : List UInt64 := []

namespace Heard

def init (token : LicodeToken) : Heard := { world := .init token }

def step (nl : Nlohmann) (h : Heard) (e : Event) : Option Heard :=
  (LicodeClient.step nl h.world e).map (fun w =>
    ⟨w,h.notices ++ (e.frame h.world).notices nl,h.reported ++ reports h.world w⟩)

theorem step_eq_some {nl : Nlohmann} {h h' : Heard} {e : Event} (taken : h.step nl e = some h') :
    LicodeClient.step nl h.world e = some h'.world ∧ h'.notices = h.notices ++ (e.frame h.world).notices nl ∧
      h'.reported = h.reported ++ reports h.world h'.world := by
  obtain ⟨w,steps,rfl⟩ := Option.map_eq_some_iff.mp taken
  exact ⟨steps,rfl,rfl⟩

end Heard

/-- A task is taken from the queue, or it is a call's that runs at once; nothing
    arrives with it. -/
theorem started_cases {w v : World} {e : Event} {task : Task} {order : Order UInt64 StreamPtr}
    (starts : started w e = some (task,order,v)) :
    e.frame w = .other ∧ (∀ nl, posted nl w e = []) ∧
      (w.tasks = task :: v.tasks ∨ v = w ∧ ∃ api : Api, task = api.task w) := by
  cases e with
  | dispatch api order => cases starts; exact ⟨rfl,fun _ => rfl,.inr ⟨rfl,api,rfl⟩⟩
  | work order => exact ⟨rfl,fun _ => rfl,.inl (started_work starts).1⟩
  | _ => cases starts

theorem mem_of_base {w : World} {e : Event} {task : Task} (member : task ∈ (base w e).tasks) : task ∈ w.tasks := by
  unfold base at member
  cases starts : started w e with
  | none => rw [starts] at member; exact member
  | some start =>
    rw [starts] at member
    rcases (started_cases starts).2.2 with queue | ⟨same,-⟩
    · rw [queue]; exact List.mem_cons_of_mem _ member
    · rw [← same]; exact member

/-- Only a read brings a token response. -/
theorem posted_of_token {w : World} {e : Event} {token : Text} (frame : e.frame w = .initToken token) (nl : Nlohmann) :
    started w e = none ∧ posted nl w e = (Frame.initToken token).tasks nl := by
  cases e with
  | read k text => exact ⟨rfl,by rw [← frame]; rfl⟩
  | _ => cases frame

theorem notice_api (nl : Nlohmann) (api : Api) (w : World) : (api.task w).notice nl = none := by
  cases api <;> rfl

theorem not_joined_api (api : Api) (w : World) (info : LicodeStreamInfo) : api.task w ≠ .joinedStream info := by
  cases api <;> intro joined <;> cases joined

/-- What an event posts has a property that each kind of task that is posted has. -/
theorem of_posted {P : Task → Prop} {nl : Nlohmann} {w : World} {e : Event} (call : ∀ api : Api, P (api.task w))
    (token : ∀ token, e.frame w = .initToken token → ∀ task ∈ (Frame.initToken token).tasks nl, P task)
    (subscribe : ∀ json, P (.onSubscribeStream json)) (publish : ∀ msg, P (.onPublishStream msg))
    (event : ∀ msg, Yields P (eventTask nl msg)) : ∀ task ∈ posted nl w e, P task := by
  have frames : ∀ frame, e.frame w = frame → ∀ task ∈ frame.tasks nl, P task := by
    intro frame arrives task member
    cases frame with
    | initToken msg => exact token msg arrives task member
    | subscribeStream msg =>
      obtain ⟨json,-,rfl⟩ := List.mem_map.mp member
      exact subscribe json
    | publishStream msg =>
      rw [List.mem_singleton.mp member]
      exact publish msg
    | event msg =>
      simp only [Frame.tasks,Option.mem_toList,Option.join_eq_some_iff] at member
      cases read : eventTask nl msg with
      | error fault => simp [read,Except.toOption] at member
      | ok found => exact event msg task (by rw [read]; simpa [read,Except.toOption] using member)
    | _ => cases member
  cases e with
  | call api =>
    intro task member
    rw [List.mem_singleton.mp member]
    exact call api
  | _ => exact frames _ rfl

/-- Only a token response posts the streams of a response. -/
theorem not_joined_posted {nl : Nlohmann} {w : World} {e : Event} (other : ∀ token, e.frame w ≠ .initToken token) :
    ∀ task ∈ posted nl w e, ∀ info, task ≠ .joinedStream info := by
  have event : ∀ msg, Yields (fun task => ∀ info, task ≠ .joinedStream info) (eventTask nl msg) := by
    intro msg task yields info joined
    have posted := yields_eventTask nl msg task yields
    rw [joined] at posted
    exact posted
  refine of_posted (fun api => not_joined_api api w) (fun token arrives => absurd arrives (other token)) ?_ ?_ event
  · intro json info joined
    cases joined
  · intro msg info joined
    cases joined

/-- What an event posts tells what its frame says of streams. -/
theorem notices_posted {nl : Nlohmann} {w : World} {e : Event} (other : ∀ token, e.frame w ≠ .initToken token) :
    (posted nl w e).filterMap (Task.notice nl) = (e.frame w).notices nl := by
  have frames : ∀ frame : Frame, (∀ token, frame ≠ .initToken token) →
      (frame.tasks nl).filterMap (Task.notice nl) = frame.notices nl := by
    intro frame other
    cases frame with
    | initToken token => exact absurd rfl (other token)
    | _ => rfl
  cases e with
  | call api => simp [posted,notice_api,Event.frame,Frame.notices,Frame.tasks]
  | _ => exact frames _ other

/-- The id that a publish ack binds is the one that was heard. -/
theorem ackedId_of_complete {nl : Nlohmann} {msg : Text} {erizoId erizoId' connId : Text} {streamId : UInt64}
    (ack : publishAck nl msg erizoId = .complete erizoId' streamId connId) : ackedId nl msg = some streamId := by
  unfold publishAck at ack
  unfold ackedId
  cases read : nl.parseOrThrow msg with
  | error fault => simp [read] at ack
  | ok json =>
    simp only [read] at ack
    cases erizo : noted (json.index 1) erizoId with
    | error fault => simp [erizo] at ack
    | ok erizoId =>
      simp only [erizo] at ack
      cases id : json.index 0 >>= Json.toUInt64 with
      | error fault => simp [id] at ack
      | ok streamId' =>
        simp only [id] at ack
        cases conn : json.index 2 >>= Json.toText with
        | error fault => simp [conn] at ack
        | ok connId' =>
          simp only [conn,PublishAck.complete.injEq] at ack
          simp [id,Except.toOption,ack.2.1]

/-- A publish ack that is taken in binds the stream that it names. -/
theorem change_onPublishStream {nl : Nlohmann} {msg : Text} {w : World}
    (fine : faultOf (Task.runOnPublishStream nl msg) w = none) :
    ∃ erizoId acked p connId, (Task.onPublishStream msg).change nl w = .bound erizoId acked p connId ∧
      (Task.onPublishStream msg).notice nl = some (.acked acked) := by
  obtain ⟨p,rest,erizoId,acked,connId,queue,ack,-⟩ := after_runOnPublishStream fine
  refine ⟨erizoId,acked,p,connId,?_,?_⟩
  · simp only [Task.change,queue,ack]
  · rw [Task.notice,ackedId_of_complete ack,Option.map_some]

/-- A subscribe ack that is taken in is stored in the description of a stream. -/
theorem change_onSubscribeStream (nl : Nlohmann) {json : Json} {w : World}
    (fine : faultOf (Task.runOnSubscribeStream json) w = none) :
    ∃ erizoId streamId p connId, (Task.onSubscribeStream json).change nl w = .stored erizoId streamId p connId := by
  obtain ⟨streamId,rest,erizoId,connId,p,queue,ack,found,-⟩ := after_runOnSubscribeStream fine
  refine ⟨erizoId,streamId,p,connId,?_⟩
  simp only [Task.change,queue,ack,found]

/-! ### Steps -/

namespace Heard

/-- A step in which a task runs from `v` and does not fault: nothing is heard,
    and what is reported is what the task has to report. -/
structure Runs (nl : Nlohmann) (h : Heard) (task : Task) (order : Order UInt64 StreamPtr) (v : World) (h' : Heard) :
    Prop where
  source : h.world.tasks = task :: v.tasks ∨ v = h.world ∧ ∃ api : Api, task = api.task h.world
  room : v.room = h.world.room
  heap : v.heap = h.world.heap
  valid : v.view.Valid
  fine : faultOf (task.run nl order) v = none
  world : h'.world = settle (task.run nl order) v
  tasks : h'.world.tasks = v.tasks
  notices : h'.notices = h.notices
  reported : h'.reported = h.reported ++ task.reports v

/-- A step in which no task runs: tasks are posted and the remote table is kept
    or cleared. -/
structure Arrives (h : Heard) (new : List Task) (heard : List Notice) (h' : Heard) : Prop where
  own : h'.world.room.localStreamInfos = h.world.room.localStreamInfos
  remote : h'.world.room.remoteStreamInfos = h.world.room.remoteStreamInfos ∨ h'.world.room.remoteStreamInfos = ∅
  tasks : h'.world.tasks = h.world.tasks ++ new
  notices : h'.notices = h.notices ++ heard
  reported : h'.reported = h.reported

theorem runs_of_started {nl : Nlohmann} {h h' : Heard} {e : Event} {task : Task} {order : Order UInt64 StreamPtr}
    {v : World} (valid : h.world.view.Valid) (starts : started h.world e = some (task,order,v))
    (taken : h.step nl e = some h') (lives : h'.world.crashed = none) : h.Runs nl task order v h' := by
  obtain ⟨steps,notices,reported⟩ := step_eq_some taken
  obtain ⟨frame,posts,source⟩ := started_cases starts
  have same := step_started steps starts
  have here : base h.world e = v := by simp [base,starts]
  refine ⟨source,?_,?_,here ▸ valid_base valid e,?_,same,?_,?_,?_⟩
  · rw [started_eq starts]
  · rw [started_eq starts]
  · rw [same] at lives
    exact lives
  · rw [step_tasks steps,here,posts,List.append_nil]
  · rw [notices,frame]
    simp [Frame.notices,Frame.tasks]
  · rw [reported,step_reports steps lives,starts,Option.elim_some]

theorem arrives_of_idle {nl : Nlohmann} {h h' : Heard} {e : Event} (idle : started h.world e = none)
    (taken : h.step nl e = some h') :
    h.Arrives (posted nl h.world e) ((e.frame h.world).notices nl) h' := by
  obtain ⟨steps,notices,reported⟩ := step_eq_some taken
  obtain ⟨own,remote,-⟩ := step_idle steps idle
  refine ⟨own,remote,?_,notices,?_⟩
  · rw [step_tasks steps]
    simp [base,idle]
  · rw [reported,reports_of_calls (step_calls steps idle),List.append_nil]

/-- No remote stream comes without a task. -/
theorem Arrives.known {h h' : Heard} {new : List Task} {heard : List Notice} (arrives : h.Arrives new heard h')
    {streamId : UInt64} (remote : (h'.world.view.remote streamId).isSome) :
    (h.world.view.remote streamId).isSome := by
  simp only [World.view,Streams.view,World.streams] at remote ⊢
  rcases arrives.remote with same | cleared
  · rw [same] at remote
    exact remote
  · rw [cleared,entry_empty] at remote
    cases remote

/-- The tables that a task finds. -/
theorem Runs.tables {nl : Nlohmann} {h h' : Heard} {task : Task} {order : Order UInt64 StreamPtr} {v : World}
    (runs : h.Runs nl task order v h') :
    v.view.remote = h.world.view.remote ∧ v.view.own = h.world.view.own := by
  simp only [World.view,Streams.view,World.streams,runs.room,and_self]

theorem Runs.view {nl : Nlohmann} {h h' : Heard} {task : Task} {order : Order UInt64 StreamPtr} {v : World}
    (runs : h.Runs nl task order v h') : h'.world.view = (task.change nl v).apply v.view := by
  rw [runs.world,← view_task nl order task runs.valid runs.fine]
  rfl

end Heard
end LicodeClient
