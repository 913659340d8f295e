import LicodeClient.Machine

/-!
What handlers and tasks leave alone. A function of the client that looks neither
at stream descriptions, tables and observer calls nor at frames that ask for no
ack (`Indifferent`) is kept by every task that is not a publish or subscribe
request or the ack of one. The connection's outline (`Outline`) is kept by every
task.
-/
namespace LicodeClient
open LicodeClient.Table LicodeClient.Program

/-- The requests that the server acks. -/
inductive Request where
  | publish (stream : StreamPtr)
  | subscribe (streamId : UInt64)
  deriving DecidableEq

/-- The request that a frame carries. -/
def Packet.request : Packet → Option Request
  | .publish stream _ => some (.publish stream)
  | .subscribe streamId => some (.subscribe streamId)
  | _ => none

/-- The requests among the frames that a session has accepted, in order. -/
def WebsocketSession.requests (s : WebsocketSession) : List Request := s.accepted.filterMap Packet.request

/-- The part of a session that its connect and read chain depends on. -/
structure Chain where
  doDisconnect : Bool
  connected : Bool
  receiveMsgCallback : Bool
  abnormalDisconnectCallback : Bool
  outstanding : List Operation

def WebsocketSession.chain (s : WebsocketSession) : Chain :=
  ⟨s.doDisconnect,s.connected,s.receiveMsgCallback,s.abnormalDisconnectCallback,s.outstanding⟩

/-- The states of the room and of its signaling. -/
structure Link where
  room : RoomState
  signaling : SignalingState
  deriving DecidableEq

/-- The two states and the chains of the sessions, with the number of the
    session that the signaling uses. -/
structure Outline extends Link where
  websocket : Option Nat
  chains : List Chain

def World.outline (w : World) : Outline :=
  ⟨⟨w.room.state,w.signaling.state⟩,w.signaling.websocket,w.sessions.map WebsocketSession.chain⟩

/-- `f` does not look at what the plain tasks change. -/
structure Indifferent {γ : Type*} (f : World → γ) : Prop where
  heap : ∀ w heap, f { w with heap } = f w
  calls : ∀ w calls, f { w with calls } = f w
  localStreamInfos : ∀ w table, f { w with room.localStreamInfos := table } = f w
  remoteStreamInfos : ∀ w table, f { w with room.remoteStreamInfos := table } = f w
  sendMsg : ∀ w k msg, msg.request = none → f (w.updateSession k (·.sendMsg msg)) = f w

variable {γ : Type*} {f : World → γ}

namespace Indifferent

theorem makeShared (blind : Indifferent f) (info : LicodeStreamInfo) : Keeps f (makeShared info) :=
  keeps_bind keeps_get (fun _ => keeps_bind (keeps_modify (fun _ => blind.heap _ _)) (fun _ => keeps_pure _))

theorem setConnectionId (blind : Indifferent f) (p : StreamPtr) (connId : Text) : Keeps f (setConnectionId p connId) :=
  keeps_modify (fun _ => blind.heap _ _)

theorem localIndex (blind : Indifferent f) (streamId : UInt64) : Keeps f (localIndex streamId) :=
  keeps_bind keeps_get (fun _ => keeps_bind (keeps_modify (fun _ => blind.localStreamInfos _ _))
    (fun _ => keeps_pure _))

theorem remoteIndex (blind : Indifferent f) (streamId : UInt64) : Keeps f (remoteIndex streamId) :=
  keeps_bind keeps_get (fun _ => keeps_bind (keeps_modify (fun _ => blind.remoteStreamInfos _ _))
    (fun _ => keeps_pure _))

theorem observe (blind : Indifferent f) (call : Call) : Keeps f (observe call) :=
  keeps_modify (fun _ => blind.calls _ _)

end Indifferent

theorem keeps_nonNull (p : Option StreamPtr) : Keeps f (nonNull p) := by
  cases p with
  | some p => exact keeps_pure p
  | none => exact keeps_throw _

theorem keeps_front {α : Type} (queue : List α) : Keeps f (front queue) := by
  cases queue with
  | cons a rest => exact keeps_pure a
  | nil => exact keeps_throw _

theorem keeps_websocket : Keeps f websocket := by
  refine keeps_bind keeps_get ?_
  intro w
  cases w.signaling.websocket with
  | some k => exact keeps_pure k
  | none => exact keeps_throw _

theorem keeps_websocketSendMsg {msg : Packet} (sends : ∀ w k, f (w.updateSession k (·.sendMsg msg)) = f w) :
    Keeps f (websocketSendMsg msg) :=
  keeps_bind keeps_websocket (fun k => keeps_modify (fun w => sends w k))

theorem keeps_signalingSendMsg {msg : Packet} (sends : ∀ w k, f (w.updateSession k (·.sendMsg msg)) = f w) :
    Keeps f (signalingSendMsg msg) := by
  refine keeps_bind keeps_get ?_
  intro w
  split
  · exact keeps_websocketSendMsg sends
  · exact keeps_pure _

theorem keeps_findConnection (connId : Text) :
    ∀ entries : List (Sigma fun _ : UInt64 => Option StreamPtr), Keeps f (Task.findConnection connId entries)
  | [] => keeps_pure _
  | info :: rest => by
    refine keeps_bind (keeps_nonNull _) (fun p => keeps_bind keeps_get (fun w => ?_))
    split
    · exact keeps_pure _
    · exact keeps_findConnection connId rest

/-! ### Plain tasks -/

/-- Tasks that neither send a request nor take in an ack. -/
def Task.plain : Task → Bool
  | .onSubscribeStream _ | .onPublishStream _ | .publishStream _ _ | .subscribeStream _ => false
  | _ => true

namespace Indifferent

theorem markConnected (blind : Indifferent f) (connId : Text)
    (entries : List (Sigma fun _ : UInt64 => Option StreamPtr)) : Keeps f (Task.markConnected connId entries) := by
  refine keeps_bind (keeps_findConnection connId entries) ?_
  intro found
  cases found with
  | some p => exact keeps_bind (keeps_modify (fun _ => blind.heap _ _)) (fun _ => keeps_pure _)
  | none => exact keeps_pure _

theorem runJoinedStream (blind : Indifferent f) (info : LicodeStreamInfo) : Keeps f (Task.runJoinedStream info) :=
  keeps_bind (blind.makeShared info) (fun _ =>
    keeps_bind (keeps_modify (fun _ => blind.remoteStreamInfos _ _)) (fun _ => blind.observe _))

theorem runOnAddStream (blind : Indifferent f) (info : LicodeStreamInfo) : Keeps f (Task.runOnAddStream info) := by
  refine keeps_bind (blind.makeShared info) (fun p => keeps_bind (blind.localIndex _) (fun own => ?_))
  cases own with
  | some q =>
    exact keeps_bind keeps_get (fun _ => keeps_bind (blind.setConnectionId _ _) (fun _ =>
      keeps_modify (fun _ => blind.localStreamInfos _ _)))
  | none => exact keeps_bind (keeps_modify (fun _ => blind.remoteStreamInfos _ _)) (fun _ => blind.observe _)

theorem runReady (blind : Indifferent f) (order : Order UInt64 StreamPtr) (connId : Text) :
    Keeps f (Task.runOnPeerConnectionConnectErizoReady order connId) := by
  refine keeps_bind keeps_get (fun w => keeps_bind (blind.markConnected _ _) (fun remote => ?_))
  cases remote with
  | some p => exact blind.observe _
  | none => exact keeps_bind keeps_get (fun w => keeps_bind (blind.markConnected _ _) (fun own => blind.observe _))

theorem runOfferOrAnswer (blind : Indifferent f) (type : String) (streamId : UInt64) (sdp : Text) :
    Keeps f (Task.runOfferOrAnswer type streamId sdp) :=
  keeps_bind (blind.remoteIndex _) (fun _ => keeps_bind (keeps_nonNull _) (fun _ => keeps_bind keeps_get (fun _ =>
    keeps_signalingSendMsg (fun w k => blind.sendMsg w k _ rfl))))

theorem runSendIceCandidate (blind : Indifferent f) (streamId : UInt64) (sdpMid : Text) (index : Int32)
    (candidate : Text) : Keeps f (Task.runSendIceCandidate streamId sdpMid index candidate) := by
  have send : ∀ info, Keeps f (nonNull info >>= fun p => get >>= fun w => signalingSendMsg
      (.iceCandidate w.room.erizoId (w.heap.cell p).connectionId sdpMid index candidate)) := fun info =>
    keeps_bind (keeps_nonNull _) (fun _ => keeps_bind keeps_get (fun _ =>
      keeps_signalingSendMsg (fun w k => blind.sendMsg w k _ rfl)))
  refine keeps_bind (blind.remoteIndex _) ?_
  intro remote
  cases remote with
  | some p => exact keeps_bind (keeps_pure _) send
  | none => exact keeps_bind (blind.localIndex _) send

/-- Plain tasks leave alone whatever does not look at streams. -/
theorem run (blind : Indifferent f) (nl : Nlohmann) (order : Order UInt64 StreamPtr) {task : Task}
    (plain : task.plain = true) : Keeps f (task.run nl order) := by
  cases task with
  | onJoinRoom => exact keeps_bind keeps_get (fun _ => blind.observe _)
  | joinedStream info => exact blind.runJoinedStream info
  | onAddStream info => exact blind.runOnAddStream info
  | onRemoveStream streamId => exact keeps_modify (fun _ => blind.remoteStreamInfos _ _)
  | onPeerConnectionConnectErizoReady connId => exact blind.runReady order connId
  | receiveOffer connId sdp =>
    exact keeps_bind keeps_get (fun _ => keeps_bind (keeps_findConnection _ _) (fun _ => blind.observe _))
  | unPublishStream streamId => exact keeps_signalingSendMsg (fun w k => blind.sendMsg w k _ rfl)
  | unSubscriberStream streamId => exact keeps_signalingSendMsg (fun w k => blind.sendMsg w k _ rfl)
  | sendAnswer streamId sdp => exact blind.runOfferOrAnswer _ streamId sdp
  | sendOffer streamId sdp => exact blind.runOfferOrAnswer _ streamId sdp
  | sendIceCandidate streamId sdpMid index candidate => exact blind.runSendIceCandidate streamId sdpMid index candidate
  | onSubscribeStream _ | onPublishStream _ | publishStream _ _ | subscribeStream _ => cases plain

theorem noteErizoId (erizo : ∀ w erizoId, f { w with room.erizoId := erizoId } = f w) (field : Except Fault Json) :
    Keeps f (Task.noteErizoId field) := by
  refine keeps_bind (keeps_ofExcept _) (fun _ => keeps_bind keeps_get (fun w => ?_))
  split
  · exact keeps_bind (keeps_ofExcept _) (fun _ => keeps_modify (fun _ => erizo _ _))
  · exact keeps_pure _

theorem storeSubscribeAck (blind : Indifferent f) (erizo : ∀ w erizoId, f { w with room.erizoId := erizoId } = f w)
    (json : Json) (streamId : UInt64) : Keeps f (Task.storeSubscribeAck json streamId) :=
  keeps_bind (noteErizoId erizo _) (fun _ => keeps_bind (blind.remoteIndex _) (fun _ =>
    keeps_bind (keeps_ofExcept _) (fun _ => keeps_bind (keeps_nonNull _) (fun _ =>
      keeps_bind (blind.setConnectionId _ _) (fun _ =>
        keeps_bind (blind.remoteIndex _) (fun _ => blind.observe _))))))

theorem storePublishAck (blind : Indifferent f) (erizo : ∀ w erizoId, f { w with room.erizoId := erizoId } = f w)
    (nl : Nlohmann) (msg : Text) (p : StreamPtr) : Keeps f (Task.storePublishAck nl msg p) :=
  keeps_bind (keeps_ofExcept _) (fun _ => keeps_bind (noteErizoId erizo _) (fun _ =>
    keeps_bind (keeps_ofExcept _) (fun _ => keeps_bind (keeps_modify (fun _ => blind.heap _ _)) (fun _ =>
      keeps_bind (keeps_ofExcept _) (fun _ => keeps_bind (blind.setConnectionId _ _) (fun _ =>
        keeps_modify (fun _ => blind.localStreamInfos _ _)))))))

end Indifferent

/-- `f` looks at nothing that any task changes. -/
structure Aloof (f : World → γ) : Prop extends Indifferent f where
  erizoId : ∀ w erizoId, f { w with room.erizoId := erizoId } = f w
  pendingSubscribeStreams : ∀ w queue, f { w with room.pendingSubscribeStreams := queue } = f w
  pendingPublishLocalStreams : ∀ w queue, f { w with room.pendingPublishLocalStreams := queue } = f w
  sends : ∀ w k msg, f (w.updateSession k (·.sendMsg msg)) = f w

theorem Aloof.run (blind : Aloof f) (nl : Nlohmann) (order : Order UInt64 StreamPtr) (task : Task) :
    Keeps f (task.run nl order) := by
  cases task with
  | onSubscribeStream json =>
    exact keeps_bind keeps_get (fun _ => keeps_bind (keeps_front _) (fun _ =>
      keeps_bind (keeps_modify (fun _ => blind.pendingSubscribeStreams _ _)) (fun _ =>
        blind.storeSubscribeAck blind.erizoId _ _)))
  | onPublishStream msg =>
    exact keeps_bind keeps_get (fun _ => keeps_bind (keeps_front _) (fun _ =>
      keeps_bind (keeps_modify (fun _ => blind.pendingPublishLocalStreams _ _)) (fun _ =>
        blind.storePublishAck blind.erizoId nl _ _)))
  | publishStream info label =>
    exact keeps_bind (keeps_modify (fun _ => blind.pendingPublishLocalStreams _ _)) (fun _ =>
      keeps_signalingSendMsg (fun w k => blind.sends w k _))
  | subscribeStream streamId =>
    exact keeps_bind (keeps_modify (fun _ => blind.pendingSubscribeStreams _ _)) (fun _ =>
      keeps_signalingSendMsg (fun w k => blind.sends w k _))
  | _ => exact blind.toIndifferent.run nl order rfl

theorem Aloof.work (blind : Aloof f) (pops : ∀ w tasks, f { w with tasks } = f w) (nl : Nlohmann)
    (order : Order UInt64 StreamPtr) : Keeps f (work nl order) := by
  refine keeps_bind keeps_get ?_
  intro w
  cases w.tasks with
  | nil => exact keeps_pure _
  | cons task rest => exact keeps_bind (keeps_modify (fun _ => pops _ _)) (fun _ => blind.run nl order task)

/-! ### The connection's outline -/

theorem map_modify {α β : Type*} {g : α → β} {f : α → α} {h : β → β} (same : ∀ a, g (f a) = h (g a)) (xs : List α)
    (k : Nat) : (xs.modify k f).map g = (xs.map g).modify k h := by
  apply List.ext_getElem?
  intro i
  simp only [List.getElem?_map,List.getElem?_modify]
  cases xs[i]? with
  | none => rfl
  | some a => by_cases here : k = i <;> simp [here,same]

theorem chain_sendMsg (s : WebsocketSession) (msg : Packet) : (s.sendMsg msg).chain = s.chain := by
  unfold WebsocketSession.sendMsg
  split <;> rfl

theorem chain_onSend (s : WebsocketSession) (msg : Packet) : (s.onSend msg).chain = s.chain := by
  unfold WebsocketSession.onSend
  dsimp only
  split <;> rfl

theorem chain_onWrite (s : WebsocketSession) (succeeded : Bool) : (s.onWrite succeeded).chain = s.chain := by
  unfold WebsocketSession.onWrite
  split <;> rfl

/-- A change of a session beside its chain leaves the outline alone. -/
theorem outline_updateSession {g : WebsocketSession → WebsocketSession} (same : ∀ s, (g s).chain = s.chain) (w : World)
    (k : Nat) : (w.updateSession k g).outline = w.outline := by
  simp only [World.outline,World.updateSession,map_modify (h := id) same,List.modify_id]

theorem aloof_outline : Aloof World.outline where
  heap _ _ := rfl
  calls _ _ := rfl
  localStreamInfos _ _ := rfl
  remoteStreamInfos _ _ := rfl
  sendMsg w k msg _ := outline_updateSession (fun s => chain_sendMsg s msg) w k
  erizoId _ _ := rfl
  pendingSubscribeStreams _ _ := rfl
  pendingPublishLocalStreams _ _ := rfl
  sends w k msg := outline_updateSession (fun s => chain_sendMsg s msg) w k

theorem aloof_tasks : Aloof World.tasks where
  heap _ _ := rfl
  calls _ _ := rfl
  localStreamInfos _ _ := rfl
  remoteStreamInfos _ _ := rfl
  sendMsg _ _ _ _ := rfl
  erizoId _ _ := rfl
  pendingSubscribeStreams _ _ := rfl
  pendingPublishLocalStreams _ _ := rfl
  sends _ _ _ := rfl

/-! ### Handlers that only post -/

theorem keeps_postTask {task : Task} (posts : ∀ w, f { w with tasks := w.tasks ++ [task] } = f w) :
    Keeps f (postTask task) := keeps_modify posts

theorem keeps_catchException {x handler : Exec Unit} (first : Keeps f x) (second : Keeps f handler) :
    Keeps f (catchException x handler) := by
  refine keeps_tryCatch first ?_
  intro fault
  cases fault with
  | exception => exact second
  | undefined => exact keeps_throw _

theorem keeps_onErizoConnectionEvent (posts : ∀ w task, task.plain → f { w with tasks := w.tasks ++ [task] } = f w)
    (nl : Nlohmann) (msg : Text) : Keeps f (onErizoConnectionEvent nl msg) := by
  unfold onErizoConnectionEvent
  refine keeps_bind (keeps_ofExcept _) (fun event => keeps_bind (keeps_ofExcept _) (fun connectionId =>
    keeps_bind (keeps_ofExcept _) (fun info => keeps_bind (keeps_ofExcept _) (fun evt => ?_))))
  split
  · refine keeps_bind (keeps_ofExcept _) ?_
    intro type
    split
    · exact keeps_bind (keeps_ofExcept _) (fun sdp => keeps_postTask (fun w => posts w _ rfl))
    · split
      · exact keeps_bind (keeps_ofExcept _) (fun _ => keeps_pure _)
      · exact keeps_pure _
  · split
    · exact keeps_postTask (fun w => posts w _ rfl)
    · exact keeps_pure _

/-- An event only posts tasks, and plain ones. -/
theorem keeps_processEvent (posts : ∀ w task, task.plain → f { w with tasks := w.tasks ++ [task] } = f w)
    (nl : Nlohmann) (msg : Text) : Keeps f (processEvent nl msg) := by
  refine keeps_catchException ?_ (keeps_pure _)
  refine keeps_bind (keeps_ofExcept _) (fun event => keeps_bind (keeps_ofExcept _) (fun name =>
    keeps_bind (keeps_ofExcept _) (fun body => keeps_bind (keeps_ofExcept _) (fun name => ?_))))
  unfold onEvent
  split
  · exact keeps_onErizoConnectionEvent posts nl _
  · split
    · exact keeps_catchException (keeps_bind (keeps_ofExcept _) (fun _ => keeps_bind (keeps_ofExcept _) (fun _ =>
        keeps_postTask (fun w => posts w _ rfl)))) (keeps_pure _)
    · split
      · exact keeps_catchException (keeps_bind (keeps_ofExcept _) (fun _ => keeps_bind (keeps_ofExcept _) (fun _ =>
          keeps_postTask (fun w => posts w _ rfl)))) (keeps_pure _)
      · exact keeps_pure _

theorem keeps_processSocketIOOpen
    (blind : ∀ w sid interval timeout, f { w with
      signaling := { w.signaling with sid := sid, pingIntervalMs := interval, pingTimeoutMs := timeout } } = f w)
    (nl : Nlohmann) (msg : Text) : Keeps f (processSocketIOOpen nl msg) :=
  keeps_catchException (keeps_bind (keeps_ofExcept _) (fun _ => keeps_bind (keeps_ofExcept _) (fun _ =>
    keeps_bind (keeps_modify (fun _ => blind _ _ _ _)) (fun _ => keeps_bind (keeps_ofExcept _) (fun _ =>
      keeps_bind (keeps_modify (fun _ => blind _ _ _ _)) (fun _ => keeps_bind (keeps_ofExcept _) (fun _ =>
        keeps_modify (fun _ => blind _ _ _ _)))))))) (keeps_pure _)

theorem outline_runPosted (k : Nat) (closes : Bool) : Keeps World.outline (runPosted k closes) := by
  refine keeps_bind keeps_get ?_
  intro w
  cases (w.session k).posted with
  | nil => exact keeps_pure _
  | cons first rest =>
    cases first with
    | onSend msg =>
      refine keeps_modify (fun w => outline_updateSession (fun s => ?_) w k)
      exact chain_onSend _ msg
    | doClose =>
      refine keeps_bind (keeps_modify (fun w => outline_updateSession (fun s => ?_) w k)) (fun _ =>
        keeps_bind keeps_get (fun w => ?_))
      · rfl
      split
      · split
        · refine keeps_modify (fun w => outline_updateSession (fun s => ?_) w k)
          rfl
        · exact keeps_throw _
      · exact keeps_pure _

theorem outline_firePing (i : Nat) : Keeps World.outline (firePing i) := by
  refine keeps_bind ?_ (fun goesOn => ?_)
  · refine keeps_bind keeps_get ?_
    intro w
    split
    · exact keeps_bind (keeps_websocketSendMsg (fun w k => outline_updateSession (fun s => chain_sendMsg s _) w k))
        (fun _ => keeps_pure _)
    · exact keeps_pure _
  · split
    · exact keeps_modify (fun _ => rfl)
    · exact keeps_pure _

end LicodeClient
