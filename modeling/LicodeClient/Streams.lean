import LicodeClient.Connection
import LicodeClient.Tasks

/-!
The streams of a room: its two tables, the descriptions they point to, the erizo,
the queues of pending requests and the streams that wait to be published. Only
tasks change them, apart from what the application makes or asks to publish and
from join responses, which may clear the remote table (`step_streams`).
-/
namespace LicodeClient
open LicodeClient.Table LicodeClient.Program

/-- The stream that a task will publish. -/
def Task.published : Task → Option StreamPtr
  | .publishStream info _ => some info
  | _ => none

structure Streams where
  erizoId : Text
  localStreamInfos : StreamTable
  remoteStreamInfos : StreamTable
  pendingSubscribeStreams : List UInt64
  pendingPublishLocalStreams : List StreamPtr
  published : List StreamPtr
  heap : Heap

def World.streams (w : World) : Streams :=
  ⟨w.room.erizoId,w.room.localStreamInfos,w.room.remoteStreamInfos,w.room.pendingSubscribeStreams,
    w.room.pendingPublishLocalStreams,w.tasks.filterMap Task.published,w.heap⟩

/-- The task that an event runs, with the state it starts from. -/
def started (w : World) : Event → Option (Task × Order UInt64 StreamPtr × World)
  | .dispatch api order => some (api.task w,order,w)
  | .work order => w.tasks.head?.map (fun task => (task,order,{ w with tasks := w.tasks.tail }))
  | _ => none

/-- The frame that a session hands on. -/
def World.frame (w : World) (k : Nat) (frame : Text) : Frame :=
  if (w.session k).receiveMsgCallback then frameOf ((w.session k).buffer ++ frame) else .other

/-- The frame that arrives with an event. -/
def Event.frame (w : World) : Event → Frame
  | .read k (some frame) => w.frame k frame
  | _ => .other

/-- The events that neither name a stream nor run a task. -/
def Event.streamless : Event → Bool
  | .makeStream _ | .call _ | .dispatch _ _ | .work _ => false
  | _ => true

theorem started_streamless {e : Event} (other : e.streamless = true) (w : World) : started w e = none := by
  cases e <;> first | rfl | cases other

/-- The worker takes the first task of its queue. -/
theorem started_work {w v : World} {task : Task} {order order' : Order UInt64 StreamPtr}
    (starts : started w (.work order) = some (task,order',v)) :
    w.tasks = task :: v.tasks ∧ v = { w with tasks := v.tasks } := by
  cases queue : w.tasks with
  | nil => simp [started,queue] at starts
  | cons first rest =>
    simp only [started,queue,List.head?_cons,Option.map_some,Option.some.injEq,Prod.mk.injEq] at starts
    obtain ⟨rfl,-,rfl⟩ := starts
    exact ⟨rfl,rfl⟩

/-- A task starts from the state of the event but for the queue it is taken from. -/
theorem started_eq {w v : World} {e : Event} {task : Task} {order : Order UInt64 StreamPtr}
    (starts : started w e = some (task,order,v)) : v = { w with tasks := v.tasks } := by
  cases e with
  | dispatch api order => cases starts; rfl
  | work order => exact (started_work starts).2
  | _ => cases starts

/-! ### Handlers that leave the streams alone -/

section
variable {γ : Type*} {f : World → γ}

/-- `f` looks neither at the sessions and the signaling nor at the room's state. -/
def Detached (f : World → γ) : Prop :=
  ∀ w sessions signaling state, f { w with sessions := sessions, signaling := signaling, room.state := state } = f w

/-- `f` does not look at what the connection's handlers change. -/
def Offline (f : World → γ) : Prop :=
  ∀ w sessions signaling pings state,
    f { w with sessions := sessions, signaling := signaling, pings := pings, room.state := state } = f w

theorem offline_streams : Offline World.streams := fun _ _ _ _ _ => rfl

namespace Detached

theorem updateSession (blind : Detached f) (w : World) (k : Nat) (g : WebsocketSession → WebsocketSession) :
    f (w.updateSession k g) = f w := blind w _ _ _

theorem signalingInit (blind : Detached f) (token : LicodeToken) : Keeps f (signalingInit token) := by
  refine keeps_bind keeps_get ?_
  intro w
  split
  · exact keeps_pure _
  · exact keeps_bind (keeps_modify (fun w => blind w _ _ _)) (fun _ => keeps_pure _)

theorem join (blind : Detached f) : Keeps f join := by
  refine keeps_bind keeps_get ?_
  intro w
  split
  · exact keeps_pure _
  · exact keeps_bind (keeps_modify (fun w => blind w _ _ _))
      (fun _ => keeps_bind keeps_get (fun w => keeps_bind (blind.signalingInit _) (fun _ => keeps_pure _)))

theorem dispose (blind : Detached f) : Keeps f dispose := by
  refine keeps_bind keeps_websocket (fun k => keeps_bind keeps_get (fun w => ?_))
  split
  · exact keeps_modify (fun w => blind.updateSession w _ _)
  · exact keeps_pure _

theorem leave (blind : Detached f) : Keeps f leave := by
  refine keeps_bind keeps_get ?_
  intro w
  split
  · exact keeps_pure _
  · exact blind.dispose

theorem chained (blind : Detached f) {next : Exec Unit} (keeps : Keeps f next) (k : Nat) (op : Operation)
    (failed : Bool) : Keeps f (chained k op failed next) := by
  refine keeps_bind (keeps_modify (fun w => blind.updateSession w _ _)) (fun _ => ?_)
  cases failed with
  | false => exact keeps
  | true =>
    refine keeps_bind keeps_get ?_
    intro w
    split
    · exact keeps_modify (fun w => blind w _ _ _)
    · exact keeps_pure _

/-- An operation ends and changes its session only. -/
theorem advanced (blind : Detached f) (k : Nat) (op : Operation) (failed : Bool)
    (g : WebsocketSession → WebsocketSession) : Keeps f
      (LicodeClient.chained k op failed (modify (·.updateSession k g))) :=
  blind.chained (keeps_modify (fun w => blind.updateSession w _ _)) k op failed

theorem processDisconnect (blind : Detached f) : Keeps f processDisconnect := by
  refine keeps_bind keeps_get (fun w => keeps_bind (keeps_modify (fun w => blind w _ _ _)) (fun _ =>
    keeps_bind blind.dispose (fun _ => ?_)))
  split
  · exact keeps_modify (fun w => blind w _ _ _)
  · exact keeps_pure _

theorem runPosted (blind : Detached f) (k : Nat) (closes : Bool) : Keeps f (runPosted k closes) := by
  refine keeps_bind keeps_get ?_
  intro w
  cases (w.session k).posted with
  | nil => exact keeps_pure _
  | cons first rest =>
    cases first with
    | onSend msg => exact keeps_modify (fun w => blind.updateSession w _ _)
    | doClose =>
      refine keeps_bind (keeps_modify (fun w => blind.updateSession w _ _))
        (fun _ => keeps_bind keeps_get (fun w => ?_))
      split
      · split
        · exact keeps_modify (fun w => blind.updateSession w _ _)
        · exact keeps_throw _
      · exact keeps_pure _

theorem socketIoPing (blind : Detached f) : Keeps f socketIoPing := by
  refine keeps_bind keeps_get ?_
  intro w
  split
  · exact keeps_bind (keeps_websocketSendMsg (fun w k => blind.updateSession w _ _)) (fun _ => keeps_pure _)
  · exact keeps_pure _

end Detached

namespace Offline

theorem detached (blind : Offline f) : Detached f := fun w _ _ _ => blind w _ _ w.pings _

theorem updateSession (blind : Offline f) (w : World) (k : Nat) (g : WebsocketSession → WebsocketSession) :
    f (w.updateSession k g) = f w := blind.detached.updateSession w k g

theorem firePing (blind : Offline f) (i : Nat) : Keeps f (firePing i) := by
  refine keeps_bind blind.detached.socketIoPing (fun goesOn => ?_)
  split
  · exact keeps_modify (fun w => blind w _ _ _ _)
  · exact keeps_pure _

end Offline
end

/-! ### Steps -/

/-- The remote table is as it was or empty, everything else as it was. -/
def Streams.Cleared (s t : Streams) : Prop := t = s ∨ t = { s with remoteStreamInfos := ∅ }

theorem streams_post {task : Task} (other : task.published = none) (w : World) :
    ({ w with tasks := w.tasks ++ [task] } : World).streams = w.streams := by
  simp [World.streams,other]

theorem streams_signalingSendMsg (msg : Packet) : Keeps World.streams (signalingSendMsg msg) :=
  keeps_signalingSendMsg (fun w k => offline_streams.updateSession w k _)

/-- A request is noted and then sent. -/
theorem streams_request {g : World → World} (msg : Packet) (w : World) :
    (after (do modify g; signalingSendMsg msg : Exec Unit) w).streams = (g w).streams := by
  have runs : after (do modify g; signalingSendMsg msg : Exec Unit) w = after (signalingSendMsg msg) (g w) := by
    simp [after]
  rw [runs,streams_signalingSendMsg]

theorem published_plain {task : Task} (plain : task.plain) : task.published = none := by
  cases task <;> first | rfl | cases plain

theorem streams_onJoinRoom (nl : Nlohmann) (msg : Text) (w : World) :
    w.streams.Cleared (after (onJoinRoom nl msg) w).streams := by
  rcases after_onJoinRoom nl msg w with ⟨response,-,same⟩ | ⟨w',state,-,⟨whole,-,rest⟩,same⟩
  · have others : (response.existStreams.map Task.joinedStream).filterMap Task.published = [] := by
      simp [List.filterMap_map,Function.comp_def,Task.published]
    refine .inr ?_
    rw [same]
    simp only [World.streams,joined,List.filterMap_append,List.filterMap_cons,others,Task.published,List.append_nil]
  · have besides : w'.streams = { w.streams with remoteStreamInfos := w'.room.remoteStreamInfos } := by
      rw [whole]
      simp only [World.streams,rest.erizoId,rest.localStreamInfos,rest.pendingSubscribeStreams,
        rest.pendingPublishLocalStreams]
    rw [same]
    rcases rest.remoteStreamInfos with kept | cleared
    · exact .inl (by rw [kept] at besides; exact besides)
    · exact .inr (by rw [cleared] at besides; exact besides)

/-- Only a token response touches the streams. -/
theorem streams_tokenless (nl : Nlohmann) {msg : Text} (other : ∀ token, frameOf msg ≠ .initToken token) :
    Keeps World.streams (onWebsocketMsg nl msg) := by
  unfold onWebsocketMsg
  cases frame : frameOf msg with
  | opened msg => exact keeps_processSocketIOOpen (fun _ _ _ _ => rfl) nl msg
  | pong => exact keeps_pure _
  | connect =>
    exact keeps_bind (keeps_modify (fun _ => rfl)) (fun _ => keeps_bind (keeps_modify (fun _ => rfl)) (fun _ =>
      keeps_bind keeps_get (fun _ => keeps_websocketSendMsg (fun w k => offline_streams.updateSession w _ _))))
  | initToken token => exact absurd frame (other token)
  | disconnect => exact offline_streams.detached.processDisconnect
  | subscribeStream msg => exact keeps_bind (keeps_ofExcept _) (fun _ => keeps_postTask (streams_post rfl))
  | publishStream msg => exact keeps_postTask (streams_post rfl)
  | event msg => exact keeps_processEvent (fun w _ plain => streams_post (published_plain plain) w) nl msg
  | other => exact keeps_pure _

theorem streams_onWebsocketMsg (nl : Nlohmann) (msg : Text) (w : World) :
    w.streams.Cleared (after (onWebsocketMsg nl msg) w).streams := by
  by_cases response : ∃ token, frameOf msg = .initToken token
  · obtain ⟨token,frame⟩ := response
    simp only [onWebsocketMsg,frame]
    exact streams_onJoinRoom nl token w
  · exact .inl (streams_tokenless nl (fun token frame => response ⟨token,frame⟩) w)

theorem streams_read (nl : Nlohmann) (frame : Text) {w : World} {k : Nat} (exist : k < w.sessions.length) :
    w.streams.Cleared (after (onRead nl k (some frame)) w).streams ∧
      ((∀ token, w.frame k frame ≠ .initToken token) → (after (onRead nl k (some frame)) w).streams = w.streams) := by
  rw [after_onRead offline_streams.updateSession nl frame exist,
    ← show (w.received k frame).streams = w.streams from offline_streams.updateSession w k _]
  unfold World.deliver World.frame
  split
  · exact ⟨streams_onWebsocketMsg nl _ _,fun other => streams_tokenless nl other _⟩
  · exact ⟨.inl rfl,fun _ => rfl⟩

/-- What a step does to the streams: a task runs, or a stream is made or to be
    published, or nothing changes but the remote table, which a token response may
    clear. -/
theorem step_streams {nl : Nlohmann} {w w' : World} {e : Event} (taken : step nl w e = some w') :
    (∃ task order v, started w e = some (task,order,v) ∧ w' = settle (task.run nl order) v) ∨
    (∃ info, e = .makeStream info ∧ w'.streams = (w.allocate info).streams) ∨
    (∃ api, e = .call api ∧
      w'.streams = { w.streams with published := w.streams.published ++ (api.task w).published.toList }) ∨
    (e.streamless = true ∧ w.streams.Cleared w'.streams ∧
      ((∀ token, e.frame w ≠ .initToken token) → w'.streams = w.streams)) := by
  obtain ⟨-,can,rfl⟩ := step_eq_some taken
  have blind := offline_streams
  have quiet : ∀ {x : Exec Unit}, Keeps World.streams x → ∀ {c : Prop},
      w.streams.Cleared (settle x w).streams ∧ (c → (settle x w).streams = w.streams) :=
    fun keeps => ⟨.inl (keeps w),fun _ => keeps w⟩
  cases e with
  | join => exact .inr (.inr (.inr ⟨rfl,quiet blind.detached.join⟩))
  | leave => exact .inr (.inr (.inr ⟨rfl,quiet blind.detached.leave⟩))
  | makeStream info => exact .inr (.inl ⟨info,rfl,rfl⟩)
  | call api =>
    refine .inr (.inr (.inl ⟨api,rfl,?_⟩))
    show ({ w with tasks := w.tasks ++ [api.task w] } : World).streams = _
    cases published : (api.task w).published <;> simp [World.streams,published]
  | dispatch api order =>
    have runs : (handler nl (.dispatch api order)).run w = ((api.task w).run nl order).run w := by simp [handler]
    exact .inl ⟨api.task w,order,w,rfl,by simp only [settle,after,faultOf,runs]⟩
  | work order =>
    cases queue : w.tasks with
    | nil => simp [enabled,queue] at can
    | cons task rest =>
      have runs : (handler nl (.work order)).run w = (task.run nl order).run { w with tasks := rest } := by
        simp [handler,work,queue]
      exact .inl ⟨task,order,{ w with tasks := rest },by simp [started,queue],by simp only [settle,after,faultOf,runs]⟩
  | resolved k failed =>
    exact .inr (.inr (.inr ⟨rfl,quiet (blind.detached.advanced k _ failed _)⟩))
  | connected k failed =>
    exact .inr (.inr (.inr ⟨rfl,quiet (blind.detached.advanced k _ failed _)⟩))
  | handshaken k failed =>
    exact .inr (.inr (.inr ⟨rfl,quiet (blind.detached.advanced k _ failed _)⟩))
  | read k frame =>
    cases frame with
    | none => exact .inr (.inr (.inr ⟨rfl,quiet (blind.detached.chained (keeps_pure _) k _ true)⟩))
    | some frame => exact .inr (.inr (.inr ⟨rfl,streams_read nl frame (exists_of_enabled can)⟩))
  | posted k closes => exact .inr (.inr (.inr ⟨rfl,quiet (blind.detached.runPosted k closes)⟩))
  | wrote k succeeded => exact .inr (.inr (.inr ⟨rfl,quiet (keeps_modify (fun w => blind.updateSession w _ _))⟩))
  | ping i => exact .inr (.inr (.inr ⟨rfl,quiet (blind.firePing i)⟩))

/-- A step that runs a task is that task's run. -/
theorem step_started {nl : Nlohmann} {w w' v : World} {e : Event} {task : Task} {order : Order UInt64 StreamPtr}
    (taken : step nl w e = some w') (starts : started w e = some (task,order,v)) :
    w' = settle (task.run nl order) v := by
  rcases step_streams taken with ⟨task',order',v',starts',same⟩ | ⟨info,rfl,-⟩ | ⟨api,rfl,-⟩ | ⟨other,-,-⟩
  · rw [starts] at starts'
    cases starts'
    exact same
  · cases starts
  · cases starts
  · rw [started_streamless other] at starts
    cases starts

end LicodeClient
