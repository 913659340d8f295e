import LicodeClient.Ledger
import LicodeClient.Tasks

/-!
What the client does to its sessions. A handler or a task makes one call at most: it
disconnects the session that the signaling uses, or sends a frame on it, for which the
signaling has to be connected unless the frame is the token, and the token goes out only
when a `40` was read (`touches_task`, `called_onWebsocketMsg`). Together with what `Join`
makes and with the handlers that run on a session's own thread that is all that happens
to a session (`stir_step`).
-/
namespace LicodeClient
open LicodeClient.Table LicodeClient.Program

/-- The sessions with the one that is used, and the tokens of the signaling and of the
    room. -/
structure Seat where
  sessions : List WebsocketSession
  websocket : Option Nat
  token : LicodeToken
  roomToken : LicodeToken

def World.seat (w : World) : Seat := ⟨w.sessions,w.signaling.websocket,w.signaling.token,w.room.token⟩

/-- The same with the state of the signaling. -/
def World.stance (w : World) : Seat × SignalingState := (w.seat,w.signaling.state)

/-- The frame is a token. -/
def Packet.isToken : Packet → Bool
  | .initToken _ _ => true
  | _ => false

/-- The calls of a session that a handler or a task of the client makes, one at most.
    The token is sent where `greets` holds. -/
inductive Called (greets : Prop) (w : World) : Seat → Prop where
  | nothing : Called greets w w.seat
  | sendMsg (k : Nat) (msg : Packet) (current : w.signaling.websocket = some k)
      (connected : w.signaling.state = .kConnected) (plain : msg.isToken = false) :
      Called greets w { w.seat with sessions := w.sessions.modify k (·.sendMsg msg) }
  | initToken (k : Nat) (current : w.signaling.websocket = some k) (opens : greets) :
      Called greets w { w.seat with sessions := w.sessions.modify k (·.sendMsg (.initToken w.signaling.token false)) }
  | disconnect (k : Nat) (current : w.signaling.websocket = some k) :
      Called greets w { w.seat with sessions := w.sessions.modify k (·.disconnect) }

/-- The program makes at most one of these calls, and does not send the token. -/
def Touches {α : Type} (x : Exec α) : Prop := ∀ w, Called False w (after x w).seat

theorem Called.imp {p q : Prop} {w : World} {s : Seat} (imp : p → q) (called : Called p w s) : Called q w s := by
  cases called with
  | nothing => exact .nothing
  | sendMsg k msg current connected plain => exact .sendMsg k msg current connected plain
  | initToken k current opens => exact .initToken k current (imp opens)
  | disconnect k current => exact .disconnect k current

theorem Called.of_stance {greets : Prop} {v w : World} {s : Seat} (same : v.stance = w.stance)
    (called : Called greets v s) : Called greets w s := by
  obtain ⟨seats,states⟩ := Prod.mk.inj same
  simp only [World.seat,Seat.mk.injEq] at seats
  obtain ⟨sessions,websocket,token,roomToken⟩ := seats
  have whole : v.seat = w.seat := (Prod.mk.inj same).1
  cases called with
  | nothing => exact whole ▸ .nothing
  | sendMsg k msg current connected plain =>
    rw [whole,sessions]
    exact .sendMsg k msg (websocket ▸ current) (states ▸ connected) plain
  | initToken k current opens =>
    rw [whole,sessions,token]
    exact .initToken k (websocket ▸ current) opens
  | disconnect k current =>
    rw [whole,sessions]
    exact .disconnect k (websocket ▸ current)

section
variable {α β : Type} {x : Exec α} {f : α → Exec β}

theorem touches_keeps (keeps : Keeps World.seat x) : Touches x := by
  intro w
  rw [keeps w]
  exact .nothing

/-- The call comes last. -/
theorem touches_last (first : Keeps World.stance x) (rest : ∀ a, Touches (f a)) : Touches (x >>= f) := by
  intro w
  have kept := first w
  rw [after_bind]
  cases done : x.run w with
  | ok a t =>
    rw [after_of_ok done] at kept
    exact (rest a t).of_stance kept
  | error fault t =>
    rw [after_of_error done] at kept
    exact (Prod.mk.inj kept).1 ▸ .nothing

/-- The call comes first. -/
theorem touches_first (first : Touches x) (rest : ∀ a, Keeps World.seat (f a)) : Touches (x >>= f) := by
  intro w
  have called := first w
  rw [after_bind]
  cases done : x.run w with
  | ok a t =>
    rw [after_of_ok done] at called
    exact (rest a t).symm ▸ called
  | error fault t =>
    rw [after_of_error done] at called
    exact called

end

theorem called_websocketSendMsg {msg : Packet} {w : World} (connected : w.signaling.state = .kConnected)
    (plain : msg.isToken = false) : Called False w (after (websocketSendMsg msg) w).seat := by
  cases current : w.signaling.websocket with
  | some k =>
    rw [after_of_ok (run_websocketSendMsg current msg)]
    exact .sendMsg k msg current connected plain
  | none =>
    have kept : (after (websocketSendMsg msg) w).seat = w.seat := by simp [after,websocketSendMsg,websocket,current]
    exact kept ▸ .nothing

theorem touches_signalingSendMsg {msg : Packet} (plain : msg.isToken = false) : Touches (signalingSendMsg msg) := by
  intro w
  by_cases connected : w.signaling.state = .kConnected
  · have runs : after (signalingSendMsg msg) w = after (websocketSendMsg msg) w := by
      simp [after,signalingSendMsg,connected]
    exact runs ▸ called_websocketSendMsg connected plain
  · have runs : after (signalingSendMsg msg) w = w := by simp [after,signalingSendMsg,connected]
    exact runs.symm ▸ .nothing

/-- The program disconnects the session in use or nothing. -/
def Closes {α : Type} (x : Exec α) : Prop :=
  ∀ w, (after x w).seat = w.seat ∨ ∃ k, w.signaling.websocket = some k ∧
    (after x w).seat = { w.seat with sessions := w.sessions.modify k (·.disconnect) }

theorem Closes.touches {α : Type} {x : Exec α} (closes : Closes x) : Touches x := by
  intro w
  rcases closes w with kept | ⟨k,current,closed⟩
  · exact kept ▸ .nothing
  · exact closed ▸ .disconnect k current

theorem closes_dispose : Closes dispose := by
  intro w
  cases current : w.signaling.websocket with
  | none => exact .inl (by simp [after,dispose,websocket,current])
  | some k =>
    by_cases connected : (w.session k).connected
    · exact .inr ⟨k,rfl,by simp [after,dispose,run_websocket current,connected,World.seat,World.updateSession]⟩
    · exact .inl (by simp [after,dispose,run_websocket current,connected])

theorem closes_leave : Closes leave := by
  intro w
  by_cases apart : w.room.state = .kDisconnected
  · exact .inl (by simp [after,leave,apart])
  · have runs : after leave w = after dispose w := by simp [after,leave,apart]
    rw [runs]
    exact closes_dispose w

theorem closes_processDisconnect : Closes processDisconnect := by
  intro w
  have runs : (after processDisconnect w).seat = (after dispose { w with signaling.state := .kDisconnect }).seat := by
    simp only [after,processDisconnect,updateState,onLeaveRoom,update,EStateM.run_bind,EStateM.run_get,
      EStateM.run_modify]
    cases dispose.run { w with signaling.state := .kDisconnect } with
    | ok a t => by_cases connected : w.signaling.state = .kConnected <;> simp [connected,World.seat]
    | error fault t => rfl
  rw [runs]
  exact closes_dispose { w with signaling.state := .kDisconnect }

theorem seat_onJoinRoom (nl : Nlohmann) (msg : Text) : Keeps World.seat (onJoinRoom nl msg) := by
  intro w
  rcases after_onJoinRoom nl msg w with ⟨response,-,same⟩ | ⟨w',state,-,⟨whole,-,rest⟩,same⟩
  · rw [same]
    rfl
  · have token := rest.token
    rw [same,whole]
    simp [World.seat,token]

/-- The token goes out on the session in use, whoever opened the connection. -/
theorem seat_connect (nl : Nlohmann) {msg : Text} (opens : frameOf msg = .connect) {w : World} {c : Nat}
    (current : w.signaling.websocket = some c) : (after (onWebsocketMsg nl msg) w).seat =
      { w.seat with sessions := w.sessions.modify c (·.sendMsg (.initToken w.signaling.token false)) } := by
  simp [after,onWebsocketMsg,opens,updateState,keepAlive,initToken,websocketSendMsg,websocket,current,World.seat,
    World.updateSession]

/-- Without a `40` the token is not sent. -/
theorem touches_onWebsocketMsg (nl : Nlohmann) {msg : Text} (other : frameOf msg ≠ .connect) :
    Touches (onWebsocketMsg nl msg) := by
  intro w
  cases frame : frameOf msg with
  | connect => exact absurd frame other
  | opened msg' =>
    simp only [onWebsocketMsg,frame]
    exact touches_keeps (keeps_processSocketIOOpen (fun _ _ _ _ => rfl) nl msg') w
  | initToken msg' =>
    simp only [onWebsocketMsg,frame]
    exact touches_keeps (seat_onJoinRoom nl msg') w
  | disconnect =>
    simp only [onWebsocketMsg,frame]
    exact closes_processDisconnect.touches w
  | subscribeStream msg' =>
    simp only [onWebsocketMsg,frame]
    exact touches_keeps (keeps_bind (keeps_ofExcept _) (fun _ => keeps_postTask (fun _ => rfl))) w
  | publishStream msg' =>
    simp only [onWebsocketMsg,frame]
    exact touches_keeps (keeps_postTask (fun _ => rfl)) w
  | event msg' =>
    simp only [onWebsocketMsg,frame]
    exact touches_keeps (keeps_processEvent (fun _ _ _ => rfl) nl msg') w
  | pong =>
    simp only [onWebsocketMsg,frame]
    exact .nothing
  | other =>
    simp only [onWebsocketMsg,frame]
    exact .nothing

theorem called_onWebsocketMsg (nl : Nlohmann) (msg : Text) (w : World) :
    Called (frameOf msg = .connect) w (after (onWebsocketMsg nl msg) w).seat := by
  by_cases opens : frameOf msg = .connect
  · cases current : w.signaling.websocket with
    | some c => exact seat_connect nl opens current ▸ .initToken c current opens
    | none =>
      have kept : (after (onWebsocketMsg nl msg) w).seat = w.seat := by
        simp [after,onWebsocketMsg,opens,updateState,keepAlive,initToken,websocketSendMsg,websocket,current,World.seat]
      exact kept ▸ .nothing
  · exact (touches_onWebsocketMsg nl opens w).imp False.elim

theorem called_deliver (nl : Nlohmann) (w : World) (k : Nat) (frame : Text) (v : World) :
    Called (w.signal nl k frame = .opened) v (after (w.deliver nl k frame) v).seat := by
  unfold World.deliver World.signal
  split
  · refine (called_onWebsocketMsg nl _ v).imp (fun opens => ?_)
    rw [opens]
    rfl
  · exact (touches_keeps (keeps_pure _) v).imp False.elim

/-- A ping is sent only when the signaling is connected. -/
theorem touches_socketIoPing : Touches socketIoPing := by
  intro w
  by_cases connected : w.signaling.state = .kConnected
  · have runs : (after socketIoPing w).seat = (after (websocketSendMsg .ping) w).seat := by
      simp only [after,socketIoPing,EStateM.run_bind,EStateM.run_get,connected,if_true]
      cases (websocketSendMsg .ping).run w <;> rfl
    exact runs ▸ called_websocketSendMsg connected rfl
  · have runs : after socketIoPing w = w := by simp [after,socketIoPing,connected]
    exact runs.symm ▸ .nothing

theorem touches_firePing (i : Nat) : Touches (firePing i) := by
  refine touches_first touches_socketIoPing (fun goesOn => ?_)
  split
  · exact keeps_modify (fun _ => rfl)
  · exact keeps_pure _

/-! ### Tasks -/

theorem seat_markConnected (connId : Text) (entries : List (Sigma fun _ : UInt64 => Option StreamPtr)) :
    Keeps World.seat (Task.markConnected connId entries) := by
  refine keeps_bind (keeps_findConnection connId entries) ?_
  intro found
  cases found with
  | some p => exact keeps_bind (keeps_modify (fun _ => rfl)) (fun _ => keeps_pure _)
  | none => exact keeps_pure _

theorem seat_storeSubscribeAck (json : Json) (streamId : UInt64) :
    Keeps World.seat (Task.storeSubscribeAck json streamId) := by
  have index : ∀ streamId, Keeps World.seat (remoteIndex streamId) := fun _ _ => rfl
  exact keeps_bind (Indifferent.noteErizoId (fun _ _ => rfl) _) (fun _ => keeps_bind (index _) (fun _ =>
    keeps_bind (keeps_ofExcept _) (fun _ => keeps_bind (keeps_nonNull _) (fun _ =>
      keeps_bind (keeps_modify (fun _ => rfl)) (fun _ =>
        keeps_bind (index _) (fun _ => keeps_modify (fun _ => rfl)))))))

theorem seat_storePublishAck (nl : Nlohmann) (msg : Text) (p : StreamPtr) :
    Keeps World.seat (Task.storePublishAck nl msg p) :=
  keeps_bind (keeps_ofExcept _) (fun _ => keeps_bind (Indifferent.noteErizoId (fun _ _ => rfl) _) (fun _ =>
    keeps_bind (keeps_ofExcept _) (fun _ => keeps_bind (keeps_modify (fun _ => rfl)) (fun _ =>
      keeps_bind (keeps_ofExcept _) (fun _ => keeps_bind (keeps_modify (fun _ => rfl)) (fun _ =>
        keeps_modify (fun _ => rfl)))))))

theorem touches_runOfferOrAnswer (type : String) (streamId : UInt64) (sdp : Text) :
    Touches (Task.runOfferOrAnswer type streamId sdp) := by
  have index : Keeps World.stance (remoteIndex streamId) := fun _ => rfl
  exact touches_last index (fun _ => touches_last (keeps_nonNull _) (fun _ => touches_last keeps_get (fun _ =>
    touches_signalingSendMsg rfl)))

theorem touches_runSendIceCandidate (streamId : UInt64) (sdpMid : Text) (index : Int32) (candidate : Text) :
    Touches (Task.runSendIceCandidate streamId sdpMid index candidate) := by
  intro w
  have runs := run_runSendIceCandidate streamId sdpMid index candidate w
  cases found : entry w.room.remoteStreamInfos streamId with
  | some p => rw [found] at runs; rw [after_congr runs]; exact touches_signalingSendMsg rfl w
  | none =>
    cases own : entry w.room.localStreamInfos streamId with
    | some p =>
      rw [found,own] at runs
      rw [after_congr runs]
      have same : (w.indexRemote streamId).stance = w.stance := rfl
      exact (touches_signalingSendMsg rfl (w.indexRemote streamId)).of_stance same
    | none => rw [found,own] at runs; rw [after_of_error runs]; exact .nothing

/-- A task sends one frame at most. -/
theorem touches_task (nl : Nlohmann) (order : Order UInt64 StreamPtr) (task : Task) : Touches (task.run nl order) := by
  cases task with
  | onJoinRoom => exact fun _ => .nothing
  | joinedStream info => exact fun _ => .nothing
  | onAddStream info =>
    intro w
    rw [show after ((Task.onAddStream info).run nl order) w = _ from after_of_ok (run_runOnAddStream info w)]
    split <;> exact .nothing
  | onRemoveStream streamId => exact fun _ => .nothing
  | onSubscribeStream json =>
    exact touches_keeps (keeps_bind keeps_get (fun _ => keeps_bind (keeps_front _) (fun _ =>
      keeps_bind (keeps_modify (fun _ => rfl)) (fun _ => seat_storeSubscribeAck _ _))))
  | onPublishStream msg =>
    exact touches_keeps (keeps_bind keeps_get (fun _ => keeps_bind (keeps_front _) (fun _ =>
      keeps_bind (keeps_modify (fun _ => rfl)) (fun _ => seat_storePublishAck nl _ _))))
  | onPeerConnectionConnectErizoReady connId =>
    refine touches_keeps (keeps_bind keeps_get (fun w => keeps_bind (seat_markConnected _ _) (fun remote => ?_)))
    cases remote with
    | some p => exact keeps_modify (fun _ => rfl)
    | none =>
      exact keeps_bind keeps_get (fun w => keeps_bind (seat_markConnected _ _) (fun own =>
        keeps_modify (fun _ => rfl)))
  | receiveOffer connId sdp =>
    exact touches_keeps (keeps_bind keeps_get (fun _ => keeps_bind (keeps_findConnection _ _) (fun _ =>
      keeps_modify (fun _ => rfl))))
  | publishStream info label => exact touches_last (keeps_modify (fun _ => rfl)) (fun _ => touches_signalingSendMsg rfl)
  | unPublishStream streamId => exact touches_signalingSendMsg rfl
  | subscribeStream streamId => exact touches_last (keeps_modify (fun _ => rfl)) (fun _ => touches_signalingSendMsg rfl)
  | unSubscriberStream streamId => exact touches_signalingSendMsg rfl
  | sendAnswer streamId sdp => exact touches_runOfferOrAnswer "answer" streamId sdp
  | sendOffer streamId sdp => exact touches_runOfferOrAnswer "offer" streamId sdp
  | sendIceCandidate streamId sdpMid index candidate =>
    exact touches_runSendIceCandidate streamId sdpMid index candidate

theorem touches_work (nl : Nlohmann) (order : Order UInt64 StreamPtr) : Touches (work nl order) := by
  refine touches_last keeps_get (fun w => ?_)
  split
  · exact touches_keeps (keeps_pure _)
  · exact touches_last (keeps_modify (fun _ => rfl)) (fun _ => touches_task nl order _)

/-! ### The handlers of a session -/

section
variable {w : World} {k : Nat}

theorem seat_failed (exist : k < w.sessions.length) (op : Operation) (next : Exec Unit) :
    (after (chained k op true next) w).seat = { w.seat with sessions := w.sessions.modify k (·.finish op) } := by
  rw [after_of_ok (run_failed exist op next)]
  split <;> rfl

/-- A step of the connect chain changes its session and nothing else that is used. -/
theorem seat_chained (exist : k < w.sessions.length) (op : Operation) (failed : Bool)
    (g : WebsocketSession → WebsocketSession) :
    (after (chained k op failed (modify (·.updateSession k g))) w).seat =
      { w.seat with sessions := w.sessions.modify k (fun s => if failed then s.finish op else g (s.finish op)) } := by
  cases failed with
  | true => exact seat_failed exist op _
  | false =>
    have runs : (chained k op false (modify (·.updateSession k g))).run w =
        .ok () (w.updateSession k (g ∘ (·.finish op))) := by simp [run_chained,updateSession_updateSession]
    rw [after_of_ok runs]
    rfl

/-- The next posted handler as a change of the session; a close that throws is none. -/
def WebsocketSession.runNext (s : WebsocketSession) (closes : Bool) : Option WebsocketSession :=
  match s.posted with
  | [] => none
  | .onSend msg :: rest => some ({ s with posted := rest }.onSend msg)
  | .doClose :: rest =>
    if !s.isOpen then some { s with posted := rest }
    else if closes then some { s with posted := rest, isOpen := false }
    else none

theorem accepted_runNext {s s' : WebsocketSession} {closes : Bool} (next : s.runNext closes = some s') :
    s'.accepted = s.accepted := by
  unfold WebsocketSession.runNext at next
  split at next
  · cases next
  · next msg rest posted =>
    cases next
    exact WebsocketSession.accepted_onSend s msg rest posted
  · next rest posted =>
    have same : ({ s with posted := rest } : WebsocketSession).accepted = s.accepted := by
      simp [WebsocketSession.accepted,posted,Posted.frame,List.filterMap_cons]
    split at next
    · cases next
      exact same
    · split at next
      · cases next
        exact same
      · cases next

theorem seat_runPosted {closes : Bool} (exist : k < w.sessions.length) (waits : (w.session k).posted ≠ [])
    (up : faultOf (runPosted k closes) w = none) :
    ∃ s', (w.session k).runNext closes = some s' ∧
      (after (runPosted k closes) w).seat = { w.seat with sessions := w.sessions.modify k (fun _ => s') } := by
  have same : ∀ g : WebsocketSession → WebsocketSession,
      (w.updateSession k g).seat = { w.seat with sessions := w.sessions.modify k (fun _ => g (w.session k)) } := by
    intro g
    have here : w.sessions.modify k g = w.sessions.modify k (fun _ => g (w.session k)) :=
      modify_congr (fun s found => by rw [session_of_getElem? found])
    simp only [World.seat,World.updateSession,here]
  unfold WebsocketSession.runNext
  cases posted : (w.session k).posted with
  | nil => exact absurd posted waits
  | cons handler rest =>
    cases handler with
    | onSend msg =>
      have runs : after (runPosted k closes) w = w.updateSession k (fun s => { s with posted := rest }.onSend msg) := by
        simp [after,runPosted,posted]
      exact ⟨_,rfl,runs ▸ same _⟩
    | doClose =>
      have stays : ((w.updateSession k (fun s => { s with posted := rest })).session k).isOpen =
          (w.session k).isOpen := by rw [session_updateSession exist]
      by_cases isOpen : (w.session k).isOpen = true
      · rw [isOpen] at stays
        cases closes with
        | false => simp [faultOf,runPosted,posted,stays] at up
        | true =>
          have runs : after (runPosted k true) w =
              w.updateSession k (fun s => { s with posted := rest, isOpen := false }) := by
            simp [after,runPosted,posted,stays,updateSession_updateSession]
            rfl
          exact ⟨_,by simp [isOpen],runs ▸ same _⟩
      · rw [eq_false_of_ne_true isOpen] at stays
        have runs : after (runPosted k closes) w = w.updateSession k (fun s => { s with posted := rest }) := by
          simp [after,runPosted,posted,stays]
        exact ⟨_,if_pos (by simp [isOpen]),runs ▸ same _⟩

end

/-! ### Steps -/

/-- A step that does not end the process. -/
def stepUp (nl : Nlohmann) (w : World) (e : Event) : Option World := (step nl w e).filter (·.crashed.isNone)

/-- The session on whose thread an event happens. -/
def Event.thread : Event → Option Nat
  | .resolved k _ | .connected k _ | .handshaken k _ | .read k _ | .posted k _ | .wrote k _ => some k
  | _ => none

/-- Whether `LicodeSignaling::Init` makes a session, which it does in `Join` only. -/
def World.makes (w : World) : Event → Bool
  | .join => w.room.state = .kDisconnected ∧ w.signaling.state = .kDisconnect
  | _ => false

/-- `Join` makes a session and uses it, or makes none. -/
theorem seat_join (w : World) : w.makes .join = false ∧ (after join w).seat = w.seat ∨
    w.makes .join = true ∧ ∃ url,
      (after join w).seat = ⟨w.sessions ++ [newSession url],some w.sessions.length,w.room.token,w.room.token⟩ ∧
      (after join w).signaling.state = .kConnecting := by
  by_cases apart : w.room.state = .kDisconnected
  · by_cases idle : w.signaling.state = .kDisconnect
    · refine .inr ⟨by simp [World.makes,apart,idle],
        lit "ws://" ++ w.room.token.host ++ lit "/socket.io/?EIO=3&transport=websocket",?_⟩
      simp [after,join,update,signalingInit,apart,idle,World.seat]
    · left
      simp [World.makes,after,join,update,signalingInit,apart,idle,World.seat]
  · left
    simp [World.makes,after,join,apart]

/-- What a step does to the sessions: a call of the client, a new session, a handler on
    the thread of a session that accepts nothing, or a frame that is read, handed on and
    followed by the next read. -/
inductive Stir (nl : Nlohmann) (w : World) (e : Event) (w' : World) : Prop where
  | called (elsewhere : e.thread = none) (same : w.makes e = false) (called : Called False w w'.seat)
  | joined (event : e = .join) (makes : w.makes e = true) (url : Text) (state : w'.signaling.state = .kConnecting)
      (made : w'.seat = ⟨w.sessions ++ [newSession url],some w.sessions.length,w.room.token,w.room.token⟩)
  | own (k : Nat) (g : WebsocketSession → WebsocketSession) (here : e.thread = some k)
      (unread : ∀ frame, e ≠ .read k (some frame))
      (accepts : ∀ s, w.sessions[k]? = some s → (g s).accepted = s.accepted)
      (seat : w'.seat = { w.seat with sessions := w.sessions.modify k g })
  | read (k : Nat) (frame : Text) (t : World) (event : e = .read k (some frame))
      (done : (w.deliver nl k frame).run (w.received k frame) = .ok () t)
      (state : w'.signaling.state = t.signaling.state)
      (seat : w'.seat = { t.seat with sessions := t.sessions.modify k (fun s => { s with buffer := [] }.start .read) })

section
variable {nl : Nlohmann} {w w' : World} {e : Event}

theorem of_stepUp (taken : stepUp nl w e = some w') :
    enabled w e = true ∧ w' = settle (handler nl e) w ∧ faultOf (handler nl e) w = none := by
  obtain ⟨steps,up⟩ := Option.filter_eq_some_iff.mp taken
  obtain ⟨-,can,rfl⟩ := step_eq_some steps
  exact ⟨can,rfl,by simpa [settle] using up⟩

/-- What `enabled` says of an operation. -/
theorem under_of_enabled {k : Nat} {op : Operation}
    (can : (decide (k < w.sessions.length) && (w.session k).outstanding.contains op) = true) :
    k < w.sessions.length ∧ op ∈ (w.session k).outstanding := by
  simpa using can

theorem stir_step (taken : stepUp nl w e = some w') : Stir nl w e w' := by
  obtain ⟨can,rfl,up⟩ := of_stepUp taken
  have calls : ∀ {x : Exec Unit}, Touches x → handler nl e = x → e.thread = none → w.makes e = false →
      Stir nl w e (settle (handler nl e) w) := by
    rintro x touches rfl elsewhere same
    exact .called elsewhere same (touches w)
  cases e with
  | join =>
    rcases seat_join w with ⟨same,none⟩ | ⟨makes,url,made,state⟩
    · have called : Called False w (after join w).seat := none ▸ .nothing
      exact .called rfl same called
    · exact .joined rfl makes url state made
  | leave => exact calls closes_leave.touches rfl rfl rfl
  | makeStream info => exact calls (touches_keeps (fun _ => rfl)) rfl rfl rfl
  | call api => exact calls (touches_keeps (keeps_bind keeps_get (fun _ => keeps_postTask (fun _ => rfl)))) rfl rfl rfl
  | dispatch api order => exact calls (touches_last keeps_get (fun w => touches_task nl order _)) rfl rfl rfl
  | work order => exact calls (touches_work nl order) rfl rfl rfl
  | resolved k failed =>
    obtain ⟨exist,-⟩ := under_of_enabled can
    exact .own k _ rfl (by simp) (fun s _ => by cases failed <;> rfl) (seat_chained exist _ _ _)
  | connected k failed =>
    obtain ⟨exist,-⟩ := under_of_enabled can
    exact .own k _ rfl (by simp) (fun s _ => by cases failed <;> rfl) (seat_chained exist _ _ _)
  | handshaken k failed =>
    obtain ⟨exist,-⟩ := under_of_enabled can
    exact .own k _ rfl (by simp) (fun s _ => by cases failed <;> rfl) (seat_chained exist _ _ _)
  | read k frame =>
    obtain ⟨exist,-⟩ := under_of_enabled can
    cases frame with
    | none => exact .own k (·.finish .read) rfl (by simp) (fun s _ => rfl) (seat_failed exist _ _)
    | some frame =>
      have runs := run_onRead nl frame exist
      cases done : (w.deliver nl k frame).run (w.received k frame) with
      | error fault t =>
        rw [done] at runs
        simp [faultOf,handler,runs] at up
      | ok a t =>
        rw [done] at runs
        have final : after (onRead nl k (some frame)) w = _ := after_of_ok runs
        exact .read k frame t rfl done (congrArg (·.signaling.state) final) (congrArg World.seat final)
  | posted k closes =>
    obtain ⟨exist,waits⟩ : k < w.sessions.length ∧ (w.session k).posted ≠ [] := by simpa [enabled] using can
    obtain ⟨s',next,ran⟩ := seat_runPosted exist waits up
    refine .own k _ rfl (by simp) (fun s found => ?_) ran
    rw [accepted_runNext next,session_of_getElem? found]
  | wrote k succeeded =>
    exact .own k _ rfl (by simp) (fun s _ => WebsocketSession.accepted_onWrite s succeeded) rfl
  | ping i => exact calls (touches_firePing i) rfl rfl rfl

end

end LicodeClient
