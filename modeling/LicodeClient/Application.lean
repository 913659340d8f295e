import LicodeClient.Lib.Simulation
import LicodeClient.Peer
import LicodeClient.Roster
import LicodeClient.Tables

/-!
The example application, an observer of its room and of its peer connections. It is
called back by the room on the worker's thread, where the stream that it subscribes
to then is subscribed to at once, and by WebRTC on another thread, from where what
it sends is posted. What it does with the room is what `Machine` allows a client to
do (`simulates`, `run_room`), and little of it (`Uses`).
-/
namespace LicodeClient
open LicodeClient.Table LicodeClient.Program LicodeClient.Run
open LicodeClient.Peer (SdpType)

/-- What the application has to know of WebRTC: which descriptions it can read and
    with which servers it makes a peer connection. -/
structure Webrtc where
  parses : SdpType → Text → Bool
  connects : List IceServer → Bool

/-- `WebrtcConnection` towards its peer connection. `pc` says whether there is one,
    `creating` how many answers it has been asked for and not delivered; then the
    descriptions that it was given. -/
structure PeerConnection where
  id : UInt64
  servers : List IceServer
  pc : Bool
  creating : Nat := 0
  remoteDescriptions : List Text := []
  localDescriptions : List Text := []

/-- `TestBasicExampleRoom` with its room and with `init_` of the WebRTC wrapper. -/
structure TestBasicExampleRoom where
  world : World
  wrapper : Bool := true
  peerConnections : PtrTable UInt64 PeerConnection := ∅
  crashed : Option Fault := none

/-- What the application does when it is called back. -/
abbrev Reaction := EStateM Fault TestBasicExampleRoom

namespace TestBasicExampleRoom

/-- `main` initialises the wrapper before anything else. -/
def init (token : LicodeToken) : TestBasicExampleRoom := { world := .init token }

/-- `peer_connections_[streamId]`. -/
def peerIndex (streamId : UInt64) : Reaction (Option PeerConnection) := do
  let table := (← get).peerConnections
  modify fun a => { a with peerConnections := index table streamId }
  return entry table streamId

/-- `WebrtcWrapper::CreatePCFactory`, whose result is dereferenced at once. -/
def createPCFactory : Reaction Unit := do
  if !(← get).wrapper then
    throw .undefined

/-- `TestBasicExampleRoom::CreatePeerConnection`. -/
def createPeerConnection (rtc : Webrtc) (streamId : UInt64) : Reaction Unit := do
  match ← peerIndex streamId with
  | some _ => return
  | none =>
    let servers := (← get).world.room.iceServerList
    createPCFactory
    modify fun a => { a with
      peerConnections := a.peerConnections.insert streamId
        (some { id := streamId, servers, pc := rtc.connects servers }) }

/-- `peer_connections_[streamId]->`, with a function that uses `pc_`. -/
def usePeer (streamId : UInt64) (f : PeerConnection → PeerConnection) : Reaction Unit := do
  match ← peerIndex streamId with
  | none => throw .undefined
  | some peer =>
    if !peer.pc then
      throw .undefined
    modify fun a => { a with peerConnections := a.peerConnections.insert streamId (some (f peer)) }

/-- `WebrtcConnection::SetRemoteDescription`. -/
def setRemoteDescription (sdp : Text) (peer : PeerConnection) : PeerConnection :=
  { peer with remoteDescriptions := peer.remoteDescriptions ++ [sdp] }

/-- `WebrtcConnection::CreateAnswer`. -/
def createAnswer (peer : PeerConnection) : PeerConnection := { peer with creating := peer.creating + 1 }

/-- A pointer to a stream that is about to be dereferenced. -/
def streamOf : Option StreamPtr → Reaction StreamPtr
  | some p => pure p
  | none => throw .undefined

/-- A call of the room from the worker's thread, which runs at once. -/
def dispatchRoom (nl : Nlohmann) (order : Order UInt64 StreamPtr) (api : Api) (a : TestBasicExampleRoom) :
    TestBasicExampleRoom :=
  { a with world := LicodeClient.settle (handler nl (.dispatch api order)) a.world }

/-- `TestBasicExampleRoom::OnAddRemoteStream`. -/
def onAddRemoteStream (nl : Nlohmann) (rtc : Webrtc) (order : Order UInt64 StreamPtr) (info : StreamPtr) :
    Reaction Unit := do
  let streamId := ((← get).world.heap.cell info).id
  createPeerConnection rtc streamId
  modify (dispatchRoom nl order (.subscribeStream streamId))

/-- `TestBasicExampleRoom::OnReceiveOffer`. -/
def onReceiveOffer (rtc : Webrtc) (info : Option StreamPtr) (sdp : Text) : Reaction Unit := do
  if !rtc.parses .kOffer sdp then
    return
  let p ← streamOf info
  let streamId := ((← get).world.heap.cell p).id
  usePeer streamId (setRemoteDescription sdp)
  usePeer streamId createAnswer

/-- The room calls its observer. What is only logged is left out, but for the stream
    that is dereferenced for it. -/
def react (nl : Nlohmann) (rtc : Webrtc) (order : Order UInt64 StreamPtr) : Call → Reaction Unit
  | .onJoinRoom _ => pure ()
  | .onAddRemoteStream info => onAddRemoteStream nl rtc order info
  | .onSubscribeStreamAllocateConnId info => do let _ ← streamOf info
  | .onStreamConnectReady _ => pure ()
  | .onReceiveOffer info sdp => onReceiveOffer rtc info sdp

/-- The application after a reaction, ended by its fault when it has one. -/
def settle (x : Reaction Unit) (a : TestBasicExampleRoom) : TestBasicExampleRoom :=
  { after x a with crashed := faultOf x a }

/-- What can happen next: something of the connection or a call of `Join` or `Leave`,
    a task of the worker with what the application does in it, and the callbacks of
    a peer connection. -/
inductive Event where
  | client (e : LicodeClient.Event)
  | work (order inner : Order UInt64 StreamPtr)
  | onSdpCreateSuccess (streamId : UInt64) (type : SdpType) (sdp : Text)
  | onSdpCreateFailure (streamId : UInt64)
  | onIceCandidate (streamId : UInt64) (sdpMid : Text) (sdpMLineIndex : Int32) (candidate : Text)

/-- The room calls its observer last in a task, and at most once. -/
def heeds (nl : Nlohmann) (rtc : Webrtc) (order : Order UInt64 StreamPtr) (calls : List Call)
    (a : TestBasicExampleRoom) : TestBasicExampleRoom :=
  match a.world.crashed, calls with
  | none, call :: _ => settle (react nl rtc order call) a
  | _, _ => a

/-- A call of the room from another thread than the worker's. -/
def callRoom (nl : Nlohmann) (api : Api) (a : TestBasicExampleRoom) : TestBasicExampleRoom :=
  { a with world := LicodeClient.settle (handler nl (.call api)) a.world }

/-- A peer connection with a changed state. -/
def setPeer (a : TestBasicExampleRoom) (streamId : UInt64) (peer : PeerConnection) : TestBasicExampleRoom :=
  { a with peerConnections := a.peerConnections.insert streamId (some peer) }

/-- `TestBasicExampleRoom::OnSdpCreateSuccess`, of a peer connection that was asked
    for an answer. -/
def onSdpCreateSuccess (nl : Nlohmann) (rtc : Webrtc) (streamId : UInt64) (type : SdpType) (sdp : Text)
    (peer : PeerConnection) (a : TestBasicExampleRoom) : TestBasicExampleRoom :=
  let peer := { peer with creating := peer.creating - 1 }
  if rtc.parses type sdp then
    (a.setPeer streamId { peer with localDescriptions := peer.localDescriptions ++ [sdp] }).callRoom nl
      (.sendAnswer peer.id sdp)
  else a.setPeer streamId peer

/-- One step of the application. -/
def step (nl : Nlohmann) (rtc : Webrtc) (a : TestBasicExampleRoom) (e : Event) : Option TestBasicExampleRoom :=
  if a.crashed ≠ none ∨ a.world.crashed ≠ none then none
  else
    match e with
    | .client e => if e.streamless then (LicodeClient.step nl a.world e).map ({ a with world := · }) else none
    | .work order inner =>
      (LicodeClient.step nl a.world (.work order)).map
        (fun w => heeds nl rtc inner (w.calls.drop a.world.calls.length) { a with world := w })
    | .onSdpCreateSuccess streamId type sdp =>
      match entry a.peerConnections streamId with
      | some peer => if 0 < peer.creating then some (a.onSdpCreateSuccess nl rtc streamId type sdp peer) else none
      | none => none
    | .onSdpCreateFailure streamId =>
      match entry a.peerConnections streamId with
      | some peer =>
        if 0 < peer.creating then some (a.setPeer streamId { peer with creating := peer.creating - 1 }) else none
      | none => none
    | .onIceCandidate streamId sdpMid sdpMLineIndex candidate =>
      match entry a.peerConnections streamId with
      | some peer =>
        if peer.pc then some (a.callRoom nl (.sendIceCandidate peer.id sdpMid sdpMLineIndex (lit "a=" ++ candidate)))
        else none
      | none => none

/-! ### What the application does with its room -/

/-- What the application lets happen to its room: it subscribes to streams that were
    reported to it, on the worker's thread, and sends answers and candidates. -/
def Uses (w : World) : LicodeClient.Event → Prop
  | .work _ | .call (.sendAnswer _ _) | .call (.sendIceCandidate _ _ _ _) => True
  | .dispatch (.subscribeStream streamId) _ => ∃ p, .onAddRemoteStream p ∈ w.calls ∧ (w.heap.cell p).id = streamId
  | e => e.streamless = true

/-- What comes from elsewhere, and what a peer connection makes the application call,
    for the stream of that peer connection. -/
def Event.shown (rtc : Webrtc) : Event → List LicodeClient.Event
  | .client e => [e]
  | .work _ _ | .onSdpCreateFailure _ => []
  | .onSdpCreateSuccess streamId type sdp =>
    if rtc.parses type sdp then [.call (.sendAnswer streamId sdp)] else []
  | .onIceCandidate streamId sdpMid sdpMLineIndex candidate =>
    [.call (.sendIceCandidate streamId sdpMid sdpMLineIndex (lit "a=" ++ candidate))]

/-- What does not happen to the room on the worker's thread. -/
def external : LicodeClient.Event → List LicodeClient.Event
  | .makeStream _ | .dispatch _ _ | .work _ => []
  | e => [e]

section
variable {nl : Nlohmann} {rtc : Webrtc} {a b : TestBasicExampleRoom} {w : World}

/-- The application after `peer_connections_[streamId]`. -/
def indexPeer (a : TestBasicExampleRoom) (streamId : UInt64) : TestBasicExampleRoom :=
  { a with peerConnections := index a.peerConnections streamId }

theorem run_peerIndex (streamId : UInt64) (a : TestBasicExampleRoom) :
    (peerIndex streamId).run a = .ok (entry a.peerConnections streamId) (a.indexPeer streamId) := rfl

theorem indexPeer_of_entry {streamId : UInt64} {peer : PeerConnection}
    (found : entry a.peerConnections streamId = some peer) : a.indexPeer streamId = a := by
  simp only [indexPeer,index_of_entry found]

/-- The peer connection that is made for a stream. -/
def newPeer (rtc : Webrtc) (a : TestBasicExampleRoom) (streamId : UInt64) : PeerConnection :=
  { id := streamId, servers := a.world.room.iceServerList, pc := rtc.connects a.world.room.iceServerList }

theorem run_createPeerConnection (streamId : UInt64) (a : TestBasicExampleRoom) :
    (createPeerConnection rtc streamId).run a =
      match entry a.peerConnections streamId with
      | some _ => .ok () a
      | none =>
        if a.wrapper then .ok () ((a.indexPeer streamId).setPeer streamId (newPeer rtc a streamId))
        else .error .undefined (a.indexPeer streamId) := by
  simp only [createPeerConnection,EStateM.run_bind,run_peerIndex]
  cases found : entry a.peerConnections streamId with
  | some peer =>
    rw [indexPeer_of_entry found]
    rfl
  | none =>
    have factory : createPCFactory.run (a.indexPeer streamId) =
        if a.wrapper then .ok () (a.indexPeer streamId) else .error .undefined (a.indexPeer streamId) := by
      have same : (a.indexPeer streamId).wrapper = a.wrapper := rfl
      cases made : a.wrapper <;> simp [createPCFactory,same,made]
    simp only [EStateM.run_bind,EStateM.run_get,factory]
    by_cases made : a.wrapper = true
    · simp only [if_pos made]
      rfl
    · simp only [if_neg made]

theorem run_usePeer (streamId : UInt64) (f : PeerConnection → PeerConnection) (a : TestBasicExampleRoom) :
    (usePeer streamId f).run a =
      match entry a.peerConnections streamId with
      | none => .error .undefined (a.indexPeer streamId)
      | some peer => if peer.pc then .ok () (a.setPeer streamId (f peer)) else .error .undefined a := by
  simp only [usePeer,EStateM.run_bind,run_peerIndex]
  cases found : entry a.peerConnections streamId with
  | none => rfl
  | some peer =>
    rw [indexPeer_of_entry found]
    cases there : peer.pc with
    | false => simp [there]
    | true =>
      simp only [there,Bool.not_true,Bool.false_eq_true,if_false,if_true]
      rfl

theorem entry_setPeer (streamId id : UInt64) (peer : PeerConnection) :
    entry (a.setPeer streamId peer).peerConnections id =
      if id = streamId then some peer else entry a.peerConnections id := entry_insert _ _ _ _

/-- A stream that is reported gets its peer connection and is subscribed to. -/
theorem run_onAddRemoteStream (nl : Nlohmann) (rtc : Webrtc) (order : Order UInt64 StreamPtr) (p : StreamPtr)
    (a : TestBasicExampleRoom) :
    (onAddRemoteStream nl rtc order p).run a =
      match (createPeerConnection rtc (a.world.heap.cell p).id).run a with
      | .ok _ b => .ok () (b.dispatchRoom nl order (.subscribeStream (a.world.heap.cell p).id))
      | .error fault b => .error fault b := by
  simp only [onAddRemoteStream,EStateM.run_bind,EStateM.run_get]
  cases (createPeerConnection rtc (a.world.heap.cell p).id).run a <;> rfl

/-- An offer that can be read is set and answered when its stream is known and has a
    peer connection. -/
theorem run_onReceiveOffer (info : Option StreamPtr) (sdp : Text) (a : TestBasicExampleRoom) :
    (onReceiveOffer rtc info sdp).run a =
      if rtc.parses .kOffer sdp then
        match info with
        | none => .error .undefined a
        | some p =>
          match entry a.peerConnections (a.world.heap.cell p).id with
          | none => .error .undefined (a.indexPeer (a.world.heap.cell p).id)
          | some peer =>
            if peer.pc then
              .ok () ((a.setPeer (a.world.heap.cell p).id (setRemoteDescription sdp peer)).setPeer
                (a.world.heap.cell p).id (createAnswer (setRemoteDescription sdp peer)))
            else .error .undefined a
      else .ok () a := by
  unfold onReceiveOffer
  cases reads : rtc.parses .kOffer sdp with
  | false => rfl
  | true =>
    cases info with
    | none => rfl
    | some p =>
      simp only [streamOf,EStateM.run_bind,EStateM.run_pure,EStateM.run_get,run_usePeer,Bool.not_true,
        Bool.false_eq_true,if_false,if_true]
      cases found : entry a.peerConnections (a.world.heap.cell p).id with
      | none => rfl
      | some peer =>
        cases there : peer.pc with
        | false => simp [there]
        | true => simp [there,entry_setPeer,setRemoteDescription]

theorem world_createPeerConnection (rtc : Webrtc) (streamId : UInt64) :
    Keeps TestBasicExampleRoom.world (createPeerConnection rtc streamId) := by
  intro a
  unfold after
  rw [run_createPeerConnection]
  cases entry a.peerConnections streamId with
  | some peer => rfl
  | none => cases a.wrapper <;> rfl

theorem world_onReceiveOffer (info : Option StreamPtr) (sdp : Text) :
    Keeps TestBasicExampleRoom.world (onReceiveOffer rtc info sdp) := by
  intro a
  unfold after
  rw [run_onReceiveOffer]
  cases rtc.parses .kOffer sdp with
  | false => rfl
  | true =>
    cases info with
    | none => rfl
    | some p =>
      simp only [if_true]
      cases found : entry a.peerConnections (a.world.heap.cell p).id with
      | none => rfl
      | some peer => cases there : peer.pc <;> simp [there,setPeer]

/-- A reaction leaves the room alone or subscribes to the stream that was reported. -/
theorem world_react (nl : Nlohmann) (rtc : Webrtc) (order : Order UInt64 StreamPtr) (call : Call)
    (a : TestBasicExampleRoom) :
    (after (react nl rtc order call) a).world = a.world ∨
      ∃ p, call = .onAddRemoteStream p ∧ (after (react nl rtc order call) a).world =
        LicodeClient.settle (handler nl (.dispatch (.subscribeStream (a.world.heap.cell p).id) order)) a.world := by
  cases call with
  | onJoinRoom roomId => exact .inl rfl
  | onAddRemoteStream p =>
    have runs := run_onAddRemoteStream nl rtc order p a
    have keeps := world_createPeerConnection rtc (a.world.heap.cell p).id a
    simp only [react]
    cases made : (createPeerConnection rtc (a.world.heap.cell p).id).run a with
    | ok _ b =>
      rw [made] at runs
      rw [after_of_ok made] at keeps
      rw [after_of_ok runs,dispatchRoom,keeps]
      exact .inr ⟨p,rfl,rfl⟩
    | error fault b =>
      rw [made] at runs
      rw [after_of_error made] at keeps
      rw [after_of_error runs]
      exact .inl keeps
  | onSubscribeStreamAllocateConnId info => cases info <;> exact .inl rfl
  | onStreamConnectReady info => exact .inl rfl
  | onReceiveOffer info sdp => exact .inl (world_onReceiveOffer info sdp a)

/-- After a task the room is as the task has left it, or a stream that was reported in
    it is subscribed to. -/
theorem world_heeds (nl : Nlohmann) (rtc : Webrtc) (order : Order UInt64 StreamPtr) (calls : List Call)
    (a : TestBasicExampleRoom) :
    (heeds nl rtc order calls a).world = a.world ∨
      ∃ p, a.world.crashed = none ∧ .onAddRemoteStream p ∈ calls ∧ (heeds nl rtc order calls a).world =
        LicodeClient.settle (handler nl (.dispatch (.subscribeStream (a.world.heap.cell p).id) order)) a.world := by
  unfold heeds
  split
  · next call rest up =>
    rcases world_react nl rtc order call a with same | ⟨p,rfl,subscribes⟩
    · exact .inl same
    · exact .inr ⟨p,up,List.mem_cons_self,subscribes⟩
  · exact .inl rfl

theorem step_of_up {e : LicodeClient.Event} (up : w.crashed = none) (can : enabled w e = true) :
    LicodeClient.step nl w e = some (LicodeClient.settle (handler nl e) w) := if_pos ⟨up,can⟩

/-! ### Steps -/

/-- What a step of the application can be. -/
inductive Takes (nl : Nlohmann) (rtc : Webrtc) (a : TestBasicExampleRoom) : Event → TestBasicExampleRoom → Prop where
  | client {e : LicodeClient.Event} {w : World} (elsewhere : e.streamless = true)
      (moved : LicodeClient.step nl a.world e = some w) : Takes nl rtc a (.client e) { a with world := w }
  | work {order inner : Order UInt64 StreamPtr} {w : World}
      (moved : LicodeClient.step nl a.world (.work order) = some w) :
      Takes nl rtc a (.work order inner)
        (heeds nl rtc inner (w.calls.drop a.world.calls.length) { a with world := w })
  | answered {streamId : UInt64} {type : SdpType} {sdp : Text} {peer : PeerConnection}
      (found : entry a.peerConnections streamId = some peer) (asked : 0 < peer.creating)
      (reads : rtc.parses type sdp = true) :
      Takes nl rtc a (.onSdpCreateSuccess streamId type sdp)
        ((a.setPeer streamId { peer with
          creating := peer.creating - 1, localDescriptions := peer.localDescriptions ++ [sdp] }).callRoom nl
            (.sendAnswer peer.id sdp))
  | unread {streamId : UInt64} {type : SdpType} {sdp : Text} {peer : PeerConnection}
      (found : entry a.peerConnections streamId = some peer) (asked : 0 < peer.creating)
      (reads : rtc.parses type sdp = false) :
      Takes nl rtc a (.onSdpCreateSuccess streamId type sdp)
        (a.setPeer streamId { peer with creating := peer.creating - 1 })
  | failed {streamId : UInt64} {peer : PeerConnection} (found : entry a.peerConnections streamId = some peer)
      (asked : 0 < peer.creating) :
      Takes nl rtc a (.onSdpCreateFailure streamId) (a.setPeer streamId { peer with creating := peer.creating - 1 })
  | candidate {streamId : UInt64} {sdpMid candidate : Text} {sdpMLineIndex : Int32} {peer : PeerConnection}
      (found : entry a.peerConnections streamId = some peer) (made : peer.pc = true) :
      Takes nl rtc a (.onIceCandidate streamId sdpMid sdpMLineIndex candidate)
        (a.callRoom nl (.sendIceCandidate peer.id sdpMid sdpMLineIndex (lit "a=" ++ candidate)))

theorem up_of_step {e : Event} (taken : step nl rtc a e = some b) : a.crashed = none ∧ a.world.crashed = none := by
  obtain ⟨up,-⟩ := Option.ite_none_left_eq_some.mp taken
  simpa only [ne_eq,not_or,not_not] using up

theorem takes_of_step {e : Event} (taken : step nl rtc a e = some b) : Takes nl rtc a e b := by
  obtain ⟨-,taken⟩ := Option.ite_none_left_eq_some.mp taken
  cases e with
  | client e =>
    obtain ⟨elsewhere,taken⟩ := Option.ite_none_right_eq_some.mp taken
    obtain ⟨w,moved,rfl⟩ := Option.map_eq_some_iff.mp taken
    exact .client elsewhere moved
  | work order inner =>
    obtain ⟨w,moved,rfl⟩ := Option.map_eq_some_iff.mp taken
    exact .work moved
  | onSdpCreateSuccess streamId type sdp =>
    cases found : entry a.peerConnections streamId with
    | none => simp [found] at taken
    | some peer =>
      simp only [found] at taken
      obtain ⟨asked,done⟩ := Option.ite_none_right_eq_some.mp taken
      cases done
      unfold onSdpCreateSuccess
      cases reads : rtc.parses type sdp with
      | true => exact .answered found asked reads
      | false => exact .unread found asked reads
  | onSdpCreateFailure streamId =>
    cases found : entry a.peerConnections streamId with
    | none => simp [found] at taken
    | some peer =>
      simp only [found] at taken
      obtain ⟨asked,done⟩ := Option.ite_none_right_eq_some.mp taken
      cases done
      exact .failed found asked
  | onIceCandidate streamId sdpMid sdpMLineIndex candidate =>
    cases found : entry a.peerConnections streamId with
    | none => simp [found] at taken
    | some peer =>
      simp only [found] at taken
      obtain ⟨made,done⟩ := Option.ite_none_right_eq_some.mp taken
      cases done
      exact .candidate found made

/-- Every peer connection has the id of the stream that it is kept for. -/
def Labelled (a : TestBasicExampleRoom) : Prop :=
  ∀ streamId peer, entry a.peerConnections streamId = some peer → peer.id = streamId

theorem labelled_init (token : LicodeToken) : (init token).Labelled := by
  intro streamId peer found
  exact absurd found (by simp [init])

theorem labelled_setPeer (labelled : a.Labelled) {streamId : UInt64} (peer : PeerConnection)
    (same : peer.id = streamId) : (a.setPeer streamId peer).Labelled := by
  intro id other found
  rw [entry_setPeer] at found
  split at found
  · next here =>
    cases found
    rw [same,here]
  · exact labelled id other found

theorem labelled_update (labelled : a.Labelled) {streamId : UInt64} {old peer : PeerConnection}
    (found : entry a.peerConnections streamId = some old) (same : peer.id = old.id) :
    (a.setPeer streamId peer).Labelled :=
  labelled_setPeer labelled peer (same.trans (labelled streamId old found))

theorem labelled_indexPeer (labelled : a.Labelled) (streamId : UInt64) : (a.indexPeer streamId).Labelled := by
  intro id peer found
  simp only [indexPeer,entry_index] at found
  exact labelled id peer found

theorem labelled_createPeerConnection (labelled : a.Labelled) (streamId : UInt64) :
    (after (createPeerConnection rtc streamId) a).Labelled := by
  have indexed := labelled_indexPeer labelled streamId
  unfold after
  rw [run_createPeerConnection]
  cases entry a.peerConnections streamId with
  | some peer => exact labelled
  | none =>
    cases a.wrapper with
    | true => exact labelled_setPeer indexed _ rfl
    | false => exact indexed

theorem labelled_onReceiveOffer (labelled : a.Labelled) (info : Option StreamPtr) (sdp : Text) :
    (after (onReceiveOffer rtc info sdp) a).Labelled := by
  unfold after
  rw [run_onReceiveOffer]
  cases rtc.parses .kOffer sdp with
  | false => exact labelled
  | true =>
    cases info with
    | none => exact labelled
    | some p =>
      simp only [if_true]
      cases found : entry a.peerConnections (a.world.heap.cell p).id with
      | none => exact labelled_indexPeer labelled _
      | some peer =>
        have same : peer.id = (a.world.heap.cell p).id := labelled _ peer found
        cases there : peer.pc with
        | true =>
          simp only [there,if_true]
          have first := labelled_setPeer labelled (setRemoteDescription sdp peer) same
          exact labelled_setPeer first (createAnswer (setRemoteDescription sdp peer)) same
        | false =>
          simp only [there,Bool.false_eq_true,if_false]
          exact labelled

theorem labelled_react (labelled : a.Labelled) (order : Order UInt64 StreamPtr) (call : Call) :
    (after (react nl rtc order call) a).Labelled := by
  cases call with
  | onJoinRoom roomId => exact labelled
  | onAddRemoteStream p =>
    have made : (after (createPeerConnection rtc (a.world.heap.cell p).id) a).Labelled :=
      labelled_createPeerConnection labelled _
    have runs := run_onAddRemoteStream nl rtc order p a
    rw [react]
    unfold after at made ⊢
    rw [runs]
    cases ends : (createPeerConnection rtc (a.world.heap.cell p).id).run a with
    | ok _ b =>
      rw [ends] at made
      exact made
    | error fault b =>
      rw [ends] at made
      exact made
  | onSubscribeStreamAllocateConnId info => cases info <;> exact labelled
  | onStreamConnectReady info => exact labelled
  | onReceiveOffer info sdp => exact labelled_onReceiveOffer labelled info sdp

theorem labelled_takes {e : Event} (labelled : a.Labelled) (takes : Takes nl rtc a e b) : b.Labelled := by
  cases takes with
  | client _ _ => exact labelled
  | @work order inner w _ =>
    unfold heeds
    split
    · next call _ _ _ => exact labelled_react (a := { a with world := w }) labelled inner call
    · exact labelled
  | answered found _ _ => exact labelled_update labelled found rfl
  | unread found _ _ => exact labelled_update labelled found rfl
  | failed found _ => exact labelled_update labelled found rfl
  | candidate _ _ => exact labelled

/-- The room of the application, whose peer connections have the ids of their streams. -/
def Owns (a : TestBasicExampleRoom) (w : World) : Prop := a.world = w ∧ a.Labelled

theorem owns_init (token : LicodeToken) : Owns (init token) (.init token) := ⟨rfl,labelled_init token⟩

/-- Every run of the application is one of its room, with the same of what does not
    happen on the worker's thread and with nothing of the application's but what it
    uses. -/
theorem simulates (nl : Nlohmann) (rtc : Webrtc) :
    Simulation (step nl rtc) (LicodeClient.step nl) Uses (Event.shown rtc) external Owns := by
  rintro a e b _ ⟨rfl,labelled⟩ taken
  have lives := (up_of_step taken).2
  have takes := takes_of_step taken
  have next := labelled_takes labelled takes
  cases takes with
  | @client e w elsewhere moved =>
    have shown : external e = [e] := by
      cases e <;> first | rfl | cases elsewhere
    have used : Uses a.world e := by
      cases e <;> first | exact elsewhere | cases elsewhere
    have answer : Answer (LicodeClient.step nl) Uses external a.world (external e) w [e] := .one moved used
    rw [shown] at answer
    exact ⟨w,[e],answer,rfl,next⟩
  | @work order inner w moved =>
    have first : Answer (LicodeClient.step nl) Uses external a.world [] w [.work order] := .one moved trivial
    rcases world_heeds nl rtc inner (w.calls.drop a.world.calls.length) { a with world := w } with
      same | ⟨p,up,called,subscribes⟩
    · exact ⟨w,[.work order],first,same,next⟩
    · have reported : Uses w (.dispatch (.subscribeStream (w.heap.cell p).id) inner) :=
        ⟨p,List.mem_of_mem_drop called,rfl⟩
      exact ⟨_,_,first.append (.one (step_of_up up rfl) reported),subscribes,next⟩
  | @answered streamId type sdp peer found asked reads =>
    have answer : Answer (LicodeClient.step nl) Uses external a.world [.call (.sendAnswer peer.id sdp)] _ _ :=
      .one (step_of_up (e := .call (.sendAnswer peer.id sdp)) lives rfl) trivial
    have shown : Event.shown rtc (.onSdpCreateSuccess streamId type sdp) = [.call (.sendAnswer peer.id sdp)] := by
      rw [labelled streamId peer found]
      exact if_pos reads
    rw [shown]
    exact ⟨_,_,answer,rfl,next⟩
  | @unread streamId type sdp peer found asked reads =>
    have shown : Event.shown rtc (.onSdpCreateSuccess streamId type sdp) = [] := by simp [Event.shown,reads]
    rw [shown]
    exact ⟨_,[],.nil _,rfl,next⟩
  | failed found asked => exact ⟨_,[],.nil _,rfl,next⟩
  | @candidate streamId sdpMid text sdpMLineIndex peer found made =>
    have named := labelled streamId peer found
    subst named
    exact ⟨_,_,.one (step_of_up (e := .call (.sendIceCandidate peer.id sdpMid sdpMLineIndex _)) lives rfl) trivial,
      rfl,next⟩

/-- A run of the application is a run of its room: what does not happen on the worker's
    thread is the same, with each answer and candidate sent for the stream of its peer
    connection, and the application does nothing to the room but what it uses. -/
theorem run_room {token : LicodeToken} {es : List Event} (done : run (step nl rtc) (init token) es = some a) :
    ∃ ds, run (LicodeClient.step nl) (.init token) ds = some a.world ∧
      Guarded (LicodeClient.step nl) Uses (.init token) ds ∧ ds.flatMap external = es.flatMap (Event.shown rtc) := by
  obtain ⟨w,ds,answer,rfl,-⟩ := (simulates nl rtc).answers (owns_init token) done
  exact ⟨ds,answer.done,answer.guarded,answer.shown⟩

def offerBody : Json :=
  .object [(lit "connectionId",.string (lit "c")),
    (lit "evt",.object [(lit "sdp",.string (lit "o")),(lit "type",.string (lit "offer"))]),(lit "info",.unsigned 202)]

def announceEvent : Json := .array [.string (lit "onAddStream"),announced]
def subscribeAck : Json := .array [.boolean true,.string (lit "e"),.string (lit "c")]
def offerEvent : Json := .array [.string (lit "connection_message_erizo"),offerBody]

def offering : Nlohmann := library [announceEvent,announced,subscribeAck,offerEvent,offerBody]

/-- A stream is announced, gets its connection and an offer, and is answered. -/
def answering : List Event :=
  opening.map .client ++ [.client (arrives (lit "42") announceEvent),.work .listed .listed,
    .client (arrives (lit "43222") subscribeAck),.work .listed .listed,
    .client (arrives (lit "42") offerEvent),.work .listed .listed,.onSdpCreateSuccess 7 .kAnswer (lit "a")]

/-- Reads every description and makes every peer connection. -/
def readyWebrtc : Webrtc := ⟨fun _ _ => true,fun _ => true⟩

/-- The application subscribes to the stream and answers its offer. -/
theorem run_room_answering : ∃ a ds, run (step offering readyWebrtc) (init ⟨[],[],false,[]⟩) answering = some a ∧
    (entry a.peerConnections 7).map PeerConnection.remoteDescriptions = some [lit "o"] ∧
    run (LicodeClient.step offering) (.init ⟨[],[],false,[]⟩) ds = some a.world ∧
    Guarded (LicodeClient.step offering) Uses (.init ⟨[],[],false,[]⟩) ds ∧
    ds.flatMap external = answering.flatMap (Event.shown readyWebrtc) ∧
    .call (.sendAnswer 7 (lit "a")) ∈ answering.flatMap (Event.shown readyWebrtc) := by
  have runs : (run (step offering readyWebrtc) (init ⟨[],[],false,[]⟩) answering).map (fun a =>
      decide ((entry a.peerConnections 7).map PeerConnection.remoteDescriptions = some [lit "o"])) = some true := by
    decide +kernel
  obtain ⟨a,done,offered⟩ := Option.map_eq_some_iff.mp runs
  obtain ⟨ds,room,uses,shown⟩ := run_room done
  exact ⟨a,ds,done,of_decide_eq_true offered,room,uses,shown,by simp [answering,Event.shown,readyWebrtc]⟩

end
end TestBasicExampleRoom
end LicodeClient
