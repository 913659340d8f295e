import LicodeClient.Json
import Mathlib.Data.List.Induction

/-!
`WebrtcConnection` between a peer connection and its observer: the callbacks of the
peer connection that it hands on. A change of the connection's state is kept as an
optional flag, and whether the peer is connected is then asked of the optional, not
of the flag in it. So an observer hears that a peer is connected when it has been
disconnected, and hears right exactly as long as that does not happen
(`tracks_iff`).
-/
namespace LicodeClient.Peer

/-- `PeerConnectionInterface::PeerConnectionState`. -/
inductive PeerConnectionState where
  | kNew
  | kConnecting
  | kConnected
  | kDisconnected
  | kFailed
  | kClosed
  deriving DecidableEq, Repr

/-- `webrtc::SdpType`. -/
inductive SdpType where
  | kOffer
  | kPrAnswer
  | kAnswer
  | kRollback
  deriving DecidableEq, Repr

/-- The kinds of tracks. -/
inductive TrackKind where
  | video
  | audio
  | other
  deriving DecidableEq

/-- Calls of `WebrtcPeerConnectionObserver`. -/
inductive PeerCall where
  | onSdpCreateSuccess (type : SdpType) (sdp : Text)
  | onSdpCreateFailure (error : Text)
  | onIceCandidate (candidate : Text)
  | onPeerConnect
  | onPeerDisconnect
  | onAddRemoteVideoTrack (track : Text)
  | onRemoveRemoteVideoTrack (track : Text)
  | onAddRemoteAudioTrack (track : Text)
  | onRemoveRemoteAudioTrack (track : Text)
  deriving DecidableEq

/-- `WebrtcConnection` with the calls that its observer has received, if it has one. -/
structure WebrtcConnection where
  webrtcObserver : Bool
  calls : List PeerCall := []

namespace WebrtcConnection

/-- A call of the observer, when there is one. -/
def notify (call : PeerCall) (c : WebrtcConnection) : WebrtcConnection :=
  if c.webrtcObserver then { c with calls := c.calls ++ [call] } else c

/-- `WebrtcConnection::OnConnectionChange`. -/
def onConnectionChange (newState : PeerConnectionState) (c : WebrtcConnection) : WebrtcConnection :=
  let connected : Option Bool :=
    if newState = .kConnected then some true
    else if newState = .kDisconnected then some false
    else none
  if connected.isSome && c.webrtcObserver then
    -- The condition is the optional itself, which is true when it holds a value.
    if connected.isSome then c.notify .onPeerConnect else c.notify .onPeerDisconnect
  else c

/-- `WebrtcConnection::OnAddTrack`. -/
def onAddTrack (kind : TrackKind) (track : Text) (c : WebrtcConnection) : WebrtcConnection :=
  match kind with
  | .video => c.notify (.onAddRemoteVideoTrack track)
  | .audio => c.notify (.onAddRemoteAudioTrack track)
  | .other => c

/-- `WebrtcConnection::OnRemoveTrack`. -/
def onRemoveTrack (kind : TrackKind) (track : Text) (c : WebrtcConnection) : WebrtcConnection :=
  match kind with
  | .video => c.notify (.onRemoveRemoteVideoTrack track)
  | .audio => c.notify (.onRemoveRemoteAudioTrack track)
  | .other => c

end WebrtcConnection

/-- The callbacks that do more than log. -/
inductive Callback where
  | onSuccess (type : SdpType) (sdp : Text)
  | onFailure (error : Text)
  | onIceCandidate (candidate : Text)
  | onConnectionChange (newState : PeerConnectionState)
  | onAddTrack (kind : TrackKind) (track : Text)
  | onRemoveTrack (kind : TrackKind) (track : Text)

def Callback.handle : Callback → WebrtcConnection → WebrtcConnection
  | .onSuccess type sdp => .notify (.onSdpCreateSuccess type sdp)
  | .onFailure error => .notify (.onSdpCreateFailure error)
  | .onIceCandidate candidate => .notify (.onIceCandidate candidate)
  | .onConnectionChange newState => .onConnectionChange newState
  | .onAddTrack kind track => .onAddTrack kind track
  | .onRemoveTrack kind track => .onRemoveTrack kind track

/-! ### What an observer hears of the connection -/

/-- What a call says about the connection, if anything. -/
def PeerCall.tells : PeerCall → Option Bool
  | .onPeerConnect => some true
  | .onPeerDisconnect => some false
  | _ => none

/-- What a callback says about the connection, if anything. -/
def Callback.tells : Callback → Option Bool
  | .onConnectionChange .kConnected => some true
  | .onConnectionChange .kDisconnected => some false
  | _ => none

/-- What the observer has heard of the connection. -/
def WebrtcConnection.heard (c : WebrtcConnection) : List Bool := c.calls.filterMap PeerCall.tells

theorem heard_notify {c : WebrtcConnection} (installed : c.webrtcObserver = true) (call : PeerCall) :
    (c.notify call).heard = c.heard ++ call.tells.toList := by
  unfold WebrtcConnection.heard WebrtcConnection.notify
  rw [if_pos installed]
  cases told : call.tells <;> simp [told]

theorem installed_handle {c : WebrtcConnection} (installed : c.webrtcObserver = true) (callback : Callback) :
    (callback.handle c).webrtcObserver = true := by
  have kept : ∀ call, (c.notify call).webrtcObserver = true := by
    intro call
    rw [WebrtcConnection.notify,if_pos installed]
    exact installed
  cases callback with
  | onSuccess type sdp => exact kept _
  | onFailure error => exact kept _
  | onIceCandidate candidate => exact kept _
  | onConnectionChange newState =>
    cases newState <;> simp [Callback.handle,WebrtcConnection.onConnectionChange,installed,kept]
  | onAddTrack kind track => cases kind <;> first | exact kept _ | exact installed
  | onRemoveTrack kind track => cases kind <;> first | exact kept _ | exact installed

/-- One callback: the observer hears of every change to or from connected, and each
    time that the peer is connected. -/
theorem heard_handle {c : WebrtcConnection} (installed : c.webrtcObserver = true) (callback : Callback) :
    (callback.handle c).heard = c.heard ++ (callback.tells.map (fun _ => true)).toList := by
  have silent : ∀ call : PeerCall, call.tells = none → (c.notify call).heard = c.heard ++ [] := by
    intro call none
    rw [heard_notify installed,none]
    rfl
  have still : c.heard = c.heard ++ [] := (List.append_nil _).symm
  cases callback with
  | onSuccess type sdp => exact silent _ rfl
  | onFailure error => exact silent _ rfl
  | onIceCandidate candidate => exact silent _ rfl
  | onConnectionChange newState =>
    cases newState with
    | kConnected =>
      simp only [Callback.handle,WebrtcConnection.onConnectionChange,installed]
      exact heard_notify installed _
    | kDisconnected =>
      simp only [Callback.handle,WebrtcConnection.onConnectionChange,installed]
      exact heard_notify installed _
    | _ => exact still
  | onAddTrack kind track => cases kind <;> first | exact silent _ rfl | exact still
  | onRemoveTrack kind track => cases kind <;> first | exact silent _ rfl | exact still

/-- A new connection with an observer, after some callbacks. -/
def observed (callbacks : List Callback) : WebrtcConnection :=
  callbacks.foldl (fun c callback => callback.handle c) { webrtcObserver := true }

theorem observed_snoc (callbacks : List Callback) (callback : Callback) :
    observed (callbacks ++ [callback]) = callback.handle (observed callbacks) := by
  rw [observed,List.foldl_append,List.foldl_cons,List.foldl_nil,observed]

/-- After any callbacks the observer has heard of every change, and each time that
    the peer is connected. -/
theorem heard_observed (callbacks : List Callback) :
    (observed callbacks).webrtcObserver = true ∧
      (observed callbacks).heard = (callbacks.filterMap Callback.tells).map (fun _ => true) := by
  induction callbacks using List.reverseRecOn with
  | nil => exact ⟨rfl,rfl⟩
  | append_singleton callbacks callback ih =>
    rw [observed_snoc]
    refine ⟨installed_handle ih.1 callback,?_⟩
    rw [heard_handle ih.1,ih.2,List.filterMap_append,List.map_append]
    cases told : callback.tells <;> simp [told]

/-- After each callback the last thing that the observer has heard is what the last
    change to connected or disconnected says, and no other callback tells it so. -/
def Tracks (callbacks : List Callback) : Prop :=
  ∀ earlier callback, earlier ++ [callback] <+: callbacks →
    (observed (earlier ++ [callback])).heard.getLast? =
        ((earlier ++ [callback]).filterMap Callback.tells).getLast? ∧
      (callback.tells = none → (observed (earlier ++ [callback])).heard = (observed earlier).heard)

theorem tells_eq_false_iff (callback : Callback) :
    callback.tells = some false ↔ callback = .onConnectionChange .kDisconnected := by
  cases callback with
  | onConnectionChange newState => cases newState <;> simp [Callback.tells]
  | _ => simp [Callback.tells]

/-- Without a disconnection every change says that the peer is connected. -/
theorem filterMap_tells {callbacks : List Callback} (never : .onConnectionChange .kDisconnected ∉ callbacks) :
    (callbacks.filterMap Callback.tells).map (fun _ => true) = callbacks.filterMap Callback.tells := by
  refine (List.map_congr_left (fun said member => ?_)).trans (List.map_id _)
  obtain ⟨callback,listed,told⟩ := List.mem_filterMap.mp member
  cases said with
  | true => rfl
  | false =>
    rw [(tells_eq_false_iff callback).mp told] at listed
    exact absurd listed never

/-- The observer's reports follow the connection exactly when it is never
    disconnected. -/
theorem tracks_iff (callbacks : List Callback) :
    Tracks callbacks ↔ .onConnectionChange .kDisconnected ∉ callbacks := by
  constructor
  · intro tracks listed
    obtain ⟨earlier,later,split⟩ := List.append_of_mem listed
    have first : earlier ++ [.onConnectionChange .kDisconnected] <+: callbacks := ⟨later,by simp [split]⟩
    have last := (tracks earlier _ first).1
    rw [(heard_observed _).2,List.filterMap_append,List.map_append] at last
    simp [Callback.tells] at last
  · intro never earlier callback first
    have apart : .onConnectionChange .kDisconnected ∉ earlier ++ [callback] :=
      fun listed => never (first.subset listed)
    refine ⟨?_,fun silent => ?_⟩
    · rw [(heard_observed _).2,filterMap_tells apart]
    · rw [(heard_observed _).2,(heard_observed _).2,List.filterMap_append]
      simp [silent]

/-- A peer that is lost is reported as connected. -/
theorem tracks_fails :
    (observed [.onConnectionChange .kConnected,.onConnectionChange .kDisconnected]).calls =
        [.onPeerConnect,.onPeerConnect] ∧
      ¬ Tracks [.onConnectionChange .kConnected,.onConnectionChange .kDisconnected] := by
  refine ⟨rfl,fun tracks => ?_⟩
  have last := (tracks [.onConnectionChange .kConnected] (.onConnectionChange .kDisconnected) ⟨[],rfl⟩).1
  revert last
  decide

end LicodeClient.Peer
