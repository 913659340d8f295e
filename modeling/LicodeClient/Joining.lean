import LicodeClient.Machine

/-!
What `OnJoinRoom` makes of a response. `joinOutcome` decides it from the text
alone: the room is admitted with everything the response says, it is refused, or
the response runs into undefined behaviour. Admission assigns every field and
posts the observer's tasks; a refusal posts nothing and only leaves behind the
fields that were read before it.
-/
namespace LicodeClient
open LicodeClient.Table LicodeClient.Program
open MonadExcept (ofExcept)

/-- What a success response says. -/
structure JoinResponse where
  id : Text
  clientId : Text
  existStreams : List LicodeStreamInfo
  p2p : Option Bool
  defaultVideoBw : Int32
  maxVideoBw : Int32
  singlePc : Bool
  iceServers : List IceServer

/-- The optional member `p2p`. -/
def p2pOf (body : Json) : Except Fault (Option Bool) :=
  if body.contains "p2p" then some <$> (body.member "p2p" >>= Json.toBool) else pure none

/-- The members of a success response, in the order in which they are read. -/
def joinResponse (nl : Nlohmann) (body : Json) : Except Fault JoinResponse := do
  let id ← body.member "id" >>= Json.toText
  let clientId ← body.member "clientId" >>= Json.toText
  let streams ← body.member "streams"
  let existStreams ← streams.elements.mapM (streamInfo nl Json.memberConst)
  let p2p ← p2pOf body
  let defaultVideoBw ← body.member "defaultVideoBW" >>= Json.toInt32
  let maxVideoBw ← body.member "maxVideoBW" >>= Json.toInt32
  let singlePc ← body.member "singlePC" >>= Json.toBool
  let iceServers ← body.member "iceServers"
  let iceServers ← iceServers.elements.mapM iceServer
  return ⟨id,clientId,existStreams,p2p,defaultVideoBw,maxVideoBw,singlePc,iceServers⟩

/-- The client after it was admitted. -/
def joined (r : JoinResponse) (w : World) : World :=
  { w with
    room := { w.room with
      id := r.id
      clientId := r.clientId
      remoteStreamInfos := ∅
      p2p := r.p2p.getD w.room.p2p
      defaultVideoBw := r.defaultVideoBw
      maxVideoBw := r.maxVideoBw
      singlePc := r.singlePc
      iceServerList := r.iceServers
      state := .kConnected }
    tasks := w.tasks ++ .onJoinRoom :: r.existStreams.map .joinedStream }

/-- What a response that fails on the way leaves of the room. -/
structure JoinRest (room room' : LicodeRoom) : Prop where
  token : room'.token = room.token
  erizoId : room'.erizoId = room.erizoId
  localStreamInfos : room'.localStreamInfos = room.localStreamInfos
  remoteStreamInfos : room'.remoteStreamInfos = room.remoteStreamInfos ∨ room'.remoteStreamInfos = ∅
  pendingSubscribeStreams : room'.pendingSubscribeStreams = room.pendingSubscribeStreams
  pendingPublishLocalStreams : room'.pendingPublishLocalStreams = room.pendingPublishLocalStreams

theorem run_postJoinedStreams (infos : List LicodeStreamInfo) (w : World) :
    (postJoinedStreams infos).run w = .ok () { w with tasks := w.tasks ++ infos.map .joinedStream } := by
  induction infos generalizing w with
  | nil => simp [postJoinedStreams]
  | cons info rest ih => simp [postJoinedStreams,postTask,ih]

/-- What is left of the client when a response fails on the way. -/
def JoinFails (w w' : World) : Prop :=
  w' = { w with room := w'.room } ∧ w'.room.state = w.room.state ∧ JoinRest w.room w'.room

/-- The loop over the ICE servers reads them all, or stops at the first one
    that cannot be read. -/
theorem reads_iceServers (xs : List Json) (w w' : World) (fails : JoinFails w w') :
    Reads w' (readIceServers xs) (xs.mapM iceServer)
      (fun servers t => t = { w' with room.iceServerList := w'.room.iceServerList ++ servers }) (JoinFails w) := by
  induction xs generalizing w' with
  | nil => exact ⟨w',rfl,by simp⟩
  | cons ice rest ih =>
    simp only [readIceServers,List.mapM_cons]
    refine reads_read fails (fun server => reads_assign ?_)
    obtain ⟨whole,same,kept⟩ := fails
    have tail := ih { w' with room.iceServerList := w'.room.iceServerList ++ [server] }
      ⟨by rw [whole],same,⟨kept.1,kept.2,kept.3,kept.4,kept.5,kept.6⟩⟩
    cases read : rest.mapM iceServer with
    | error fault => rw [read] at tail; exact tail
    | ok servers =>
      rw [read] at tail
      obtain ⟨t,run,reached⟩ := tail
      exact ⟨t,run,by simp [reached]⟩

theorem reads_p2p (body : Json) (w w' : World) (fails : JoinFails w w') :
    Reads w' (readP2p body) (p2pOf body) (fun p2p t => t = { w' with room.p2p := p2p.getD w'.room.p2p })
      (JoinFails w) := by
  unfold readP2p p2pOf
  cases body.contains "p2p" with
  | false => exact ⟨w',rfl,rfl⟩
  | true =>
    simp only [if_true]
    cases body.member "p2p" >>= Json.toBool with
    | error fault => exact ⟨w',rfl,fails⟩
    | ok p2p => exact ⟨_,rfl,rfl⟩

/-- The body of a success response is read member by member. -/
theorem reads_joinBody (nl : Nlohmann) (body : Json) (w : World) :
    Reads w (joinBody nl body) (joinResponse nl body) (fun r t => t = joined r w) (JoinFails w) := by
  unfold joinBody joinResponse
  have start : JoinFails w w := ⟨rfl,rfl,⟨rfl,rfl,rfl,.inl rfl,rfl,rfl⟩⟩
  refine reads_read start (fun id => reads_assign ?_)
  refine reads_read ⟨rfl,rfl,⟨rfl,rfl,rfl,.inl rfl,rfl,rfl⟩⟩ (fun clientId => reads_assign ?_)
  -- From here on the remote streams are cleared.
  refine reads_read ⟨rfl,rfl,⟨rfl,rfl,rfl,.inr rfl,rfl,rfl⟩⟩ ?_
  intro streams
  refine reads_read ⟨rfl,rfl,⟨rfl,rfl,rfl,.inr rfl,rfl,rfl⟩⟩ ?_
  intro existStreams
  refine reads_bind (reads_p2p body w _ ?_) ?_
  · exact ⟨rfl,rfl,⟨rfl,rfl,rfl,.inr rfl,rfl,rfl⟩⟩
  rintro p2p _ rfl
  refine reads_read ⟨rfl,rfl,⟨rfl,rfl,rfl,.inr rfl,rfl,rfl⟩⟩ (fun defaultVideoBw => reads_assign ?_)
  refine reads_read ⟨rfl,rfl,⟨rfl,rfl,rfl,.inr rfl,rfl,rfl⟩⟩ (fun maxVideoBw => reads_assign ?_)
  refine reads_read ⟨rfl,rfl,⟨rfl,rfl,rfl,.inr rfl,rfl,rfl⟩⟩ (fun singlePc => reads_assign ?_)
  refine reads_read ⟨rfl,rfl,⟨rfl,rfl,rfl,.inr rfl,rfl,rfl⟩⟩ (fun iceServers => reads_assign ?_)
  refine reads_bind (reads_iceServers _ w _ ?_) ?_
  · exact ⟨rfl,rfl,⟨rfl,rfl,rfl,.inr rfl,rfl,rfl⟩⟩
  rintro servers _ rfl
  refine ⟨joined ⟨id,clientId,existStreams,p2p,defaultVideoBw,maxVideoBw,singlePc,servers⟩ w,?_,rfl⟩
  simp [update,postTask,run_postJoinedStreams,joined]

/-! ### Responses -/

/-- What becomes of a response. -/
inductive JoinOutcome where
  | admitted (response : JoinResponse)
  | refused
  | undefined

/-- A response is read as far as `OnJoinRoom` reads it: `none` is one that does
    not start with "success". -/
def readResponse (nl : Nlohmann) (msg : Text) : Except Fault (Option JoinResponse) := do
  let json ← nl.parseOrThrow msg
  let status ← json.index 0
  if status.isText "success" then
    let body ← json.index 1
    some <$> joinResponse nl body
  else
    pure none

def joinOutcome (nl : Nlohmann) (msg : Text) : JoinOutcome :=
  match readResponse nl msg with
  | .ok (some response) => .admitted response
  | .ok none => .refused
  | .error .exception => .refused
  | .error .undefined => .undefined

/-- The part of `OnJoinRoom` inside its `try`. -/
theorem reads_response (nl : Nlohmann) (msg : Text) (w : World) :
    Reads w (do
        let json ← ofExcept (nl.parseOrThrow msg)
        let status ← ofExcept (json.index 0)
        if status.isText "success" then
          let body ← ofExcept (json.index 1)
          joinBody nl body
        else
          update .kDisconnected
          let _ ← ofExcept (json.index 1))
      (readResponse nl msg)
      (fun response t =>
        match response with
        | some r => t = joined r w
        | none => t = { w with room.state := .kDisconnected }) (JoinFails w) := by
  have start : JoinFails w w := ⟨rfl,rfl,⟨rfl,rfl,rfl,.inl rfl,rfl,rfl⟩⟩
  refine reads_read start ?_
  intro json
  cases first : json.index 0 with
  | error fault => exact ⟨w,rfl,start⟩
  | ok status =>
    -- An index that can be read once can be read again.
    obtain ⟨second,readable⟩ : ∃ x, json.index 1 = .ok x := by
      cases json <;> simp [Json.index] at first ⊢
    simp only [readable,ofExcept_ok,pure_bind,ok_bind]
    by_cases success : status.isText "success" = true
    · have body := reads_joinBody nl second w
      simp only [success,if_true]
      cases read : joinResponse nl second with
      | error fault => rw [read] at body; exact body
      | ok r => rw [read] at body; exact body
    · simp only [success]
      exact ⟨_,rfl,rfl⟩

/-- What `OnJoinRoom` does, by the outcome of the response. -/
theorem onJoinRoom_spec (nl : Nlohmann) (msg : Text) (w : World) :
    match joinOutcome nl msg with
    | .admitted response => (onJoinRoom nl msg).run w = .ok () (joined response w)
    | .refused => ∃ w', JoinFails w w' ∧ (onJoinRoom nl msg).run w = .ok () { w' with room.state := .kDisconnected }
    | .undefined => ∃ w', JoinFails w w' ∧ (onJoinRoom nl msg).run w = .error .undefined w' := by
  have start : JoinFails w w := ⟨rfl,rfl,⟨rfl,rfl,rfl,.inl rfl,rfl,rfl⟩⟩
  have body := reads_response nl msg w
  unfold joinOutcome onJoinRoom catchException
  simp only [run_tryCatch]
  cases read : readResponse nl msg with
  | ok response =>
    rw [read] at body
    obtain ⟨t,run,reached⟩ := body
    rw [run]
    cases response with
    | some r => cases reached; rfl
    | none => cases reached; exact ⟨w,start,rfl⟩
  | error fault =>
    rw [read] at body
    obtain ⟨t,run,fails⟩ := body
    rw [run]
    cases fault with
    | exception => exact ⟨t,fails,rfl⟩
    | undefined => exact ⟨t,fails,rfl⟩

/-- The world that a response leaves: the room is joined, or the response got nowhere
    and at most its state changed besides. -/
theorem after_onJoinRoom (nl : Nlohmann) (msg : Text) (w : World) :
    (∃ response, joinOutcome nl msg = .admitted response ∧ after (onJoinRoom nl msg) w = joined response w) ∨
      ∃ w' state, (∀ response, joinOutcome nl msg ≠ .admitted response) ∧ JoinFails w w' ∧
        after (onJoinRoom nl msg) w = { w' with room.state := state } := by
  have spec := onJoinRoom_spec nl msg w
  cases outcome : joinOutcome nl msg with
  | admitted response =>
    rw [outcome] at spec
    exact .inl ⟨response,rfl,after_of_ok spec⟩
  | refused =>
    rw [outcome] at spec
    obtain ⟨w',fails,runs⟩ := spec
    exact .inr ⟨w',.kDisconnected,by simp,fails,after_of_ok runs⟩
  | undefined =>
    rw [outcome] at spec
    obtain ⟨w',fails,runs⟩ := spec
    exact .inr ⟨w',w'.room.state,by simp,fails,after_of_error runs⟩

/-- Whatever looks neither at the room nor at the queue is not touched. -/
theorem keeps_onJoinRoom {γ : Type*} {f : World → γ} (blind : ∀ w room tasks, f { w with room, tasks } = f w)
    (nl : Nlohmann) (msg : Text) : Keeps f (onJoinRoom nl msg) := by
  intro w
  rcases after_onJoinRoom nl msg w with ⟨response,-,same⟩ | ⟨w',state,-,⟨whole,-,-⟩,same⟩
  · rw [same]
    exact blind w _ _
  · rw [same,whole]
    exact blind w _ w.tasks

end LicodeClient
