import LicodeClient.Room

/-!
What each task does, as an equation for its run: the state it leaves behind when
it returns and when it faults.
-/
namespace LicodeClient
open LicodeClient.Table LicodeClient.Program

/-- The world with an erizo. -/
def World.withErizoId (w : World) (erizoId : Text) : World := { w with room.erizoId := erizoId }

/-- The world after `remote_stream_infos_[streamId]`. -/
def World.indexRemote (w : World) (streamId : UInt64) : World :=
  { w with room.remoteStreamInfos := index w.room.remoteStreamInfos streamId }

/-- The world after `local_stream_infos_[streamId]`. -/
def World.indexLocal (w : World) (streamId : UInt64) : World :=
  { w with room.localStreamInfos := index w.room.localStreamInfos streamId }

theorem run_remoteIndex (streamId : UInt64) (w : World) :
    (remoteIndex streamId).run w = .ok (entry w.room.remoteStreamInfos streamId) (w.indexRemote streamId) := rfl

theorem run_localIndex (streamId : UInt64) (w : World) :
    (localIndex streamId).run w = .ok (entry w.room.localStreamInfos streamId) (w.indexLocal streamId) := rfl

theorem indexRemote_of_entry {w : World} {streamId : UInt64} {p : StreamPtr}
    (found : entry w.room.remoteStreamInfos streamId = some p) : w.indexRemote streamId = w := by
  simp only [World.indexRemote,index_of_entry found]

theorem setInfo_setInfo (w : World) (p : StreamPtr) (f g : LicodeStreamInfo → LicodeStreamInfo) :
    (w.setInfo p f).setInfo p g = w.setInfo p (g ∘ f) := by
  simp [World.setInfo]

/-! ### Acks -/

/-- The erizo that the room has after an ack. -/
def noted (field : Except Fault Json) (erizoId : Text) : Except Fault Text := do
  let erizo ← field
  if erizoId = [] then erizo.toText else pure erizoId

theorem run_noteErizoId (field : Except Fault Json) (w : World) :
    (Task.noteErizoId field).run w =
      match noted field w.room.erizoId with
      | .ok erizoId => .ok () (w.withErizoId erizoId)
      | .error fault => .error fault w := by
  unfold Task.noteErizoId noted
  cases field with
  | error fault => simp [run_ofExcept]
  | ok erizo =>
    by_cases first : w.room.erizoId = []
    · cases read : erizo.toText <;> simp [run_ofExcept,first,read,World.withErizoId]
    · simp [run_ofExcept,first,World.withErizoId]

/-- What a subscribe ack says, as far as it can be read. -/
inductive SubscribeAck where
  | unreadable (fault : Fault)
  | unconnected (fault : Fault) (erizoId : Text)
  | complete (erizoId connId : Text)

def subscribeAck (json : Json) (erizoId : Text) : SubscribeAck :=
  match noted (json.indexConst 1) erizoId with
  | .error fault => .unreadable fault
  | .ok erizoId =>
    match json.indexConst 2 >>= Json.toText with
    | .error fault => .unconnected fault erizoId
    | .ok connId => .complete erizoId connId

/-- What a subscribe ack does once its stream is known: the stream is looked up
    before the connection is read, and used after it. -/
theorem run_storeSubscribeAck (json : Json) (streamId : UInt64) (w : World) :
    (Task.storeSubscribeAck json streamId).run w =
      match subscribeAck json w.room.erizoId,entry w.room.remoteStreamInfos streamId with
      | .unreadable fault,_ => .error fault w
      | .unconnected fault erizoId,_ => .error fault ((w.withErizoId erizoId).indexRemote streamId)
      | .complete erizoId _,none => .error .undefined ((w.withErizoId erizoId).indexRemote streamId)
      | .complete erizoId connId,some p => .ok ()
        { (w.withErizoId erizoId).setInfo p (fun info => { info with connectionId := connId }) with
          calls := w.calls ++ [.onSubscribeStreamAllocateConnId (some p)] } := by
  simp only [Task.storeSubscribeAck,EStateM.run_bind,run_noteErizoId,subscribeAck]
  cases noted (json.indexConst 1) w.room.erizoId with
  | error fault => rfl
  | ok erizoId =>
    have lookup : entry (w.withErizoId erizoId).room.remoteStreamInfos streamId =
      entry w.room.remoteStreamInfos streamId := rfl
    simp only [run_remoteIndex,lookup]
    cases json.indexConst 2 >>= Json.toText with
    | error fault => rfl
    | ok connId =>
      cases found : entry w.room.remoteStreamInfos streamId with
      | none => rfl
      | some p =>
        rw [indexRemote_of_entry (lookup.trans found)]
        -- The second lookup finds the stream again.
        have again := indexRemote_of_entry
          (w := (w.withErizoId erizoId).setInfo p (fun info => { info with connectionId := connId }))
            (lookup.trans found)
        show (EStateM.run (do observe (.onSubscribeStreamAllocateConnId (← remoteIndex streamId))) _) = _
        simp only [EStateM.run_bind,run_remoteIndex,again]
        rw [show entry (World.setInfo (w.withErizoId erizoId) p _).room.remoteStreamInfos streamId = some p from found]
        rfl

/-- What a publish ack says, as far as it can be read. -/
inductive PublishAck where
  | unreadable (fault : Fault)
  | unnamed (fault : Fault) (erizoId : Text)
  | unconnected (fault : Fault) (erizoId : Text) (streamId : UInt64)
  | complete (erizoId : Text) (streamId : UInt64) (connId : Text)

def publishAck (nl : Nlohmann) (msg : Text) (erizoId : Text) : PublishAck :=
  match nl.parseOrThrow msg with
  | .error fault => .unreadable fault
  | .ok json =>
    match noted (json.index 1) erizoId with
    | .error fault => .unreadable fault
    | .ok erizoId =>
      match json.index 0 >>= Json.toUInt64 with
      | .error fault => .unnamed fault erizoId
      | .ok streamId =>
        match json.index 2 >>= Json.toText with
        | .error fault => .unconnected fault erizoId streamId
        | .ok connId => .complete erizoId streamId connId

/-- What a publish ack does once its stream is known. -/
theorem run_storePublishAck (nl : Nlohmann) (msg : Text) (p : StreamPtr) (w : World) :
    (Task.storePublishAck nl msg p).run w =
      match publishAck nl msg w.room.erizoId with
      | .unreadable fault => .error fault w
      | .unnamed fault erizoId => .error fault (w.withErizoId erizoId)
      | .unconnected fault erizoId streamId =>
        .error fault ((w.withErizoId erizoId).setInfo p (fun info => { info with id := streamId }))
      | .complete erizoId streamId connId => .ok ()
        { (w.withErizoId erizoId).setInfo p (fun info => { info with id := streamId, connectionId := connId }) with
          room.localStreamInfos := w.room.localStreamInfos.insert streamId (some p) } := by
  simp only [Task.storePublishAck,EStateM.run_bind,run_ofExcept,publishAck]
  cases nl.parseOrThrow msg with
  | error fault => rfl
  | ok json =>
    simp only [run_noteErizoId]
    cases noted (json.index 1) w.room.erizoId with
    | error fault => rfl
    | ok erizoId =>
      simp only
      cases json.index 0 >>= Json.toUInt64 with
      | error fault => rfl
      | ok streamId =>
        cases json.index 2 >>= Json.toText with
        | error fault => rfl
        | ok connId =>
          simp only [setConnectionId,EStateM.run_modify,setInfo_setInfo]
          rfl

/-- An ack takes the stream at the front of its queue; that there is one is not
    checked. -/
theorem run_runOnSubscribeStream (json : Json) (w : World) :
    (Task.runOnSubscribeStream json).run w =
      match w.room.pendingSubscribeStreams with
      | [] => .error .undefined w
      | streamId :: rest =>
        (Task.storeSubscribeAck json streamId).run { w with room.pendingSubscribeStreams := rest } := by
  cases queue : w.room.pendingSubscribeStreams <;> simp [Task.runOnSubscribeStream,front,queue]

theorem run_runOnPublishStream (nl : Nlohmann) (msg : Text) (w : World) :
    (Task.runOnPublishStream nl msg).run w =
      match w.room.pendingPublishLocalStreams with
      | [] => .error .undefined w
      | p :: rest => (Task.storePublishAck nl msg p).run { w with room.pendingPublishLocalStreams := rest } := by
  cases queue : w.room.pendingPublishLocalStreams <;> simp [Task.runOnPublishStream,front,queue]

/-- A subscribe ack that does not fault was read to its end and found its
    stream. -/
theorem after_runOnSubscribeStream {json : Json} {w : World}
    (fine : faultOf (Task.runOnSubscribeStream json) w = none) :
    ∃ streamId rest erizoId connId p, w.room.pendingSubscribeStreams = streamId :: rest ∧
      subscribeAck json w.room.erizoId = .complete erizoId connId ∧
      entry w.room.remoteStreamInfos streamId = some p ∧
      after (Task.runOnSubscribeStream json) w =
        { (({ w with room.pendingSubscribeStreams := rest } : World).withErizoId erizoId).setInfo p
            (fun info => { info with connectionId := connId }) with
          calls := w.calls ++ [.onSubscribeStreamAllocateConnId (some p)] } := by
  have runs := run_runOnSubscribeStream json w
  cases queue : w.room.pendingSubscribeStreams with
  | nil =>
    rw [queue] at runs
    simp [faultOf,runs] at fine
  | cons streamId rest =>
    rw [queue] at runs
    simp only [run_storeSubscribeAck] at runs
    cases ack : subscribeAck json w.room.erizoId with
    | complete erizoId connId =>
      cases found : entry w.room.remoteStreamInfos streamId with
      | some p =>
        rw [ack,found] at runs
        exact ⟨streamId,rest,erizoId,connId,p,rfl,rfl,found,after_of_ok runs⟩
      | none => rw [ack,found] at runs; simp [faultOf,runs] at fine
    | unconnected fault erizoId => rw [ack] at runs; simp [faultOf,runs] at fine
    | unreadable fault => rw [ack] at runs; simp [faultOf,runs] at fine

/-- A publish ack that does not fault was read to its end and names a stream that
    waited for it. -/
theorem after_runOnPublishStream {nl : Nlohmann} {msg : Text} {w : World}
    (fine : faultOf (Task.runOnPublishStream nl msg) w = none) :
    ∃ p rest erizoId streamId connId, w.room.pendingPublishLocalStreams = p :: rest ∧
      publishAck nl msg w.room.erizoId = .complete erizoId streamId connId ∧
      after (Task.runOnPublishStream nl msg) w =
        { (({ w with room.pendingPublishLocalStreams := rest } : World).withErizoId erizoId).setInfo p
            (fun info => { info with id := streamId, connectionId := connId }) with
          room.localStreamInfos := w.room.localStreamInfos.insert streamId (some p) } := by
  have runs := run_runOnPublishStream nl msg w
  cases queue : w.room.pendingPublishLocalStreams with
  | nil =>
    rw [queue] at runs
    simp [faultOf,runs] at fine
  | cons p rest =>
    rw [queue] at runs
    simp only [run_storePublishAck] at runs
    cases ack : publishAck nl msg w.room.erizoId with
    | complete erizoId streamId connId =>
      rw [ack] at runs
      exact ⟨p,rest,erizoId,streamId,connId,rfl,rfl,after_of_ok runs⟩
    | _ => rw [ack] at runs; simp [faultOf,runs] at fine

/-! ### Streams that come and go -/

/-- The world with a new stream description at the next free pointer. -/
def World.allocate (w : World) (info : LicodeStreamInfo) : World :=
  { w with heap := ⟨Function.update w.heap.cell w.heap.next info,w.heap.next + 1⟩ }

theorem run_runJoinedStream (info : LicodeStreamInfo) (w : World) :
    (Task.runJoinedStream info).run w = .ok ()
      { w.allocate info with
        room.remoteStreamInfos := emplace w.room.remoteStreamInfos info.id w.heap.next
        calls := w.calls ++ [.onAddRemoteStream w.heap.next] } := rfl

/-- The description that replaces an own stream's when the stream is announced. -/
def LicodeStreamInfo.announced (info own : LicodeStreamInfo) : LicodeStreamInfo :=
  { info with connectionId := own.connectionId }

theorem run_runOnAddStream (info : LicodeStreamInfo) (w : World) :
    (Task.runOnAddStream info).run w = .ok ()
      (match entry w.room.localStreamInfos info.id with
      | some own =>
        { (w.allocate info).setInfo w.heap.next (·.announced ((w.allocate info).heap.cell own)) with
          room.localStreamInfos := w.room.localStreamInfos.insert info.id (some w.heap.next) }
      | none =>
        { (w.allocate info).indexLocal info.id with
          room.remoteStreamInfos := w.room.remoteStreamInfos.insert info.id (some w.heap.next)
          calls := w.calls ++ [.onAddRemoteStream w.heap.next] }) := by
  have lookup : (Task.runOnAddStream info).run w =
      (match entry w.room.localStreamInfos info.id with
      | some own => do
        setConnectionId w.heap.next ((← get).heap.cell own).connectionId
        modify fun v => { v with room.localStreamInfos := v.room.localStreamInfos.insert info.id (some w.heap.next) }
      | none => do
        modify fun v => { v with room.remoteStreamInfos := v.room.remoteStreamInfos.insert info.id (some w.heap.next) }
        observe (.onAddRemoteStream w.heap.next) : Exec Unit).run ((w.allocate info).indexLocal info.id) := rfl
  rw [lookup]
  cases found : entry w.room.localStreamInfos info.id with
  | some own =>
    have same : (w.allocate info).indexLocal info.id = w.allocate info := by
      simp only [World.indexLocal,World.allocate,index_of_entry found]
    rw [same]
    rfl
  | none => rfl

/-! ### Events of a connection -/

/-- What a loop over a table finds: the first stream with the connection, unless
    it meets a null pointer before. -/
def findIn (cell : StreamPtr → LicodeStreamInfo) (connId : Text) :
    List (Sigma fun _ : UInt64 => Option StreamPtr) → Except Fault (Option StreamPtr)
  | [] => .ok none
  | ⟨_,none⟩ :: _ => .error .undefined
  | ⟨_,some p⟩ :: rest => if (cell p).connectionId = connId then .ok (some p) else findIn cell connId rest

section
variable {cell : StreamPtr → LicodeStreamInfo} {connId : Text}
  {entries : List (Sigma fun _ : UInt64 => Option StreamPtr)}

theorem findIn_some {p : StreamPtr} (finds : findIn cell connId entries = .ok (some p)) :
    (∃ streamId, ⟨streamId,some p⟩ ∈ entries) ∧ (cell p).connectionId = connId := by
  induction entries with
  | nil => cases finds
  | cons binding rest ih =>
    obtain ⟨streamId,q⟩ := binding
    cases q with
    | none => cases finds
    | some q =>
      by_cases here : (cell q).connectionId = connId
      · simp only [findIn,here,if_true,Except.ok.injEq,Option.some.injEq] at finds
        subst finds
        exact ⟨⟨streamId,by simp⟩,here⟩
      · simp only [findIn,here,if_false] at finds
        obtain ⟨⟨other,member⟩,same⟩ := ih finds
        exact ⟨⟨other,List.mem_cons_of_mem _ member⟩,same⟩

theorem findIn_none (finds : findIn cell connId entries = .ok none) :
    ∀ streamId p, ⟨streamId,some p⟩ ∈ entries → (cell p).connectionId ≠ connId := by
  induction entries with
  | nil => intro _ _ member; cases member
  | cons binding rest ih =>
    obtain ⟨other,q⟩ := binding
    cases q with
    | none => cases finds
    | some q =>
      by_cases here : (cell q).connectionId = connId
      · simp [findIn,here] at finds
      · simp only [findIn,here,if_false] at finds
        intro streamId p member
        rcases List.mem_cons.mp member with same | later
        · cases same; exact here
        · exact ih finds streamId p later

end

theorem run_findConnection (connId : Text) (entries : List (Sigma fun _ : UInt64 => Option StreamPtr)) (w : World) :
    (Task.findConnection connId entries).run w =
      match findIn w.heap.cell connId entries with
      | .ok found => .ok found w
      | .error fault => .error fault w := by
  induction entries with
  | nil => rfl
  | cons first rest ih =>
    obtain ⟨k,p⟩ := first
    cases p with
    | none => rfl
    | some p =>
      by_cases here : (w.heap.cell p).connectionId = connId
      · simp [Task.findConnection,nonNull,findIn,here]
      · simp [Task.findConnection,nonNull,findIn,here,ih]

theorem run_markConnected (connId : Text) (entries : List (Sigma fun _ : UInt64 => Option StreamPtr)) (w : World) :
    (Task.markConnected connId entries).run w =
      match findIn w.heap.cell connId entries with
      | .error fault => .error fault w
      | .ok (some p) => .ok (some p) (w.setInfo p (fun info => { info with connected := true }))
      | .ok none => .ok none w := by
  simp only [Task.markConnected,EStateM.run_bind,run_findConnection]
  cases findIn w.heap.cell connId entries with
  | error fault => rfl
  | ok found => cases found <;> rfl

/-- The stream of a connection, remote streams before local ones. -/
def World.streamOf (w : World) (order : Order UInt64 StreamPtr) (connId : Text) : Except Fault (Option StreamPtr) :=
  match findIn w.heap.cell connId (order.arrange w.room.remoteStreamInfos.entries) with
  | .error fault => .error fault
  | .ok (some p) => .ok (some p)
  | .ok none => findIn w.heap.cell connId (order.arrange w.room.localStreamInfos.entries)

theorem run_runOnPeerConnectionConnectErizoReady (order : Order UInt64 StreamPtr) (connId : Text) (w : World) :
    (Task.runOnPeerConnectionConnectErizoReady order connId).run w =
      match w.streamOf order connId with
      | .error fault => .error fault w
      | .ok (some p) => .ok ()
        { w.setInfo p (fun info => { info with connected := true }) with
          calls := w.calls ++ [.onStreamConnectReady (some p)] }
      | .ok none => .ok () { w with calls := w.calls ++ [.onStreamConnectReady none] } := by
  simp only [Task.runOnPeerConnectionConnectErizoReady,EStateM.run_bind,EStateM.run_get,run_markConnected,
    World.streamOf]
  cases findIn w.heap.cell connId (order.arrange w.room.remoteStreamInfos.entries) with
  | error fault => rfl
  | ok remote =>
    cases remote with
    | some p => rfl
    | none =>
      simp only [EStateM.run_bind,EStateM.run_get,run_markConnected]
      cases findIn w.heap.cell connId (order.arrange w.room.localStreamInfos.entries) with
      | error fault => rfl
      | ok own => cases own <;> rfl

theorem run_runReceiveOffer (order : Order UInt64 StreamPtr) (connId sdp : Text) (w : World) :
    (Task.runReceiveOffer order connId sdp).run w =
      match findIn w.heap.cell connId (order.arrange w.room.remoteStreamInfos.entries) with
      | .error fault => .error fault w
      | .ok found => .ok () { w with calls := w.calls ++ [.onReceiveOffer found sdp] } := by
  simp only [Task.runReceiveOffer,EStateM.run_bind,EStateM.run_get,run_findConnection]
  cases findIn w.heap.cell connId (order.arrange w.room.remoteStreamInfos.entries) <;> rfl

/-! ### Frames of a connection -/

theorem run_runOfferOrAnswer (type : String) (streamId : UInt64) (sdp : Text) (w : World) :
    (Task.runOfferOrAnswer type streamId sdp).run w =
      match entry w.room.remoteStreamInfos streamId with
      | none => .error .undefined (w.indexRemote streamId)
      | some p =>
        (signalingSendMsg (.offerOrAnswer (lit type) (w.heap.cell p).connectionId w.room.erizoId sdp)).run w := by
  simp only [Task.runOfferOrAnswer,EStateM.run_bind,run_remoteIndex]
  cases found : entry w.room.remoteStreamInfos streamId with
  | none => rfl
  | some p =>
    rw [indexRemote_of_entry found]
    rfl

theorem run_runSendIceCandidate (streamId : UInt64) (sdpMid : Text) (sdpMLineIndex : Int32) (candidate : Text)
    (w : World) :
    (Task.runSendIceCandidate streamId sdpMid sdpMLineIndex candidate).run w =
      match entry w.room.remoteStreamInfos streamId with
      | some p => (signalingSendMsg
          (.iceCandidate w.room.erizoId (w.heap.cell p).connectionId sdpMid sdpMLineIndex candidate)).run w
      | none =>
        match entry w.room.localStreamInfos streamId with
        | some p => (signalingSendMsg
            (.iceCandidate w.room.erizoId (w.heap.cell p).connectionId sdpMid sdpMLineIndex candidate)).run
            (w.indexRemote streamId)
        | none => .error .undefined ((w.indexRemote streamId).indexLocal streamId) := by
  simp only [Task.runSendIceCandidate,EStateM.run_bind,run_remoteIndex]
  cases found : entry w.room.remoteStreamInfos streamId with
  | some p =>
    rw [indexRemote_of_entry found]
    rfl
  | none =>
    simp only [EStateM.run_bind,run_localIndex]
    cases own : entry w.room.localStreamInfos streamId with
    | none =>
      rw [show entry (w.indexRemote streamId).room.localStreamInfos streamId = none from own]
      rfl
    | some p =>
      have same : (w.indexRemote streamId).indexLocal streamId = w.indexRemote streamId := by
        simp only [World.indexLocal,World.indexRemote,index_of_entry own]
      rw [show entry (w.indexRemote streamId).room.localStreamInfos streamId = some p from own,same]
      rfl

end LicodeClient
