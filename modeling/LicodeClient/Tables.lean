import LicodeClient.Streams

/-!
Null pointers in the tables. Five operations look a stream up with `operator[]`,
which binds a key that is not bound to null, and the loops over the tables
dereference every entry they meet. The tables are free of null pointers along a
run, and with them the loops free of faults, exactly as long as every such
lookup is made with a key that is bound (`clean_iff`).
-/
namespace LicodeClient
open LicodeClient.Table LicodeClient.Program LicodeClient.Run

/-- No entry of either table is null, and no loop over them faults. -/
structure Clean (w : World) : Prop where
  localStreams : NoNull w.room.localStreamInfos
  remoteStreams : NoNull w.room.remoteStreamInfos
  loops : ∀ order connId sdp, faultOf (Task.runReceiveOffer order connId sdp) w = none ∧
    faultOf (Task.runOnPeerConnectionConnectErizoReady order connId) w = none

/-- The lookups of a task find their keys bound: the stream that is announced
    among the local ones, the stream that is answered, offered or given a
    candidate among the remote ones, and so the stream at the front of the queue
    when a subscribe ack gets to look it up. -/
def Task.LooksUpBound (w : World) : Task → Prop
  | .onAddStream info => info.id ∈ w.room.localStreamInfos
  | .onSubscribeStream json => ∀ streamId rest, w.room.pendingSubscribeStreams = streamId :: rest →
      (∃ fault, subscribeAck json w.room.erizoId = .unreadable fault) ∨ streamId ∈ w.room.remoteStreamInfos
  | .sendAnswer streamId _ | .sendOffer streamId _ | .sendIceCandidate streamId _ _ _ =>
    streamId ∈ w.room.remoteStreamInfos
  | _ => True

/-- The condition on the task that an event runs. -/
def LooksUpBound (w : World) (e : Event) : Prop :=
  ∀ task order v, started w e = some (task,order,v) → task.LooksUpBound v

/-! ### Loops -/

theorem findIn_ok {cell : StreamPtr → LicodeStreamInfo} {connId : Text}
    {entries : List (Sigma fun _ : UInt64 => Option StreamPtr)}
    (clean : ∀ binding ∈ entries, binding.2 ≠ none) : ∃ found, findIn cell connId entries = .ok found := by
  induction entries with
  | nil => exact ⟨none,rfl⟩
  | cons binding rest ih =>
    obtain ⟨streamId,p⟩ := binding
    cases p with
    | none => exact absurd rfl (clean ⟨streamId,none⟩ (by simp))
    | some p =>
      by_cases here : (cell p).connectionId = connId
      · exact ⟨some p,by simp [findIn,here]⟩
      · obtain ⟨found,finds⟩ := ih (fun binding member => clean binding (by simp [member]))
        exact ⟨found,by simp [findIn,here,finds]⟩

theorem findIn_table {t : StreamTable} (clean : NoNull t) (cell : StreamPtr → LicodeStreamInfo) (connId : Text)
    (order : Order UInt64 StreamPtr) : ∃ found, findIn cell connId (order.arrange t.entries) = .ok found := by
  refine findIn_ok ?_
  intro binding member null
  obtain ⟨streamId,p⟩ := binding
  have bound := (mem_entries_iff t streamId p).mp ((order.perm t.entries).mem_iff.mp member)
  exact clean streamId (bound.trans (congrArg some null))

/-- Tables without null pointers keep the loops from faulting. -/
theorem clean_of_noNull {w : World} (own : NoNull w.room.localStreamInfos) (remote : NoNull w.room.remoteStreamInfos) :
    Clean w := by
  refine ⟨own,remote,fun order connId sdp => ?_⟩
  obtain ⟨found,finds⟩ := findIn_table remote w.heap.cell connId order
  obtain ⟨found',finds'⟩ := findIn_table own w.heap.cell connId order
  constructor
  · simp only [faultOf,run_runReceiveOffer,finds]
  · simp only [faultOf,run_runOnPeerConnectionConnectErizoReady,World.streamOf,finds]
    cases found with
    | some p => rfl
    | none =>
      simp only [finds']
      cases found' <;> rfl

/-! ### Tasks -/

/-- The two tables without null pointers. -/
def Streams.NoNulls (s : Streams) : Prop := NoNull s.localStreamInfos ∧ NoNull s.remoteStreamInfos

theorem not_mem_of_entry {t : StreamTable} (clean : NoNull t) {streamId : UInt64} (none : entry t streamId = none) :
    streamId ∉ t := by
  intro bound
  obtain ⟨p,found⟩ := (mem_iff_entry clean streamId).mp bound
  simp [none] at found

theorem noNulls_runOnAddStream (info : LicodeStreamInfo) {w : World} (clean : w.streams.NoNulls) :
    (after (Task.runOnAddStream info) w).streams.NoNulls ↔ info.id ∈ w.room.localStreamInfos := by
  rw [after_of_ok (run_runOnAddStream info w)]
  cases found : entry w.room.localStreamInfos info.id with
  | some own => exact ⟨fun _ => mem_of_entry found,fun _ => ⟨noNull_insert clean.1 _ _,clean.2⟩⟩
  | none =>
    have unbound := not_mem_of_entry clean.1 found
    exact ⟨fun both => (noNull_index_iff clean.1 info.id).mp both.1,fun bound => absurd bound unbound⟩

theorem noNulls_indexRemote {w : World} (clean : w.streams.NoNulls) (streamId : UInt64) :
    (w.indexRemote streamId).streams.NoNulls ↔ streamId ∈ w.room.remoteStreamInfos :=
  ⟨fun both => (noNull_index_iff clean.2 streamId).mp both.2,
    fun bound => ⟨clean.1,(noNull_index_iff clean.2 streamId).mpr bound⟩⟩

theorem noNulls_storeSubscribeAck (json : Json) (streamId : UInt64) {w : World} (clean : w.streams.NoNulls) :
    (after (Task.storeSubscribeAck json streamId) w).streams.NoNulls ↔
      (∃ fault, subscribeAck json w.room.erizoId = .unreadable fault) ∨ streamId ∈ w.room.remoteStreamInfos := by
  have runs := run_storeSubscribeAck json streamId w
  cases ack : subscribeAck json w.room.erizoId with
  | unreadable fault =>
    rw [ack] at runs
    rw [after_of_error runs]
    exact ⟨fun _ => .inl ⟨fault,rfl⟩,fun _ => clean⟩
  | unconnected fault erizoId =>
    rw [ack] at runs
    rw [after_of_error runs,noNulls_indexRemote (w := w.withErizoId erizoId) clean]
    simp [World.withErizoId]
  | complete erizoId connId =>
    rw [ack] at runs
    cases found : entry w.room.remoteStreamInfos streamId with
    | none =>
      rw [found] at runs
      rw [after_of_error runs,noNulls_indexRemote (w := w.withErizoId erizoId) clean]
      simp [World.withErizoId]
    | some p =>
      rw [found] at runs
      rw [after_of_ok runs]
      exact ⟨fun _ => .inr (mem_of_entry found),fun _ => clean⟩

theorem noNulls_storePublishAck (nl : Nlohmann) (msg : Text) (p : StreamPtr) {w : World} (clean : w.streams.NoNulls) :
    (after (Task.storePublishAck nl msg p) w).streams.NoNulls := by
  have runs := run_storePublishAck nl msg p w
  cases ack : publishAck nl msg w.room.erizoId with
  | complete erizoId streamId connId =>
    rw [ack] at runs
    rw [after_of_ok runs]
    exact ⟨noNull_insert clean.1 _ _,clean.2⟩
  | _ =>
    rw [ack] at runs
    rw [after_of_error runs]
    exact clean

theorem noNulls_runOfferOrAnswer (type : String) (streamId : UInt64) (sdp : Text) {w : World}
    (clean : w.streams.NoNulls) :
    (after (Task.runOfferOrAnswer type streamId sdp) w).streams.NoNulls ↔ streamId ∈ w.room.remoteStreamInfos := by
  have runs := run_runOfferOrAnswer type streamId sdp w
  cases found : entry w.room.remoteStreamInfos streamId with
  | none =>
    rw [found] at runs
    rw [after_of_error runs]
    exact noNulls_indexRemote clean streamId
  | some p =>
    rw [found] at runs
    rw [after_congr runs,streams_signalingSendMsg]
    exact ⟨fun _ => mem_of_entry found,fun _ => clean⟩

theorem noNulls_runSendIceCandidate (streamId : UInt64) (sdpMid : Text) (sdpMLineIndex : Int32) (candidate : Text)
    {w : World} (clean : w.streams.NoNulls) :
    (after (Task.runSendIceCandidate streamId sdpMid sdpMLineIndex candidate) w).streams.NoNulls ↔
      streamId ∈ w.room.remoteStreamInfos := by
  have runs := run_runSendIceCandidate streamId sdpMid sdpMLineIndex candidate w
  cases found : entry w.room.remoteStreamInfos streamId with
  | some p =>
    rw [found] at runs
    rw [after_congr runs,streams_signalingSendMsg]
    exact ⟨fun _ => mem_of_entry found,fun _ => clean⟩
  | none =>
    -- The lookup among the remote streams has bound the key to null.
    rw [found] at runs
    have unbound := not_mem_of_entry clean.2 found
    have null : ¬ NoNull (index w.room.remoteStreamInfos streamId) :=
      fun all => unbound ((noNull_index_iff clean.2 streamId).mp all)
    refine ⟨fun both => absurd ?_ null,fun bound => absurd bound unbound⟩
    cases own : entry w.room.localStreamInfos streamId with
    | some p =>
      rw [own] at runs
      rw [after_congr runs,streams_signalingSendMsg] at both
      exact both.2
    | none =>
      rw [own] at runs
      rw [after_of_error runs] at both
      exact both.2

theorem noNulls_runReady (order : Order UInt64 StreamPtr) (connId : Text) {w : World} (clean : w.streams.NoNulls) :
    (after (Task.runOnPeerConnectionConnectErizoReady order connId) w).streams.NoNulls := by
  have runs := run_runOnPeerConnectionConnectErizoReady order connId w
  cases stream : w.streamOf order connId with
  | error fault => rw [stream] at runs; rw [after_of_error runs]; exact clean
  | ok found =>
    rw [stream] at runs
    cases found <;> rw [after_of_ok runs] <;> exact clean

theorem noNulls_runReceiveOffer (order : Order UInt64 StreamPtr) (connId sdp : Text) {w : World}
    (clean : w.streams.NoNulls) :
    (after (Task.runReceiveOffer order connId sdp) w).streams.NoNulls := by
  have runs := run_runReceiveOffer order connId sdp w
  cases stream : findIn w.heap.cell connId (order.arrange w.room.remoteStreamInfos.entries) with
  | error fault => rw [stream] at runs; rw [after_of_error runs]; exact clean
  | ok found => rw [stream] at runs; rw [after_of_ok runs]; exact clean

theorem noNulls_request {g : World → World} (queues : ∀ w : World, w.streams.NoNulls → (g w).streams.NoNulls)
    (msg : Packet) {w : World} (clean : w.streams.NoNulls) :
    (after (do modify g; signalingSendMsg msg : Exec Unit) w).streams.NoNulls := by
  rw [streams_request]
  exact queues w clean

theorem noNulls_signalingSendMsg (msg : Packet) {w : World} (clean : w.streams.NoNulls) :
    (after (signalingSendMsg msg) w).streams.NoNulls := by
  rw [streams_signalingSendMsg]
  exact clean

/-- A task keeps the tables free of null pointers exactly when its lookups find
    their keys. -/
theorem task_noNulls_iff (nl : Nlohmann) (order : Order UInt64 StreamPtr) (task : Task) {w : World}
    (clean : w.streams.NoNulls) : (after (task.run nl order) w).streams.NoNulls ↔ task.LooksUpBound w := by
  cases task with
  | onJoinRoom => exact ⟨fun _ => trivial,fun _ => clean⟩
  | joinedStream info =>
    refine ⟨fun _ => trivial,fun _ => ?_⟩
    show (after (Task.runJoinedStream info) w).streams.NoNulls
    rw [after_of_ok (run_runJoinedStream info w)]
    exact ⟨clean.1,noNull_emplace clean.2 _ _⟩
  | onAddStream info => exact noNulls_runOnAddStream info clean
  | onRemoveStream streamId => exact ⟨fun _ => trivial,fun _ => ⟨clean.1,noNull_erase clean.2 _⟩⟩
  | onSubscribeStream json =>
    show (after (Task.runOnSubscribeStream json) w).streams.NoNulls ↔ _
    have runs := run_runOnSubscribeStream json w
    cases queue : w.room.pendingSubscribeStreams with
    | nil =>
      rw [queue] at runs
      rw [after_of_error runs]
      exact ⟨fun _ streamId rest same => by simp [queue] at same,fun _ => clean⟩
    | cons streamId rest =>
      rw [queue] at runs
      rw [after_congr runs,
        noNulls_storeSubscribeAck json streamId (w := { w with room.pendingSubscribeStreams := rest }) clean]
      simp only [Task.LooksUpBound,queue,List.cons.injEq]
      constructor
      · rintro bound _ _ ⟨rfl,rfl⟩
        exact bound
      · intro bound
        exact bound streamId rest ⟨rfl,rfl⟩
  | onPublishStream msg =>
    refine ⟨fun _ => trivial,fun _ => ?_⟩
    show (after (Task.runOnPublishStream nl msg) w).streams.NoNulls
    have runs := run_runOnPublishStream nl msg w
    cases queue : w.room.pendingPublishLocalStreams with
    | nil => rw [queue] at runs; rw [after_of_error runs]; exact clean
    | cons p rest =>
      rw [queue] at runs
      rw [after_congr runs]
      exact noNulls_storePublishAck nl msg p (w := { w with room.pendingPublishLocalStreams := rest }) clean
  | onPeerConnectionConnectErizoReady connId => exact ⟨fun _ => trivial,fun _ => noNulls_runReady order connId clean⟩
  | receiveOffer connId sdp => exact ⟨fun _ => trivial,fun _ => noNulls_runReceiveOffer order connId sdp clean⟩
  | publishStream info label => exact ⟨fun _ => trivial,fun _ => noNulls_request (fun _ clean => clean) _ clean⟩
  | subscribeStream streamId => exact ⟨fun _ => trivial,fun _ => noNulls_request (fun _ clean => clean) _ clean⟩
  | unPublishStream streamId => exact ⟨fun _ => trivial,fun _ => noNulls_signalingSendMsg _ clean⟩
  | unSubscriberStream streamId => exact ⟨fun _ => trivial,fun _ => noNulls_signalingSendMsg _ clean⟩
  | sendAnswer streamId sdp => exact noNulls_runOfferOrAnswer "answer" streamId sdp clean
  | sendOffer streamId sdp => exact noNulls_runOfferOrAnswer "offer" streamId sdp clean
  | sendIceCandidate streamId sdpMid sdpMLineIndex candidate =>
    exact noNulls_runSendIceCandidate streamId sdpMid sdpMLineIndex candidate clean

/-! ### Runs -/

theorem step_clean_iff {nl : Nlohmann} {w w' : World} {e : Event} (clean : w.streams.NoNulls)
    (taken : step nl w e = some w') :
    w'.streams.NoNulls ↔ LooksUpBound w e := by
  have free : started w e = none → LooksUpBound w e := fun none task order v some => by simp [none] at some
  rcases step_streams taken with ⟨task,order,v,starts,rfl⟩ | ⟨info,rfl,made⟩ | ⟨api,rfl,called⟩ |
    ⟨other,same | cleared,-⟩
  · have before : v.streams.NoNulls := by
      rw [started_eq starts]
      exact clean
    have keeps : LooksUpBound w e ↔ task.LooksUpBound v :=
      ⟨fun bound => bound task order v starts,fun bound task' order' v' starts' => by
        rw [starts] at starts'
        cases starts'
        exact bound⟩
    rw [keeps]
    exact task_noNulls_iff nl order task before
  · refine ⟨fun _ => free rfl,fun _ => ?_⟩
    rw [made]
    exact clean
  · refine ⟨fun _ => free rfl,fun _ => ?_⟩
    rw [called]
    exact clean
  · refine ⟨fun _ => free (started_streamless other w),fun _ => ?_⟩
    rw [same]
    exact clean
  · refine ⟨fun _ => free (started_streamless other w),fun _ => ?_⟩
    rw [cleared]
    exact ⟨clean.1,noNull_empty⟩

/-- No entry of the tables is null in any state of a run, and no loop over them
    faults, exactly when every lookup of the run finds its key bound. -/
theorem clean_iff (nl : Nlohmann) (token : LicodeToken) (es : List Event) :
    Always (step nl) Clean (World.init token) es ↔ Guarded (step nl) LooksUpBound (World.init token) es := by
  refine always_iff_guarded (Q := fun _ => True) (fun _ _ _ _ _ _ _ => trivial) ?_ trivial
    (clean_of_noNull noNull_empty noNull_empty) es
  intro w e w' _ clean taken
  have exact := step_clean_iff ⟨clean.localStreams,clean.remoteStreams⟩ taken
  exact ⟨fun clean' => exact.mp ⟨clean'.localStreams,clean'.remoteStreams⟩,fun bound =>
    have both := exact.mpr bound
    clean_of_noNull both.1 both.2⟩

/-- A stream as it is announced. -/
def announced : Json :=
  .object [(lit "id",.unsigned 7),(lit "video",.boolean true),(lit "audio",.boolean true),(lit "data",.boolean true),
    (lit "label",.string (lit "cam")),(lit "screen",.boolean false),(lit "attributes",.object [])]

def announcedText : Text :=
  lit "\x7b\"id\":7,\"video\":true,\"audio\":true,\"data\":true,\"label\":\"cam\",\"screen\":false,\"attributes\":\x7b\x7d\x7d"

/-- The event that announces it. -/
def announcement : Text := lit "[\"onAddStream\"," ++ announcedText ++ lit "]"

def announcing : Nlohmann :=
  knownJson [(announcement,.array [.string (lit "onAddStream"),announced]),(announcedText,announced)] announcedText

/-- The announcement of a remote stream binds its id to null among the local
    streams; the next event of an unknown connection dereferences it. -/
theorem clean_fails :
    ∃ w, run (step announcing) (World.init ⟨[],[],false,[]⟩)
        (opening ++ [.read 0 (some (lit "42" ++ announcement)),.work .listed]) = some w ∧ w.crashed = none ∧
      w.room.localStreamInfos.lookup 7 = some none ∧
      faultOf (Task.runOnPeerConnectionConnectErizoReady .listed (lit "c")) w = some .undefined ∧ ¬ Clean w := by
  have runs : (run (step announcing) (World.init ⟨[],[],false,[]⟩)
      (opening ++ [.read 0 (some (lit "42" ++ announcement)),.work .listed])).map (fun w => (w.crashed,
        w.room.localStreamInfos.lookup 7,faultOf (Task.runOnPeerConnectionConnectErizoReady .listed (lit "c")) w)) =
      some (none,some none,some .undefined) := by decide +kernel
  obtain ⟨w,reached,facts⟩ := Option.map_eq_some_iff.mp runs
  obtain ⟨lives,null,faults⟩ : w.crashed = none ∧ _ ∧ _ := by simpa only [Prod.mk.injEq] using facts
  exact ⟨w,reached,lives,null,faults,fun clean => by simp [(clean.loops .listed (lit "c") []).2] at faults⟩

end LicodeClient
