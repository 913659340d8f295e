import LicodeClient.Admission
import LicodeClient.Streams

/-!
Faults that leave a handler or a task. Most messages are read inside a `try`; the
payload of a subscribe ack is parsed outside of any on the session's thread, and
both acks are taken apart outside of any by their tasks. A `try` is of no help
where the code runs into undefined behaviour, on a stream without its members, an
empty queue or a null pointer; nothing is known of what leaves such a step, so it
counts as one that is left. No fault leaves the handler of a message or a task
that a message posted, in any step of a run, exactly when what they read can be
read (`contained_iff`).
-/
namespace LicodeClient
open LicodeClient.Table LicodeClient.Program LicodeClient.Run Decode
open MonadExcept (ofExcept)

/-- The tasks that the handlers of messages post. -/
def Task.answers : Task → Bool
  | .onJoinRoom | .joinedStream _ | .onAddStream _ | .onRemoveStream _ | .onSubscribeStream _ | .onPublishStream _
  | .onPeerConnectionConnectErizoReady _ | .receiveOffer _ _ => true
  | _ => false

/-- A message is delivered, or the worker runs a task that a message posted. -/
def Event.serves (w : World) : Event → Bool
  | .read _ (some _) => true
  | .work _ => w.tasks.head?.any Task.answers
  | _ => false

/-- Neither an exception nor undefined behaviour leaves what the event runs. -/
def Contained (nl : Nlohmann) (w : World) (e : Event) : Prop :=
  e.serves w → ∀ w', step nl w e = some w' → w'.crashed = none

/-- The payload of a subscribe ack parses, and a join response does not break off
    at a stream that lacks a member. -/
def Frame.Readable (nl : Nlohmann) : Frame → Prop
  | .subscribeStream msg => nl.parse msg ≠ none
  | .initToken msg => ∀ body, successBody nl msg = some body → ¬ Breaks nl body
  | _ => True

/-- The elements of an ack: the third one is a connection, and the second an erizo
    if the room has none yet. -/
def Allocates (erizoId : Text) (xs : List Json) : Prop :=
  (erizoId = [] → ∃ s, xs[1]? = some (.string s)) ∧ ∃ connId, xs[2]? = some (.string connId)

/-- A loop that looks for a connection comes to a null pointer before it finds
    one. -/
def MeetsNull (cell : StreamPtr → LicodeStreamInfo) (connId : Text)
    (entries : List (Sigma fun _ : UInt64 => Option StreamPtr)) : Prop :=
  ∃ before streamId later, entries = before ++ ⟨streamId,none⟩ :: later ∧
    ∀ binding ∈ before, ∃ p, binding.2 = some p ∧ (cell p).connectionId ≠ connId

/-- No stream of a table has the connection. -/
def NoneConnected (cell : StreamPtr → LicodeStreamInfo) (connId : Text)
    (entries : List (Sigma fun _ : UInt64 => Option StreamPtr)) : Prop :=
  ∀ binding ∈ entries, ∀ p, binding.2 = some p → (cell p).connectionId ≠ connId

/-- What a task reads is there. An ack finds a request that waits for it and says
    which erizo and connection it is about, a subscribe ack's stream is known, a
    publish ack's id is a number, and the loops of an event meet no null pointer. -/
def Task.Readable (nl : Nlohmann) (order : Order UInt64 StreamPtr) (w : World) : Task → Prop
  | .onSubscribeStream json =>
    (∃ streamId rest p, w.room.pendingSubscribeStreams = streamId :: rest ∧
      entry w.room.remoteStreamInfos streamId = some p) ∧ ∃ xs, json = .array xs ∧ Allocates w.room.erizoId xs
  | .onPublishStream msg =>
    w.room.pendingPublishLocalStreams ≠ [] ∧
      ∃ xs first streamId, nl.parse msg = some (.array xs) ∧ Allocates w.room.erizoId xs ∧
        xs[0]? = some first ∧ first.toUInt64 = .ok streamId
  | .receiveOffer connId _ => ¬ MeetsNull w.heap.cell connId (order.arrange w.room.remoteStreamInfos.entries)
  | .onPeerConnectionConnectErizoReady connId =>
    ¬ MeetsNull w.heap.cell connId (order.arrange w.room.remoteStreamInfos.entries) ∧
      (NoneConnected w.heap.cell connId (order.arrange w.room.remoteStreamInfos.entries) →
        ¬ MeetsNull w.heap.cell connId (order.arrange w.room.localStreamInfos.entries))
  | _ => True

/-- The condition on an event. -/
def Readable (nl : Nlohmann) (w : World) : Event → Prop
  | .read k (some frame) =>
    (w.session k).receiveMsgCallback → (frameOf ((w.session k).buffer ++ frame)).Readable nl
  | .work order => ∀ task, w.tasks.head? = some task → task.answers → task.Readable nl order w
  | _ => True

/-! ### Handlers -/

theorem never_ofExcept {α : Type} {x : Except Fault α} (avoids : Avoids .undefined x) :
    Never .undefined (ofExcept x : Exec α) := by
  cases x with
  | ok a => exact never_pure a
  | error fault =>
    refine never_throw (fun same => ?_)
    rw [same] at avoids
    exact avoids rfl

theorem never_catchException {x handler : Exec Unit} (first : Never .undefined x) (handled : Never .undefined handler) :
    Never .undefined (catchException x handler) := by
  refine never_tryCatch first ?_
  intro fault other
  cases fault with
  | exception => exact handled
  | undefined => exact absurd rfl other

/-- Where nothing is undefined, a `try` that handles exceptions without a fault
    lets none out. -/
theorem faultOf_catchException {x : Exec Unit} (first : Never .undefined x) (w : World) :
    faultOf (catchException x (pure ())) w = none := by
  have defined := first w
  simp only [faultOf,catchException,run_tryCatch] at defined ⊢
  cases done : x.run w with
  | ok a t => rfl
  | error fault t =>
    cases fault with
    | exception => rfl
    | undefined => simp [done] at defined

theorem never_postTask (task : Task) : Never .undefined (postTask task) := never_modify _

theorem never_onErizoConnectionEvent (nl : Nlohmann) (msg : Text) :
    Never .undefined (onErizoConnectionEvent nl msg) := by
  have member := fun (json : Json) key => never_ofExcept (json.avoids_member key)
  have text := fun (json : Json) key => never_ofExcept (avoids_bind (json.avoids_member key) Json.avoids_toText)
  refine never_bind (never_ofExcept (Json.avoids_parseOrThrow nl msg)) (fun event => ?_)
  refine never_bind (text event _) (fun _ => ?_)
  refine never_bind (never_ofExcept (avoids_bind (event.avoids_member _) Json.avoids_toInt32)) (fun info => ?_)
  refine never_bind (member event _) (fun evt => ?_)
  split
  · refine never_bind (member evt _) (fun type => ?_)
    split
    · exact never_bind (text evt _) (fun _ => never_postTask _)
    · split
      · exact never_bind (text evt _) (fun _ => never_pure _)
      · exact never_pure _
  · split
    · exact never_postTask _
    · exact never_pure _

theorem never_onEvent (nl : Nlohmann) (event msg : Text) : Never .undefined (onEvent nl event msg) := by
  have parsed := never_ofExcept (Json.avoids_parseOrThrow nl msg)
  unfold onEvent
  split
  · exact never_onErizoConnectionEvent nl msg
  · split
    · refine never_catchException (never_bind parsed (fun stream => ?_)) (never_pure _)
      have described := avoids_streamInfo nl (fun key _ => stream.avoids_member key)
      exact never_bind (never_ofExcept described) (fun _ => never_postTask _)
    · split
      · refine never_catchException (never_bind parsed (fun body => ?_)) (never_pure _)
        have id := avoids_bind (body.avoids_member "id") Json.avoids_toUInt64
        exact never_bind (never_ofExcept id) (fun _ => never_postTask _)
      · exact never_pure _

theorem faultOf_processSocketIOOpen (nl : Nlohmann) (msg : Text) (w : World) :
    faultOf (processSocketIOOpen nl msg) w = none := by
  refine faultOf_catchException (never_bind (never_ofExcept (Json.avoids_parseOrThrow nl msg)) (fun openMsg => ?_)) w
  have text := never_ofExcept (Json.avoids_value Json.avoids_toText openMsg "sid" [])
  have number := fun key default => never_ofExcept (Json.avoids_value Json.avoids_toInt32 openMsg key default)
  refine never_bind text (fun _ => never_bind (never_modify _) (fun _ => never_bind (number _ _) (fun _ => ?_)))
  exact never_bind (never_modify _) (fun _ => never_bind (number _ _) (fun _ => never_modify _))

theorem faultOf_processEvent (nl : Nlohmann) (msg : Text) (w : World) : faultOf (processEvent nl msg) w = none := by
  refine faultOf_catchException (never_bind (never_ofExcept (Json.avoids_parseOrThrow nl msg)) (fun event => ?_)) w
  have element := fun i => never_ofExcept (event.avoids_index i)
  refine never_bind (element _) (fun name => never_bind (element _) (fun body => ?_))
  exact never_bind (never_ofExcept name.avoids_toText) (fun _ => never_onEvent nl _ _)

theorem onJoinRoom_contained_iff (nl : Nlohmann) (msg : Text) (w : World) :
    faultOf (onJoinRoom nl msg) w = none ↔ (Frame.initToken msg).Readable nl := by
  have broken := joinOutcome_undefined_iff nl msg
  have readable : (Frame.initToken msg).Readable nl ↔ joinOutcome nl msg ≠ .undefined := by
    rw [ne_eq,broken]
    exact ⟨fun all => fun ⟨body,success,breaks⟩ => all body success breaks,
      fun none body success breaks => none ⟨body,success,breaks⟩⟩
  rw [readable]
  have spec := onJoinRoom_spec nl msg w
  cases outcome : joinOutcome nl msg with
  | admitted response =>
    rw [outcome] at spec
    simp [faultOf,spec]
  | refused =>
    rw [outcome] at spec
    obtain ⟨t,-,runs⟩ := spec
    simp [faultOf,runs]
  | undefined =>
    rw [outcome] at spec
    obtain ⟨t,-,runs⟩ := spec
    simp [faultOf,runs]

/-- Of the messages, only a subscribe ack that does not parse and a join response
    that breaks let a fault out. -/
theorem onWebsocketMsg_contained_iff (nl : Nlohmann) (msg : Text) {w : World} {c : Nat}
    (current : w.signaling.websocket = some c) :
    faultOf (onWebsocketMsg nl msg) w = none ↔ (frameOf msg).Readable nl := by
  unfold onWebsocketMsg
  cases frameOf msg with
  | opened msg => exact iff_of_true (faultOf_processSocketIOOpen nl msg w) trivial
  | pong => exact iff_of_true rfl trivial
  | connect =>
    refine iff_of_true ?_ trivial
    simp [faultOf,updateState,keepAlive,initToken,run_websocketSendMsg,current]
  | initToken msg => exact onJoinRoom_contained_iff nl msg w
  | disconnect =>
    refine iff_of_true ?_ trivial
    simp only [faultOf,run_processDisconnect current]
  | subscribeStream msg =>
    simp only [Frame.Readable,onSubscribeStream,Nlohmann.parseOrThrow]
    cases nl.parse msg <;> simp [faultOf,run_ofExcept,postTask]
  | publishStream msg => exact iff_of_true rfl trivial
  | event msg => exact iff_of_true (faultOf_processEvent nl msg w) trivial
  | other => exact iff_of_true rfl trivial

theorem read_contained_iff (nl : Nlohmann) (frame : Text) {w : World} {k c : Nat} (exist : k < w.sessions.length)
    (current : w.signaling.websocket = some c) :
    faultOf (onRead nl k (some frame)) w = none ↔
      ((w.session k).receiveMsgCallback → (frameOf ((w.session k).buffer ++ frame)).Readable nl) := by
  have same : faultOf (onRead nl k (some frame)) w = faultOf (w.deliver nl k frame) (w.received k frame) := by
    simp only [faultOf,run_onRead nl frame exist]
    cases (w.deliver nl k frame).run (w.received k frame) <;> rfl
  rw [same,World.deliver]
  cases (w.session k).receiveMsgCallback with
  | true =>
    simp only [if_true,true_implies]
    exact onWebsocketMsg_contained_iff nl _ current
  | false => exact iff_of_true rfl (fun given => by cases given)

/-! ### Tasks -/

theorem meetsNull_cons {cell : StreamPtr → LicodeStreamInfo} {connId : Text} {streamId : UInt64} {p : StreamPtr}
    {rest : List (Sigma fun _ : UInt64 => Option StreamPtr)} :
    MeetsNull cell connId (⟨streamId,some p⟩ :: rest) ↔
      (cell p).connectionId ≠ connId ∧ MeetsNull cell connId rest := by
  constructor
  · rintro ⟨before,null,later,split,met⟩
    cases before with
    | nil => cases split
    | cons first before =>
      cases split
      obtain ⟨q,same,other⟩ := met _ List.mem_cons_self
      cases same
      exact ⟨other,before,null,later,rfl,fun binding member => met binding (List.mem_cons_of_mem _ member)⟩
  · rintro ⟨other,before,null,later,rfl,met⟩
    refine ⟨⟨streamId,some p⟩ :: before,null,later,rfl,?_⟩
    exact List.forall_mem_cons.mpr ⟨⟨p,rfl,other⟩,met⟩

/-- A loop faults on a null pointer, and only so. -/
theorem findIn_error_iff {cell : StreamPtr → LicodeStreamInfo} {connId : Text}
    (entries : List (Sigma fun _ : UInt64 => Option StreamPtr)) :
    (∃ fault, findIn cell connId entries = .error fault) ↔ MeetsNull cell connId entries := by
  induction entries with
  | nil =>
    refine iff_of_false (by simp [findIn]) ?_
    rintro ⟨before,streamId,later,split,-⟩
    simp at split
  | cons first rest ih =>
    obtain ⟨streamId,p⟩ := first
    cases p with
    | none => exact iff_of_true ⟨.undefined,rfl⟩ ⟨[],streamId,rest,rfl,by simp⟩
    | some p =>
      rw [meetsNull_cons,← ih]
      by_cases here : (cell p).connectionId = connId <;> simp [findIn,here]

/-- A loop that finds nothing has been through all streams. -/
theorem noneConnected_of_findIn {cell : StreamPtr → LicodeStreamInfo} {connId : Text}
    {entries : List (Sigma fun _ : UInt64 => Option StreamPtr)} (nothing : findIn cell connId entries = .ok none) :
    NoneConnected cell connId entries := by
  rintro ⟨streamId,q⟩ member p rfl
  exact findIn_none nothing streamId p member

theorem not_noneConnected_of_findIn {cell : StreamPtr → LicodeStreamInfo} {connId : Text} {p : StreamPtr}
    {entries : List (Sigma fun _ : UInt64 => Option StreamPtr)} (found : findIn cell connId entries = .ok (some p)) :
    ¬ NoneConnected cell connId entries := by
  obtain ⟨⟨streamId,member⟩,here⟩ := findIn_some found
  exact fun apart => apart _ member p rfl here

theorem receiveOffer_contained_iff (order : Order UInt64 StreamPtr) (connId sdp : Text) (w : World) :
    faultOf (Task.runReceiveOffer order connId sdp) w = none ↔
      ¬ MeetsNull w.heap.cell connId (order.arrange w.room.remoteStreamInfos.entries) := by
  rw [← findIn_error_iff]
  simp only [faultOf,run_runReceiveOffer]
  cases findIn w.heap.cell connId (order.arrange w.room.remoteStreamInfos.entries) <;> simp

theorem ready_contained_iff (nl : Nlohmann) (order : Order UInt64 StreamPtr) (connId : Text) (w : World) :
    faultOf (Task.runOnPeerConnectionConnectErizoReady order connId) w = none ↔
      (Task.onPeerConnectionConnectErizoReady connId).Readable nl order w := by
  simp only [Task.Readable,← findIn_error_iff,faultOf,run_runOnPeerConnectionConnectErizoReady,World.streamOf]
  cases remote : findIn w.heap.cell connId (order.arrange w.room.remoteStreamInfos.entries) with
  | error fault => simp
  | ok found =>
    cases found with
    | some p => simp [not_noneConnected_of_findIn remote]
    | none =>
      have apart := noneConnected_of_findIn remote
      cases findIn w.heap.cell connId (order.arrange w.room.localStreamInfos.entries) with
      | error fault => simp [apart]
      | ok own => cases own <;> simp

theorem noted_ok_iff (erizo : Json) (erizoId : Text) :
    (∃ e, noted (.ok erizo) erizoId = .ok e) ↔ (erizoId = [] → ∃ s, erizo = .string s) := by
  by_cases needed : erizoId = [] <;> simp [noted,needed,Json.toText_eq_ok_iff]

/-- A subscribe ack is read to its end when it is an array that allocates. -/
theorem subscribeAck_complete_iff (json : Json) (erizoId : Text) :
    (∃ e c, subscribeAck json erizoId = .complete e c) ↔ ∃ xs, json = .array xs ∧ Allocates erizoId xs := by
  have complete : (∃ e c, subscribeAck json erizoId = .complete e c) ↔
      (∃ e, noted (json.indexConst 1) erizoId = .ok e) ∧ ∃ c, json.indexConst 2 >>= Json.toText = .ok c := by
    unfold subscribeAck
    cases noted (json.indexConst 1) erizoId <;> cases json.indexConst 2 >>= Json.toText <;> simp
  rw [complete]
  cases json with
  | array xs =>
    simp only [Json.array.injEq,exists_eq_left',Allocates,bind_eq_ok_iff,Json.toText_eq_ok_iff,exists_eq_right]
    rcases xs with _ | ⟨first,_ | ⟨erizo,_ | ⟨conn,rest⟩⟩⟩
    · simp [Json.indexConst]
    · simp [Json.indexConst]
    · simp [Json.indexConst]
    · simp [Json.indexConst,noted_ok_iff]
  | _ => simp [Json.indexConst]

/-- A publish ack is read to its end when it is an array that allocates and starts
    with a number. -/
theorem publishAck_complete_iff (nl : Nlohmann) (msg erizoId : Text) :
    (∃ e s c, publishAck nl msg erizoId = .complete e s c) ↔
      ∃ xs first streamId, nl.parse msg = some (.array xs) ∧ Allocates erizoId xs ∧
        xs[0]? = some first ∧ first.toUInt64 = .ok streamId := by
  cases parsed : nl.parse msg with
  | none => simp [publishAck,Nlohmann.parseOrThrow,parsed]
  | some json =>
    have complete : (∃ e s c, publishAck nl msg erizoId = .complete e s c) ↔
        (∃ e, noted (json.index 1) erizoId = .ok e) ∧ (∃ s, json.index 0 >>= Json.toUInt64 = .ok s) ∧
          ∃ c, json.index 2 >>= Json.toText = .ok c := by
      simp only [publishAck,Nlohmann.parseOrThrow,parsed]
      cases noted (json.index 1) erizoId <;> cases json.index 0 >>= Json.toUInt64 <;>
        cases json.index 2 >>= Json.toText <;> simp
    rw [complete]
    simp only [Option.some.injEq]
    cases json with
    | array xs =>
      simp only [bind_eq_ok_iff,Json.toText_eq_ok_iff,exists_eq_right,Json.array.injEq,Allocates]
      rcases xs with _ | ⟨first,_ | ⟨erizo,_ | ⟨conn,rest⟩⟩⟩
      · simp [Json.index]
      · simp [Json.index]
      · simp [Json.index]
      · simp [Json.index,noted_ok_iff]
        tauto
    | null => simp [Json.index,Json.toText]
    | _ => simp [Json.index]

theorem storeSubscribeAck_contained_iff (json : Json) (streamId : UInt64) (w : World) :
    faultOf (Task.storeSubscribeAck json streamId) w = none ↔
      (∃ p, entry w.room.remoteStreamInfos streamId = some p) ∧
        ∃ xs, json = .array xs ∧ Allocates w.room.erizoId xs := by
  rw [← subscribeAck_complete_iff]
  simp only [faultOf,run_storeSubscribeAck]
  cases subscribeAck json w.room.erizoId <;> cases entry w.room.remoteStreamInfos streamId <;> simp

theorem storePublishAck_contained_iff (nl : Nlohmann) (msg : Text) (p : StreamPtr) (w : World) :
    faultOf (Task.storePublishAck nl msg p) w = none ↔
      ∃ xs first streamId, nl.parse msg = some (.array xs) ∧ Allocates w.room.erizoId xs ∧
        xs[0]? = some first ∧ first.toUInt64 = .ok streamId := by
  rw [← publishAck_complete_iff]
  simp only [faultOf,run_storePublishAck]
  cases publishAck nl msg w.room.erizoId <;> simp

/-- Of the tasks that messages post, only acks and the events of a connection can
    let a fault out. -/
theorem task_contained_iff (nl : Nlohmann) (order : Order UInt64 StreamPtr) {task : Task}
    (answers : task.answers = true) (w : World) :
    faultOf (task.run nl order) w = none ↔ task.Readable nl order w := by
  cases task with
  | onJoinRoom => exact iff_of_true rfl trivial
  | joinedStream info =>
    refine iff_of_true ?_ trivial
    simp only [Task.run,faultOf,run_runJoinedStream]
  | onAddStream info =>
    refine iff_of_true ?_ trivial
    simp only [Task.run,faultOf,run_runOnAddStream]
  | onRemoveStream streamId => exact iff_of_true rfl trivial
  | onSubscribeStream json =>
    have runs := run_runOnSubscribeStream json w
    simp only [Task.Readable,Task.run,faultOf,runs]
    cases queue : w.room.pendingSubscribeStreams with
    | nil => simp
    | cons streamId rest =>
      have exact := storeSubscribeAck_contained_iff json streamId { w with room.pendingSubscribeStreams := rest }
      simp only [faultOf] at exact
      rw [exact]
      simp
  | onPublishStream msg =>
    have runs := run_runOnPublishStream nl msg w
    simp only [Task.Readable,Task.run,faultOf,runs]
    cases queue : w.room.pendingPublishLocalStreams with
    | nil => simp
    | cons p rest =>
      have exact := storePublishAck_contained_iff nl msg p { w with room.pendingPublishLocalStreams := rest }
      simp only [faultOf] at exact
      rw [exact]
      simp
  | onPeerConnectionConnectErizoReady connId => exact ready_contained_iff nl order connId w
  | receiveOffer connId sdp => exact receiveOffer_contained_iff order connId sdp w
  | _ => cases answers

/-! ### Runs -/

theorem step_contained_iff {nl : Nlohmann} {w w' : World} {e : Event} (wired : w.outline.Wired)
    (taken : step nl w e = some w') : Contained nl w e ↔ Readable nl w e := by
  obtain ⟨-,can,rfl⟩ := step_eq_some taken
  have fault : Contained nl w e ↔ (e.serves w → faultOf (handler nl e) w = none) := by
    refine forall_congr' (fun _ => ⟨fun all => all _ taken,fun contained w'' taken' => ?_⟩)
    cases taken.symm.trans taken'
    exact contained
  rw [fault]
  cases e with
  | work order =>
    cases queue : w.tasks with
    | nil => simp [enabled,queue] at can
    | cons task rest =>
      have same : faultOf (handler nl (.work order)) w = faultOf (task.run nl order) { w with tasks := rest } := by
        simp [faultOf,handler,work,queue]
      rw [same]
      simp only [Event.serves,Readable,queue,List.head?_cons,Option.any_some,Option.some.injEq,forall_eq']
      exact forall_congr' (fun answers => task_contained_iff nl order answers { w with tasks := rest })
  | read k frame =>
    have exist := exists_of_enabled can
    cases frame with
    | none => exact iff_of_true (fun serves => by cases serves) trivial
    | some frame =>
      obtain ⟨c,current,-⟩ := wired.current (k := k) (by simpa [World.outline,Outline.waits] using exist)
      exact forall_prop_of_true rfl |>.trans (read_contained_iff nl frame exist current)
  | _ => exact iff_of_true (fun serves => by cases serves) trivial

/-- No fault leaves the handler of a message or a task that a message posted, in
    any step of a run, exactly when every message can be handled and every such
    task finds what it reads. -/
theorem contained_iff (nl : Nlohmann) (token : LicodeToken) (es : List Event) :
    Guarded (step nl) (Contained nl) (World.init token) es ↔ Guarded (step nl) (Readable nl) (World.init token) es :=
  guarded_congr (Q := fun w => w.outline.Wired) (fun _ _ _ wired taken => step_wired wired taken)
    (fun _ _ _ wired taken => step_contained_iff wired taken) (wired_init token) es

/-- A subscribe ack without a payload ends the process with an exception. -/
theorem contained_fails :
    ∃ w w', run (step noJson) (World.init ⟨[],[],false,[]⟩) opening = some w ∧
      step noJson w (.read 0 (some (lit "43222"))) = some w' ∧ w'.crashed = some .exception ∧
      ¬ Contained noJson w (.read 0 (some (lit "43222"))) := by
  refine ⟨_,_,rfl,rfl,by decide,fun contained => ?_⟩
  exact absurd (contained rfl _ rfl) (by decide)

end LicodeClient
