import LicodeClient.Ownership

/-!
The picture that an observer can keep of the remote streams. The observer is
called for every stream that is entered, but `OnRemoveRemoteStream` is never
called: not when a stream goes, and not when a response clears the table. So the
picture is right as long as nothing is taken out of the table, and nothing is
reported that is not entered (`mirrors_step_iff`).
-/
namespace LicodeClient
open LicodeClient.Table LicodeClient.Program LicodeClient.Run
open MonadExcept (ofExcept)

/-- What the observer has after its calls are replayed in order; none of them
    takes a stream out. -/
def replay (reported : List UInt64) : Finset UInt64 :=
  reported.foldl (fun streams streamId => insert streamId streams) ∅

theorem mem_replay (reported : List UInt64) (streamId : UInt64) : streamId ∈ replay reported ↔ streamId ∈ reported := by
  have grows : ∀ streams : Finset UInt64,
      streamId ∈ reported.foldl (fun streams streamId => insert streamId streams) streams ↔
        streamId ∈ streams ∨ streamId ∈ reported := by
    induction reported with
    | nil => intro streams; simp
    | cons first rest ih => intro streams; rw [List.foldl_cons,ih]; simp [or_assoc,or_left_comm]
  simpa [replay] using grows ∅

/-- The observer has the remote streams of the room. -/
def Mirrors (h : Heard) : Prop :=
  ∀ streamId, streamId ∈ replay h.reported ↔ ∃ p, entry h.world.room.remoteStreamInfos streamId = some p

/-- A success response that names the room and the client clears the remote
    streams, whatever follows in it. -/
def clears (nl : Nlohmann) (msg : Text) : Bool :=
  let names : Except Fault Bool := do
    let json ← nl.parseOrThrow msg
    let status ← json.index 0
    if status.isText "success" then
      let body ← json.index 1
      let _ ← body.member "id" >>= Json.toText
      let _ ← body.member "clientId" >>= Json.toText
      return true
    else
      return false
  names.toOption.getD false

/-- A task that the observer can follow takes no remote stream out, and enters the
    stream of a response. -/
def Task.Followed (w : World) : Task → Prop
  | .onRemoveStream streamId => entry w.room.remoteStreamInfos streamId = none
  | task => task.Enters w

/-- A step that the observer can follow. -/
structure Followed (nl : Nlohmann) (h : Heard) (e : Event) : Prop where
  task : ∀ task order v, started h.world e = some (task,order,v) → task.Followed h.world
  response : ∀ token, e.frame h.world = .initToken token → clears nl token = true → ∀ streamId,
    entry h.world.room.remoteStreamInfos streamId = none

/-! ### Responses -/

/-- The remote streams of the room. -/
abbrev remoteOf (w : World) : StreamTable := w.room.remoteStreamInfos

theorem remote_readIceServers (xs : List Json) : Keeps remoteOf (readIceServers xs) := by
  induction xs with
  | nil => exact keeps_pure _
  | cons ice rest ih =>
    exact keeps_bind (keeps_ofExcept _) (fun _ => keeps_bind (keeps_modify (fun _ => rfl)) (fun _ => ih))

theorem remote_readP2p (body : Json) : Keeps remoteOf (readP2p body) := by
  unfold readP2p
  split
  · exact keeps_bind (keeps_ofExcept _) (fun _ => keeps_modify (fun _ => rfl))
  · exact keeps_pure _

theorem remote_postJoinedStreams (infos : List LicodeStreamInfo) : Keeps remoteOf (postJoinedStreams infos) := by
  intro w
  rw [after_of_ok (run_postJoinedStreams infos w)]

/-- The remote streams are cleared once the room and the client are named. -/
theorem remote_joinBody (nl : Nlohmann) (body : Json) (w : World) :
    remoteOf (after (joinBody nl body) w) =
      match body.member "id" >>= Json.toText,body.member "clientId" >>= Json.toText with
      | .ok _,.ok _ => ∅
      | _,_ => remoteOf w := by
  unfold joinBody
  cases body.member "id" >>= Json.toText with
  | error fault => rfl
  | ok id =>
    cases body.member "clientId" >>= Json.toText with
    | error fault => rfl
    | ok clientId =>
      -- From here on the remote streams are cleared and nothing enters them.
      have rest : Keeps remoteOf (do
          let streams ← ofExcept (body.member "streams")
          let existStreams ← ofExcept (streams.elements.mapM (streamInfo nl Json.memberConst))
          readP2p body
          let defaultVideoBw ← ofExcept (body.member "defaultVideoBW" >>= Json.toInt32)
          modify fun w => { w with room.defaultVideoBw := defaultVideoBw }
          let maxVideoBw ← ofExcept (body.member "maxVideoBW" >>= Json.toInt32)
          modify fun w => { w with room.maxVideoBw := maxVideoBw }
          let singlePc ← ofExcept (body.member "singlePC" >>= Json.toBool)
          modify fun w => { w with room.singlePc := singlePc }
          let iceServers ← ofExcept (body.member "iceServers")
          modify fun w => { w with room.iceServerList := [] }
          readIceServers iceServers.elements
          update .kConnected
          postTask .onJoinRoom
          postJoinedStreams existStreams : Exec Unit) := by
        refine keeps_bind (keeps_ofExcept _) (fun streams => keeps_bind (keeps_ofExcept _) (fun existStreams => ?_))
        refine keeps_bind (remote_readP2p body) (fun _ => keeps_bind (keeps_ofExcept _) (fun _ => ?_))
        refine keeps_bind (keeps_modify (fun _ => rfl)) (fun _ => keeps_bind (keeps_ofExcept _) (fun _ => ?_))
        refine keeps_bind (keeps_modify (fun _ => rfl)) (fun _ => keeps_bind (keeps_ofExcept _) (fun _ => ?_))
        refine keeps_bind (keeps_modify (fun _ => rfl)) (fun _ => keeps_bind (keeps_ofExcept _) (fun _ => ?_))
        refine keeps_bind (keeps_modify (fun _ => rfl)) (fun _ => keeps_bind (remote_readIceServers _) (fun _ => ?_))
        refine keeps_bind (keeps_modify (fun _ => rfl))
          (fun _ => keeps_bind (keeps_modify (fun _ => rfl)) (fun _ => ?_))
        exact remote_postJoinedStreams existStreams
      exact rest { w with room.id := id, room.clientId := clientId, room.remoteStreamInfos := ∅ }

theorem remote_onJoinRoom (nl : Nlohmann) (msg : Text) (w : World) :
    remoteOf (after (onJoinRoom nl msg) w) = cond (clears nl msg) ∅ (remoteOf w) := by
  unfold onJoinRoom clears catchException
  rw [after_tryCatch (f := remoteOf)]
  · cases nl.parseOrThrow msg with
    | error fault => rfl
    | ok json =>
      simp only [ofExcept_ok,pure_bind,ok_bind]
      cases first : json.index 0 with
      | error fault => rfl
      | ok status =>
        obtain ⟨second,readable⟩ : ∃ x, json.index 1 = .ok x := by
          cases json <;> simp [Json.index] at first ⊢
        simp only [readable,ofExcept_ok,pure_bind,ok_bind]
        by_cases success : status.isText "success" = true
        · simp only [success,if_true,remote_joinBody]
          cases second.member "id" >>= Json.toText with
          | error fault => rfl
          | ok id => cases second.member "clientId" >>= Json.toText <;> rfl
        · simp only [success]
          rfl
  · intro fault
    cases fault with
    | exception => exact keeps_modify (fun _ => rfl)
    | undefined => exact keeps_throw _

/-! ### Tasks -/

/-- A task that does not fault leaves every remote stream in the table and enters
    every stream that it reports, exactly when the observer can follow it. -/
theorem followed_iff {nl : Nlohmann} {task : Task} {order : Order UInt64 StreamPtr} {w : World}
    (fine : faultOf (task.run nl order) w = none) :
    (∀ streamId, (w.view.remote streamId).isSome ∨ streamId ∈ task.reports w →
      (((task.change nl w).apply w.view).remote streamId).isSome) ↔ task.Followed w := by
  cases task with
  | joinedStream info =>
    simp only [Task.change,Task.reports,List.mem_singleton,Task.Followed,Task.Enters]
    by_cases bound : info.id ∈ w.room.remoteStreamInfos
    · rw [if_pos bound]
      constructor
      · intro kept _
        exact kept info.id (.inr rfl)
      · intro found streamId known
        rcases known with known | rfl
        · exact known
        · exact found bound
    · rw [if_neg bound]
      refine ⟨fun _ bound' => absurd bound' bound,fun _ streamId known => ?_⟩
      by_cases here : streamId = info.id
      · simp [Change.apply,here]
      · simpa [Change.apply,here,View.allocate] using known
  | onAddStream info =>
    refine ⟨fun _ => trivial,fun _ streamId known => ?_⟩
    simp only [Task.change,Task.reports] at known ⊢
    cases found : entry w.room.localStreamInfos info.id with
    | some own => simpa [found,Change.apply,View.allocate] using known
    | none =>
      by_cases here : streamId = info.id
      · simp [Change.apply,here]
      · simpa [found,here,Change.apply,View.allocate] using known
  | onRemoveStream removed =>
    simp only [Task.change,Task.reports,Task.Followed,List.not_mem_nil,or_false]
    constructor
    · intro kept
      by_contra some
      have gone := kept removed (Option.isSome_iff_ne_none.mpr some)
      simp [Change.apply] at gone
    · intro unknown streamId known
      by_cases here : streamId = removed
      · subst here
        rw [show w.view.remote streamId = none from unknown] at known
        cases known
      · simpa [Change.apply,here] using known
  | onPublishStream msg =>
    obtain ⟨_,_,_,_,change,-⟩ := change_onPublishStream fine
    simp [change,Task.reports,Task.Followed,Task.Enters,Change.apply]
  | onSubscribeStream json =>
    obtain ⟨_,_,_,_,change⟩ := change_onSubscribeStream nl fine
    simp [change,Task.reports,Task.Followed,Task.Enters,Change.apply]
  | _ => simp [Task.change,Task.reports,Task.Followed,Task.Enters,Change.apply]

/-! ### Steps -/

/-- The tables are valid and every remote stream was reported. -/
structure Reported (h : Heard) : Prop where
  valid : h.world.view.Valid
  known : ∀ streamId, (h.world.view.remote streamId).isSome → streamId ∈ h.reported

theorem Reported.mirrors_iff {h : Heard} (reported : Reported h) :
    Mirrors h ↔ ∀ streamId ∈ h.reported, (h.world.view.remote streamId).isSome := by
  constructor
  · intro mirrors streamId member
    exact Option.isSome_iff_exists.mpr ((mirrors streamId).mp ((mem_replay _ _).mpr member))
  · intro kept streamId
    rw [mem_replay]
    constructor
    · intro member
      exact Option.isSome_iff_exists.mp (kept streamId member)
    · intro found
      exact reported.known streamId (Option.isSome_iff_exists.mpr found)

theorem reported_step {nl : Nlohmann} {h h' : Heard} {e : Event} (reported : Reported h) (taken : h.step nl e = some h')
    (lives : h'.world.crashed = none) : Reported h' := by
  refine ⟨step_valid reported.valid (Heard.step_eq_some taken).1 lives,fun streamId remote => ?_⟩
  cases starts : started h.world e with
  | some start =>
    obtain ⟨task,order,v⟩ := start
    have runs := Heard.runs_of_started reported.valid starts taken lives
    rw [runs.view] at remote
    rw [runs.reported]
    rcases remote_reported runs.fine remote with before | new
    · exact List.mem_append_left _ (reported.known streamId (runs.tables.1 ▸ before))
    · exact List.mem_append_right _ new
  | none =>
    have arrives := Heard.arrives_of_idle starts taken
    rw [arrives.reported]
    exact reported.known streamId (arrives.known remote)

/-- A step that the process survives keeps the picture right exactly when the
    observer can follow it. -/
theorem mirrors_step_iff {nl : Nlohmann} {h h' : Heard} {e : Event} (reported : Reported h) (mirrors : Mirrors h)
    (taken : h.step nl e = some h') (lives : h'.world.crashed = none) : Mirrors h' ↔ Followed nl h e := by
  rw [(reported_step reported taken lives).mirrors_iff]
  have right := reported.mirrors_iff.mp mirrors
  have steps := (Heard.step_eq_some taken).1
  cases starts : started h.world e with
  | some start =>
    obtain ⟨task,order,v⟩ := start
    have runs := Heard.runs_of_started reported.valid starts taken lives
    have follows : Followed nl h e ↔ task.Followed v := by
      have room : task.Followed v ↔ task.Followed h.world := by
        cases task <;> simp only [Task.Followed,Task.Enters,runs.room]
      rw [room]
      constructor
      · intro followed
        exact followed.task task order v starts
      · intro followed
        refine ⟨fun _ _ _ starts' => ?_,fun token frame => ?_⟩
        · rw [starts] at starts'
          cases starts'
          exact followed
        · rw [(started_cases starts).1] at frame
          cases frame
    rw [follows,← followed_iff runs.fine,runs.view,runs.reported,runs.tables.1]
    constructor
    · intro kept streamId known
      rcases known with known | new
      · exact kept streamId (List.mem_append_left _ (reported.known streamId known))
      · exact kept streamId (List.mem_append_right _ new)
    · intro kept streamId member
      rcases List.mem_append.mp member with before | new
      · exact kept streamId (.inl (right streamId before))
      · exact kept streamId (.inr new)
  | none =>
    have idle : ∀ task order v, started h.world e = some (task,order,v) → task.Followed h.world := by
      intro task order v starts'
      rw [starts] at starts'
      cases starts'
    rw [(Heard.arrives_of_idle starts taken).reported]
    by_cases response : ∃ token, e.frame h.world = .initToken token
    · obtain ⟨token,frame⟩ := response
      obtain ⟨v,before,later⟩ := step_token (f := remoteOf) (fun _ _ _ => rfl) (fun _ _ => rfl) steps frame
      rw [remote_onJoinRoom,before] at later
      have view : ∀ streamId, h'.world.view.remote streamId = entry (remoteOf h'.world) streamId := fun _ => rfl
      constructor
      · intro kept
        refine ⟨idle,fun token' frame' clear streamId => ?_⟩
        rw [frame] at frame'
        cases frame'
        by_contra some
        have gone := kept streamId (reported.known streamId (Option.isSome_iff_ne_none.mpr some))
        rw [view,later,clear] at gone
        simp at gone
      · intro followed streamId member
        have known := right streamId member
        rw [view,later]
        cases clear : clears nl token with
        | false => exact known
        | true =>
          rw [show h.world.view.remote streamId = none from followed.response token frame clear streamId] at known
          cases known
    · have other : ∀ token, e.frame h.world ≠ .initToken token := fun token frame => response ⟨token,frame⟩
      have same : h'.world.view.remote = h.world.view.remote := by
        simp only [World.view,Streams.view,World.streams,(step_idle steps starts).2.2 other]
      rw [same]
      exact ⟨fun _ => ⟨idle,fun token frame => absurd frame (other token)⟩,fun _ => right⟩

/-! ### Runs -/

theorem reported_init (token : LicodeToken) : Reported (Heard.init token) := by
  refine ⟨valid_init token,fun streamId some => ?_⟩
  simp [Heard.init,World.init,World.view,Streams.view,World.streams] at some

/-- In a run whose steps the observer can all follow, the picture is right
    whenever no task waits. -/
theorem mirrors_always {nl : Nlohmann} {token : LicodeToken} {es : List Event}
    (followed : Guarded (Heard.step nl) (Followed nl) (Heard.init token) es) :
    Always (Heard.step nl) (fun h => h.world.crashed = none → h.world.tasks = [] → Mirrors h)
      (Heard.init token) es := by
  have right : Always (Heard.step nl) (fun h => h.world.crashed = none → Reported h ∧ Mirrors h)
    (Heard.init token) es := by
    refine always_of_guarded ?_ (fun _ => ?_) followed
    · intro h e h' kept follows taken lives'
      obtain ⟨reported,mirrors⟩ := kept (step_eq_some (Heard.step_eq_some taken).1).1
      exact ⟨reported_step reported taken lives',(mirrors_step_iff reported mirrors taken lives').mpr follows⟩
    · refine ⟨reported_init token,(reported_init token).mirrors_iff.mpr (fun _ member => ?_)⟩
      cases member
  exact right.mono (fun h kept lives _ => (kept lives).2)

def Task.follows (w : World) : Task → Bool
  | .onRemoveStream streamId => (entry w.room.remoteStreamInfos streamId).isNone
  | .joinedStream info => info.id ∉ w.room.remoteStreamInfos
  | _ => true

/-- Tests that a step can be followed. -/
def follows (h : Heard) (e : Event) : Bool :=
  (started h.world e).all (fun start => start.1.follows h.world) &&
    match e.frame h.world with
    | .initToken _ => h.world.room.remoteStreamInfos.entries.isEmpty
    | _ => true

theorem followed_of_follows (nl : Nlohmann) (h : Heard) (e : Event) (passes : follows h e = true) :
    Followed nl h e := by
  obtain ⟨task,response⟩ := Bool.and_eq_true_iff.mp passes
  refine ⟨fun task' order v starts => ?_,fun token frame _ streamId => ?_⟩
  · rw [starts] at task
    cases task' with
    | onRemoveStream streamId => exact Option.isNone_iff_eq_none.mp task
    | joinedStream info => exact fun bound => absurd bound (of_decide_eq_true task)
    | _ => trivial
  · rw [frame] at response
    have empty : h.world.room.remoteStreamInfos = ∅ := AList.ext (List.isEmpty_iff.mp response)
    rw [empty,entry_empty]

/-- The visit up to the arrival of stream 7: nothing goes. -/
theorem mirrors_arrivals :
    Guarded (Heard.step visited) (Followed visited) (Heard.init ⟨[],[],false,[]⟩) (visit.take 10) ∧
    Always (Heard.step visited) (fun h => h.world.crashed = none → h.world.tasks = [] → Mirrors h)
      (Heard.init ⟨[],[],false,[]⟩) (visit.take 10) := by
  have followed : Guarded (Heard.step visited) (Followed visited) (Heard.init ⟨[],[],false,[]⟩) (visit.take 10) :=
    guarded_of_tests (followed_of_follows visited) (by decide +kernel)
  exact ⟨followed,mirrors_always followed⟩

/-- At the end of the visit stream 5 is gone and the observer still has it. -/
theorem mirrors_fails :
    ∃ h, run (Heard.step visited) (Heard.init ⟨[],[],false,[]⟩) visit = some h ∧ h.world.crashed = none ∧
      h.world.tasks = [] ∧ 5 ∈ replay h.reported ∧ entry h.world.room.remoteStreamInfos 5 = none ∧ ¬ Mirrors h := by
  have runs : (run (Heard.step visited) (Heard.init ⟨[],[],false,[]⟩) visit).map (fun h =>
      (h.world.crashed,h.world.tasks.isEmpty,h.reported,entry h.world.room.remoteStreamInfos 5)) =
      some (none,true,[5,7],none) := by decide +kernel
  obtain ⟨h,reached,facts⟩ := Option.map_eq_some_iff.mp runs
  obtain ⟨lives,drained,reported,gone⟩ : h.world.crashed = none ∧ _ ∧ _ ∧ _ := by
    simpa only [Prod.mk.injEq] using facts
  have kept : 5 ∈ replay h.reported := by rw [mem_replay,reported]; simp
  refine ⟨h,reached,lives,List.isEmpty_iff.mp drained,kept,gone,fun mirrors => ?_⟩
  obtain ⟨p,found⟩ := (mirrors 5).mp kept
  rw [gone] at found
  cases found

end LicodeClient
