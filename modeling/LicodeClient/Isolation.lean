import LicodeClient.Ownership

/-!
What one session of a room leaves to the next. A room is joined again from a
state in which it is disconnected and no task waits; what it then has depends on
the response and on what `OnJoinRoom` does not touch: the erizo, the own streams,
both queues of requests, and `p2p_` when the response does not name it
(`data_rejoined`). Two rooms with different histories agree after the same
response exactly when they agreed on these before (`isolated_iff`).
-/
namespace LicodeClient
open LicodeClient.Table LicodeClient.Program LicodeClient.Run

/-- What a session uses. Streams are given by what their descriptions hold. -/
structure SessionData where
  id : Text
  clientId : Text
  erizoId : Text
  p2p : Bool
  singlePc : Bool
  defaultVideoBw : Int32
  maxVideoBw : Int32
  iceServerList : List IceServer
  localStreamInfos : UInt64 → Option LicodeStreamInfo
  remoteStreamInfos : UInt64 → Option LicodeStreamInfo
  pendingSubscribeStreams : List UInt64
  pendingPublishLocalStreams : List LicodeStreamInfo

def World.data (w : World) : SessionData where
  id := w.room.id
  clientId := w.room.clientId
  erizoId := w.room.erizoId
  p2p := w.room.p2p
  singlePc := w.room.singlePc
  defaultVideoBw := w.room.defaultVideoBw
  maxVideoBw := w.room.maxVideoBw
  iceServerList := w.room.iceServerList
  localStreamInfos streamId := (entry w.room.localStreamInfos streamId).map w.heap.cell
  remoteStreamInfos streamId := (entry w.room.remoteStreamInfos streamId).map w.heap.cell
  pendingSubscribeStreams := w.room.pendingSubscribeStreams
  pendingPublishLocalStreams := w.room.pendingPublishLocalStreams.map w.heap.cell

/-! ### Rejoining -/

/-- A history that ends with the room disconnected and no task waiting. -/
structure Rests (nl : Nlohmann) (w : World) : Prop where
  reached : ∃ token es, run (step nl) (World.init token) es = some w
  disconnected : w.room.state = .kDisconnected
  drained : w.tasks = []
  lives : w.crashed = none

/-- An event of the connection: it runs no task and posts none, it makes no
    stream, and it brings no token response. -/
structure Unheard (nl : Nlohmann) (w : World) (e : Event) : Prop where
  idle : started w e = none
  posts : posted nl w e = []
  tokenless : ∀ token, e.frame w ≠ .initToken token
  made : ∀ info, e ≠ .makeStream info

/-- The worker takes a task, or the connection moves. -/
def Works (nl : Nlohmann) (w : World) (e : Event) : Prop := (∃ order, e = .work order) ∨ Unheard nl w e

/-- `Join` is called in `w`, the connection is made, the response is received and
    its tasks run until none is left in `u`. -/
def Rejoins (nl : Nlohmann) (token : Text) (w u : World) : Prop :=
  ∃ making response later v t, run (step nl) w (.join :: making) = some v ∧
    Guarded (step nl) (Unheard nl) w (.join :: making) ∧ step nl v response = some t ∧
    response.frame v = .initToken token ∧ run (step nl) t later = some u ∧ Guarded (step nl) (Works nl) t later ∧
    u.tasks = [] ∧ u.crashed = none

/-- What the room has after it was joined again. -/
def SessionData.rejoined (r : JoinResponse) (d : SessionData) : SessionData :=
  { d with
    id := r.id
    clientId := r.clientId
    p2p := r.p2p.getD d.p2p
    singlePc := r.singlePc
    defaultVideoBw := r.defaultVideoBw
    maxVideoBw := r.maxVideoBw
    iceServerList := r.iceServers
    remoteStreamInfos := fun streamId => r.existStreams.find? (fun info => info.id = streamId) }

/-! ### The connection -/

theorem aside_data : Aside World.data := fun _ _ _ _ _ _ _ => rfl

theorem Unheard.data {nl : Nlohmann} {w w' : World} {e : Event} (quiet : Unheard nl w e)
    (taken : step nl w e = some w') :
    w'.data = w.data ∧ w'.tasks = w.tasks ∧ w'.room.remoteStreamInfos = w.room.remoteStreamInfos := by
  refine ⟨aside_data.step taken quiet.idle quiet.tokenless quiet.made,?_,?_⟩
  · rw [step_tasks taken,quiet.posts,List.append_nil]
    simp [base,quiet.idle]
  · exact (step_idle taken quiet.idle).2.2 quiet.tokenless

/-! ### The streams of the response -/

/-- The stream that a task enters under an id. -/
def Task.enters (streamId : UInt64) : Task → Option LicodeStreamInfo
  | .joinedStream info => if info.id = streamId then some info else none
  | _ => none

/-- What the room will have once its tasks have run: of the streams with one id
    the first is kept. -/
def SessionData.enter (d : SessionData) (tasks : List Task) : SessionData :=
  { d with remoteStreamInfos := fun streamId =>
      (d.remoteStreamInfos streamId).or (tasks.findSome? (Task.enters streamId)) }

/-- The tasks of a response are about to run, after which the room has `target`. -/
structure Entering (target : SessionData) (w : World) : Prop where
  tasks : ∀ task ∈ w.tasks, task = .onJoinRoom ∨ ∃ info, task = .joinedStream info
  clean : NoNull w.room.remoteStreamInfos
  valid : w.view.Valid
  data : w.data.enter w.tasks = target

/-- A description that is made does not touch those that a table leads to. -/
theorem map_allocate {w : World} {found : Option StreamPtr} (older : ∀ p, found = some p → p < w.heap.next)
    (info : LicodeStreamInfo) : found.map (w.allocate info).heap.cell = found.map w.heap.cell := by
  cases found with
  | none => rfl
  | some p => simp [World.allocate,Function.update_of_ne (Nat.ne_of_lt (older p rfl))]

/-- What is entered under an id: the stream that is there, or the new one. -/
theorem cell_emplace {w : World} (clean : NoNull w.room.remoteStreamInfos) (valid : w.view.Valid)
    (info : LicodeStreamInfo) (streamId : UInt64) :
    (entry (emplace w.room.remoteStreamInfos info.id w.heap.next) streamId).map (w.allocate info).heap.cell =
      (w.data.remoteStreamInfos streamId).or ((Task.joinedStream info).enters streamId) := by
  rw [entry_emplace clean]
  simp only [Task.enters,World.data]
  cases found : entry w.room.remoteStreamInfos streamId with
  | some p =>
    have older : p ≠ w.heap.next := Nat.ne_of_lt (valid.remote streamId p found)
    simp [World.allocate,Function.update_of_ne older]
  | none => by_cases here : info.id = streamId <;> simp [here,World.allocate]

theorem data_joinedStream {w : World} (clean : NoNull w.room.remoteStreamInfos) (valid : w.view.Valid)
    (info : LicodeStreamInfo) (rest : List Task) :
    (after (Task.runJoinedStream info) w).data.enter rest = w.data.enter (.joinedStream info :: rest) := by
  rw [after_of_ok (run_runJoinedStream info w)]
  have own : ∀ streamId, (entry w.room.localStreamInfos streamId).map (w.allocate info).heap.cell =
      (entry w.room.localStreamInfos streamId).map w.heap.cell :=
    fun streamId => map_allocate (valid.own streamId) info
  have pending : w.room.pendingPublishLocalStreams.map (w.allocate info).heap.cell =
      w.room.pendingPublishLocalStreams.map w.heap.cell := by
    refine List.map_congr_left (fun p member => ?_)
    exact Function.update_of_ne (Nat.ne_of_lt (valid.pending p member)) info w.heap.cell
  have remote := cell_emplace clean valid info
  simp only [World.data] at remote
  simp only [World.data,SessionData.enter,SessionData.mk.injEq]
  refine ⟨rfl,rfl,rfl,rfl,rfl,rfl,rfl,rfl,funext own,funext (fun streamId => ?_),rfl,pending⟩
  rw [remote,List.findSome?_cons,Option.or_assoc]
  cases (Task.joinedStream info).enters streamId <;> rfl

theorem entering_step {nl : Nlohmann} {w w' : World} {e : Event} {target : SessionData} (entering : Entering target w)
    (works : Works nl w e) (taken : step nl w e = some w') (lives : w'.crashed = none) : Entering target w' := by
  have valid := step_valid entering.valid taken lives
  rcases works with ⟨order,rfl⟩ | quiet
  · cases queue : w.tasks with
    | nil =>
      have can := (step_eq_some taken).2.1
      simp [enabled,queue] at can
    | cons task rest =>
      have starts : started w (.work order) = some (task,order,{ w with tasks := rest }) := by simp [started,queue]
      have same := step_started taken starts
      have data := entering.data
      have tasks : w'.tasks = rest := by
        rw [step_tasks taken]
        simp [base,starts,posted,Event.frame,Frame.tasks]
      have waiting : ∀ task ∈ w'.tasks, task = .onJoinRoom ∨ ∃ info, task = .joinedStream info := by
        intro task' member
        rw [tasks] at member
        exact entering.tasks task' (by rw [queue]; exact List.mem_cons_of_mem _ member)
      rw [queue] at data
      rcases entering.tasks task (by rw [queue]; exact List.mem_cons_self) with rfl | ⟨info,rfl⟩
      · refine ⟨waiting,?_,valid,?_⟩
        · rw [same]; exact entering.clean
        · rw [tasks,same]; exact data
      · have clean : NoNull ({ w with tasks := rest } : World).room.remoteStreamInfos := entering.clean
        have older : ({ w with tasks := rest } : World).view.Valid := by
          have before := valid_base entering.valid (.work order)
          simpa [base,starts] using before
        refine ⟨waiting,?_,valid,?_⟩
        · rw [same]
          exact noNull_emplace clean _ _
        · rw [tasks,← data,same]
          exact data_joinedStream clean older info rest
  · obtain ⟨data,tasks,remote⟩ := quiet.data taken
    refine ⟨?_,?_,valid,?_⟩
    · rw [tasks]; exact entering.tasks
    · rw [remote]; exact entering.clean
    · rw [data,tasks]; exact entering.data

/-! ### The response -/

theorem findSome_joined (infos : List LicodeStreamInfo) (streamId : UInt64) :
    (infos.map Task.joinedStream).findSome? (Task.enters streamId) = infos.find? (fun info => info.id = streamId) := by
  induction infos with
  | nil => rfl
  | cons info rest ih => by_cases here : info.id = streamId <;> simp [Task.enters,here,ih]

/-- The response assigns what it says, clears the remote streams and posts the
    tasks that enter its own. -/
theorem entering_response {nl : Nlohmann} {v t : World} {e : Event} {token : Text} {r : JoinResponse}
    (valid : v.view.Valid) (drained : v.tasks = []) (taken : step nl v e = some t) (lives : t.crashed = none)
    (frame : e.frame v = .initToken token) (admits : joinOutcome nl token = .admitted r) :
    Entering (v.data.rejoined r) t := by
  obtain ⟨v',before,later⟩ := step_token (f := fun w => (w.room,w.heap)) (fun _ _ _ => rfl) (fun _ _ => rfl) taken frame
  have spec := onJoinRoom_spec nl token v'
  rw [admits] at spec
  obtain ⟨room,heap⟩ := Prod.mk.inj before
  rw [after_of_ok spec] at later
  obtain ⟨room',heap'⟩ := Prod.mk.inj later
  obtain ⟨idle,posts⟩ := posted_of_token frame nl
  have tasks : t.tasks = .onJoinRoom :: r.existStreams.map .joinedStream := by
    rw [step_tasks taken,posts]
    simp [base,idle,drained,Frame.tasks,admits]
  refine ⟨?_,?_,step_valid valid taken lives,?_⟩
  · intro task member
    rw [tasks] at member
    rcases List.mem_cons.mp member with rfl | joined
    · exact .inl rfl
    · obtain ⟨info,-,rfl⟩ := List.mem_map.mp joined
      exact .inr ⟨info,rfl⟩
  · rw [room']
    exact noNull_empty
  · have found : ∀ streamId, (Task.onJoinRoom :: r.existStreams.map .joinedStream).findSome? (Task.enters streamId) =
        r.existStreams.find? (fun info => info.id = streamId) := findSome_joined r.existStreams
    simp only [tasks,SessionData.enter,World.data,room',heap',joined,room,heap,SessionData.rejoined,entry_empty,
      Option.map_none,Option.none_or,found]

theorem Rests.valid {nl : Nlohmann} {w : World} (rests : Rests nl w) : w.view.Valid := by
  obtain ⟨token,es,reached⟩ := rests.reached
  have always : Always (step nl) (fun w => w.crashed = none → w.view.Valid) (World.init token) es := by
    refine always_of_invariant (fun w e w' valid taken lives => ?_) (fun _ => valid_init token) es
    exact step_valid (valid (step_eq_some taken).1) taken lives
  exact always.last reached rests.lives

/-- What the room has after it was joined again. -/
theorem data_rejoined {nl : Nlohmann} {token : Text} {w u : World} {r : JoinResponse} (rests : Rests nl w)
    (rejoins : Rejoins nl token w u) (admits : joinOutcome nl token = .admitted r) : u.data = w.data.rejoined r := by
  obtain ⟨making,response,later,v,t,made,quiet,received,frame,done,works,drained,lives⟩ := rejoins
  have before : Always (step nl) (fun v => v.crashed = none → v.view.Valid ∧ v.tasks = [] ∧ v.data = w.data) w
      (.join :: making) := by
    refine always_of_guarded ?_ (fun _ => ⟨rests.valid,rests.drained,rfl⟩) quiet
    intro s e s' kept quiet taken lives
    obtain ⟨valid,waiting,same⟩ := kept (step_eq_some taken).1
    obtain ⟨data,tasks,-⟩ := quiet.data taken
    exact ⟨step_valid valid taken lives,tasks.trans waiting,data.trans same⟩
  obtain ⟨valid,waiting,same⟩ := before.last made (step_eq_some received).1
  have entering : Always (step nl) (fun s => s.crashed = none → Entering (v.data.rejoined r) s) t later := by
    refine always_of_guarded ?_ (fun lives => entering_response valid waiting received lives frame admits) works
    intro s e s' kept works taken lives
    exact entering_step (kept (step_eq_some taken).1) works taken lives
  have data := (entering.last done lives).data
  rw [drained] at data
  rw [← same,← data]
  simp [SessionData.enter]

/-! ### Two rooms -/

/-- Two rooms agree on what a response does not decide. -/
structure Agree (r : JoinResponse) (d d' : SessionData) : Prop where
  erizoId : d.erizoId = d'.erizoId
  p2p : r.p2p = none → d.p2p = d'.p2p
  localStreamInfos : d.localStreamInfos = d'.localStreamInfos
  pendingSubscribeStreams : d.pendingSubscribeStreams = d'.pendingSubscribeStreams
  pendingPublishLocalStreams : d.pendingPublishLocalStreams = d'.pendingPublishLocalStreams

theorem rejoined_eq_iff (r : JoinResponse) (d d' : SessionData) : d.rejoined r = d'.rejoined r ↔ Agree r d d' := by
  constructor
  · intro same
    obtain ⟨-,-,erizoId,p2p,-,-,-,-,own,-,subscribes,publishes⟩ := SessionData.mk.inj same
    refine ⟨erizoId,fun absent => ?_,own,subscribes,publishes⟩
    simpa [absent] using p2p
  · rintro ⟨erizoId,p2p,own,subscribes,publishes⟩
    have kept : r.p2p.getD d.p2p = r.p2p.getD d'.p2p := by
      cases absent : r.p2p with
      | none => exact p2p absent
      | some p2p => rfl
    simp only [SessionData.rejoined,erizoId,kept,own,subscribes,publishes]

/-- Two rooms that are joined again and receive the same response agree on
    everything exactly when their histories left them with the same erizo, own
    streams and pending requests, and with the same `p2p_` when the response does
    not name it. -/
theorem isolated_iff {nl : Nlohmann} {token : Text} {r : JoinResponse} {w w' u u' : World} (rests : Rests nl w)
    (rests' : Rests nl w') (rejoins : Rejoins nl token w u) (rejoins' : Rejoins nl token w' u')
    (admits : joinOutcome nl token = .admitted r) : u.data = u'.data ↔ Agree r w.data w'.data := by
  rw [data_rejoined rests rejoins admits,data_rejoined rests' rejoins' admits,rejoined_eq_iff]

/-! ### Two histories -/

/-- Tests that an event is one of the connection. -/
def isUnheard (nl : Nlohmann) (w : World) (e : Event) : Bool :=
  (started w e).isNone && (posted nl w e).isEmpty &&
    (match e.frame w with
    | .initToken _ => false
    | _ => true) &&
    match e with
    | .makeStream _ => false
    | _ => true

theorem unheard_of_isUnheard (nl : Nlohmann) (w : World) (e : Event) (passes : isUnheard nl w e = true) :
    Unheard nl w e := by
  simp only [isUnheard,Bool.and_eq_true,Option.isNone_iff_eq_none,List.isEmpty_iff] at passes
  obtain ⟨⟨⟨idle,posts⟩,frame⟩,made⟩ := passes
  refine ⟨idle,posts,fun token same => ?_,fun info same => ?_⟩
  · rw [same] at frame
    cases frame
  · rw [same] at made
    cases made

/-- Session `k` is opened. -/
def reopening (k : Nat) : List Event :=
  [.join,.resolved k false,.connected k false,.handshaken k false,.read k (some (lit "40"))]

/-- Session `k` brings the response. -/
def welcoming (k : Nat) : Event := .read k (some (TOKEN_INIT_RESPONSE ++ (welcome [5]).print))

/-- After a history the room is joined again, and two tasks run. What is asked of
    the states on the way is tested, and `more` of the first and the last. -/
def rejoining (nl : Nlohmann) (history : List Event) (k : Nat) (more : World → World → Bool) : Option Bool := do
  let w ← run (step nl) (World.init ⟨[],[],false,[]⟩) history
  let v ← run (step nl) w (reopening k)
  let t ← step nl v (welcoming k)
  let u ← run (step nl) t [.work .listed,.work .listed]
  return decide (w.room.state = .kDisconnected ∧ w.crashed = none ∧ u.crashed = none) && w.tasks.isEmpty &&
    u.tasks.isEmpty && tests (step nl) (isUnheard nl) w (reopening k) &&
    decide ((welcoming k).frame v = .initToken (welcome [5]).print) && more w u

theorem rejoins_of_rejoining (nl : Nlohmann) (history : List Event) (k : Nat) (more : World → World → Bool)
    (ran : rejoining nl history k more = some true) :
    ∃ w u, Rests nl w ∧ Rejoins nl (welcome [5]).print w u ∧ more w u = true := by
  simp only [rejoining,Option.bind_eq_bind,Option.bind_eq_some_iff,Option.pure_def,Option.some.injEq,
    Bool.and_eq_true,decide_eq_true_eq,List.isEmpty_iff] at ran
  obtain ⟨w,reached,v,made,t,received,u,done,⟨⟨⟨⟨⟨off,lives,lives'⟩,drained⟩,drained'⟩,quiet⟩,frame⟩,holds⟩ := ran
  refine ⟨w,u,⟨⟨_,_,reached⟩,off,drained,lives⟩,?_,holds⟩
  refine ⟨_,_,_,v,t,made,guarded_of_tests (unheard_of_isUnheard nl) quiet,received,frame,done,?_,drained',lives'⟩
  exact fun _ _ => ⟨.inl ⟨_,rfl⟩,fun _ _ => ⟨.inl ⟨_,rfl⟩,trivial⟩⟩

def revisited : Nlohmann := library [welcome [5]]

/-- The room is visited, and the server ends the connection. -/
def firstVisit : List Event :=
  opening ++ [welcoming 0,.work .listed,.work .listed,.read 0 (some (lit "41"))]

/-- The connection ends before the answer to a publish request. -/
def unanswered : List Event :=
  opening ++ [welcoming 0,.work .listed,.work .listed,.makeStream camera,.call (.publishStream 1),.work .listed,
    .read 0 (some (lit "41"))]

/-- Nothing is left that a session uses, but what a response decides. -/
def blank (w : World) : Bool :=
  decide (w.room.erizoId = [] ∧ w.room.p2p = false ∧ w.room.pendingSubscribeStreams = [] ∧
    w.room.pendingPublishLocalStreams = []) && w.room.localStreamInfos.entries.isEmpty

theorem agree_of_blank (r : JoinResponse) {w w' : World} (left : blank w = true) (right : blank w' = true) :
    Agree r w.data w'.data := by
  have empty : ∀ w : World, blank w = true → w.room.erizoId = [] ∧ w.room.p2p = false ∧
      w.room.pendingSubscribeStreams = [] ∧ w.room.pendingPublishLocalStreams = [] ∧
      w.room.localStreamInfos = ∅ := by
    intro w blank
    simp only [LicodeClient.blank,Bool.and_eq_true,decide_eq_true_eq,List.isEmpty_iff] at blank
    obtain ⟨⟨erizoId,p2p,subscribes,publishes⟩,own⟩ := blank
    exact ⟨erizoId,p2p,subscribes,publishes,AList.ext own⟩
  obtain ⟨erizoId,p2p,subscribes,publishes,own⟩ := empty w left
  obtain ⟨erizoId',p2p',subscribes',publishes',own'⟩ := empty w' right
  refine ⟨?_,fun _ => ?_,?_,?_,?_⟩ <;> simp only [World.data]
  · rw [erizoId,erizoId']
  · rw [p2p,p2p']
  · simp only [own,own',entry_empty,Option.map_none]
  · rw [subscribes,subscribes']
  · simp only [publishes,publishes',List.map_nil]

def JoinOutcome.isAdmitted : JoinOutcome → Bool
  | .admitted _ => true
  | _ => false

theorem welcome_admits : ∃ r, joinOutcome revisited (welcome [5]).print = .admitted r := by
  have admits : (joinOutcome revisited (welcome [5]).print).isAdmitted = true := by decide +kernel
  cases outcome : joinOutcome revisited (welcome [5]).print with
  | admitted r => exact ⟨r,rfl⟩
  | refused => rw [outcome] at admits; cases admits
  | undefined => rw [outcome] at admits; cases admits

/-- A room that was not joined before. -/
theorem rejoins_new :
    ∃ w u, Rests revisited w ∧ Rejoins revisited (welcome [5]).print w u ∧ blank w = true ∧
      u.data.pendingPublishLocalStreams = [] := by
  obtain ⟨w,u,rests,rejoins,facts⟩ := rejoins_of_rejoining revisited [] 0
    (fun w u => blank w && decide (u.data.pendingPublishLocalStreams = [])) (by decide +kernel)
  obtain ⟨empty,none⟩ := Bool.and_eq_true_iff.mp facts
  exact ⟨w,u,rests,rejoins,empty,of_decide_eq_true none⟩

/-- A first visit that leaves nothing makes no difference to a second one. -/
theorem isolated_visit :
    ∃ w w' u u' r, Rests revisited w ∧ Rests revisited w' ∧ Rejoins revisited (welcome [5]).print w u ∧
      Rejoins revisited (welcome [5]).print w' u' ∧
      joinOutcome revisited (welcome [5]).print = .admitted r ∧ u.data = u'.data := by
  obtain ⟨w,u,rests,rejoins,empty,-⟩ := rejoins_new
  obtain ⟨w',u',rests',rejoins',empty'⟩ :=
    rejoins_of_rejoining revisited firstVisit 1 (fun w _ => blank w) (by decide +kernel)
  obtain ⟨r,admits⟩ := welcome_admits
  refine ⟨w,w',u,u',r,rests,rests',rejoins,rejoins',admits,?_⟩
  exact (isolated_iff rests rests' rejoins rejoins' admits).mpr (agree_of_blank r empty empty')

/-- A request that was not answered is still pending in the next session. -/
theorem isolated_fails :
    ∃ w w' u u' r, Rests revisited w ∧ Rests revisited w' ∧ Rejoins revisited (welcome [5]).print w u ∧
      Rejoins revisited (welcome [5]).print w' u' ∧
      joinOutcome revisited (welcome [5]).print = .admitted r ∧
      u.data.pendingPublishLocalStreams = [] ∧ u'.data.pendingPublishLocalStreams = [camera] ∧ u.data ≠ u'.data := by
  obtain ⟨w,u,rests,rejoins,-,empty⟩ := rejoins_new
  obtain ⟨w',u',rests',rejoins',pending⟩ := rejoins_of_rejoining revisited unanswered 1
    (fun _ u => u.data.pendingPublishLocalStreams = [camera]) (by decide +kernel)
  obtain ⟨r,admits⟩ := welcome_admits
  have pending := of_decide_eq_true pending
  refine ⟨w,w',u,u',r,rests,rests',rejoins,rejoins',admits,empty,pending,fun same => ?_⟩
  rw [same,pending] at empty
  cases empty

end LicodeClient
