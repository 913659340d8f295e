import LicodeClient.Connection
import LicodeClient.KeepAlive
import LicodeClient.Tasks

/-!
The whole life of a client, to the destructor of its signaling. The signaling has
no websocket until the first join makes one, and keeps one from then on. Before
that nothing dereferences it, whatever is called and however often (`spares_fresh`):
the accesses are behind tests of states that only a join changes, or in handlers of
a session. The destructor tests nothing, so a client that never joined does not
survive its own destruction (`attached_iff`).
-/
namespace LicodeClient
open LicodeClient.Table LicodeClient.Program LicodeClient.Run

/-- `LicodeSignaling::~LicodeSignaling`. -/
def destroy : Exec Unit := do
  let k ← websocket
  modify (·.updateSession k (·.setOnReadyCallback false))
  let k ← websocket
  modify (·.updateSession k (·.setOnReceiveMsgCallback false))
  let k ← websocket
  modify (·.updateSession k (·.setOnAbnormalDisconnectCallback false))

/-- The same client with other sessions and another value of `websocket_`. -/
def World.attach (w : World) (sessions : List WebsocketSession) (websocket : Option Nat) : World :=
  { w with sessions, signaling.websocket := websocket }

/-- An outcome but for the value of `websocket_`. -/
def unpointed {α : Type} : EStateM.Result Fault World α → EStateM.Result Fault World α
  | .ok a w => .ok a { w with signaling.websocket := none }
  | .error fault w => .error fault { w with signaling.websocket := none }

/-- The program does not go through `websocket_`: whatever sessions there are, it
    ends the same with any pointer to one of them as with none. -/
def Spares {α : Type} (x : Exec α) (w : World) : Prop :=
  ∀ sessions p, unpointed (x.run (w.attach sessions p)) = unpointed (x.run (w.attach sessions none))

/-- Every access that the program makes through `websocket_` finds it set. -/
def Attached {α : Type} (x : Exec α) (w : World) : Prop := w.signaling.websocket = none → Spares x w

/-! ### Accesses -/

/-- A program that begins with an access is told from one that makes none. -/
theorem not_spares_websocket {α : Type} {f : Nat → Exec α} {w : World} (sessions : List WebsocketSession) (k : Nat)
    (goes : faultOf (f k) (w.attach sessions (some k)) ≠ some .undefined) : ¬ Spares (websocket >>= f) w := by
  intro spares
  have null : (websocket >>= f).run (w.attach sessions none) = .error .undefined (w.attach sessions none) := rfl
  have found : (websocket >>= f).run (w.attach sessions (some k)) = (f k).run (w.attach sessions (some k)) := rfl
  have same := spares sessions (some k)
  rw [null,found] at same
  rw [faultOf] at goes
  cases outcome : (f k).run (w.attach sessions (some k)) with
  | ok a t =>
    rw [outcome] at same
    cases same
  | error fault t =>
    rw [outcome] at same goes
    exact goes (congrArg some (EStateM.Result.error.inj same).1)

theorem not_spares_websocketSendMsg (msg : Packet) (w : World) : ¬ Spares (websocketSendMsg msg) w :=
  not_spares_websocket [] 0 (never_modify _ _)

theorem not_spares_destroy (w : World) : ¬ Spares destroy w := by
  refine not_spares_websocket [] 0 ?_
  simp [faultOf,websocket,World.attach,World.updateSession]

/-- All five places of an access are told from programs that make none. -/
theorem accesses_not_spared (w : World) :
    ¬ Spares dispose w ∧ ¬ Spares initToken w ∧ ¬ Spares destroy w ∧
      (w.signaling.state = .kConnected → ¬ Spares socketIoPing w ∧ ∀ msg, ¬ Spares (signalingSendMsg msg) w) := by
  refine ⟨?_,not_spares_websocketSendMsg (.initToken w.signaling.token false) w,not_spares_destroy w,fun up => ⟨?_,?_⟩⟩
  · refine not_spares_websocket [] 0 (never_bind never_get (fun w => ?_) _)
    split
    · exact never_modify _
    · exact never_pure _
  · intro spares
    have same := spares [] (some 0)
    simp only [socketIoPing,EStateM.run_bind,EStateM.run_get,World.attach,up,if_true] at same
    cases same
  · intro msg spares
    have same := spares [] (some 0)
    simp [signalingSendMsg,websocketSendMsg,websocket,World.attach,up,unpointed] at same

/-! ### Before the first join -/

/-- The tasks of the application's calls. -/
def Task.requested : Task → Bool
  | .publishStream _ _ | .unPublishStream _ | .subscribeStream _ | .unSubscriberStream _ | .sendAnswer _ _
  | .sendOffer _ _ | .sendIceCandidate _ _ _ _ => true
  | _ => false

theorem requested_task (w : World) (api : Api) : (api.task w).requested = true := by
  cases api <;> rfl

/-- Nothing is connected, there are no sessions and no pings, and only calls of the
    application wait for the worker. -/
structure Fresh (w : World) : Prop where
  room : w.room.state = .kDisconnected
  signaling : w.signaling.state = .kDisconnect
  sessions : w.sessions = []
  pings : w.pings = []
  tasks : ∀ task ∈ w.tasks, task.requested = true

theorem Fresh.nobody {w : World} (fresh : Fresh w) {k : Nat} {b : Bool}
    (can : (decide (k < w.sessions.length) && b) = true) : False := by
  have exist := exists_of_enabled can
  simp [fresh.sessions] at exist

theorem run_signalingSendMsg_quiet {w : World} (quiet : w.signaling.state ≠ .kConnected) (msg : Packet) :
    (signalingSendMsg msg).run w = .ok () w := by
  simp [signalingSendMsg,quiet]

theorem unpointed_sends {v v' : World} (msg : Packet) (quiet : v.signaling.state ≠ .kConnected)
    (same : { v with signaling.websocket := none } = { v' with signaling.websocket := none }) :
    unpointed ((signalingSendMsg msg).run v) = unpointed ((signalingSendMsg msg).run v') := by
  have state : v.signaling.state = v'.signaling.state := congrArg (fun w => w.signaling.state) same
  rw [run_signalingSendMsg_quiet quiet,run_signalingSendMsg_quiet (state ▸ quiet)]
  exact congrArg (EStateM.Result.ok ()) same

theorem spares_runOfferOrAnswer {w : World} (quiet : w.signaling.state ≠ .kConnected) (type : String)
    (streamId : UInt64) (sdp : Text) : Spares (Task.runOfferOrAnswer type streamId sdp) w := by
  intro sessions p
  rw [run_runOfferOrAnswer,run_runOfferOrAnswer]
  simp only [World.attach]
  cases entry w.room.remoteStreamInfos streamId with
  | none => rfl
  | some info =>
    apply unpointed_sends
    exacts [quiet,rfl]

/-- The application's tasks send nothing while the signaling is not connected. -/
theorem spares_requested (nl : Nlohmann) (order : Order UInt64 StreamPtr) {task : Task}
    (requested : task.requested = true) {w : World} (quiet : w.signaling.state ≠ .kConnected) :
    Spares (task.run nl order) w := by
  intro sessions p
  cases task with
  | publishStream info label =>
    have runs : ∀ v : World, (Task.run nl order (.publishStream info label)).run v =
        (signalingSendMsg (.publish info label)).run
          { v with room.pendingPublishLocalStreams := v.room.pendingPublishLocalStreams ++ [info] } := fun _ => rfl
    rw [runs,runs]
    apply unpointed_sends
    exacts [quiet,rfl]
  | subscribeStream streamId =>
    have runs : ∀ v : World, (Task.run nl order (.subscribeStream streamId)).run v =
        (signalingSendMsg (.subscribe streamId)).run
          { v with room.pendingSubscribeStreams := v.room.pendingSubscribeStreams ++ [streamId] } := fun _ => rfl
    rw [runs,runs]
    apply unpointed_sends
    exacts [quiet,rfl]
  | unPublishStream streamId =>
    rw [Task.run,Task.runUnsubscribe]
    apply unpointed_sends
    exacts [quiet,rfl]
  | unSubscriberStream streamId =>
    rw [Task.run,Task.runUnsubscribe]
    apply unpointed_sends
    exacts [quiet,rfl]
  | sendAnswer streamId sdp => exact spares_runOfferOrAnswer quiet "answer" streamId sdp sessions p
  | sendOffer streamId sdp => exact spares_runOfferOrAnswer quiet "offer" streamId sdp sessions p
  | sendIceCandidate streamId sdpMid index candidate =>
    rw [Task.run,run_runSendIceCandidate,run_runSendIceCandidate]
    simp only [World.attach]
    cases entry w.room.remoteStreamInfos streamId with
    | some info =>
      apply unpointed_sends
      exacts [quiet,rfl]
    | none =>
      cases entry w.room.localStreamInfos streamId with
      | some info =>
        apply unpointed_sends
        exacts [quiet,rfl]
      | none => rfl
  | _ => cases requested

/-- Before the first join no handler that can run goes through `websocket_`. -/
theorem spares_fresh (nl : Nlohmann) {w : World} (fresh : Fresh w) {e : Event} (can : enabled w e = true) :
    Spares (handler nl e) w := by
  have quiet : w.signaling.state ≠ .kConnected := by simp [fresh.signaling]
  cases e with
  | join =>
    intro sessions p
    simp [handler,join,signalingInit,update,World.attach,fresh.room,fresh.signaling,unpointed]
  | leave =>
    intro sessions p
    simp [handler,leave,World.attach,fresh.room,unpointed]
  | makeStream info => exact fun sessions p => rfl
  | call api =>
    intro sessions p
    cases api <;> rfl
  | dispatch api order =>
    intro sessions p
    have same : ∀ q, api.task (w.attach sessions q) = api.task w := by
      intro q
      cases api <;> rfl
    have runs : ∀ q, (handler nl (.dispatch api order)).run (w.attach sessions q) =
        ((api.task w).run nl order).run (w.attach sessions q) := fun q => same q ▸ rfl
    rw [runs,runs]
    exact spares_requested nl order (requested_task w api) quiet sessions p
  | work order =>
    intro sessions p
    cases queue : w.tasks with
    | nil => simp [enabled,queue] at can
    | cons task rest =>
      have runs : ∀ q, (handler nl (.work order)).run (w.attach sessions q) =
          (task.run nl order).run ({ w with tasks := rest }.attach sessions q) := by
        intro q
        simp [handler,work,World.attach,queue]
      rw [runs,runs]
      have still : ({ w with tasks := rest } : World).signaling.state ≠ .kConnected := quiet
      exact spares_requested nl order (fresh.tasks task (queue ▸ List.mem_cons_self)) still sessions p
  | resolved k failed => exact (fresh.nobody can).elim
  | connected k failed => exact (fresh.nobody can).elim
  | handshaken k failed => exact (fresh.nobody can).elim
  | read k frame => exact (fresh.nobody can).elim
  | posted k closes => exact (fresh.nobody can).elim
  | wrote k succeeded => exact (fresh.nobody can).elim
  | ping i => simp [enabled,fresh.pings] at can

/-! ### Along a run -/

/-- The signaling has no websocket only before the first join. -/
structure Unjoined (w : World) : Prop where
  wired : w.outline.Wired
  fresh : w.signaling.websocket = none → Fresh w

theorem unjoined_init (token : LicodeToken) : Unjoined (World.init token) :=
  ⟨wired_init token,fun _ => ⟨rfl,rfl,rfl,rfl,by simp [World.init]⟩⟩

/-- A join makes a websocket when there is none, and nothing takes it away. -/
theorem websocket_step {nl : Nlohmann} {w w' : World} {e : Event} (unjoined : Unjoined w)
    (taken : step nl w e = some w') :
    w'.signaling.websocket = none ↔ w.signaling.websocket = none ∧ e ≠ .join := by
  have moves := congrArg Outline.websocket (step_outline unjoined.wired taken)
  rw [Move.websocket_apply] at moves
  replace moves : w'.signaling.websocket = _ := moves
  rw [moves]
  cases e with
  | join =>
    constructor
    · intro null
      simp only [moveOf] at null
      split at null
      · cases null
      · next other =>
        have fresh := unjoined.fresh null
        exact absurd ⟨fresh.room,fresh.signaling⟩ other
    · rintro ⟨-,other⟩
      exact absurd rfl other
  | resolved k failed => cases failed <;> simp [moveOf,World.outline]
  | connected k failed => cases failed <;> simp [moveOf,World.outline]
  | handshaken k failed => cases failed <;> simp [moveOf,World.outline]
  | read k frame => cases frame <;> simp [moveOf,World.outline]
  | _ => simp [moveOf,World.outline]

/-- What does not change the connection, the sessions or the pings. -/
theorem Fresh.still {w w' : World} (fresh : Fresh w) (same : w'.outline = w.outline) (pings : w'.pings = w.pings)
    (tasks : ∀ task ∈ w'.tasks, task.requested = true) : Fresh w' := by
  have none := congrArg Outline.chains same
  refine ⟨(congrArg (fun o => o.room) same).trans fresh.room,
    (congrArg (fun o => o.signaling) same).trans fresh.signaling,?_,pings.trans fresh.pings,tasks⟩
  simpa [World.outline,fresh.sessions] using none

theorem fresh_step {nl : Nlohmann} {w w' : World} {e : Event} (wired : w.outline.Wired) (fresh : Fresh w)
    (other : e ≠ .join) (taken : step nl w e = some w') : Fresh w' := by
  have pings : w'.pings = (SignalingEvent.client e).pings nl w := step_pings taken
  have moves := step_outline wired taken
  obtain ⟨-,can,made⟩ := step_eq_some taken
  have requests : w'.tasks = (after (handler nl e) w).tasks := by rw [made]; rfl
  cases e with
  | join => exact absurd rfl other
  | leave =>
    refine fresh.still (moves.trans (if_pos fresh.room)) pings ?_
    have same : (after (handler nl .leave) w).tasks = w.tasks := by simp [handler,leave,fresh.room,after]
    rw [requests,same]
    exact fresh.tasks
  | makeStream info =>
    refine fresh.still moves pings ?_
    rw [requests]
    exact fresh.tasks
  | call api =>
    refine fresh.still moves pings ?_
    have posted : (after (handler nl (.call api)) w).tasks = w.tasks ++ [api.task w] := rfl
    rw [requests,posted]
    intro task member
    rcases List.mem_append.mp member with old | new
    · exact fresh.tasks task old
    · rw [List.mem_singleton.mp new]
      exact requested_task w api
  | dispatch api order =>
    refine fresh.still moves pings ?_
    have same : (after (handler nl (.dispatch api order)) w).tasks = w.tasks :=
      keeps_bind keeps_get (fun _ => aloof_tasks.run nl order _) w
    rw [requests,same]
    exact fresh.tasks
  | work order =>
    refine fresh.still moves pings ?_
    cases queue : w.tasks with
    | nil => simp [enabled,queue] at can
    | cons task rest =>
      have taken : after (handler nl (.work order)) w = after (task.run nl order) { w with tasks := rest } := by
        simp [handler,work,queue,after]
      rw [requests,taken,aloof_tasks.run nl order task]
      exact fun task member => fresh.tasks task (queue ▸ List.mem_cons_of_mem _ member)
  | resolved k failed => exact (fresh.nobody can).elim
  | connected k failed => exact (fresh.nobody can).elim
  | handshaken k failed => exact (fresh.nobody can).elim
  | read k frame => exact (fresh.nobody can).elim
  | posted k closes => exact (fresh.nobody can).elim
  | wrote k succeeded => exact (fresh.nobody can).elim
  | ping i => simp [enabled,fresh.pings] at can

theorem unjoined_step {nl : Nlohmann} {w w' : World} {e : Event} (unjoined : Unjoined w)
    (taken : step nl w e = some w') : Unjoined w' := by
  refine ⟨step_wired unjoined.wired taken,fun null => ?_⟩
  obtain ⟨before,other⟩ := (websocket_step unjoined taken).mp null
  exact fresh_step unjoined.wired (unjoined.fresh before) other taken

theorem websocket_run {nl : Nlohmann} {w w' : World} {es : List Event} (unjoined : Unjoined w)
    (done : run (step nl) w es = some w') :
    w'.signaling.websocket = none ↔ w.signaling.websocket = none ∧ .join ∉ es := by
  induction es generalizing w with
  | nil =>
    cases done
    simp
  | cons e es ih =>
    obtain ⟨v,first,rest⟩ := Option.bind_eq_some_iff.mp done
    rw [ih (unjoined_step unjoined first) rest,websocket_step unjoined first,List.mem_cons,not_or,and_assoc]
    exact and_congr_right' (and_congr_left' ne_comm)

/-- A run that the process survives, so that its client is destroyed in the end. -/
def Survives (nl : Nlohmann) (token : LicodeToken) (es : List Event) (w : World) : Prop :=
  run (step nl) (World.init token) es = some w ∧ w.crashed = none

/-- In the run and in the destruction after it, every access through `websocket_`
    finds it set. -/
def AlwaysAttached (nl : Nlohmann) (token : LicodeToken) (es : List Event) (w : World) : Prop :=
  Always (step nl) (fun v => ∀ e, enabled v e = true → Attached (handler nl e) v) (World.init token) es ∧
    Attached destroy w

/-- A client is destroyed safely exactly when it has been asked to join. -/
theorem attached_iff {nl : Nlohmann} {token : LicodeToken} {es : List Event} {w : World}
    (survives : Survives nl token es w) : AlwaysAttached nl token es w ↔ .join ∈ es := by
  have null := websocket_run (unjoined_init token) survives.1
  have start : (World.init token).signaling.websocket = none := rfl
  constructor
  · rintro ⟨-,destroyed⟩
    by_contra never
    exact not_spares_destroy w (destroyed (null.mpr ⟨start,never⟩))
  · intro joined
    refine ⟨?_,fun none => absurd joined (null.mp none).2⟩
    have all : Always (step nl) Unjoined (World.init token) es :=
      always_of_invariant (fun _ _ _ => unjoined_step) (unjoined_init token) es
    exact all.mono (fun v unjoined e can none => spares_fresh nl (unjoined.fresh none) can)

theorem attached_join :
    ∃ w, Survives noJson ⟨[],[],false,[]⟩ [.join] w ∧ AlwaysAttached noJson ⟨[],[],false,[]⟩ [.join] w := by
  have survives : Survives noJson ⟨[],[],false,[]⟩ [.join] (settle join (World.init ⟨[],[],false,[]⟩)) := ⟨rfl,rfl⟩
  exact ⟨_,survives,(attached_iff survives).mpr List.mem_cons_self⟩

/-- A room that is constructed and destroyed. -/
theorem attached_fails :
    ∃ w, Survives noJson ⟨[],[],false,[]⟩ [] w ∧ faultOf destroy w = some .undefined ∧
      ¬ AlwaysAttached noJson ⟨[],[],false,[]⟩ [] w := by
  refine ⟨World.init ⟨[],[],false,[]⟩,⟨rfl,rfl⟩,rfl,?_⟩
  rintro ⟨-,destroyed⟩
  exact not_spares_destroy _ (destroyed rfl)

end LicodeClient
