import LicodeClient.Arrivals
import LicodeClient.Tables

/-!
What an `onAddStream` does to a stream that the room has already. The new
description has no connection. For an own stream the connection's id is copied
into it and whether it is connected is not; a remote stream is replaced as it is.
Along a run nothing is lost exactly when an own stream is announced before it is
connected, and a remote one before it has a connection (`retains_iff`).
-/
namespace LicodeClient
open LicodeClient.Table LicodeClient.Program LicodeClient.Run Decode

/-! ### What is posted -/

/-- A stream without a connection. -/
def LicodeStreamInfo.Blank (info : LicodeStreamInfo) : Prop := info.connectionId = [] ∧ info.connected = false

/-- What a task announces has no connection. -/
def Task.AnnouncesBlank (task : Task) : Prop := ∀ info, task = .onAddStream info → info.Blank

theorem blank_of_streamInfo {nl : Nlohmann} {lookup : Json → String → Except Fault Json} {stream : Json}
    {info : LicodeStreamInfo} (read : streamInfo nl lookup stream = .ok info) : info.Blank := by
  simp only [streamInfo,bind_eq_ok_iff] at read
  obtain ⟨_,-,_,-,_,-,_,-,_,-,_,-,_,-,_,-,_,-,_,-,_,-,_,-,_,-,same⟩ := read
  cases same
  exact ⟨rfl,rfl⟩

theorem announcesBlank_posted (nl : Nlohmann) (w : World) (e : Event) :
    ∀ task ∈ posted nl w e, task.AnnouncesBlank := by
  have add : ∀ msg, Yields Task.AnnouncesBlank (addTask nl msg) := by
    intro msg task yields info announces
    obtain ⟨stream,-,yields⟩ := bind_eq_ok_iff.mp yields
    obtain ⟨info',read,same⟩ := bind_eq_ok_iff.mp yields
    cases same
    cases announces
    exact blank_of_streamInfo read
  refine of_posted ?_ ?_ ?_ ?_ (yields_event ?_ ?_ add ?_)
  · intro api info announces
    cases api <;> cases announces
  · intro token _ task member info announces
    subst announces
    simp only [Frame.tasks] at member
    split at member
    · simp at member
    · cases member
  all_goals
    intros
    intro info announces
    cases announces

/-- What waits to be announced has no connection, and the pointers of the room
    lead to streams that exist. -/
structure Awaiting (w : World) : Prop where
  tasks : ∀ task ∈ w.tasks, task.AnnouncesBlank
  valid : w.crashed = none → w.view.Valid

theorem awaiting_init (token : LicodeToken) : Awaiting (World.init token) :=
  ⟨fun _ member => (by cases member),fun _ => valid_init token⟩

theorem awaiting_step {nl : Nlohmann} {w w' : World} {e : Event} (awaiting : Awaiting w)
    (taken : step nl w e = some w') : Awaiting w' := by
  refine ⟨fun task member => ?_,fun lives => step_valid (awaiting.valid (step_eq_some taken).1) taken lives⟩
  rw [step_tasks taken] at member
  rcases List.mem_append.mp member with waiting | new
  · exact awaiting.tasks task (mem_of_base waiting)
  · exact announcesBlank_posted nl w e task new

/-! ### What is held of a stream -/

/-- The connection of the stream that a table leads to, and whether it is connected. -/
def World.held (w : World) (table : StreamTable) (streamId : UInt64) : Option (Text × Bool) :=
  (entry table streamId).map (fun p => ((w.heap.cell p).connectionId,(w.heap.cell p).connected))

/-- The stream's entries keep the connection that they had. -/
def KeepsHeld (w w' : World) (streamId : UInt64) : Prop :=
  ∀ c, (w.held w.room.localStreamInfos streamId = some c → w'.held w'.room.localStreamInfos streamId = some c) ∧
    (w.held w.room.remoteStreamInfos streamId = some c → w'.held w'.room.remoteStreamInfos streamId = some c)

/-- The own stream is not connected yet; without one, the remote stream has no
    connection. -/
def Bare (w : World) (streamId : UInt64) : Prop :=
  (∀ connId connected, w.held w.room.localStreamInfos streamId = some (connId,connected) → connected = false) ∧
    (w.held w.room.localStreamInfos streamId = none →
      ∀ c, w.held w.room.remoteStreamInfos streamId = some c → c = ([],false))

/-- A description that is made later does not touch the remote streams. -/
theorem held_of_older {w w' : World} (valid : w.view.Valid) (older : ∀ p < w.heap.next, w'.heap.cell p = w.heap.cell p)
    (streamId : UInt64) : w'.held w.room.remoteStreamInfos streamId = w.held w.room.remoteStreamInfos streamId := by
  unfold World.held
  cases found : entry w.room.remoteStreamInfos streamId with
  | none => rfl
  | some p =>
    have same := older p (valid.remote streamId p found)
    simp only [Option.map_some,same]

/-- An own stream is announced. -/
theorem keepsHeld_own {w : World} (valid : w.view.Valid) {info : LicodeStreamInfo} (blank : info.Blank)
    {own : StreamPtr} (found : entry w.room.localStreamInfos info.id = some own) :
    KeepsHeld w (after (Task.runOnAddStream info) w) info.id ↔ (w.heap.cell own).connected = false := by
  have runs := run_runOnAddStream info w
  rw [found] at runs
  have before : w.held w.room.localStreamInfos info.id =
      some ((w.heap.cell own).connectionId,(w.heap.cell own).connected) := by
    simp only [World.held,found,Option.map_some]
  have later : (after (Task.runOnAddStream info) w).held (after (Task.runOnAddStream info) w).room.localStreamInfos
      info.id = some ((w.heap.cell own).connectionId,false) := by
    have older : own ≠ w.heap.next := Nat.ne_of_lt (valid.own info.id own found)
    rw [after_of_ok runs]
    simp [World.held,World.setInfo,World.allocate,entry_insert,LicodeStreamInfo.announced,blank.2,
      Function.update_of_ne older]
  have remote : (after (Task.runOnAddStream info) w).held (after (Task.runOnAddStream info) w).room.remoteStreamInfos
      info.id = w.held w.room.remoteStreamInfos info.id := by
    rw [after_of_ok runs]
    refine held_of_older valid (fun p older => ?_) info.id
    simp [World.setInfo,World.allocate,Function.update_of_ne (Nat.ne_of_lt older)]
  constructor
  · intro keeps
    have kept := later.symm.trans ((keeps _).1 before)
    exact (Prod.mk.inj (Option.some.inj kept)).2.symm
  · intro unconnected c
    rw [later,before,remote,unconnected]
    exact ⟨id,id⟩

/-- A stream is announced that is not an own one. -/
theorem keepsHeld_remote {w : World} {info : LicodeStreamInfo} (blank : info.Blank)
    (found : entry w.room.localStreamInfos info.id = none) :
    KeepsHeld w (after (Task.runOnAddStream info) w) info.id ↔
      ∀ c, w.held w.room.remoteStreamInfos info.id = some c → c = ([],false) := by
  have runs := run_runOnAddStream info w
  rw [found] at runs
  have before : w.held w.room.localStreamInfos info.id = none := by simp only [World.held,found,Option.map_none]
  have later : (after (Task.runOnAddStream info) w).held (after (Task.runOnAddStream info) w).room.remoteStreamInfos
      info.id = some ([],false) := by
    rw [after_of_ok runs]
    simp [World.held,World.indexLocal,World.allocate,entry_insert,blank.1,blank.2]
  constructor
  · intro keeps c held
    exact (Option.some.inj (later.symm.trans ((keeps c).2 held))).symm
  · intro bare c
    refine ⟨fun held => ?_,fun held => ?_⟩
    · cases before.symm.trans held
    · rw [later,bare c held]

theorem keepsHeld_iff {w : World} (valid : w.view.Valid) {info : LicodeStreamInfo} (blank : info.Blank) :
    KeepsHeld w (after (Task.runOnAddStream info) w) info.id ↔ Bare w info.id := by
  unfold Bare
  cases found : entry w.room.localStreamInfos info.id with
  | some own =>
    rw [keepsHeld_own valid blank found]
    simp [World.held,found]
  | none =>
    rw [keepsHeld_remote blank found]
    simp [World.held,found]

/-! ### Runs -/

/-- The stream that a task announces. -/
def Task.announcedId : Task → Option UInt64
  | .onAddStream info => some info.id
  | _ => none

/-- The stream whose announcement an event runs. -/
def announces (w : World) (e : Event) : Option UInt64 := (started w e).bind (fun start => start.1.announcedId)

/-- A step that runs an announcement leaves the stream the connection it has. -/
def Retains (nl : Nlohmann) (w : World) (e : Event) : Prop :=
  ∀ w' streamId, step nl w e = some w' → announces w e = some streamId → KeepsHeld w w' streamId

/-- A stream that is announced has nothing to lose. -/
def AnnouncesBare (w : World) (e : Event) : Prop := ∀ streamId, announces w e = some streamId → Bare w streamId

theorem keepsHeld_step_iff {nl : Nlohmann} {w w' : World} {e : Event} {streamId : UInt64} (awaiting : Awaiting w)
    (taken : step nl w e = some w') (runs : announces w e = some streamId) :
    KeepsHeld w w' streamId ↔ Bare w streamId := by
  obtain ⟨⟨task,order,v⟩,starts,announced⟩ := Option.bind_eq_some_iff.mp runs
  cases task with
  | onAddStream info =>
    cases announced
    have blank : info.Blank := by
      rcases (started_cases starts).2.2 with queue | ⟨-,api,same⟩
      · exact awaiting.tasks (.onAddStream info) (by rw [queue]; exact List.mem_cons_self) info rfl
      · cases api <;> cases same
    have older := valid_base (awaiting.valid (step_eq_some taken).1) e
    have same : base w e = v := by simp [base,starts]
    rw [same] at older
    have kept := keepsHeld_iff older blank
    rw [step_started taken starts]
    rw [started_eq starts] at kept ⊢
    exact kept
  | _ => cases announced

theorem retains_step_iff {nl : Nlohmann} {w w' : World} {e : Event} (awaiting : Awaiting w)
    (taken : step nl w e = some w') : Retains nl w e ↔ AnnouncesBare w e := by
  constructor
  · intro retains streamId runs
    exact (keepsHeld_step_iff awaiting taken runs).mp (retains w' streamId taken runs)
  · intro bare w'' streamId taken' runs
    exact (keepsHeld_step_iff awaiting taken' runs).mpr (bare streamId runs)

/-- Along a run no announcement loses a connection exactly when each is of a stream
    that has nothing to lose. -/
theorem retains_iff (nl : Nlohmann) (token : LicodeToken) (es : List Event) :
    Guarded (step nl) (Retains nl) (World.init token) es ↔ Guarded (step nl) AnnouncesBare (World.init token) es :=
  guarded_congr (fun _ _ _ awaiting taken => awaiting_step awaiting taken)
    (fun _ _ _ awaiting taken => retains_step_iff awaiting taken) (awaiting_init token) es

def connectedAck : Text := lit "[true,\"e\",\"c\"]"

def reannouncing : Nlohmann :=
  knownJson [(announcement,.array [.string (lit "onAddStream"),announced]),(announcedText,announced),
    (connectedAck,.array [.boolean true,.string (lit "e"),.string (lit "c")])] announcedText

/-- A remote stream is announced, subscribed and acked, and announced again. -/
def announcedTwice : List Event :=
  opening ++ [.read 0 (some (lit "42" ++ announcement)),.work .listed,.call (.subscribeStream 7),.work .listed,
    .read 0 (some (lit "43222" ++ connectedAck)),.work .listed,.read 0 (some (lit "42" ++ announcement))]

/-- The second announcement takes the connection that the ack stored. -/
theorem retains_fails :
    ∃ w w', run (step reannouncing) (World.init ⟨[],[],false,[]⟩) announcedTwice = some w ∧
      step reannouncing w (.work .listed) = some w' ∧
      w.held w.room.remoteStreamInfos 7 = some (lit "c",false) ∧ w'.held w'.room.remoteStreamInfos 7 = some ([],false) ∧
      ¬ Guarded (step reannouncing) (Retains reannouncing) (World.init ⟨[],[],false,[]⟩)
        (announcedTwice ++ [.work .listed]) := by
  have runs : (run (step reannouncing) (World.init ⟨[],[],false,[]⟩) announcedTwice).map (fun w =>
      decide (w.held w.room.remoteStreamInfos 7 = some (lit "c",false) ∧ announces w (.work .listed) = some 7 ∧
        (step reannouncing w (.work .listed)).map (fun w' => w'.held w'.room.remoteStreamInfos 7) =
          some (some ([],false)))) = some true := by decide +kernel
  obtain ⟨w,reached,facts⟩ := Option.map_eq_some_iff.mp runs
  obtain ⟨before,again,later⟩ := of_decide_eq_true facts
  obtain ⟨w',taken,lost⟩ := Option.map_eq_some_iff.mp later
  refine ⟨w,w',reached,taken,before,lost,fun all => ?_⟩
  have retains := ((all.suffix reached) w' taken).1
  have kept := ((retains w' 7 taken again) _).2 before
  cases lost.symm.trans kept

end LicodeClient
