import LicodeClient.Addresses
import LicodeClient.Tables

/-!
Events of a connection. The tasks of an offer and of a ready event look for the
stream with the connection among the remote streams, a ready event after them
among the local ones, and call the observer with what they find, which is null
when they find nothing. Every event of a run reaches the stream to which the
server allocated its connection exactly when, as its task runs, some stream that
the task looks at has the connection, and every such stream is the one that was
given it, if that one is still known (`delivers_iff`).
-/
namespace LicodeClient
open LicodeClient.Table LicodeClient.Program LicodeClient.Run

/-- The connection that the task of an event is about. -/
def Task.connection : Task → Option Text
  | .receiveOffer connId _ | .onPeerConnectionConnectErizoReady connId => some connId
  | _ => none

/-- The call of the observer that tells it of the event. -/
def Task.report : Task → Option StreamPtr → Call
  | .receiveOffer _ sdp,info => .onReceiveOffer info sdp
  | _,info => .onStreamConnectReady info

/-- An id leads to a description in one of the tables. -/
def View.Leads (v : View) (streamId : UInt64) (p : StreamPtr) : Prop :=
  v.remote streamId = some p ∨ v.own streamId = some p

/-- The stream is known and has the connection. -/
def View.Connects (v : View) (connId : Text) (p : StreamPtr) : Prop :=
  (∃ streamId, v.Leads streamId p) ∧ v.connection p = connId

/-- If an ack allocated the connection to a stream that is still known, under the
    id that the ack is for or by the description that was published, then `p`
    describes that stream. -/
structure Allocated (carried : Carried) (v : View) (connId : Text) (p : StreamPtr) : Prop where
  named : ∀ streamId address, carried.named streamId = some address → address.2 = connId →
    (∃ q, v.Leads streamId q) → v.Leads streamId p
  given : ∀ q address, carried.given q = some address → address.2 = connId → (∃ streamId, v.Leads streamId q) → q = p

/-- What the task of an event must do: call the observer with the stream whose
    ack allocated the connection while that stream is known, not call it when no
    known stream has the connection, and never call it with null. -/
structure Delivered (nl : Nlohmann) (carried : Carried) (w : World) (task : Task) (connId : Text)
    (order : Order UInt64 StreamPtr) : Prop where
  returns : faultOf (task.run nl order) w = none
  named : ∀ streamId address, carried.named streamId = some address → address.2 = connId →
    (∃ q, w.view.Leads streamId q) →
      ∃ p, w.view.Leads streamId p ∧ (after (task.run nl order) w).calls = w.calls ++ [task.report (some p)]
  given : ∀ p address, carried.given p = some address → address.2 = connId → (∃ streamId, w.view.Leads streamId p) →
    (after (task.run nl order) w).calls = w.calls ++ [task.report (some p)]
  unknown : (∀ p, ¬ w.view.Connects connId p) → (after (task.run nl order) w).calls = w.calls
  nonNull : ∀ new, (after (task.run nl order) w).calls = w.calls ++ new → task.report none ∉ new

/-- When an event's task runs, it delivers the event, in whatever order its loops
    meet the entries of the tables. -/
def Delivers (nl : Nlohmann) (t : Tracked) (e : Event) : Prop :=
  ∀ task order v connId, started t.world e = some (task,order,v) → task.connection = some connId →
    ∀ order', Delivered nl t.carried v task connId order'

/-- A table leads from a connection to its stream: no entry is null, some entry
    has the connection, and it is the stream to which it was allocated. -/
structure Leads (carried : Carried) (v : View) (connId : Text) (table : StreamTable) : Prop where
  noNull : NoNull table
  exist : ∃ streamId p, entry table streamId = some p ∧ v.connection p = connId
  right : ∀ streamId p, entry table streamId = some p → v.connection p = connId → Allocated carried v connId p

/-- The remote streams lead to the stream of an offer; those or, when none of
    them has the connection, the local ones to the stream of a ready event. -/
def Task.Reaches (carried : Carried) (w : World) : Task → Prop
  | .receiveOffer connId _ => Leads carried w.view connId w.room.remoteStreamInfos
  | .onPeerConnectionConnectErizoReady connId => Leads carried w.view connId w.room.remoteStreamInfos ∨
      NoNull w.room.remoteStreamInfos ∧
      (∀ streamId p, entry w.room.remoteStreamInfos streamId = some p → w.view.connection p ≠ connId) ∧
      Leads carried w.view connId w.room.localStreamInfos
  | _ => True

/-- The condition on the task that an event runs. -/
def Reaches (t : Tracked) (e : Event) : Prop :=
  ∀ task order v, started t.world e = some (task,order,v) → task.Reaches t.carried v

/-! ### Loops -/

theorem mem_arrange_iff (t : StreamTable) (order : Order UInt64 StreamPtr) (streamId : UInt64) (p : StreamPtr) :
    ⟨streamId,some p⟩ ∈ order.arrange t.entries ↔ entry t streamId = some p := by
  rw [(order.perm t.entries).mem_iff,mem_entries_iff,entry_eq_some_iff]

theorem arrange_first {t : StreamTable} {streamId : UInt64} {p : Option StreamPtr}
    (bound : t.lookup streamId = some p) :
    ∃ rest, (Order.first ⟨streamId,p⟩).arrange t.entries = ⟨streamId,p⟩ :: rest :=
  ⟨_,if_pos ((mem_entries_iff t streamId p).mpr bound)⟩

/-- In every order the loop finds a stream, one with the property, exactly when
    the table has no null entry and some entry has the connection, and every such
    entry has the property. -/
theorem findIn_all_iff (t : StreamTable) (cell : StreamPtr → LicodeStreamInfo) (connId : Text)
    (good : StreamPtr → Prop) :
    (∀ order : Order UInt64 StreamPtr, ∃ p, findIn cell connId (order.arrange t.entries) = .ok (some p) ∧ good p) ↔
      NoNull t ∧ (∃ streamId p, entry t streamId = some p ∧ (cell p).connectionId = connId) ∧
        ∀ streamId p, entry t streamId = some p → (cell p).connectionId = connId → good p := by
  constructor
  · intro all
    refine ⟨fun streamId null => ?_,?_,fun streamId p found here => ?_⟩
    · obtain ⟨p,finds,-⟩ := all (.first ⟨streamId,none⟩)
      obtain ⟨rest,first⟩ := arrange_first null
      rw [first] at finds
      cases finds
    · obtain ⟨p,finds,-⟩ := all .listed
      obtain ⟨⟨streamId,member⟩,here⟩ := findIn_some finds
      exact ⟨streamId,p,(mem_arrange_iff t .listed streamId p).mp member,here⟩
    · obtain ⟨q,finds,good⟩ := all (.first ⟨streamId,some p⟩)
      obtain ⟨rest,first⟩ := arrange_first ((entry_eq_some_iff t streamId p).mp found)
      rw [first] at finds
      simp only [findIn,here,if_true,Except.ok.injEq,Option.some.injEq] at finds
      exact finds ▸ good
  · rintro ⟨clean,⟨streamId,p,found,here⟩,right⟩ order
    obtain ⟨result,finds⟩ := findIn_table clean cell connId order
    cases result with
    | none => exact absurd here (findIn_none finds streamId p ((mem_arrange_iff t order streamId p).mpr found))
    | some q =>
      obtain ⟨⟨other,member⟩,same⟩ := findIn_some finds
      exact ⟨q,finds,right other q ((mem_arrange_iff t order other q).mp member) same⟩

/-- In every order the loop finds nothing when no entry has the connection. -/
theorem findIn_absent {t : StreamTable} (clean : NoNull t) {cell : StreamPtr → LicodeStreamInfo} {connId : Text}
    (absent : ∀ streamId p, entry t streamId = some p → (cell p).connectionId ≠ connId)
    (order : Order UInt64 StreamPtr) :
    findIn cell connId (order.arrange t.entries) = .ok none := by
  obtain ⟨result,finds⟩ := findIn_table clean cell connId order
  cases result with
  | none => exact finds
  | some p =>
    obtain ⟨⟨streamId,member⟩,here⟩ := findIn_some finds
    exact absurd here (absent streamId p ((mem_arrange_iff t order streamId p).mp member))

theorem leads_iff (carried : Carried) (w : World) (connId : Text) (table : StreamTable) :
    Leads carried w.view connId table ↔ ∀ order : Order UInt64 StreamPtr,
      ∃ p, findIn w.heap.cell connId (order.arrange table.entries) = .ok (some p) ∧
        Allocated carried w.view connId p := by
  rw [findIn_all_iff]
  exact ⟨fun leads => ⟨leads.noNull,leads.exist,leads.right⟩,fun ⟨noNull,exist,right⟩ => ⟨noNull,exist,right⟩⟩

/-! ### Tasks -/

/-- What the task of an event finds. -/
def Task.found (order : Order UInt64 StreamPtr) (w : World) : Task → Except Fault (Option StreamPtr)
  | .receiveOffer connId _ => findIn w.heap.cell connId (order.arrange w.room.remoteStreamInfos.entries)
  | .onPeerConnectionConnectErizoReady connId => w.streamOf order connId
  | _ => .ok none

theorem event_ok (nl : Nlohmann) {order : Order UInt64 StreamPtr} {task : Task} {w : World} {connId : Text}
    {p : Option StreamPtr} (about : task.connection = some connId) (finds : task.found order w = .ok p) :
    faultOf (task.run nl order) w = none ∧ (after (task.run nl order) w).calls = w.calls ++ [task.report p] := by
  cases task with
  | receiveOffer connId sdp =>
    have runs := run_runReceiveOffer order connId sdp w
    rw [show findIn _ _ _ = _ from finds] at runs
    exact ⟨by simp only [Task.run,faultOf,runs],by rw [Task.run,after_of_ok runs]; rfl⟩
  | onPeerConnectionConnectErizoReady connId =>
    have runs := run_runOnPeerConnectionConnectErizoReady order connId w
    rw [show w.streamOf order connId = _ from finds] at runs
    cases p with
    | none => exact ⟨by simp only [Task.run,faultOf,runs],by rw [Task.run,after_of_ok runs]; rfl⟩
    | some p => exact ⟨by simp only [Task.run,faultOf,runs],by rw [Task.run,after_of_ok runs]; rfl⟩
  | _ => cases about

theorem event_error (nl : Nlohmann) {order : Order UInt64 StreamPtr} {task : Task} {w : World} {connId : Text}
    {fault : Fault} (about : task.connection = some connId) (faults : task.found order w = .error fault) :
    faultOf (task.run nl order) w = some fault := by
  cases task with
  | receiveOffer connId sdp =>
    have runs := run_runReceiveOffer order connId sdp w
    rw [show findIn _ _ _ = _ from faults] at runs
    simp only [Task.run,faultOf,runs]
  | onPeerConnectionConnectErizoReady connId =>
    have runs := run_runOnPeerConnectionConnectErizoReady order connId w
    rw [show w.streamOf order connId = _ from faults] at runs
    simp only [Task.run,faultOf,runs]
  | _ => cases about

/-- What a task finds is known and has the connection. -/
theorem connects_of_found {order : Order UInt64 StreamPtr} {task : Task} {w : World} {connId : Text} {p : StreamPtr}
    (about : task.connection = some connId) (finds : task.found order w = .ok (some p)) : w.view.Connects connId p := by
  have remote : ∀ {p}, findIn w.heap.cell connId (order.arrange w.room.remoteStreamInfos.entries) = .ok (some p) →
      w.view.Connects connId p := by
    intro p finds
    obtain ⟨⟨streamId,member⟩,here⟩ := findIn_some finds
    exact ⟨⟨streamId,.inl ((mem_arrange_iff _ order streamId p).mp member)⟩,here⟩
  cases task with
  | receiveOffer connId sdp => cases about; exact remote finds
  | onPeerConnectionConnectErizoReady connId =>
    cases about
    simp only [Task.found,World.streamOf] at finds
    split at finds
    · cases finds
    · next first => cases finds; exact remote first
    · obtain ⟨⟨streamId,member⟩,here⟩ := findIn_some finds
      exact ⟨⟨streamId,.inr ((mem_arrange_iff _ order streamId p).mp member)⟩,here⟩
  | _ => cases about

/-- A task delivers its event exactly when it finds the stream that the connection
    was allocated to. -/
theorem delivered_iff (nl : Nlohmann) {carried : Carried} {order : Order UInt64 StreamPtr} {task : Task}
    {w : World} {connId : Text} (about : task.connection = some connId) :
    Delivered nl carried w task connId order ↔
      ∃ p, task.found order w = .ok (some p) ∧ Allocated carried w.view connId p := by
  have injective : ∀ {p q : Option StreamPtr}, task.report p = task.report q → p = q := by
    intro p q same
    cases task with
    | receiveOffer connId sdp => cases same; rfl
    | onPeerConnectionConnectErizoReady connId => cases same; rfl
    | _ => cases about
  constructor
  · intro delivered
    cases finds : task.found order w with
    | error fault =>
      have faults := event_error nl about finds
      rw [delivered.returns] at faults
      cases faults
    | ok found =>
      obtain ⟨-,calls⟩ := event_ok nl about finds
      cases found with
      | none => exact absurd (by simp) (delivered.nonNull _ calls)
      | some p =>
        have only : ∀ {q}, (after (task.run nl order) w).calls = w.calls ++ [task.report (some q)] → q = p := by
          intro q calls'
          have one := List.append_cancel_left (calls'.symm.trans calls)
          exact Option.some.inj (injective (List.singleton_inj.mp one))
        refine ⟨p,rfl,fun streamId address booked same known => ?_,fun q address booked same known => ?_⟩
        · obtain ⟨q,leads,calls'⟩ := delivered.named streamId address booked same known
          rw [← only calls']
          exact leads
        · exact only (delivered.given q address booked same known)
  · rintro ⟨p,finds,allocated⟩
    obtain ⟨returns,calls⟩ := event_ok nl about finds
    refine ⟨returns,fun streamId address booked same known =>
        ⟨p,allocated.named streamId address booked same known,calls⟩,
      fun q address booked same known => ?_,fun unknown => ?_,?_⟩
    · rw [allocated.given q address booked same known]
      exact calls
    · exact absurd (connects_of_found about finds) (unknown p)
    · intro new adds null
      rw [calls] at adds
      rw [← List.append_cancel_left adds,List.mem_singleton] at null
      cases injective null

theorem streamOf_remote {w : World} {order : Order UInt64 StreamPtr} {connId : Text} {p : StreamPtr}
    (finds : findIn w.heap.cell connId (order.arrange w.room.remoteStreamInfos.entries) = .ok (some p)) :
    w.streamOf order connId = .ok (some p) := by
  simp only [World.streamOf,finds]

theorem streamOf_own {w : World} {order : Order UInt64 StreamPtr} {connId : Text}
    (finds : findIn w.heap.cell connId (order.arrange w.room.remoteStreamInfos.entries) = .ok none) :
    w.streamOf order connId = findIn w.heap.cell connId (order.arrange w.room.localStreamInfos.entries) := by
  simp only [World.streamOf,finds]

/-- A null entry among the remote streams is met in some order. -/
theorem noNull_of_streamOf {w : World} {connId : Text}
    (all : ∀ order, ∃ p, w.streamOf order connId = .ok (some p)) : NoNull w.room.remoteStreamInfos := by
  intro streamId null
  obtain ⟨p,finds⟩ := all (.first ⟨streamId,none⟩)
  obtain ⟨rest,first⟩ := arrange_first null
  simp [World.streamOf,first,findIn] at finds

theorem streamOf_iff (carried : Carried) (w : World) (connId : Text) :
    (∀ order, ∃ p, w.streamOf order connId = .ok (some p) ∧ Allocated carried w.view connId p) ↔
      Leads carried w.view connId w.room.remoteStreamInfos ∨
        NoNull w.room.remoteStreamInfos ∧
        (∀ streamId p, entry w.room.remoteStreamInfos streamId = some p → w.view.connection p ≠ connId) ∧
        Leads carried w.view connId w.room.localStreamInfos := by
  constructor
  · intro all
    have clean := noNull_of_streamOf (fun order => (all order).imp (fun _ both => both.1))
    by_cases remote : ∃ streamId p, entry w.room.remoteStreamInfos streamId = some p ∧ w.view.connection p = connId
    · refine .inl ((leads_iff carried w connId _).mpr (fun order => ?_))
      obtain ⟨p,finds,allocated⟩ := all order
      obtain ⟨result,first⟩ := findIn_table clean w.heap.cell connId order
      cases result with
      | none =>
        obtain ⟨streamId,q,found,here⟩ := remote
        exact absurd here (findIn_none first streamId q ((mem_arrange_iff _ order streamId q).mpr found))
      | some q =>
        rw [streamOf_remote first] at finds
        cases finds
        exact ⟨p,first,allocated⟩
    · have absent : ∀ streamId p, entry w.room.remoteStreamInfos streamId = some p → w.view.connection p ≠ connId :=
        fun streamId p found here => remote ⟨streamId,p,found,here⟩
      refine .inr ⟨clean,absent,(leads_iff carried w connId _).mpr (fun order => ?_)⟩
      rw [← streamOf_own (findIn_absent clean absent order)]
      exact all order
  · rintro (leads | ⟨clean,absent,leads⟩) order
    · obtain ⟨p,finds,allocated⟩ := (leads_iff carried w connId _).mp leads order
      exact ⟨p,streamOf_remote finds,allocated⟩
    · rw [streamOf_own (findIn_absent clean absent order)]
      exact (leads_iff carried w connId _).mp leads order

/-- The task of an event delivers it, in every order, exactly when the tables lead
    to the stream. -/
theorem delivered_iff_reaches (nl : Nlohmann) {carried : Carried} {task : Task} {w : World}
    {connId : Text} (about : task.connection = some connId) :
    (∀ order, Delivered nl carried w task connId order) ↔ task.Reaches carried w := by
  simp only [delivered_iff nl about]
  cases task with
  | receiveOffer connId sdp => cases about; exact (leads_iff carried w _ _).symm
  | onPeerConnectionConnectErizoReady connId => cases about; exact streamOf_iff carried w _
  | _ => cases about

/-! ### Runs -/

theorem delivers_iff_reaches (nl : Nlohmann) (t : Tracked) (e : Event) : Delivers nl t e ↔ Reaches t e := by
  constructor
  · intro delivers task order v starts
    cases about : task.connection with
    | none => cases task <;> trivial
    | some connId => exact (delivered_iff_reaches nl about).mp (delivers task order v connId starts about)
  · intro reaches task order v connId starts about
    exact (delivered_iff_reaches nl about).mpr (reaches task order v starts)

/-- An event is about a connection that was allocated to a stream, a remote one if
    it is an offer, and that no other known stream has or was given. -/
def NamesAllocated (t : Tracked) (e : Event) : Prop :=
  ∀ task order v connId, started t.world e = some (task,order,v) → task.connection = some connId →
    ∃ streamId address p, v.view.target streamId = some p ∧ t.carried.Of streamId p address ∧ address.2 = connId ∧
      (v.view.remote streamId = none → ∀ sdp, task ≠ .receiveOffer connId sdp) ∧
      (∀ q, v.view.Connects connId q → q = p) ∧
      ∀ q address, t.carried.given q = some address → address.2 = connId → (∃ other, v.view.Leads other q) → q = p

/-- Where one known stream has the connection, it is the stream that was given it. -/
theorem allocated_of_unique {carried : Carried} {v : View} {connId : Text} {p : StreamPtr} (agrees : v.Agrees carried)
    (unique : ∀ q, v.Connects connId q → q = p)
    (given : ∀ q address, carried.given q = some address → address.2 = connId → (∃ other, v.Leads other q) → q = p) :
    Allocated carried v connId p := by
  refine ⟨fun streamId address booked same known => ?_,given⟩
  have target : ∃ r, v.target streamId = some r ∧ v.Leads streamId r := by
    obtain ⟨q,leads⟩ := known
    cases remote : v.remote streamId with
    | some r => exact ⟨r,by simp [View.target,remote],.inl remote⟩
    | none =>
      have own := leads.resolve_left (by simp [remote])
      exact ⟨q,by simp [View.target,remote,own],.inr own⟩
  obtain ⟨r,target,leads⟩ := target
  have connection : v.connection r = connId := by
    rw [← same,agrees streamId r address target (.inl booked)]
  rw [← unique r ⟨⟨streamId,leads⟩,connection⟩]
  exact leads

theorem reaches_of_allocated {t : Tracked} {e : Event} (clean : t.world.streams.NoNulls)
    (agrees : t.world.view.Agrees t.carried) (names : NamesAllocated t e) : Reaches t e := by
  intro task order v starts
  have same := started_eq starts
  have noRemote : NoNull v.room.remoteStreamInfos := by rw [same]; exact clean.2
  have noOwn : NoNull v.room.localStreamInfos := by rw [same]; exact clean.1
  have addresses : v.view.Agrees t.carried := by
    rw [same]
    exact agrees
  cases about : task.connection with
  | none => cases task <;> trivial
  | some connId =>
    obtain ⟨streamId,address,p,target,carried,here,offers,unique,given⟩ := names task order v connId starts about
    have connection : v.view.connection p = connId := by
      rw [← here,addresses streamId p address target carried]
    have allocated := allocated_of_unique addresses unique given
    have remote : (∃ streamId q, entry v.room.remoteStreamInfos streamId = some q ∧ v.view.connection q = connId) →
        Leads t.carried v.view connId v.room.remoteStreamInfos := by
      refine fun exist => ⟨noRemote,exist,fun other q found at_q => ?_⟩
      rw [unique q ⟨⟨other,.inl found⟩,at_q⟩]
      exact allocated
    have own : (∃ streamId q, entry v.room.localStreamInfos streamId = some q ∧ v.view.connection q = connId) →
        Leads t.carried v.view connId v.room.localStreamInfos := by
      refine fun exist => ⟨noOwn,exist,fun other q found at_q => ?_⟩
      rw [unique q ⟨⟨other,.inr found⟩,at_q⟩]
      exact allocated
    rcases Option.or_eq_some_iff.mp target with found | ⟨missing,found⟩
    · have leads := remote ⟨streamId,p,found,connection⟩
      cases task with
      | receiveOffer connId sdp => cases about; exact leads
      | onPeerConnectionConnectErizoReady connId => cases about; exact .inl leads
      | _ => cases about
    · have ready : Leads t.carried v.view connId v.room.remoteStreamInfos ∨ NoNull v.room.remoteStreamInfos ∧
          (∀ streamId q, entry v.room.remoteStreamInfos streamId = some q → v.view.connection q ≠ connId) ∧
          Leads t.carried v.view connId v.room.localStreamInfos := by
        by_cases elsewhere : ∃ streamId q, entry v.room.remoteStreamInfos streamId = some q ∧
          v.view.connection q = connId
        · exact .inl (remote elsewhere)
        · exact .inr ⟨noRemote,fun other q found here => elsewhere ⟨other,q,found,here⟩,
            own ⟨streamId,p,found,connection⟩⟩
      cases task with
      | receiveOffer connId sdp => cases about; exact absurd rfl (offers missing sdp)
      | onPeerConnectionConnectErizoReady connId => cases about; exact ready
      | _ => cases about

/-- In a run whose lookups find their keys, whose steps keep the addresses and
    whose events are about allocated connections, every event is delivered. -/
theorem delivers_of_allocated (nl : Nlohmann) (token : LicodeToken) {es : List Event}
    (orderly : Guarded (Tracked.step nl) (fun t e => LooksUpBound t.world e ∧ KeepsAddresses nl t e ∧
      NamesAllocated t e)
      (Tracked.init token) es) : Guarded (Tracked.step nl) (Delivers nl) (Tracked.init token) es := by
  refine orderly.imp (Q := fun t => t.Kept ∧ Addressed nl t ∧ t.world.streams.NoNulls) ?_ ?_
    ⟨Tracked.kept_init token,addressed_init nl token,noNull_empty,noNull_empty⟩
  · rintro t e t' ⟨kept,addressed,clean⟩ ⟨bound,keeps,-⟩ taken
    exact ⟨Tracked.kept_step kept taken,(step_addressed_iff kept addressed taken).mpr keeps,
      (step_clean_iff clean (Tracked.step_eq_some taken).1).mpr bound⟩
  · rintro t e t' ⟨kept,addressed,clean⟩ ⟨-,-,names⟩ taken
    have lives := (step_eq_some (Tracked.step_eq_some taken).1).1
    exact (delivers_iff_reaches nl t e).mpr
      (reaches_of_allocated clean ((addressed_iff_view nl t).mp addressed lives) names)

end LicodeClient
