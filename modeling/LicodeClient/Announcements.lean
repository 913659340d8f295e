import LicodeClient.Admission
import LicodeClient.Arrivals
import LicodeClient.Tables

/-!
A stream is described to the room in two ways: in the list of a join response and
by an `onAddStream`. Both read the same members, but the list is read through a
constant reference, where a missing member is undefined, and within the one
`try` of the whole response; and a listed stream is emplaced, where an announced
one replaces what its id leads to. `concurs_iff` says when the two come to the same.
-/
namespace LicodeClient
open LicodeClient.Table LicodeClient.Program Decode

/-! ### The tasks of a message -/

/-- The worker runs tasks in their order. -/
def runTasks (nl : Nlohmann) (order : Order UInt64 StreamPtr) : List Task → Exec Unit
  | [] => pure ()
  | task :: rest => do
    task.run nl order
    runTasks nl order rest

theorem run_runTasks_cons {nl : Nlohmann} {order : Order UInt64 StreamPtr} {task : Task} {v t : World}
    (runs : (task.run nl order).run v = .ok () t) (rest : List Task) :
    (runTasks nl order (task :: rest)).run v = (runTasks nl order rest).run t := by
  rw [runTasks,EStateM.run_bind,runs]

/-- What the remote table holds of an id: nothing when the id is not bound, null
    when it is bound to a null pointer. -/
def World.remoteBinding (w : World) (streamId : UInt64) : Option (Option LicodeStreamInfo) :=
  (w.room.remoteStreamInfos.lookup streamId).map (Option.map w.heap.cell)

/-- Every remote stream exists. -/
def World.RemoteExist (w : World) : Prop :=
  ∀ streamId p, entry w.room.remoteStreamInfos streamId = some p → p < w.heap.next

/-- What the tasks of listed streams do: the first of an id is entered unless the id
    is bound, and each is reported in its turn. -/
structure Entered (infos : List LicodeStreamInfo) (v v' : World) : Prop where
  binding : ∀ streamId, v'.remoteBinding streamId =
    (v.remoteBinding streamId).or ((infos.find? (fun info => info.id = streamId)).map some)
  cells : ∀ p < v.heap.next, v'.heap.cell p = v.heap.cell p
  calls : v.calls <+: v'.calls
  reported : ∀ i info, infos[i]? = some info →
    ∃ p, v'.calls[v.calls.length + i]? = some (.onAddRemoteStream p) ∧ v'.heap.cell p = info

/-- The world after the task of a listed stream. -/
def World.enter (w : World) (info : LicodeStreamInfo) : World :=
  { w.allocate info with
    room.remoteStreamInfos := emplace w.room.remoteStreamInfos info.id w.heap.next
    calls := w.calls ++ [.onAddRemoteStream w.heap.next] }

theorem remoteExist_enter {w : World} (exist : w.RemoteExist) (info : LicodeStreamInfo) :
    (w.enter info).RemoteExist := by
  intro streamId p found
  have kept : (emplace w.room.remoteStreamInfos info.id w.heap.next).lookup streamId = some (some p) :=
    (entry_eq_some_iff _ _ _).mp found
  rw [lookup_emplace] at kept
  rcases Option.or_eq_some_iff.mp kept with old | ⟨-,new⟩
  · exact Nat.lt_succ_of_lt (exist streamId p ((entry_eq_some_iff _ _ _).mpr old))
  · split at new
    · cases new
      exact Nat.lt_succ_self _
    · cases new

theorem remoteBinding_enter {w : World} (exist : w.RemoteExist) (info : LicodeStreamInfo) (streamId : UInt64) :
    (w.enter info).remoteBinding streamId =
      (w.remoteBinding streamId).or (if info.id = streamId then some (some info) else none) := by
  simp only [World.remoteBinding,World.enter,World.allocate,lookup_emplace]
  cases held : w.room.remoteStreamInfos.lookup streamId with
  | none => by_cases here : info.id = streamId <;> simp [here]
  | some found =>
    cases found with
    | none => rfl
    | some p =>
      have older : p ≠ w.heap.next := Nat.ne_of_lt (exist streamId p ((entry_eq_some_iff _ _ _).mpr held))
      simp [Function.update_of_ne older]

theorem entered_joined (nl : Nlohmann) (order : Order UInt64 StreamPtr) (infos : List LicodeStreamInfo) {v : World}
    (exist : v.RemoteExist) :
    ∃ v', (runTasks nl order (infos.map .joinedStream)).run v = .ok () v' ∧ Entered infos v v' := by
  induction infos generalizing v with
  | nil => exact ⟨v,rfl,⟨fun _ => by simp,fun _ _ => rfl,List.prefix_rfl,fun i info listed => by simp at listed⟩⟩
  | cons info rest ih =>
    obtain ⟨v',runs,later⟩ := ih (remoteExist_enter exist info)
    have grown : v.calls ++ [.onAddRemoteStream v.heap.next] <+: v'.calls := later.calls
    refine ⟨v',runs,⟨fun streamId => ?_,fun p older => ?_,(List.prefix_append _ _).trans grown,?_⟩⟩
    · rw [later.binding,remoteBinding_enter exist,Option.or_assoc,List.find?_cons]
      by_cases here : info.id = streamId <;> simp [here]
    · rw [later.cells p (Nat.lt_succ_of_lt older)]
      exact Function.update_of_ne (Nat.ne_of_lt older) _ _
    · intro i info' listed
      cases i with
      | zero =>
        cases listed
        refine ⟨v.heap.next,?_,?_⟩
        · obtain ⟨more,same⟩ := grown
          simp [← same]
        · rw [later.cells _ (Nat.lt_succ_self _)]
          exact Function.update_self _ _ _
      | succ i =>
        obtain ⟨p,call,cell⟩ := later.reported i info' listed
        refine ⟨p,?_,cell⟩
        rw [← call]
        congr 1
        simp [World.enter]
        omega

/-- What the tasks of a response do. -/
theorem entered_response (nl : Nlohmann) (order : Order UInt64 StreamPtr) (infos : List LicodeStreamInfo) {v : World}
    (exist : v.RemoteExist) :
    ∃ v', (runTasks nl order (.onJoinRoom :: infos.map .joinedStream)).run v = .ok () v' ∧
      (∀ streamId, v'.remoteBinding streamId =
        (v.remoteBinding streamId).or ((infos.find? (fun info => info.id = streamId)).map some)) ∧
      ∀ i info, infos[i]? = some info →
        ∃ p, v'.calls[v.calls.length + (i + 1)]? = some (.onAddRemoteStream p) ∧ v'.heap.cell p = info := by
  obtain ⟨v',runs,entered⟩ := entered_joined nl order infos
    (v := { v with calls := v.calls ++ [.onJoinRoom v.room.id] }) exist
  refine ⟨v',runs,entered.binding,fun i info listed => ?_⟩
  obtain ⟨p,call,cell⟩ := entered.reported i info listed
  refine ⟨p,?_,cell⟩
  rw [← call,List.length_append,List.length_singleton,Nat.add_assoc,Nat.add_comm 1 i]

/-! ### Results for one stream -/

/-- Where a message is handled, and where the worker comes to the tasks that it
    posts. -/
structure Site where
  received : World
  started : World

/-- A message, handled there, leads to a stream that is stored under its id and
    reported by a call of its tasks. -/
def Takes (nl : Nlohmann) (order : Order UInt64 StreamPtr) (x : Exec Unit) (site : Site) (call : Nat)
    (info : LicodeStreamInfo) : Prop :=
  ∃ w posted v p, x.run site.received = .ok () w ∧ w.tasks = site.received.tasks ++ posted ∧
    (runTasks nl order posted).run site.started = .ok () v ∧ v.remoteBinding info.id = some (some info) ∧
    v.calls[site.started.calls.length + call]? = some (.onAddRemoteStream p) ∧ v.heap.cell p = info

/-- A response that is valid but for one element of its streams, which stands
    between the streams `before` and `later`. -/
structure Around (nl : Nlohmann) (msg : Text) (stream : Json) (before later : List LicodeStreamInfo) : Prop where
  response : ∃ body r earlier rest, successBody nl msg = some body ∧ Besides body r ∧
    body.member "streams" = .ok (.array (earlier ++ stream :: rest)) ∧
    List.Forall₂ (Described nl) earlier before ∧ List.Forall₂ (Described nl) rest later

/-- The stream alone is left out: the room is joined with the others, and the event
    is ignored. -/
def Omits (nl : Nlohmann) (msg event : Text) (before later : List LicodeStreamInfo) (join add : Site) : Prop :=
  (∃ w, (onJoinRoom nl msg).run join.received = .ok () w ∧ w.room.state = .kConnected ∧
      w.tasks = join.received.tasks ++ .onJoinRoom :: (before ++ later).map .joinedStream) ∧
    (onAddStream nl event).run add.received = .ok () add.received

/-- The response and the event come to the same for the stream that both describe. -/
def Concurs (nl : Nlohmann) (order : Order UInt64 StreamPtr) (msg event : Text) (before later : List LicodeStreamInfo)
    (join add : Site) : Prop :=
  (∃ info, Takes nl order (onJoinRoom nl msg) join (before.length + 1) info ∧
      Takes nl order (onAddStream nl event) add 0 info) ∨
    Omits nl msg event before later join add

/-- Nothing else is entered under the id of the stream when its turn comes. -/
def Unclaimed (v : World) (before : List LicodeStreamInfo) (info : LicodeStreamInfo) : Prop :=
  ∀ held, (v.remoteBinding info.id).or ((before.find? (fun other => other.id = info.id)).map some) = some held →
    held = some info

section
variable {nl : Nlohmann} {msg event : Text} {before later : List LicodeStreamInfo}

theorem described_of_admitted {stream : Json} {r : JoinResponse} (around : Around nl msg stream before later)
    (admits : joinOutcome nl msg = .admitted r) : ∃ info, Described nl stream info := by
  obtain ⟨body,_,earlier,rest,success,-,listed,-,-⟩ := around.response
  obtain ⟨body',success',conveys⟩ := (joinOutcome_admitted_iff nl msg r).mp admits
  cases success.symm.trans success'
  obtain ⟨streams,listed',described⟩ := conveys.streams
  cases listed.symm.trans listed'
  exact exists_forall₂_iff.mp ⟨_,described⟩ stream (by simp [Json.elements])

theorem admitted_of_described {stream : Json} {info : LicodeStreamInfo} (around : Around nl msg stream before later)
    (described : Described nl stream info) :
    ∃ r, joinOutcome nl msg = .admitted r ∧ r.existStreams = before ++ info :: later := by
  obtain ⟨body,r,earlier,rest,success,besides,listed,front,back⟩ := around.response
  refine ⟨{ r with existStreams := before ++ info :: later },(joinOutcome_admitted_iff nl msg _).mpr ?_,rfl⟩
  refine ⟨body,success,⟨?_,?_⟩⟩
  · exact ⟨besides.id,besides.clientId,besides.p2p,besides.defaultVideoBw,besides.maxVideoBw,besides.singlePc,
      besides.iceServers⟩
  · exact ⟨_,listed,List.rel_append front (.cons described back)⟩

/-- What is handled without being admitted posts nothing. -/
theorem admitted_of_tasks {w w' : World} {posted : List Task} (runs : (onJoinRoom nl msg).run w = .ok () w')
    (tasks : w'.tasks = w.tasks ++ posted) (some : posted ≠ []) : ∃ r, joinOutcome nl msg = .admitted r := by
  rcases after_onJoinRoom nl msg w with ⟨r,admits,-⟩ | ⟨t,state,-,⟨whole,-,-⟩,same⟩
  · exact ⟨r,admits⟩
  · have still : w'.tasks = w.tasks := by rw [← after_of_ok runs,same,whole]
    exact absurd (List.append_right_eq_self.mp (tasks.symm.trans still)) some

theorem unclaimed_iff {v : World} {info : LicodeStreamInfo} :
    (v.remoteBinding info.id).or (((before ++ info :: later).find? (fun other => other.id = info.id)).map some) =
      some (some info) ↔ Unclaimed v before info := by
  unfold Unclaimed
  simp only [List.find?_append,List.find?_cons,decide_true]
  cases v.remoteBinding info.id with
  | some held => simp
  | none => cases before.find? (fun other => other.id = info.id) <;> simp

/-- What the response comes to for a stream that it describes. -/
theorem takes_join_iff (order : Order UInt64 StreamPtr) {stream : Json} {info : LicodeStreamInfo} {site : Site}
    (around : Around nl msg stream before later) (described : Described nl stream info)
    (exist : site.started.RemoteExist) (info' : LicodeStreamInfo) :
    Takes nl order (onJoinRoom nl msg) site (before.length + 1) info' ↔
      info' = info ∧ Unclaimed site.started before info := by
  obtain ⟨r,admits,streams⟩ := admitted_of_described around described
  have spec := onJoinRoom_spec nl msg site.received
  rw [admits] at spec
  obtain ⟨v,runs,binding,reported⟩ := entered_response nl order (before ++ info :: later) exist
  obtain ⟨p,call,cell⟩ := reported before.length info (by simp)
  constructor
  · rintro ⟨w,posted,v',p',runs',tasks,all,held,call',cell'⟩
    cases spec.symm.trans runs'
    have same : .onJoinRoom :: r.existStreams.map .joinedStream = posted := List.append_cancel_left tasks
    rw [← same,streams] at all
    cases runs.symm.trans all
    cases call.symm.trans call'
    have one : info' = info := cell'.symm.trans cell
    subst one
    rw [binding] at held
    exact ⟨rfl,unclaimed_iff.mp held⟩
  · rintro ⟨rfl,unclaimed⟩
    refine ⟨_,_,v,p,spec,rfl,?_,?_,call,cell⟩
    · rw [streams]
      exact runs
    · rw [binding]
      exact unclaimed_iff.mpr unclaimed

theorem member_of_find {members : List (Text × Json)} {key : String} {x : Json}
    (found : Json.find members (lit key) = some x) : (Json.object members).member key = .ok x := by
  simp [Json.member,found]

/-- A description is read through a mutable reference as well. -/
theorem run_onAddStream_described {members : List (Text × Json)} {info : LicodeStreamInfo}
    (parsed : nl.parse event = some (.object members)) (describes : Describes nl members info) (w : World) :
    (onAddStream nl event).run w = .ok () { w with tasks := w.tasks ++ [.onAddStream info] } := by
  have read : streamInfo nl Json.member (.object members) = .ok info := by
    obtain ⟨⟨id,hasId,number⟩,video,audio,data,label,screen,⟨x,attributes,text⟩,connection,connected⟩ := describes
    simp only [streamInfo,member_of_find hasId,member_of_find video,member_of_find audio,member_of_find data,
      member_of_find label,member_of_find screen,member_of_find attributes,ok_bind,number,Json.toBool,Json.toText,text]
    obtain ⟨_,_,_,_,_,_,_,_,_⟩ := info
    cases connection
    cases connected
    rfl
  have task : addTask nl event = .ok (some (.onAddStream info)) := by
    rw [addTask,Nlohmann.parseOrThrow,parsed]
    simp only [ok_bind,read]
    rfl
  have posts := posts_onAddStream nl event
  rw [task] at posts
  exact posts w

/-- The world after the task of an announced stream that is not an own one. -/
def World.announce (w : World) (info : LicodeStreamInfo) : World :=
  { (w.allocate info).indexLocal info.id with
    room.remoteStreamInfos := w.room.remoteStreamInfos.insert info.id (some w.heap.next)
    calls := w.calls ++ [.onAddRemoteStream w.heap.next] }

/-- What the event comes to for a stream that it describes. -/
theorem takes_add_iff (order : Order UInt64 StreamPtr) {members : List (Text × Json)} {info : LicodeStreamInfo}
    {site : Site} (parsed : nl.parse event = some (.object members)) (describes : Describes nl members info)
    (foreign : entry site.started.room.localStreamInfos info.id = none) (info' : LicodeStreamInfo) :
    Takes nl order (onAddStream nl event) site 0 info' ↔ info' = info := by
  have spec := run_onAddStream_described parsed describes site.received
  have runs : ((Task.onAddStream info).run nl order).run site.started = .ok () (site.started.announce info) := by
    have added := run_runOnAddStream info site.started
    rw [foreign] at added
    exact added
  have all : (runTasks nl order [.onAddStream info]).run site.started = .ok () (site.started.announce info) :=
    run_runTasks_cons runs []
  have call : (site.started.announce info).calls[site.started.calls.length + 0]? =
      some (.onAddRemoteStream site.started.heap.next) := by simp [World.announce]
  have cell : (site.started.announce info).heap.cell site.started.heap.next = info := by
    simp [World.announce,World.indexLocal,World.allocate]
  constructor
  · rintro ⟨w,posted,v,p,handled,tasks,ran,-,call',cell'⟩
    cases spec.symm.trans handled
    cases List.append_cancel_left tasks
    cases all.symm.trans ran
    cases call.symm.trans call'
    exact cell'.symm.trans cell
  · rintro rfl
    refine ⟨_,_,_,_,spec,rfl,all,?_,call,cell⟩
    rw [World.remoteBinding,show (site.started.announce info').room.remoteStreamInfos.lookup info'.id =
      some (some site.started.heap.next) from AList.lookup_insert _]
    exact congrArg (some ∘ some) cell

/-- A stream that both take, or that both leave out, is described. -/
theorem described_of_concurs {order : Order UInt64 StreamPtr} {stream : Json} {join add : Site}
    (around : Around nl msg stream before later) (concurs : Concurs nl order msg event before later join add) :
    ∃ info, Described nl stream info := by
  rcases concurs with ⟨info,⟨w,posted,v,p,runs,tasks,all,-,call,-⟩,-⟩ | ⟨⟨w,runs,-,tasks⟩,-⟩
  · have some : posted ≠ [] := by
      rintro rfl
      cases all
      simp at call
    obtain ⟨r,admits⟩ := admitted_of_tasks runs tasks some
    exact described_of_admitted around admits
  · obtain ⟨r,admits⟩ := admitted_of_tasks runs tasks (List.cons_ne_nil _ _)
    exact described_of_admitted around admits

end

/-- The response and the event come to the same for a stream exactly when it is
    described with all its members and their types, and nothing else has its id
    before it in the response or, by then, in the room. -/
theorem concurs_iff {nl : Nlohmann} {order : Order UInt64 StreamPtr} {msg event : Text} {members : List (Text × Json)}
    {before later : List LicodeStreamInfo} {join add : Site} (around : Around nl msg (.object members) before later)
    (parsed : nl.parse event = some (.object members)) (exist : join.started.RemoteExist)
    (foreign : ∀ x streamId, Json.find members (lit "id") = some x → x.toUInt64 = .ok streamId →
      entry add.started.room.localStreamInfos streamId = none) :
    Concurs nl order msg event before later join add ↔
      ∃ info, Describes nl members info ∧ Unclaimed join.started before info := by
  constructor
  · intro concurs
    obtain ⟨info,_,same,describes⟩ := described_of_concurs around concurs
    cases same
    refine ⟨info,describes,?_⟩
    rcases concurs with ⟨info',joins,-⟩ | ⟨-,ignored⟩
    · exact ((takes_join_iff order around ⟨members,rfl,describes⟩ exist info').mp joins).2
    · -- The event posts a task for what it describes.
      have handled := run_onAddStream_described parsed describes add.received
      have grown := congrArg World.tasks (EStateM.Result.ok.inj (handled.symm.trans ignored)).2
      simp at grown
  · rintro ⟨info,describes,unclaimed⟩
    obtain ⟨x,hasId,number⟩ := describes.id
    refine .inl ⟨info,?_,?_⟩
    · exact (takes_join_iff order around ⟨members,rfl,describes⟩ exist info).mpr ⟨rfl,unclaimed⟩
    · exact (takes_add_iff order parsed describes (foreign x info.id hasId number) info).mpr rfl

/-- A response that lists one stream. -/
def listText (stream : Text) : Text :=
  '[' :: lit "\"success\",\x7b\"id\":\"r\",\"clientId\":\"c\",\"streams\":[" ++ stream ++
    lit "],\"defaultVideoBW\":300,\"maxVideoBW\":300,\"singlePC\":false,\"iceServers\":[]\x7d]"

def listBody (stream : Json) : Json :=
  .object [(lit "clientId",.string (lit "c")),(lit "defaultVideoBW",.unsigned 300),(lit "iceServers",.array []),
    (lit "id",.string (lit "r")),(lit "maxVideoBW",.unsigned 300),(lit "singlePC",.boolean false),
    (lit "streams",.array [stream])]

/-- Knows a stream, the response that lists it and how its attributes are printed. -/
def listJson (text : Text) (stream : Json) : Nlohmann :=
  knownJson [(listText text,.array [.string (lit "success"),listBody stream]),(text,stream)] (lit "\x7b\x7d")

theorem parse_listJson (text : Text) (stream : Json) : (listJson text stream).parse text = some stream := by
  have different : ¬ listText text = text := by
    intro same
    have longer := congrArg List.length same
    simp only [listText,List.length_append,List.length_cons] at longer
    omega
  simp [listJson,knownJson,different]

theorem around_listText (text : Text) (stream : Json) : Around (listJson text stream) (listText text) stream [] [] := by
  have parsed : (listJson text stream).parse (listText text) =
      some (.array [.string (lit "success"),listBody stream]) := by simp [listJson,knownJson]
  have success : successBody (listJson text stream) (listText text) = some (listBody stream) := by
    rw [successBody,parsed]
    rfl
  refine ⟨listBody stream,⟨lit "r",lit "c",[],none,300,300,false,[]⟩,[],[],success,?_,rfl,.nil,.nil⟩
  exact ⟨rfl,rfl,rfl,⟨_,rfl,rfl⟩,⟨_,rfl,rfl⟩,rfl,_,rfl,.nil⟩

/-- A new room. -/
def newSite : Site := ⟨World.init ⟨[],[],false,[]⟩,World.init ⟨[],[],false,[]⟩⟩

theorem remoteExist_newSite : newSite.started.RemoteExist := by
  intro streamId p found
  cases (entry_empty streamId).symm.trans found

/-- A complete description is taken from both. -/
theorem concurs_announced :
    Concurs (listJson announcedText announced) .listed (listText announcedText) announcedText [] [] newSite
      newSite := by
  refine (concurs_iff (around_listText _ _) (parse_listJson _ _) remoteExist_newSite ?_).mpr ?_
  · intro x streamId found number
    exact entry_empty streamId
  · refine ⟨⟨7,true,true,true,lit "cam",false,lit "\x7b\x7d",[],false⟩,?_,?_⟩
    · exact ⟨⟨.unsigned 7,rfl,rfl⟩,rfl,rfl,rfl,rfl,rfl,⟨.object [],rfl,rfl⟩,rfl,rfl⟩
    · intro held found
      cases found

/-- A description without its other members, which the event ignores, is undefined
    in the response. -/
theorem concurs_fails :
    ¬ Concurs (listJson (lit "\x7b\"id\":7\x7d") (.object [(lit "id",.unsigned 7)])) .listed
      (listText (lit "\x7b\"id\":7\x7d")) (lit "\x7b\"id\":7\x7d") [] [] newSite newSite := by
  intro concurs
  obtain ⟨info,_,same,describes⟩ := described_of_concurs (around_listText _ _) concurs
  cases same
  cases describes.video

end LicodeClient
