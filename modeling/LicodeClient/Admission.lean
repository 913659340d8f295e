import LicodeClient.Joining
import LicodeClient.Tasks

/-!
When a join response admits the room. A response that starts with "success" is
read member by member: each converts to its type (`Conveys`), throws, which the
handler catches, or runs into undefined behaviour (`Breaks`), where an object
among the streams lacks one of its members. The room is joined and told so, or
neither, exactly when nothing breaks (`allOrNothing_iff`).
-/
namespace LicodeClient
open LicodeClient.Table LicodeClient.Program Decode

/-! ### Descriptions of streams -/

/-- The members of an object say what a stream is, each with its type. -/
structure Describes (nl : Nlohmann) (members : List (Text × Json)) (info : LicodeStreamInfo) : Prop where
  id : ∃ x, Json.find members (lit "id") = some x ∧ x.toUInt64 = .ok info.id
  video : Json.find members (lit "video") = some (.boolean info.hasVideo)
  audio : Json.find members (lit "audio") = some (.boolean info.hasAudio)
  data : Json.find members (lit "data") = some (.boolean info.hasData)
  label : Json.find members (lit "label") = some (.string info.label)
  screen : Json.find members (lit "screen") = some (.boolean info.screen)
  attributes : ∃ x, Json.find members (lit "attributes") = some x ∧ nl.dump x = info.attributes
  connection : info.connectionId = [] ∧ info.connected = false

theorem memberConst_object_ok_iff {members : List (Text × Json)} {key : String} {x : Json} :
    (Json.object members).memberConst key = .ok x ↔ Json.find members (lit key) = some x := by
  simp only [Json.memberConst]
  cases Json.find members (lit key) <;> simp

theorem streamInfo_object_ok_iff (nl : Nlohmann) (members : List (Text × Json)) (info : LicodeStreamInfo) :
    streamInfo nl Json.memberConst (.object members) = .ok info ↔ Describes nl members info := by
  simp only [streamInfo,bind_eq_ok_iff,memberConst_object_ok_iff,Json.toText_eq_ok_iff,Json.toBool_eq_ok_iff]
  constructor
  · rintro ⟨id,hasId,_,video,_,audio,_,data,_,label,_,screen,x,attributes,n,number,v,rfl,a,rfl,d,rfl,l,rfl,s,rfl,same⟩
    cases same
    exact ⟨⟨id,hasId,number⟩,video,audio,data,label,screen,⟨x,attributes,rfl⟩,rfl,rfl⟩
  · rintro ⟨⟨id,hasId,number⟩,video,audio,data,label,screen,⟨x,attributes,text⟩,connection,connected⟩
    refine ⟨id,hasId,_,video,_,audio,_,data,_,label,_,screen,x,attributes,_,number,_,rfl,_,rfl,_,rfl,_,rfl,_,rfl,?_⟩
    obtain ⟨i,v,a,d,l,s,t,c,k⟩ := info
    cases connection
    cases connected
    cases text
    rfl

theorem streamInfo_other (nl : Nlohmann) {stream : Json} (other : ∀ members, stream ≠ .object members) :
    streamInfo nl Json.memberConst stream = .error .exception := by
  cases stream with
  | object members => exact absurd rfl (other members)
  | _ => rfl

/-- The members that a description has. -/
def streamKeys : List String := ["id","video","audio","data","label","screen","attributes"]

theorem memberConst_object (members : List (Text × Json)) (key : String) :
    (Json.object members).memberConst key = (Json.find members (lit key)).elim (.error .undefined) .ok := by
  simp only [Json.memberConst]
  cases Json.find members (lit key) <;> rfl

/-- A missing member is met before anything is converted. -/
theorem streamInfo_missing (nl : Nlohmann) {members : List (Text × Json)} {key : String} (listed : key ∈ streamKeys)
    (missing : Json.find members (lit key) = none) :
    streamInfo nl Json.memberConst (.object members) = .error .undefined := by
  simp only [streamInfo,memberConst_object]
  cases id : Json.find members (lit "id") with
  | none => rfl
  | some _ =>
  cases video : Json.find members (lit "video") with
  | none => rfl
  | some _ =>
  cases audio : Json.find members (lit "audio") with
  | none => rfl
  | some _ =>
  cases data : Json.find members (lit "data") with
  | none => rfl
  | some _ =>
  cases label : Json.find members (lit "label") with
  | none => rfl
  | some _ =>
  cases screen : Json.find members (lit "screen") with
  | none => rfl
  | some _ =>
  cases attributes : Json.find members (lit "attributes") with
  | none => rfl
  | some _ =>
    simp only [streamKeys,List.mem_cons,List.not_mem_nil,or_false] at listed
    rcases listed with rfl | rfl | rfl | rfl | rfl | rfl | rfl <;> simp_all

/-- Once the members are looked up, what is left converts or throws. -/
theorem avoids_streamInfo (nl : Nlohmann) {lookup : Json → String → Except Fault Json} {stream : Json}
    (each : ∀ key ∈ streamKeys, Avoids .undefined (lookup stream key)) :
    Avoids .undefined (streamInfo nl lookup stream) := by
  refine avoids_bind (each "id" (by decide)) (fun id => avoids_bind (each "video" (by decide)) (fun video => ?_))
  refine avoids_bind (each "audio" (by decide)) (fun audio => avoids_bind (each "data" (by decide)) (fun data => ?_))
  refine avoids_bind (each "label" (by decide)) (fun label => ?_)
  refine avoids_bind (each "screen" (by decide)) (fun screen => ?_)
  refine avoids_bind (each "attributes" (by decide)) (fun _ => avoids_bind id.avoids_toUInt64 (fun _ => ?_))
  refine avoids_bind video.avoids_toBool (fun _ => avoids_bind audio.avoids_toBool (fun _ => ?_))
  refine avoids_bind data.avoids_toBool (fun _ => avoids_bind label.avoids_toText (fun _ => ?_))
  exact avoids_bind screen.avoids_toBool (fun _ => avoids_ok _)

/-- An object that lacks a member of a description. -/
def Broken (stream : Json) : Prop :=
  ∃ members, stream = .object members ∧ ∃ key ∈ streamKeys, Json.find members (lit key) = none

theorem streamInfo_undefined_iff (nl : Nlohmann) (stream : Json) :
    streamInfo nl Json.memberConst stream = .error .undefined ↔ Broken stream := by
  constructor
  · intro fails
    by_cases object : ∃ members, stream = .object members
    · obtain ⟨members,rfl⟩ := object
      refine ⟨members,rfl,?_⟩
      by_contra complete
      refine absurd fails (avoids_streamInfo nl ?_)
      intro key listed
      obtain ⟨x,found⟩ := Option.ne_none_iff_exists'.mp (fun none => complete ⟨key,listed,none⟩)
      rw [memberConst_object,found]
      exact avoids_ok x
    · rw [streamInfo_other nl (fun members same => object ⟨members,same⟩)] at fails
      cases fails
  · rintro ⟨members,rfl,key,listed,missing⟩
    exact streamInfo_missing nl listed missing

/-- A description of a stream. -/
def Described (nl : Nlohmann) (stream : Json) (info : LicodeStreamInfo) : Prop :=
  ∃ members, stream = .object members ∧ Describes nl members info

theorem streamInfo_ok_iff (nl : Nlohmann) (stream : Json) (info : LicodeStreamInfo) :
    streamInfo nl Json.memberConst stream = .ok info ↔ Described nl stream info := by
  by_cases object : ∃ members, stream = .object members
  · obtain ⟨members,rfl⟩ := object
    rw [streamInfo_object_ok_iff]
    constructor
    · exact fun describes => ⟨members,rfl,describes⟩
    · rintro ⟨_,same,describes⟩
      cases same
      exact describes
  · rw [streamInfo_other nl (fun members same => object ⟨members,same⟩)]
    refine iff_of_false (by simp) ?_
    rintro ⟨members,same,-⟩
    exact object ⟨members,same⟩

/-! ### Responses -/

/-- The body of a response that starts with "success". -/
def successBody (nl : Nlohmann) (msg : Text) : Option Json :=
  match nl.parse msg with
  | some (.array xs) => if (xs.getD 0 .null).isText "success" then some (xs.getD 1 .null) else none
  | _ => none

theorem readResponse_success {nl : Nlohmann} {msg : Text} {body : Json} (success : successBody nl msg = some body) :
    readResponse nl msg = some <$> joinResponse nl body := by
  unfold successBody at success
  split at success
  · next xs parsed =>
    split at success
    · next first =>
      cases success
      simp only [readResponse,Nlohmann.parseOrThrow,parsed,ok_bind,Json.index,first,if_true]
    · cases success
  · cases success

theorem readResponse_failure {nl : Nlohmann} {msg : Text} (failure : successBody nl msg = none) :
    readResponse nl msg = .ok none ∨ readResponse nl msg = .error .exception := by
  unfold successBody at failure
  unfold readResponse Nlohmann.parseOrThrow
  cases parsed : nl.parse msg with
  | none => exact .inr rfl
  | some json =>
    rw [parsed] at failure
    cases json with
    | null => exact .inl rfl
    | array xs =>
      simp only [ite_eq_right_iff,reduceCtorEq,imp_false] at failure
      simp only [ok_bind,Json.index,failure]
      exact .inl rfl
    | _ => exact .inr rfl

/-- What a body tells besides the streams, each member with its type. -/
structure Besides (body : Json) (r : JoinResponse) : Prop where
  id : body.member "id" = .ok (.string r.id)
  clientId : body.member "clientId" = .ok (.string r.clientId)
  p2p : if body.contains "p2p" then ∃ b, body.member "p2p" = .ok (.boolean b) ∧ r.p2p = some b else r.p2p = none
  defaultVideoBw : ∃ x, body.member "defaultVideoBW" = .ok x ∧ x.toInt32 = .ok r.defaultVideoBw
  maxVideoBw : ∃ x, body.member "maxVideoBW" = .ok x ∧ x.toInt32 = .ok r.maxVideoBw
  singlePc : body.member "singlePC" = .ok (.boolean r.singlePc)
  iceServers : ∃ servers, body.member "iceServers" = .ok servers ∧
    List.Forall₂ (fun ice server => iceServer ice = .ok server) servers.elements r.iceServers

/-- What a body tells: every required member converts to its type. -/
structure Conveys (nl : Nlohmann) (body : Json) (r : JoinResponse) : Prop where
  besides : Besides body r
  streams : ∃ streams, body.member "streams" = .ok streams ∧
    List.Forall₂ (Described nl) streams.elements r.existStreams

theorem member_toText_iff {body : Json} {key : String} {s : Text} :
    body.member key >>= Json.toText = .ok s ↔ body.member key = .ok (.string s) := by
  simp only [bind_eq_ok_iff,Json.toText_eq_ok_iff,exists_eq_right]

theorem member_toBool_iff {body : Json} {key : String} {b : Bool} :
    body.member key >>= Json.toBool = .ok b ↔ body.member key = .ok (.boolean b) := by
  simp only [bind_eq_ok_iff,Json.toBool_eq_ok_iff,exists_eq_right]

theorem p2pOf_iff {body : Json} {p2p : Option Bool} :
    p2pOf body = .ok p2p ↔
      if body.contains "p2p" then ∃ b, body.member "p2p" = .ok (.boolean b) ∧ p2p = some b else p2p = none := by
  unfold p2pOf
  split
  · rw [map_eq_ok_iff]
    exact exists_congr (fun b => and_congr member_toBool_iff eq_comm)
  · exact ⟨fun same => by cases same; rfl,fun same => by rw [same]; rfl⟩

theorem mapM_streamInfo_iff {nl : Nlohmann} {xs : List Json} {infos : List LicodeStreamInfo} :
    xs.mapM (streamInfo nl Json.memberConst) = .ok infos ↔ List.Forall₂ (Described nl) xs infos := by
  rw [mapM_eq_ok_iff]
  simp only [streamInfo_ok_iff]

theorem joinResponse_ok_iff (nl : Nlohmann) (body : Json) (r : JoinResponse) :
    joinResponse nl body = .ok r ↔ Conveys nl body r := by
  unfold joinResponse
  constructor
  · intro returns
    obtain ⟨id,hasId,returns⟩ := bind_eq_ok_iff.mp returns
    obtain ⟨clientId,hasClientId,returns⟩ := bind_eq_ok_iff.mp returns
    obtain ⟨streams,listed,returns⟩ := bind_eq_ok_iff.mp returns
    obtain ⟨existStreams,described,returns⟩ := bind_eq_ok_iff.mp returns
    obtain ⟨p2p,hasP2p,returns⟩ := bind_eq_ok_iff.mp returns
    obtain ⟨defaultVideoBw,hasDefault,returns⟩ := bind_eq_ok_iff.mp returns
    obtain ⟨maxVideoBw,hasMax,returns⟩ := bind_eq_ok_iff.mp returns
    obtain ⟨singlePc,hasSinglePc,returns⟩ := bind_eq_ok_iff.mp returns
    obtain ⟨servers,hasServers,returns⟩ := bind_eq_ok_iff.mp returns
    obtain ⟨iceServers,read,returns⟩ := bind_eq_ok_iff.mp returns
    cases returns
    exact ⟨⟨member_toText_iff.mp hasId,member_toText_iff.mp hasClientId,p2pOf_iff.mp hasP2p,
      bind_eq_ok_iff.mp hasDefault,bind_eq_ok_iff.mp hasMax,member_toBool_iff.mp hasSinglePc,
      servers,hasServers,mapM_eq_ok_iff.mp read⟩,streams,listed,mapM_streamInfo_iff.mp described⟩
  · rintro ⟨⟨hasId,hasClientId,hasP2p,hasDefault,hasMax,hasSinglePc,servers,hasServers,read⟩,streams,listed,described⟩
    refine bind_eq_ok_iff.mpr ⟨_,member_toText_iff.mpr hasId,?_⟩
    refine bind_eq_ok_iff.mpr ⟨_,member_toText_iff.mpr hasClientId,?_⟩
    refine bind_eq_ok_iff.mpr ⟨_,listed,bind_eq_ok_iff.mpr ⟨_,mapM_streamInfo_iff.mpr described,?_⟩⟩
    refine bind_eq_ok_iff.mpr ⟨_,p2pOf_iff.mpr hasP2p,bind_eq_ok_iff.mpr ⟨_,bind_eq_ok_iff.mpr hasDefault,?_⟩⟩
    refine bind_eq_ok_iff.mpr ⟨_,bind_eq_ok_iff.mpr hasMax,?_⟩
    refine bind_eq_ok_iff.mpr ⟨_,member_toBool_iff.mpr hasSinglePc,?_⟩
    exact bind_eq_ok_iff.mpr ⟨_,hasServers,bind_eq_ok_iff.mpr ⟨_,mapM_eq_ok_iff.mpr read,rfl⟩⟩

/-- A body up to its streams, all of which are described. -/
structure Listed (nl : Nlohmann) (body streams : Json) (before : List Json) : Prop where
  id : ∃ s, body.member "id" = .ok (.string s)
  clientId : ∃ s, body.member "clientId" = .ok (.string s)
  streams : body.member "streams" = .ok streams
  described : ∀ stream ∈ before, ∃ info, Described nl stream info

/-- The bodies that run into undefined behaviour: the first member that cannot be
    read is an object among the streams that lacks a member. -/
def Breaks (nl : Nlohmann) (body : Json) : Prop :=
  ∃ streams stream before later, Listed nl body streams before ∧ streams.elements = before ++ stream :: later ∧
    Broken stream

theorem avoids_p2pOf (body : Json) : Avoids .undefined (p2pOf body) := by
  unfold p2pOf
  refine avoids_ite ?_ (avoids_ok none)
  intro fails
  have read := avoids_bind (Json.avoids_member body "p2p") Json.avoids_toBool
  cases member : body.member "p2p" >>= Json.toBool with
  | ok b => rw [member] at fails; cases fails
  | error fault =>
    rw [member] at fails read
    cases fails
    exact read rfl

theorem avoids_iceServer (ice : Json) : Avoids .undefined (iceServer ice) := by
  have text := Json.avoids_value Json.avoids_toText ice
  exact avoids_bind (text "url" []) (fun _ => avoids_bind (text "username" []) (fun _ =>
    avoids_bind (text "credential" []) (fun _ => avoids_ok _)))

theorem mapM_streamInfo_undefined_iff (nl : Nlohmann) (xs : List Json) :
    xs.mapM (streamInfo nl Json.memberConst) = .error .undefined ↔
      ∃ before stream later, xs = before ++ stream :: later ∧ (∀ x ∈ before, ∃ info, Described nl x info) ∧
        Broken stream := by
  rw [mapM_eq_error_iff]
  simp only [streamInfo_ok_iff,streamInfo_undefined_iff]

/-- The members after the streams. -/
def remaining (body : Json) (id clientId : Text) (existStreams : List LicodeStreamInfo) :
    Except Fault JoinResponse := do
  let p2p ← p2pOf body
  let defaultVideoBw ← body.member "defaultVideoBW" >>= Json.toInt32
  let maxVideoBw ← body.member "maxVideoBW" >>= Json.toInt32
  let singlePc ← body.member "singlePC" >>= Json.toBool
  let iceServers ← body.member "iceServers"
  let iceServers ← iceServers.elements.mapM iceServer
  return ⟨id,clientId,existStreams,p2p,defaultVideoBw,maxVideoBw,singlePc,iceServers⟩

theorem avoids_remaining (body : Json) (id clientId : Text) (existStreams : List LicodeStreamInfo) :
    Avoids .undefined (remaining body id clientId existStreams) := by
  have member := Json.avoids_member body
  refine avoids_bind (avoids_p2pOf body) (fun _ => ?_)
  refine avoids_bind (avoids_bind (member _) Json.avoids_toInt32) (fun _ => ?_)
  refine avoids_bind (avoids_bind (member _) Json.avoids_toInt32) (fun _ => ?_)
  refine avoids_bind (avoids_bind (member _) Json.avoids_toBool) (fun _ => avoids_bind (member _) (fun servers => ?_))
  exact avoids_bind (avoids_mapM avoids_iceServer servers.elements) (fun _ => avoids_ok _)

theorem joinResponse_listed {nl : Nlohmann} {body streams : Json} {before : List Json}
    (listed : Listed nl body streams before) :
    ∃ id clientId, joinResponse nl body =
      streams.elements.mapM (streamInfo nl Json.memberConst) >>= remaining body id clientId := by
  obtain ⟨⟨id,hasId⟩,⟨clientId,hasClientId⟩,streams,-⟩ := listed
  refine ⟨id,clientId,?_⟩
  rw [joinResponse,member_toText_iff.mpr hasId,member_toText_iff.mpr hasClientId,streams]
  rfl

theorem joinResponse_undefined_iff (nl : Nlohmann) (body : Json) :
    joinResponse nl body = .error .undefined ↔ Breaks nl body := by
  have text := fun key => avoids_bind (Json.avoids_member body key) Json.avoids_toText
  constructor
  · intro fails
    obtain ⟨id,hasId,fails⟩ := (bind_eq_error_of_avoids (text "id")).mp fails
    obtain ⟨clientId,hasClientId,fails⟩ := (bind_eq_error_of_avoids (text "clientId")).mp fails
    obtain ⟨streams,listed,fails⟩ := (bind_eq_error_of_avoids (Json.avoids_member body "streams")).mp fails
    rcases bind_eq_error_iff.mp fails with fails | ⟨infos,-,fails⟩
    · obtain ⟨before,stream,later,split,fine,broken⟩ := (mapM_streamInfo_undefined_iff nl _).mp fails
      refine ⟨streams,stream,before,later,?_,split,broken⟩
      exact ⟨⟨id,member_toText_iff.mp hasId⟩,⟨clientId,member_toText_iff.mp hasClientId⟩,listed,fine⟩
    · exact absurd fails (avoids_remaining body id clientId infos)
  · rintro ⟨streams,stream,before,later,listed,split,broken⟩
    obtain ⟨id,clientId,same⟩ := joinResponse_listed listed
    have fails := (mapM_streamInfo_undefined_iff nl _).mpr ⟨_,_,_,split,listed.described,broken⟩
    rw [same,fails]
    rfl

/-! ### Admission -/

theorem joinOutcome_failure {nl : Nlohmann} {msg : Text} (failure : successBody nl msg = none) :
    joinOutcome nl msg = .refused := by
  unfold joinOutcome
  rcases readResponse_failure failure with read | read <;> rw [read]

theorem joinOutcome_success {nl : Nlohmann} {msg : Text} {body : Json} (success : successBody nl msg = some body) :
    (∀ r, joinOutcome nl msg = .admitted r ↔ joinResponse nl body = .ok r) ∧
      (joinOutcome nl msg = .undefined ↔ joinResponse nl body = .error .undefined) := by
  rw [joinOutcome,readResponse_success success]
  cases read : joinResponse nl body with
  | ok r => simp [Functor.map,Except.map]
  | error fault => cases fault <;> simp [Functor.map,Except.map]

theorem joinOutcome_admitted_iff (nl : Nlohmann) (msg : Text) (r : JoinResponse) :
    joinOutcome nl msg = .admitted r ↔ ∃ body, successBody nl msg = some body ∧ Conveys nl body r := by
  cases success : successBody nl msg with
  | none => simp [joinOutcome_failure success]
  | some body =>
    rw [(joinOutcome_success success).1,joinResponse_ok_iff]
    simp only [Option.some.injEq,exists_eq_left']

theorem joinOutcome_undefined_iff (nl : Nlohmann) (msg : Text) :
    joinOutcome nl msg = .undefined ↔ ∃ body, successBody nl msg = some body ∧ Breaks nl body := by
  cases success : successBody nl msg with
  | none => simp [joinOutcome_failure success]
  | some body =>
    rw [(joinOutcome_success success).2,joinResponse_undefined_iff]
    simp only [Option.some.injEq,exists_eq_left']

/-- A message joins the room and tells the observer so, with every stream in its
    place, or it does neither; and it does so exactly when it starts with "success"
    and every member converts. -/
def AllOrNothing (nl : Nlohmann) (msg : Text) (w : World) : Prop :=
  ∃ w', (onJoinRoom nl msg).run w = .ok () w' ∧
    (w'.room.state = .kConnected ∧
        (∃ body r, successBody nl msg = some body ∧ Conveys nl body r ∧
          w'.tasks = w.tasks ++ .onJoinRoom :: r.existStreams.map .joinedStream) ∨
      w'.room.state = .kDisconnected ∧ w'.tasks = w.tasks) ∧
    (w'.room.state = .kConnected ↔ ∃ body r, successBody nl msg = some body ∧ Conveys nl body r)

theorem not_allOrNothing {nl : Nlohmann} {msg : Text} (outcome : joinOutcome nl msg = .undefined) (w : World) :
    ¬ AllOrNothing nl msg w := by
  have spec := onJoinRoom_spec nl msg w
  rw [outcome] at spec
  obtain ⟨t,-,runs⟩ := spec
  rintro ⟨w',runs',-⟩
  rw [runs] at runs'
  cases runs'

/-- Joining is all or nothing exactly for the messages that do not break. -/
theorem allOrNothing_iff (nl : Nlohmann) (msg : Text) (w : World) :
    AllOrNothing nl msg w ↔ ∀ body, successBody nl msg = some body → ¬ Breaks nl body := by
  have spec := onJoinRoom_spec nl msg w
  cases outcome : joinOutcome nl msg with
  | admitted r =>
    rw [outcome] at spec
    obtain ⟨body,success,conveys⟩ := (joinOutcome_admitted_iff nl msg r).mp outcome
    refine iff_of_true ⟨_,spec,.inl ⟨rfl,body,r,success,conveys,rfl⟩,iff_of_true rfl ⟨body,r,success,conveys⟩⟩ ?_
    intro body' success' breaks
    rw [(joinOutcome_undefined_iff nl msg).mpr ⟨body',success',breaks⟩] at outcome
    cases outcome
  | refused =>
    rw [outcome] at spec
    obtain ⟨t,⟨whole,-,-⟩,runs⟩ := spec
    have tasks : t.tasks = w.tasks := by rw [whole]
    refine iff_of_true ⟨_,runs,.inr ⟨rfl,tasks⟩,iff_of_false (by simp) ?_⟩ ?_
    · rintro ⟨body,r,success,conveys⟩
      rw [(joinOutcome_admitted_iff nl msg r).mpr ⟨body,success,conveys⟩] at outcome
      cases outcome
    · intro body success breaks
      rw [(joinOutcome_undefined_iff nl msg).mpr ⟨body,success,breaks⟩] at outcome
      cases outcome
  | undefined =>
    obtain ⟨body,success,breaks⟩ := (joinOutcome_undefined_iff nl msg).mp outcome
    exact iff_of_false (not_allOrNothing outcome w) (fun all => all body success breaks)

/-- A response whose member `streams` is an object, with a value that lacks the
    members of a description. -/
def keyedResponse : Text :=
  lit "[\"success\",\x7b\"id\":\"r\",\"clientId\":\"c\",\"streams\":\x7b\"5\":\x7b\"id\":5\x7d\x7d," ++
    lit "\"defaultVideoBW\":300,\"maxVideoBW\":300,\"singlePC\":false,\"iceServers\":[]\x7d]"

/-- The value that lacks them. -/
def keyedStream : Json := .object [(lit "id",.unsigned 5)]

def keyedBody : Json :=
  .object [(lit "clientId",.string (lit "c")),(lit "defaultVideoBW",.unsigned 300),(lit "iceServers",.array []),
    (lit "id",.string (lit "r")),(lit "maxVideoBW",.unsigned 300),(lit "singlePC",.boolean false),
    (lit "streams",.object [(lit "5",keyedStream)])]

def keyedJson : Nlohmann := knownJson [(keyedResponse,.array [.string (lit "success"),keyedBody])] []

/-- The loop reads a missing member of a constant, and the room is left neither
    joined nor disconnected. -/
theorem allOrNothing_fails : ¬ AllOrNothing keyedJson keyedResponse (World.init ⟨[],[],false,[]⟩) := by
  refine not_allOrNothing ((joinOutcome_undefined_iff _ _).mpr ⟨keyedBody,?_,?_⟩) _
  · have parsed : keyedJson.parse keyedResponse = some (.array [.string (lit "success"),keyedBody]) := by
      simp [keyedJson,knownJson]
    rw [successBody,parsed]
    rfl
  · have listed : Listed keyedJson keyedBody (.object [(lit "5",keyedStream)]) [] := ⟨⟨_,rfl⟩,⟨_,rfl⟩,rfl,by simp⟩
    exact ⟨_,keyedStream,[],[],listed,rfl,_,rfl,"video",by decide,by decide⟩

end LicodeClient
