import LicodeClient.Application
import LicodeClient.Nuve
import LicodeClient.Session.Greeting

/-!
`main`. It enters the last room of the list that has the example's name, with a token
for that room, and calls `Join` once (`main_eq_some_iff`). A room that is joined once
has one session (`single_run`), and the token that is sent there is the one that was
created for the room (`main_single_session`).
-/
namespace LicodeClient
open LicodeClient.Run LicodeClient.Nuve

/-- The name that `main` looks for. -/
def exampleRoomName : Text := lit "basicExampleRoom"

/-- The loop over the rooms. -/
def exampleRoomId (listRooms : List LicodeRoomInfo) : Text :=
  listRooms.foldl (fun exampleRoomId room => if room.name = exampleRoomName then room.id else exampleRoomId) []

/-- `main` as far as the call of `Join`. It returns -1 where this is `none`, and waits
    for ever behind that call. -/
def main (nl : Nlohmann) (server : Server) : Except Fault (Option TestBasicExampleRoom) := do
  match ← syncListRoom nl server with
  | none => return none
  | some listRooms =>
    if (exampleRoomId listRooms).isEmpty then return none
    match ← syncCreateToken nl server (exampleRoomId listRooms) (lit "shajia") (lit "presenter") with
    | none => return none
    | some token => return some (.init token)

/-- The last room of the example's name. -/
structure Chosen (listRooms : List LicodeRoomInfo) (room : LicodeRoomInfo) : Prop where
  name : room.name = exampleRoomName
  last : ∃ before later, listRooms = before ++ room :: later ∧ ∀ other ∈ later, other.name ≠ exampleRoomName

theorem exampleRoomId_append (listRooms : List LicodeRoomInfo) (room : LicodeRoomInfo) :
    exampleRoomId (listRooms ++ [room]) =
      if room.name = exampleRoomName then room.id else exampleRoomId listRooms := by
  rw [exampleRoomId,List.foldl_append]
  rfl

theorem not_chosen_nil (chosen : LicodeRoomInfo) : ¬ Chosen [] chosen := by
  rintro ⟨-,before,later,split,-⟩
  simp at split

/-- One more room is chosen, or changes nothing. -/
theorem chosen_append {listRooms : List LicodeRoomInfo} {room chosen : LicodeRoomInfo} :
    Chosen (listRooms ++ [room]) chosen ↔
      room.name = exampleRoomName ∧ chosen = room ∨ room.name ≠ exampleRoomName ∧ Chosen listRooms chosen := by
  constructor
  · rintro ⟨name,before,later,split,others⟩
    cases later using List.reverseRecOn with
    | nil =>
      obtain rfl := List.singleton_inj.mp (List.append_inj' split rfl).2
      exact .inl ⟨name,rfl⟩
    | append_singleton later last =>
      rw [← List.cons_append,← List.append_assoc] at split
      obtain ⟨same,end_same⟩ := List.append_inj' split rfl
      obtain rfl := List.singleton_inj.mp end_same
      exact .inr ⟨others room (by simp),name,before,later,same,
        fun other member => others other (List.mem_append_left _ member)⟩
  · rintro (⟨named,rfl⟩ | ⟨unnamed,name,before,later,rfl,others⟩)
    · exact ⟨named,listRooms,[],rfl,fun other member => (by cases member)⟩
    · refine ⟨name,before,later ++ [room],by simp,fun other member => ?_⟩
      rcases List.mem_append.mp member with earlier | here
      · exact others other earlier
      · rwa [List.mem_singleton.mp here]

theorem exampleRoomId_eq_iff {listRooms : List LicodeRoomInfo} {id : Text} (given : id ≠ []) :
    exampleRoomId listRooms = id ↔ ∃ room, Chosen listRooms room ∧ room.id = id := by
  induction listRooms using List.reverseRecOn with
  | nil =>
    constructor
    · intro none
      exact absurd none.symm given
    · rintro ⟨room,chosen,-⟩
      exact absurd chosen (not_chosen_nil room)
  | append_singleton listRooms room ih =>
    rw [exampleRoomId_append]
    by_cases named : room.name = exampleRoomName
    · simp [chosen_append,named]
    · simp [chosen_append,named,ih]

section
variable {nl : Nlohmann} {server : Server}

/-- When `main` joins, and with which token. -/
theorem main_eq_some_iff {a : TestBasicExampleRoom} :
    main nl server = .ok (some a) ↔
      ∃ listRooms room token, syncListRoom nl server = .ok (some listRooms) ∧ Chosen listRooms room ∧ room.id ≠ [] ∧
        syncCreateToken nl server room.id (lit "shajia") (lit "presenter") = .ok (some token) ∧ a = .init token := by
  constructor
  · intro starts
    unfold main at starts
    cases listed : syncListRoom nl server with
    | error fault => simp [listed,bind,Except.bind] at starts
    | ok found =>
      cases found with
      | none => simp [listed,bind,Except.bind,pure,Except.pure] at starts
      | some listRooms =>
        simp only [listed,bind,Except.bind] at starts
        split at starts
        · cases starts
        · next given =>
          have given : exampleRoomId listRooms ≠ [] := by simpa using given
          obtain ⟨room,chosen,id⟩ := (exampleRoomId_eq_iff given).mp rfl
          rw [← id] at starts given
          split at starts
          · cases starts
          · next found created =>
            cases found with
            | none => cases starts
            | some token =>
              cases starts
              exact ⟨listRooms,room,token,rfl,chosen,given,created,rfl⟩
  · rintro ⟨listRooms,room,token,listed,chosen,given,created,rfl⟩
    have id : exampleRoomId listRooms = room.id := (exampleRoomId_eq_iff given).mpr ⟨room,chosen,rfl⟩
    simp [main,listed,id,given,created,bind,Except.bind,pure,Except.pure]

end

/-! ### A room that is joined once -/

/-- The first session is the one in use. -/
structure World.Single (w : World) : Prop where
  wired : w.outline.Wired
  first : w.signaling.websocket = some 0

section
variable {nl : Nlohmann} {w w' : World} {e : Event}

theorem World.Single.length (single : w.Single) : w.sessions.length = 1 := by
  have latest := single.wired.latest
  rw [show w.outline.websocket = some 0 from single.first] at latest
  simpa [Outline.waits,World.outline] using latest

theorem eq_join_of_moveOf (joins : moveOf nl w e = .join) : e = .join := by
  unfold moveOf at joins
  split at joins
  · rfl
  all_goals (try split at joins) <;> cases joins

theorem single_step (single : w.Single) (other : e ≠ .join) (taken : step nl w e = some w') : w'.Single := by
  refine ⟨step_wired single.wired taken,?_⟩
  show w'.outline.websocket = some 0
  rw [step_outline single.wired taken,Move.websocket_apply]
  split
  · next joins => exact absurd (eq_join_of_moveOf joins) other
  · exact single.first

theorem single_join {token : LicodeToken} (taken : step nl (.init token) .join = some w) : w.Single := by
  refine ⟨step_wired (wired_init token) taken,?_⟩
  show w.outline.websocket = some 0
  rw [step_outline (wired_init token) taken]
  rfl

theorem guarded_apart {ds : List Event} (once : .join ∉ ds) : Guarded (step nl) (fun _ e => e ≠ .join) w ds :=
  guarded_of_forall (fun _ member => ne_of_mem_of_not_mem member once)

theorem single_run {ds : List Event} (single : w.Single) (once : .join ∉ ds) (done : run (step nl) w ds = some w') :
    w'.Single := by
  have always : Always (step nl) World.Single w ds :=
    always_of_guarded (fun w e w' single other taken => single_step single other taken) single (guarded_apart once)
  exact always.last done

end

namespace TestBasicExampleRoom

/-- Nothing calls `Join` a second time. -/
theorem not_join_of_shown {rtc : Webrtc} {es : List Event} {ds : List LicodeClient.Event} (once : .client .join ∉ es)
    (shown : ds.flatMap external = es.flatMap (Event.shown rtc)) : .join ∉ ds := by
  intro member
  have seen : LicodeClient.Event.join ∈ es.flatMap (Event.shown rtc) := by
    rw [← shown]
    exact List.mem_flatMap.mpr ⟨.join,member,List.mem_singleton.mpr rfl⟩
  obtain ⟨e,given,shows⟩ := List.mem_flatMap.mp seen
  cases e with
  | client e =>
    obtain rfl := List.mem_singleton.mp shows
    exact once given
  | _ => simp [Event.shown] at shows

/-- In whatever way the program that `main` starts goes on, it talks to the server through
    one session, and the token that it sends there is the one that was created for the
    last room of the example's name. -/
theorem main_single_session {nl : Nlohmann} {rtc : Webrtc} {server : Server} {a b : TestBasicExampleRoom}
    {es : List Event} (starts : main nl server = .ok (some a))
    (done : run (step nl rtc) a (.client .join :: es) = some b) (once : .client .join ∉ es)
    (up : b.world.crashed = none) :
    ∃ listRooms room token s, syncListRoom nl server = .ok (some listRooms) ∧ Chosen listRooms room ∧
      syncCreateToken nl server room.id (lit "shajia") (lit "presenter") = .ok (some token) ∧
      b.world.sessions = [s] ∧ ∀ msg ∈ s.accepted, msg.isToken = true → msg = .initToken token false := by
  obtain ⟨listRooms,room,token,listed,chosen,-,created,rfl⟩ := main_eq_some_iff.mp starts
  obtain ⟨a,first,rest⟩ := Option.bind_eq_some_iff.mp done
  obtain ⟨w,joined,rfl⟩ : ∃ w, LicodeClient.step nl (.init token) .join = some w ∧
      { init token with world := w } = a := by
    obtain ⟨-,taken⟩ := Option.ite_none_left_eq_some.mp first
    exact Option.map_eq_some_iff.mp taken
  have owns : Owns { init token with world := w } w := ⟨rfl,labelled_init token⟩
  obtain ⟨w',ds,answer,rfl,-⟩ := (simulates nl rtc).answers owns rest
  have apart : .join ∉ ds := not_join_of_shown once answer.shown
  have whole : run (LicodeClient.step nl) (.init token) (.join :: ds) = some b.world :=
    Option.bind_eq_some_iff.mpr ⟨w,joined,answer.done⟩
  have vowed := vowed_of_run whole up
  obtain ⟨s,only⟩ := List.length_eq_one_iff.mp (single_run (single_join joined) apart answer.done).length
  refine ⟨listRooms,room,token,s,listed,chosen,created,only,vowed.alike s.accepted ?_⟩
  exact List.mem_map_of_mem (by simp [World.seat,only])

/-- A list with two rooms of the example's name and one of another. -/
def exampleRooms : Json := .array [room "1" "basicExampleRoom",room "2" "basicExampleRoom",room "3" "hall"]
where
  room (id name : String) : Json := .object [(lit "_id",.string (lit id)),(lit "name",.string (lit name))]

def exampleToken : LicodeToken := ⟨lit "t1",lit "h:8080",false,lit "c2ln"⟩

/-- The token as the server has it. -/
def exampleTokenJson : Json :=
  .object [(lit "host",.string exampleToken.host),(lit "secure",.boolean exampleToken.secure),
    (lit "signature",.string exampleToken.signature),(lit "tokenId",.string exampleToken.tokenId)]

def exampleJson : Nlohmann := library [exampleRooms,exampleTokenJson]

/-- Lists the rooms, and creates the token for the second one only. -/
def exampleServer : Server := fun request =>
  if request.target = lit "/rooms" then ⟨200,exampleRooms.print⟩
  else if request.target = lit "/rooms/2/tokens" then
    ⟨200,lit "eyJob3N0IjoiaDo4MDgwIiwic2VjdXJlIjpmYWxzZSwic2lnbmF0dXJlIjoiYzJsbiIsInRva2VuSWQiOiJ0MSJ9"⟩
  else ⟨404,[]⟩

theorem main_single_session_opening : ∃ b, main exampleJson exampleServer = .ok (some (init exampleToken)) ∧
    run (step exampleJson readyWebrtc) (init exampleToken) (opening.map .client) = some b ∧
      ∃ listRooms room token s, syncListRoom exampleJson exampleServer = .ok (some listRooms) ∧
        Chosen listRooms room ∧
        syncCreateToken exampleJson exampleServer room.id (lit "shajia") (lit "presenter") = .ok (some token) ∧
        b.world.sessions = [s] ∧ ∀ msg ∈ s.accepted, msg.isToken = true → msg = .initToken token false := by
  have starts : main exampleJson exampleServer = .ok (some (init exampleToken)) := by rfl
  obtain ⟨b,done,up⟩ : ∃ b, run (step exampleJson readyWebrtc) (init exampleToken) (opening.map .client) = some b ∧
      b.world.crashed = none := ⟨_,rfl,rfl⟩
  exact ⟨b,starts,done,main_single_session starts done (by simp) up⟩

end TestBasicExampleRoom
end LicodeClient
