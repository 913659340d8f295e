import LicodeClient.Printer
import LicodeClient.Tasks

/-!
What the server can make of the texts that the room sends. A request is an
operation with its arguments; its text is a header and a JSON array. The
arguments can be read back from the array (`ofBody_normal`), and so can the
operation, but for one pair: a stream is unpublished with the packet that
unsubscribes it (`text_eq_iff`).
-/
namespace LicodeClient
open LicodeClient.Table LicodeClient.Program

/-- The requests of the room's calls, with what their frames are made from. -/
inductive RoomRequest where
  | publishStream (label : Text)
  | unPublishStream (streamId : UInt64)
  | subscribeStream (streamId : UInt64)
  | unSubscriberStream (streamId : UInt64)
  | sendAnswer (connId erizoId sdp : Text)
  | sendOffer (connId erizoId sdp : Text)
  | sendIceCandidate (connId erizoId sdpMid : Text) (sdpMLineIndex : Int32) (candidate : Text)
  deriving DecidableEq

namespace RoomRequest

/-- The socket.io header of a request. -/
def header : RoomRequest → Text
  | .publishStream _ => publishStreamMsgHeader
  | .subscribeStream _ => subscribeStreamMsgHeader
  | _ => eventHeader

/-- What the builder of a request makes. -/
def body : RoomRequest → Json
  | .publishStream label => Builder.publicStream label
  | .unPublishStream streamId => Builder.unsubscribeStream streamId
  | .subscribeStream streamId => Builder.subscribeStream streamId true
  | .unSubscriberStream streamId => Builder.unsubscribeStream streamId
  | .sendAnswer connId erizoId sdp => Builder.offerOrAnswer (lit "answer") connId erizoId sdp
  | .sendOffer connId erizoId sdp => Builder.offerOrAnswer (lit "offer") connId erizoId sdp
  | .sendIceCandidate connId erizoId sdpMid sdpMLineIndex candidate =>
    Builder.connection erizoId connId sdpMid sdpMLineIndex candidate

/-- The text that a request hands to `LicodeSignaling::SendMsg`. -/
def text (nl : Nlohmann) (r : RoomRequest) : Text := r.header ++ nl.dump r.body

end RoomRequest

/-- The request that a task makes; a message to a connection needs a stream. -/
def Task.request (w : World) : Task → Option RoomRequest
  | .publishStream _ label => some (.publishStream label)
  | .unPublishStream streamId => some (.unPublishStream streamId)
  | .subscribeStream streamId => some (.subscribeStream streamId)
  | .unSubscriberStream streamId => some (.unSubscriberStream streamId)
  | .sendAnswer streamId sdp => (entry w.room.remoteStreamInfos streamId).map (fun p =>
      .sendAnswer (w.heap.cell p).connectionId w.room.erizoId sdp)
  | .sendOffer streamId sdp => (entry w.room.remoteStreamInfos streamId).map (fun p =>
      .sendOffer (w.heap.cell p).connectionId w.room.erizoId sdp)
  | .sendIceCandidate streamId sdpMid sdpMLineIndex candidate =>
    ((entry w.room.remoteStreamInfos streamId).or (entry w.room.localStreamInfos streamId)).map (fun p =>
      .sendIceCandidate (w.heap.cell p).connectionId w.room.erizoId sdpMid sdpMLineIndex candidate)
  | _ => none

/-- A task ends by handing over the text of its request. -/
theorem run_request (nl : Nlohmann) (order : Order UInt64 StreamPtr) {task : Task} {w : World} {r : RoomRequest}
    (request : task.request w = some r) :
    ∃ msg v, (task.run nl order).run w = (signalingSendMsg msg).run v ∧ msg.text nl = r.text nl := by
  cases task with
  | publishStream info label => cases request; exact ⟨_,_,rfl,rfl⟩
  | unPublishStream streamId => cases request; exact ⟨_,_,rfl,rfl⟩
  | subscribeStream streamId => cases request; exact ⟨_,_,rfl,rfl⟩
  | unSubscriberStream streamId => cases request; exact ⟨_,_,rfl,rfl⟩
  | sendAnswer streamId sdp =>
    obtain ⟨p,found,rfl⟩ := Option.map_eq_some_iff.mp request
    have runs := run_runOfferOrAnswer "answer" streamId sdp w
    rw [found] at runs
    exact ⟨_,_,runs,rfl⟩
  | sendOffer streamId sdp =>
    obtain ⟨p,found,rfl⟩ := Option.map_eq_some_iff.mp request
    have runs := run_runOfferOrAnswer "offer" streamId sdp w
    rw [found] at runs
    exact ⟨_,_,runs,rfl⟩
  | sendIceCandidate streamId sdpMid sdpMLineIndex candidate =>
    obtain ⟨p,target,rfl⟩ := Option.map_eq_some_iff.mp request
    have runs := run_runSendIceCandidate streamId sdpMid sdpMLineIndex candidate w
    cases found : entry w.room.remoteStreamInfos streamId with
    | some q =>
      rw [found] at runs target
      obtain rfl := Option.some.inj target
      exact ⟨_,_,runs,rfl⟩
    | none =>
      rw [found,Option.none_or] at target
      rw [found,target] at runs
      exact ⟨_,_,runs,rfl⟩
  | _ => cases request

namespace RoomRequest

/-! ### Reading a request back -/

/-- The value at the end of a path of positions. -/
def walk : List Nat → Json → Json
  | [],json => json
  | i :: path,.array xs => walk path (xs.getD i .null)
  | i :: path,.object members => walk path ((members.map Prod.snd).getD i .null)
  | _,_ => .null

/-- A message to a connection. Only an offer and an answer have a fourth member,
    their type. -/
def ofMessage (json : Json) : Except Fault RoomRequest := do
  let connId ← (walk [1,1] json).toText
  let erizoId ← (walk [1,2] json).toText
  if (walk [1,3,3] json).isText "offer" then
    return .sendOffer connId erizoId (← (walk [1,3,2] json).toText)
  else if (walk [1,3,3] json).isText "answer" then
    return .sendAnswer connId erizoId (← (walk [1,3,2] json).toText)
  else
    return .sendIceCandidate connId erizoId (← (walk [1,3,0,2] json).toText) (← (walk [1,3,0,1] json).toInt32)
      (← (walk [1,3,0,0] json).toText)

/-- The request that a body is read as. -/
def ofBody (json : Json) : Except Fault RoomRequest := do
  if (walk [0] json).isText "publish" then
    return .publishStream (← (walk [1,3] json).toText)
  else if (walk [0] json).isText "subscribe" then
    return .subscribeStream (← (walk [1,8] json).toUInt64)
  else if (walk [0] json).isText "unsubscribe" then
    return .unSubscriberStream (← (walk [1] json).toUInt64)
  else
    ofMessage json

/-- What the server takes a request for. -/
def heard : RoomRequest → RoomRequest
  | .unPublishStream streamId => .unSubscriberStream streamId
  | r => r

theorem isText_string (a b : String) : (Json.string (lit a)).isText b = decide (a = b) := by
  simp [Json.isText,String.toList_inj]

theorem castUInt64_toNat (n : UInt64) : Json.castUInt64 n.toNat = n := by
  have small := n.toNat_lt
  have fits : -2 ^ 63 ≤ (n.toNat:Int) ∧ (n.toNat:Int) < 2 ^ 64 := by omega
  rw [Json.castUInt64,if_pos fits]
  apply UInt64.toNat_inj.mp
  simp only [UInt64.ofInt,UInt64.toNat_ofNat']
  omega

theorem castInt32_toInt (i : Int32) : Json.castInt32 i.toInt = i := by
  have fits : -2 ^ 31 ≤ i.toInt ∧ i.toInt < 2 ^ 31 := ⟨i.le_toInt,i.toInt_lt⟩
  rw [Json.castInt32,if_pos fits,Int32.ofInt_toInt]

theorem toUInt64_normal (n : UInt64) : (Json.unsigned n).normal.toUInt64 = .ok n := by
  simp [Json.normal,Json.toUInt64,Json.truncate,castUInt64_toNat]

theorem toInt32_normal (i : Int32) : (Json.integer i.toInt64).normal.toInt32 = .ok i := by
  simp [Json.normal,Json.toInt32,Json.truncate,castInt32_toInt]

theorem ofBody_unsubscribe (streamId : UInt64) :
    ofBody (Builder.unsubscribeStream streamId).normal = .ok (.unSubscriberStream streamId) := by
  have op : walk [0] (Builder.unsubscribeStream streamId).normal = .string (lit "unsubscribe") := rfl
  have arg : walk [1] (Builder.unsubscribeStream streamId).normal = (Json.unsigned streamId).normal := rfl
  simp [ofBody,op,isText_string,arg,toUInt64_normal]

/-- A request is read back from its body as the server takes it. -/
theorem ofBody_normal (r : RoomRequest) : ofBody r.body.normal = .ok r.heard := by
  cases r with
  | publishStream label =>
    have op : walk [0] (publishStream label).body.normal = .string (lit "publish") := rfl
    simp only [ofBody,op,isText_string,decide_true,if_true]
    rfl
  | unPublishStream streamId => exact ofBody_unsubscribe streamId
  | subscribeStream streamId =>
    have op : walk [0] (subscribeStream streamId).body.normal = .string (lit "subscribe") := rfl
    have arg : walk [1,8] (subscribeStream streamId).body.normal = (Json.unsigned streamId).normal := rfl
    simp only [ofBody,op,isText_string,String.reduceEq,decide_false,decide_true,Bool.false_eq_true,if_false,if_true,arg,
      toUInt64_normal]
    rfl
  | unSubscriberStream streamId => exact ofBody_unsubscribe streamId
  | sendAnswer connId erizoId sdp =>
    have op : walk [0] (sendAnswer connId erizoId sdp).body.normal = .string (lit "connectionMessage") := rfl
    have type : walk [1,3,3] (sendAnswer connId erizoId sdp).body.normal = .string (lit "answer") := rfl
    simp only [ofBody,op,isText_string,String.reduceEq,decide_false,decide_true,Bool.false_eq_true,if_false,if_true,
      ofMessage,type]
    rfl
  | sendOffer connId erizoId sdp =>
    have op : walk [0] (sendOffer connId erizoId sdp).body.normal = .string (lit "connectionMessage") := rfl
    have type : walk [1,3,3] (sendOffer connId erizoId sdp).body.normal = .string (lit "offer") := rfl
    simp only [ofBody,op,isText_string,String.reduceEq,decide_false,decide_true,Bool.false_eq_true,if_false,if_true,
      ofMessage,type]
    rfl
  | sendIceCandidate connId erizoId sdpMid index candidate =>
    have op : walk [0] (sendIceCandidate connId erizoId sdpMid index candidate).body.normal =
      .string (lit "connectionMessage") := rfl
    have type : walk [1,3,3] (sendIceCandidate connId erizoId sdpMid index candidate).body.normal = .null := rfl
    have line : walk [1,3,0,1] (sendIceCandidate connId erizoId sdpMid index candidate).body.normal =
      (Json.integer index.toInt64).normal := rfl
    simp only [ofBody,op,isText_string,String.reduceEq,decide_false,Bool.false_eq_true,if_false,ofMessage,type,line,
      toInt32_normal]
    rfl

/-! ### Texts -/

theorem isDigit_header (r : RoomRequest) : ∀ c ∈ r.header, c.isDigit = true := by
  have publish : ∀ c ∈ publishStreamMsgHeader, c.isDigit = true := Scan.forall_of_all (by decide)
  have subscribe : ∀ c ∈ subscribeStreamMsgHeader, c.isDigit = true := Scan.forall_of_all (by decide)
  have event : ∀ c ∈ eventHeader, c.isDigit = true := Scan.forall_of_all (by decide)
  cases r with
  | publishStream => exact publish
  | subscribeStream => exact subscribe
  | _ => exact event

/-- The builders give the members of an object in the order of their keys. -/
theorem plain_body (r : RoomRequest) : r.body.plain = true := by
  cases r <;> simp only [body,Builder.publicStream,Builder.subscribeStream,Builder.unsubscribeStream,
    Builder.offerOrAnswer,Builder.connection,Builder.object,Builder.muteStream,Builder.text,List.map_cons,List.map_nil,
    Json.plain,Json.plainElements,Json.plainMembers,Bool.and_true,Bool.true_and,Bool.and_self] <;> decide

theorem body_array (r : RoomRequest) : ∃ xs, r.body = .array xs := by
  cases r <;> exact ⟨_,rfl⟩

/-- The header ends where the array begins. -/
theorem stops_body {nl : Nlohmann} (prints : nl.Prints) (r : RoomRequest) :
    Scan.Stops Char.isDigit (nl.dump r.body) := by
  obtain ⟨xs,array⟩ := body_array r
  obtain ⟨rest,bracket⟩ := prints.array xs
  rw [array,bracket]
  exact Scan.stops_cons rfl rest

theorem text_heard (nl : Nlohmann) (r : RoomRequest) : r.heard.text nl = r.text nl := by
  cases r <;> rfl

/-- Two requests have one text exactly when the server takes them for the same. -/
theorem text_eq_iff {nl : Nlohmann} (prints : nl.Prints) (r r' : RoomRequest) :
    r.text nl = r'.text nl ↔ r.heard = r'.heard := by
  constructor
  · intro same
    obtain ⟨-,dumps⟩ := Scan.append_inj (isDigit_header r) (isDigit_header r') (stops_body prints r)
      (stops_body prints r') same
    have normals := prints.normal_eq r.body r'.body (plain_body r) (plain_body r') dumps
    have read := ofBody_normal r
    rw [normals,ofBody_normal] at read
    exact (Except.ok.inj read).symm
  · intro same
    rw [← text_heard,same,text_heard]

/-- One request unpublishes a stream and the other unsubscribes it. -/
def Confused : RoomRequest → RoomRequest → Prop
  | .unPublishStream streamId,.unSubscriberStream streamId' => streamId = streamId'
  | .unSubscriberStream streamId,.unPublishStream streamId' => streamId = streamId'
  | _,_ => False

theorem heard_eq_iff (r r' : RoomRequest) : r.heard = r'.heard ↔ r = r' ∨ r.Confused r' := by
  cases r <;> cases r' <;> simp [heard,Confused]

/-- The text of a request tells which request it is, for every two requests
    but those that unpublish and unsubscribe one stream. -/
theorem text_injective_iff {nl : Nlohmann} (prints : nl.Prints) (r r' : RoomRequest) :
    (r.text nl = r'.text nl → r = r') ↔ ¬ r.Confused r' := by
  rw [text_eq_iff prints,heard_eq_iff]
  constructor
  · intro tells confused
    have same := tells (.inr confused)
    subst same
    cases r <;> exact confused
  · intro clear same
    rcases same with same | confused
    · exact same
    · exact absurd confused clear

theorem text_injective_offer :
    ((sendOffer (lit "c1") (lit "e1") []).text (printing []) =
      (sendAnswer (lit "c1") (lit "e1") []).text (printing []) →
      sendOffer (lit "c1") (lit "e1") [] = sendAnswer (lit "c1") (lit "e1") []) ∧
    ¬ (sendOffer (lit "c1") (lit "e1") []).Confused (sendAnswer (lit "c1") (lit "e1") []) :=
  ⟨(text_injective_iff (prints_printing []) _ _).mpr (fun confused => confused),fun confused => confused⟩

/-- The server is asked to unsubscribe stream 7 in both calls. -/
theorem text_injective_fails :
    (unPublishStream 7).text (printing []) = (unSubscriberStream 7).text (printing []) ∧
      unPublishStream 7 ≠ unSubscriberStream 7 := by
  constructor
  · rfl
  · decide

end RoomRequest
end LicodeClient
