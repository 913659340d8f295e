import LicodeClient.Lib.Scan
import LicodeClient.Signaling

/-!
Which handler a message reaches. The codes of the frames are told apart by all the
digits that a message starts with, so a message reaches the one handler whose code
those are, with all that follows them, or none. The answer to a request repeats
its number behind another header, and so finds the callback of that request
(`onWebsocketMsg_dispatch`).
-/
namespace LicodeClient
open Scan (Stops)

/-- The frames that have a handler. -/
inductive FrameCode where
  | opened
  | pong
  | connect
  | disconnect
  | event
  | initToken
  | subscribeStream
  | publishStream
  deriving DecidableEq

namespace FrameCode

/-- The digits that a frame starts with. -/
def digits : FrameCode → Text
  | .opened => lit "0"
  | .pong => lit "3"
  | .connect => lit "40"
  | .disconnect => lit "41"
  | .event => lit "42"
  | .initToken => lit "43111"
  | .subscribeStream => lit "43222"
  | .publishStream => lit "43333"

/-- The handler of a frame called with a text; three of them take none. -/
def frame : FrameCode → Text → Frame
  | .opened,msg => .opened msg
  | .pong,_ => .pong
  | .connect,_ => .connect
  | .disconnect,_ => .disconnect
  | .event,msg => .event msg
  | .initToken,msg => .initToken msg
  | .subscribeStream,msg => .subscribeStream msg
  | .publishStream,msg => .publishStream msg

/-- What the handler of a frame does with a text. -/
def handler (nl : Nlohmann) : FrameCode → Text → Exec Unit
  | .opened,msg => processSocketIOOpen nl msg
  | .pong,_ => pure ()
  | .connect,_ => do
    updateState .kConnected
    keepAlive
    LicodeClient.initToken
  | .disconnect,_ => processDisconnect
  | .event,msg => processEvent nl msg
  | .initToken,msg => onJoinRoom nl msg
  | .subscribeStream,msg => onSubscribeStream nl msg
  | .publishStream,msg => onPublishStream msg

theorem isDigit_digits (code : FrameCode) : ∀ c ∈ code.digits, c.isDigit = true := by
  cases code <;> exact Scan.forall_of_all (by decide)

/-- A call of a handler says which one it is. -/
theorem frame_inj {code code' : FrameCode} {msg msg' : Text} (same : code.frame msg = code'.frame msg') :
    code = code' := by
  cases code <;> cases code' <;> first | rfl | cases same

theorem frame_ne_other (code : FrameCode) (msg : Text) : code.frame msg ≠ .other := by
  cases code <;> exact Frame.noConfusion

end FrameCode

/-- A message with the digits of a frame calls its handler with all that follows. -/
theorem frameOf_digits (code : FrameCode) {r : Text} (stops : Stops Char.isDigit r) :
    frameOf (code.digits ++ r) = code.frame r := by
  have number : (code.digits ++ r).takeWhile Char.isDigit = code.digits :=
    Scan.takeWhile_append code.isDigit_digits stops
  unfold frameOf
  rw [number]
  cases code <;> rfl

theorem frameOf_other {m : Text} (unknown : ∀ code : FrameCode, m.takeWhile Char.isDigit ≠ code.digits) :
    frameOf m = .other := by
  unfold frameOf
  refine (if_neg (unknown .opened)).trans ?_
  refine (if_neg (unknown .pong)).trans ?_
  refine (if_neg (unknown .connect)).trans ?_
  refine (if_neg (unknown .initToken)).trans ?_
  refine (if_neg (unknown .disconnect)).trans ?_
  refine (if_neg (unknown .subscribeStream)).trans ?_
  refine (if_neg (unknown .publishStream)).trans ?_
  exact if_neg (unknown .event)

theorem stops_dropWhile (m : Text) : Stops Char.isDigit (m.dropWhile Char.isDigit) := by
  intro c head
  have first := List.head?_dropWhile_not Char.isDigit m
  rw [Option.mem_def.mp head] at first
  exact first

theorem frameOf_of_digits {m : Text} {code : FrameCode} (digits : m.takeWhile Char.isDigit = code.digits) :
    frameOf m = code.frame (m.dropWhile Char.isDigit) := by
  have whole : code.digits ++ m.dropWhile Char.isDigit = m := by
    rw [← digits,List.takeWhile_append_dropWhile]
  rw [← frameOf_digits code (stops_dropWhile m),whole]

/-- The handler of a frame is called exactly for the digits of that frame. -/
theorem frameOf_iff (m : Text) (code : FrameCode) :
    (∃ msg, frameOf m = code.frame msg) ↔ m.takeWhile Char.isDigit = code.digits := by
  constructor
  · rintro ⟨msg,called⟩
    by_cases known : ∃ other : FrameCode, m.takeWhile Char.isDigit = other.digits
    · obtain ⟨other,digits⟩ := known
      rw [frameOf_of_digits digits] at called
      rw [digits,FrameCode.frame_inj called]
    · rw [frameOf_other (fun other digits => known ⟨other,digits⟩)] at called
      exact absurd called.symm (code.frame_ne_other msg)
  · exact fun digits => ⟨_,frameOf_of_digits digits⟩

theorem onWebsocketMsg_frame (nl : Nlohmann) {m msg : Text} {code : FrameCode} (called : frameOf m = code.frame msg) :
    onWebsocketMsg nl m = code.handler nl msg := by
  unfold onWebsocketMsg
  rw [called]
  cases code <;> rfl

/-! ### Requests and their answers -/

/-- The number that a frame sends in its header for the answer, with the callback
    that waits for the answer. -/
def Packet.awaits : Packet → Option (Text × FrameCode)
  | .initToken _ _ => some (INIT_TOKEN_TRANS_ID,.initToken)
  | .subscribe _ => some (SUBSCRIBE_STREAM_TRANS_IS,.subscribeStream)
  | .publish _ _ => some (PUBLISH_STREAM_TRANS_IS,.publishStream)
  | _ => none

/-- The number stands in the text behind 42, and behind 43 it makes the digits of
    the callback's frame. -/
theorem awaits_text (nl : Nlohmann) {packet : Packet} {n : Text} {code : FrameCode}
    (awaits : packet.awaits = some (n,code)) :
    (∃ body, packet.text nl = lit "42" ++ n ++ nl.dump body) ∧ code.digits = lit "43" ++ n := by
  cases packet with
  | initToken token singlePC => cases awaits; exact ⟨⟨_,rfl⟩,rfl⟩
  | subscribe streamId => cases awaits; exact ⟨⟨_,rfl⟩,rfl⟩
  | publish stream label => cases awaits; exact ⟨⟨_,rfl⟩,rfl⟩
  | _ => cases awaits

/-- A frame that awaits no answer is a ping or has no number in its header. -/
theorem text_of_awaits_none (nl : Nlohmann) {packet : Packet} (none : packet.awaits = none) :
    packet.text nl = SOCKET_IO_PING ∨ ∃ body, packet.text nl = lit "42" ++ nl.dump body := by
  cases packet with
  | ping => exact .inl rfl
  | unsubscribe streamId => exact .inr ⟨_,rfl⟩
  | offerOrAnswer type connId erizoId sdp => exact .inr ⟨_,rfl⟩
  | iceCandidate erizoId connId sdpMid sdpMLineIndex candidate => exact .inr ⟨_,rfl⟩
  | _ => cases none

/-- A message reaches the handler of a frame exactly when the digits it starts with
    are those of the frame, with all that follows them, no second handler, and
    without such digits it changes nothing; so the answer to a request reaches its
    callback. -/
theorem onWebsocketMsg_dispatch (nl : Nlohmann) (m : Text) :
    (∀ code : FrameCode, ((∃ msg, frameOf m = code.frame msg) ↔ m.takeWhile Char.isDigit = code.digits) ∧
        (m.takeWhile Char.isDigit = code.digits →
          frameOf m = code.frame (m.dropWhile Char.isDigit) ∧
            onWebsocketMsg nl m = code.handler nl (m.dropWhile Char.isDigit))) ∧
      ((∀ code : FrameCode, m.takeWhile Char.isDigit ≠ code.digits) → ∀ w, (onWebsocketMsg nl m).run w = .ok () w) ∧
      (∀ code code' : FrameCode, ∀ msg msg', frameOf m = code.frame msg → frameOf m = code'.frame msg' →
        code = code') ∧
      (∀ (packet : Packet) (n : Text) (code : FrameCode), packet.awaits = some (n,code) →
        (∃ body, packet.text nl = lit "42" ++ n ++ nl.dump body) ∧
          ∀ payload, Stops Char.isDigit payload →
            frameOf (lit "43" ++ n ++ payload) = code.frame payload ∧
              onWebsocketMsg nl (lit "43" ++ n ++ payload) = code.handler nl payload) ∧
      ∀ packet : Packet, packet.awaits = none →
        packet.text nl = SOCKET_IO_PING ∨ ∃ body, packet.text nl = lit "42" ++ nl.dump body := by
  refine ⟨fun code => ⟨frameOf_iff m code,fun digits => ?_⟩,fun unknown w => ?_,?_,?_,?_⟩
  · have called := frameOf_of_digits digits
    exact ⟨called,onWebsocketMsg_frame nl called⟩
  · unfold onWebsocketMsg
    rw [frameOf_other unknown]
    rfl
  · intro code code' msg msg' called called'
    exact FrameCode.frame_inj (called.symm.trans called')
  · intro packet n code awaits
    obtain ⟨text,answer⟩ := awaits_text nl awaits
    refine ⟨text,fun payload stops => ?_⟩
    have called := frameOf_digits code stops
    rw [answer] at called
    exact ⟨called,onWebsocketMsg_frame nl called⟩
  · exact fun packet none => text_of_awaits_none nl none

end LicodeClient
