import LicodeClient.Json

/-!
The records of the client (tokens, ICE servers, stream descriptions) and the
frames it sends. A frame is kept as the request it encodes; its text, a socket.io
header followed by the JSON that the request's builder makes, is `Packet.text`.
-/
namespace LicodeClient

/-- `LicodeToken`. -/
structure LicodeToken where
  tokenId : Text
  host : Text
  secure : Bool
  signature : Text
  deriving DecidableEq

/-- `IceServer`. -/
structure IceServer where
  url : Text
  username : Text
  credential : Text
  deriving DecidableEq

/-- `LicodeStreamInfo`. -/
structure LicodeStreamInfo where
  id : UInt64
  hasVideo : Bool
  hasAudio : Bool
  hasData : Bool
  label : Text
  screen : Bool
  attributes : Text
  connectionId : Text := []
  connected : Bool := false
  deriving DecidableEq

/-- A `std::shared_ptr<LicodeStreamInfo>` that is not null. -/
abbrev StreamPtr := Nat

/-! ### Frame codes -/

def SOCKET_IO_OPEN : Text := lit "0"
def SOCKET_IO_PING : Text := lit "2"
def SOCKET_IO_PONG : Text := lit "3"
def SOCKET_IO_MESSAGE : Text := lit "4"
def SOCKET_IO_PACKET_CONNECT : Text := lit "0"
def SOCKET_IO_PACKET_DISCONNECT : Text := lit "1"
def SOCKET_IO_PACKET_EVENT : Text := lit "2"
def SOCKET_IO_PACKET_ACK : Text := lit "3"
def SOCKET_IO_WEBSOCKET_CONNECT : Text := SOCKET_IO_MESSAGE ++ SOCKET_IO_PACKET_CONNECT
def SOCKET_IO_WEBSOCKET_DISCONNECT : Text := SOCKET_IO_MESSAGE ++ SOCKET_IO_PACKET_DISCONNECT
def SOCKET_IO_WEBSOCKET_EVENT : Text := SOCKET_IO_MESSAGE ++ SOCKET_IO_PACKET_EVENT
/-- The digits of the three request numbers, as `std::to_string` writes them. -/
def INIT_TOKEN_TRANS_ID : Text := lit "111"
def SUBSCRIBE_STREAM_TRANS_IS : Text := lit "222"
def PUBLISH_STREAM_TRANS_IS : Text := lit "333"
def TOKEN_INIT_RESPONSE : Text := SOCKET_IO_MESSAGE ++ SOCKET_IO_PACKET_ACK ++ INIT_TOKEN_TRANS_ID
def SUBSCRIBE_STREAM_RESPONSE : Text := SOCKET_IO_MESSAGE ++ SOCKET_IO_PACKET_ACK ++ SUBSCRIBE_STREAM_TRANS_IS
def PUBLISH_STREAM_RESPONSE : Text := SOCKET_IO_MESSAGE ++ SOCKET_IO_PACKET_ACK ++ PUBLISH_STREAM_TRANS_IS

def subscribeStreamMsgHeader : Text := SOCKET_IO_MESSAGE ++ SOCKET_IO_PACKET_EVENT ++ SUBSCRIBE_STREAM_TRANS_IS
def publishStreamMsgHeader : Text := SOCKET_IO_MESSAGE ++ SOCKET_IO_PACKET_EVENT ++ PUBLISH_STREAM_TRANS_IS
def eventHeader : Text := SOCKET_IO_WEBSOCKET_EVENT

/-! ### Packet builders -/

namespace Builder

/-- An object with its members, given in the order of their keys. -/
def object (members : List (String × Json)) : Json := .object (members.map (fun m => (lit m.1,m.2)))
def text (s : String) : Json := .string (lit s)

/-- `muteStream` of a publisher or subscriber that mutes nothing. -/
def muteStream : Json := object [("audio",.boolean false),("video",.boolean false)]

/-- `PublicStreamPktBuilder::Build`; the state it is given is not written. -/
def publicStream (label : Text) : Json :=
  .array [text "publish",
    object [("attributes",.object []),("audio",.boolean true),("data",.boolean true),("label",.string label),
      ("maxVideoBW",.integer 300),("metadata",object [("type",text "publisher")]),("minVideoBW",.integer 0),
      ("muteStream",muteStream),("screen",.boolean false),("video",.boolean true)],
    .null]

/-- `SubscribeStreamPktBuilder::Build`. -/
def subscribeStream (streamId : UInt64) (offerFromErizo : Bool) : Json :=
  .array [text "subscribe",
    object [("audio",.boolean true),("browser",text "cpp"),("data",.boolean true),("maxVideoBW",.integer 300),
      ("metadata",object [("type",text "subscriber")]),("muteStream",muteStream),
      ("offerFromErizo",.boolean offerFromErizo),("slideShowMode",.boolean false),("streamId",.unsigned streamId),
      ("video",.boolean true)],
    .null]

/-- `UnsubscribeStreamPktBuilder::Build`. -/
def unsubscribeStream (streamId : UInt64) : Json := .array [text "unsubscribe",.unsigned streamId,.null]

/-- `OfferOrAnswerPktBuilder::Build`. -/
def offerOrAnswer (type connId erizoId sdp : Text) : Json :=
  .array [text "connectionMessage",
    object [("browser",text "cpp"),("connectionId",.string connId),("erizoId",.string erizoId),
      ("msg",object [("config",object [("maxVideoBW",.integer 300)]),("receivedSessionVersion",.integer (-1)),
        ("sdp",.string sdp),("type",.string type)])],
    .null]

/-- `ConnectionPtkBuilder::Build`. -/
def connection (erizoId connId sdpMid : Text) (sdpMLineIndex : Int32) (candidate : Text) : Json :=
  .array [text "connectionMessage",
    object [("browser",text "cpp"),("connectionId",.string connId),("erizoId",.string erizoId),
      ("msg",object [("candidate",object [("candidate",.string candidate),
          ("sdpMLineIndex",.integer sdpMLineIndex.toInt64),("sdpMid",.string sdpMid)]),
        ("receivedSessionVersion",.integer 0),("type",text "candidate")])],
    .null]

/-- `CreateTokenPtkBuilder::Build`. -/
def createToken (token : LicodeToken) (singlePC : Bool) : Json :=
  .array [text "token",
    object [("singlePC",.boolean singlePC),
      ("token",object [("host",.string token.host),("secure",.boolean token.secure),
        ("signature",.string token.signature),("tokenId",.string token.tokenId)])]]

end Builder

/-! ### Frames -/

/-- The frames that the client hands to its websocket. A publish frame also
    names the stream it was made for, which its text does not show. -/
inductive Packet where
  | ping
  | initToken (token : LicodeToken) (singlePC : Bool)
  | publish (stream : StreamPtr) (label : Text)
  | subscribe (streamId : UInt64)
  | unsubscribe (streamId : UInt64)
  | offerOrAnswer (type connId erizoId sdp : Text)
  | iceCandidate (erizoId connId sdpMid : Text) (sdpMLineIndex : Int32) (candidate : Text)
  deriving DecidableEq

/-- The text of a frame. -/
def Packet.text (nl : Nlohmann) : Packet → Text
  | .ping => SOCKET_IO_PING
  | .initToken token singlePC =>
    SOCKET_IO_MESSAGE ++ SOCKET_IO_PACKET_EVENT ++ INIT_TOKEN_TRANS_ID ++ nl.dump (Builder.createToken token singlePC)
  | .publish _ label => publishStreamMsgHeader ++ nl.dump (Builder.publicStream label)
  | .subscribe streamId => subscribeStreamMsgHeader ++ nl.dump (Builder.subscribeStream streamId true)
  | .unsubscribe streamId => eventHeader ++ nl.dump (Builder.unsubscribeStream streamId)
  | .offerOrAnswer type connId erizoId sdp => eventHeader ++ nl.dump (Builder.offerOrAnswer type connId erizoId sdp)
  | .iceCandidate erizoId connId sdpMid index candidate =>
    eventHeader ++ nl.dump (Builder.connection erizoId connId sdpMid index candidate)

/-- The erizo and the connection that a connection message is addressed to. -/
def Packet.address : Packet → Option (Text × Text)
  | .offerOrAnswer _ connId erizoId _ => some (erizoId,connId)
  | .iceCandidate erizoId connId _ _ _ => some (erizoId,connId)
  | _ => none

end LicodeClient
