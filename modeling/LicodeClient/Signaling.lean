import LicodeClient.Room

/-!
`LicodeSignaling` towards the server: the frames it receives, told apart by the
digits they start with, and the ends of a session's operations, which call back
into it. An exception that leaves one of these handlers leaves the session's
thread.
-/
namespace LicodeClient
open MonadExcept (ofExcept)

/-- A received frame, with the text that its handler is given. -/
inductive Frame where
  | opened (msg : Text)
  | pong
  | connect
  | initToken (msg : Text)
  | disconnect
  | subscribeStream (msg : Text)
  | publishStream (msg : Text)
  | event (msg : Text)
  | other
  deriving DecidableEq

/-- The comparisons of `LicodeSignaling::OnWebsocketMsg`, in order. -/
def frameOf (msg : Text) : Frame :=
  let number := msg.takeWhile Char.isDigit
  if number = SOCKET_IO_OPEN then .opened (msg.drop SOCKET_IO_OPEN.length)
  else if number = SOCKET_IO_PONG then .pong
  else if number = SOCKET_IO_WEBSOCKET_CONNECT then .connect
  else if number = TOKEN_INIT_RESPONSE then .initToken (msg.drop TOKEN_INIT_RESPONSE.length)
  else if number = SOCKET_IO_WEBSOCKET_DISCONNECT then .disconnect
  else if number = SUBSCRIBE_STREAM_RESPONSE then .subscribeStream (msg.drop SUBSCRIBE_STREAM_RESPONSE.length)
  else if number = PUBLISH_STREAM_RESPONSE then .publishStream (msg.drop PUBLISH_STREAM_RESPONSE.length)
  else if number = SOCKET_IO_WEBSOCKET_EVENT then .event (msg.drop SOCKET_IO_WEBSOCKET_EVENT.length)
  else .other

/-- `LicodeSignalingPktParser::ParseOpenMsg` on the fields of the signaling. -/
def processSocketIOOpen (nl : Nlohmann) (msg : Text) : Exec Unit :=
  catchException
    (do
      let openMsg ← ofExcept (nl.parseOrThrow msg)
      let sid ← ofExcept (openMsg.value Json.toText "sid" [])
      modify fun w => { w with signaling.sid := sid }
      let pingInterval ← ofExcept (openMsg.value Json.toInt32 "pingInterval" 25000)
      modify fun w => { w with signaling.pingIntervalMs := pingInterval }
      let pingTimeout ← ofExcept (openMsg.value Json.toInt32 "pingTimeout" 60000)
      modify fun w => { w with signaling.pingTimeoutMs := pingTimeout })
    (pure ())

/-- `LicodeSignaling::KeepAlive`: the first ping of a chain is scheduled. -/
def keepAlive : Exec Unit := modify fun w => { w with pings := w.pings ++ [w.signaling.pingIntervalMs] }

/-- `LicodeSignaling::InitToken`, called without an argument. -/
def initToken : Exec Unit := do
  websocketSendMsg (.initToken (← get).signaling.token false)

/-- `LicodeSignaling::ProcessDisconnect`. -/
def processDisconnect : Exec Unit := do
  let needCallback := (← get).signaling.state = .kConnected
  updateState .kDisconnect
  dispose
  if needCallback then
    onLeaveRoom

/-- `LicodeSignaling::ProcessEvent`; the room's handler runs inside the `try`. -/
def processEvent (nl : Nlohmann) (msg : Text) : Exec Unit :=
  catchException
    (do
      let event ← ofExcept (nl.parseOrThrow msg)
      let name ← ofExcept (event.index 0)
      let body ← ofExcept (event.index 1)
      let name ← ofExcept name.toText
      onEvent nl name (nl.dump body))
    (pure ())

/-- `LicodeSignaling::OnWebsocketMsg`. -/
def onWebsocketMsg (nl : Nlohmann) (msg : Text) : Exec Unit :=
  match frameOf msg with
  | .opened msg => processSocketIOOpen nl msg
  | .pong => pure ()
  | .connect => do
    updateState .kConnected
    keepAlive
    initToken
  | .initToken msg => onJoinRoom nl msg
  | .disconnect => processDisconnect
  | .subscribeStream msg => onSubscribeStream nl msg
  | .publishStream msg => onPublishStream msg
  | .event msg => processEvent nl msg
  | .other => pure ()

/-- `LicodeSignaling::SocketIoPing`; what it returns says whether the chain of
    pings goes on. -/
def socketIoPing : Exec Bool := do
  if (← get).signaling.state = .kConnected then
    websocketSendMsg .ping
    return true
  return false

/-! ### The ends of a session's operations -/

/-- `WebsocketSession::ProcessDisconnect` with `LicodeSignaling::OnWebsocketDisconnect`
    as its callback. -/
def sessionLost (k : Nat) : Exec Unit := do
  if ((← get).session k).reports then
    updateState .kDisconnect

/-- `OnResolve`, `OnConnect` and `OnHandshake` up to their next operation: a
    failure ends the chain. -/
def chained (k : Nat) (op : Operation) (failed : Bool) (next : Exec Unit) : Exec Unit := do
  modify (·.updateSession k (·.finish op))
  if failed then sessionLost k else next

def onResolve (k : Nat) (failed : Bool) : Exec Unit :=
  chained k .resolve failed (modify (·.updateSession k (·.start .connect)))

def onConnect (k : Nat) (failed : Bool) : Exec Unit :=
  chained k .connect failed (modify (·.updateSession k (·.start .handshake)))

/-- The ready callback only logs. -/
def onHandshake (k : Nat) (failed : Bool) : Exec Unit :=
  chained k .handshake failed
    (modify (·.updateSession k (fun s => { s with connected := true, isOpen := true }.start .read)))

/-- `OnRead`: a message is handed on before the next read is started. -/
def onRead (nl : Nlohmann) (k : Nat) : Option Text → Exec Unit
  | none => chained k .read true (pure ())
  | some frame => chained k .read false do
    modify (·.updateSession k (fun s => { s with buffer := s.buffer ++ frame }))
    let session := (← get).session k
    if session.receiveMsgCallback then
      onWebsocketMsg nl session.buffer
    modify (·.updateSession k (fun s => { s with buffer := [] }.start .read))

/-- A posted handler runs. Closing a stream that is open throws when the close
    fails. -/
def runPosted (k : Nat) (closes : Bool) : Exec Unit := do
  match ((← get).session k).posted with
  | [] => pure ()
  | .onSend msg :: rest => modify (·.updateSession k (fun s => { s with posted := rest }.onSend msg))
  | .doClose :: rest =>
    modify (·.updateSession k (fun s => { s with posted := rest }))
    if ((← get).session k).isOpen then
      if closes then
        modify (·.updateSession k (fun s => { s with isOpen := false }))
      else
        throw .exception

end LicodeClient
