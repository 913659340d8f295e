import LicodeClient.Frame
import LicodeClient.Joining

/-!
The connection as a machine of its own. Of everything that can happen, only a
few things move the room, its signaling and the chains of the sessions: a join,
a leave, an operation of a session that succeeds or fails, and a message, of
which only the `Signal` counts. `step_outline` says that the client's steps are
the moves of this machine; what is said about the two states and the sessions
is said about its moves.
-/
namespace LicodeClient
open LicodeClient.Program

/-- What a message means to the connection. -/
inductive Signal where
  | opened
  | admitted
  | refused
  | dropped
  | silent
  deriving DecidableEq

def signalOf (nl : Nlohmann) : Frame → Signal
  | .connect => .opened
  | .initToken msg =>
    match joinOutcome nl msg with
    | .admitted _ => .admitted
    | .refused => .refused
    | .undefined => .silent
  | .disconnect => .dropped
  | _ => .silent

/-- The two states after a signal. A `41` reaches the room only when the
    signaling was connected. -/
def Signal.link : Signal → Link → Link
  | .opened, l => { l with signaling := .kConnected }
  | .admitted, l => { l with room := .kConnected }
  | .refused, l => { l with room := .kDisconnected }
  | .dropped, l => ⟨if l.signaling = .kConnected then .kDisconnected else l.room,.kDisconnect⟩
  | .silent, l => l

/-- What an event does to the connection. -/
inductive Move where
  | join
  | leave
  | advance (k : Nat) (op next : Operation)
  | fail (k : Nat) (op : Operation)
  | message (k : Nat) (signal : Signal)
  | idle

/-- The signal of a frame that a session has read to its end. -/
def World.signal (nl : Nlohmann) (w : World) (k : Nat) (frame : Text) : Signal :=
  if (w.session k).receiveMsgCallback then signalOf nl (frameOf ((w.session k).buffer ++ frame)) else .silent

def moveOf (nl : Nlohmann) (w : World) : Event → Move
  | .join => .join
  | .leave => .leave
  | .resolved k failed => if failed then .fail k .resolve else .advance k .resolve .connect
  | .connected k failed => if failed then .fail k .connect else .advance k .connect .handshake
  | .handshaken k failed => if failed then .fail k .handshake else .advance k .handshake .read
  | .read k none => .fail k .read
  | .read k (some frame) => .message k (w.signal nl k frame)
  | _ => .idle

namespace Chain

def start (op : Operation) (c : Chain) : Chain := { c with outstanding := c.outstanding ++ [op] }

def finish (op : Operation) (c : Chain) : Chain := { c with outstanding := c.outstanding.erase op }

/-- An operation succeeds and the next one is started; only a handshake connects. -/
def advance (op next : Operation) (c : Chain) : Chain :=
  ({ c.finish op with connected := (op matches .handshake) || c.connected }).start next

def reports (c : Chain) : Bool := !c.doDisconnect && c.abnormalDisconnectCallback

/-- Only a connected session is closed. -/
def dispose (c : Chain) : Chain := { c with doDisconnect := c.doDisconnect || c.connected }

/-- The chain of a new session. -/
def fresh : Chain := ⟨false,false,true,true,[.resolve]⟩

end Chain

namespace Outline

def modify (o : Outline) (k : Nat) (f : Chain → Chain) : Outline := { o with chains := o.chains.modify k f }

def dispose (o : Outline) : Outline :=
  match o.websocket with
  | none => o
  | some k => o.modify k Chain.dispose

def reports (o : Outline) (k : Nat) : Bool := o.chains[k]?.any Chain.reports

end Outline

def Signal.apply (s : Signal) (o : Outline) : Outline :=
  { (if s = .dropped then o.dispose else o) with toLink := s.link o.toLink }

/-- The connection after a move; a process that does not survive a message does
    not read on. -/
def Move.apply (survives : Bool) : Move → Outline → Outline
  | .join, o =>
    if o.room ≠ .kDisconnected then o
    else if o.signaling ≠ .kDisconnect then { o with room := .kConnecting }
    else ⟨⟨.kConnecting,.kConnecting⟩,some o.chains.length,o.chains ++ [Chain.fresh]⟩
  | .leave, o => if o.room = .kDisconnected then o else o.dispose
  | .advance k op next, o => o.modify k (Chain.advance op next)
  | .fail k op, o =>
    if o.reports k then { o.modify k (Chain.finish op) with signaling := .kDisconnect }
    else o.modify k (Chain.finish op)
  | .message k signal, o =>
    let o := signal.apply (o.modify k (Chain.finish .read))
    if survives then o.modify k (Chain.start .read) else o
  | .idle, o => o

/-! ### Sessions and their chains -/

/-- A session's update seen on its chain. -/
theorem outline_modify {f : WebsocketSession → WebsocketSession} {h : Chain → Chain}
    (same : ∀ s, (f s).chain = h s.chain)
    (w : World) (k : Nat) : (w.updateSession k f).outline = w.outline.modify k h := by
  simp only [World.outline,World.updateSession,Outline.modify,map_modify same]

theorem session_updateSession {w : World} {k : Nat} (exist : k < w.sessions.length)
    (f : WebsocketSession → WebsocketSession) : (w.updateSession k f).session k = f (w.session k) := by
  simp [World.session,World.updateSession,List.getD_eq_getElem?_getD,exist]

theorem updateSession_updateSession (w : World) (k : Nat) (f g : WebsocketSession → WebsocketSession) :
    (w.updateSession k f).updateSession k g = w.updateSession k (g ∘ f) := by
  simp only [World.updateSession,List.modify_modify_eq]

theorem chains_getElem? (w : World) {k : Nat} (exist : k < w.sessions.length) :
    w.outline.chains[k]? = some (w.session k).chain := by
  simp [World.outline,World.session,List.getD_eq_getElem?_getD,exist]

theorem reports_outline (w : World) (k : Nat) : w.outline.reports k = (w.session k).reports := by
  simp only [Outline.reports,World.outline,World.session,List.getElem?_map,List.getD_eq_getElem?_getD]
  cases w.sessions[k]? <;> rfl

/-! ### Handlers -/

theorem run_websocket {w : World} {c : Nat} (current : w.signaling.websocket = some c) :
    websocket.run w = .ok c w := by
  simp [websocket,current]

theorem run_websocketSendMsg {w : World} {c : Nat} (current : w.signaling.websocket = some c) (msg : Packet) :
    (websocketSendMsg msg).run w = .ok () (w.updateSession c (·.sendMsg msg)) := by
  simp [websocketSendMsg,run_websocket current]

theorem modify_congr {α : Type*} {f g : α → α} {xs : List α} {k : Nat} (same : ∀ a, xs[k]? = some a → f a = g a) :
    xs.modify k f = xs.modify k g := by
  refine List.ext_getElem? ?_
  intro i
  simp only [List.getElem?_modify]
  by_cases here : k = i
  · subst here
    cases found : xs[k]? with
    | none => rfl
    | some a => simp [same a found]
  · simp [here]

/-- `Dispose` as an update of the current session. -/
theorem run_dispose {w : World} {c : Nat} (current : w.signaling.websocket = some c) :
    dispose.run w = .ok () (w.updateSession c (fun s => if s.connected then s.disconnect else s)) := by
  have here : ∀ s, w.sessions[c]? = some s → w.session c = s := by
    intro s found
    simp [World.session,List.getD_eq_getElem?_getD,found]
  simp only [dispose,EStateM.run_bind,run_websocket current,EStateM.run_get,World.updateSession]
  by_cases connected : (w.session c).connected = true
  · have same : w.sessions.modify c (fun s => if s.connected then s.disconnect else s) =
        w.sessions.modify c WebsocketSession.disconnect :=
      modify_congr (fun s found => by simp [← here s found,connected])
    simp [same,connected]
  · have same : w.sessions.modify c (fun s => if s.connected then s.disconnect else s) = w.sessions.modify c id :=
      modify_congr (fun s found => by simp [← here s found,connected])
    simp [same,connected,List.modify_id]

theorem outline_dispose {w : World} {c : Nat} (current : w.signaling.websocket = some c) :
    (after dispose w).outline = w.outline.dispose := by
  rw [after_of_ok (run_dispose current),Outline.dispose,show w.outline.websocket = some c from current]
  refine outline_modify (fun s => ?_) w c
  unfold Chain.dispose WebsocketSession.disconnect
  cases connected : s.connected <;> simp [WebsocketSession.chain,connected]

/-- `ProcessDisconnect`: the room hears of it when the signaling was connected. -/
theorem run_processDisconnect {w : World} {c : Nat} (current : w.signaling.websocket = some c) :
    processDisconnect.run w = .ok ()
      (let w' := after dispose { w with signaling.state := .kDisconnect }
      if w.signaling.state = .kConnected then { w' with room.state := .kDisconnected } else w') := by
  have disposed := run_dispose (w := { w with signaling.state := .kDisconnect }) current
  simp only [after_of_ok disposed,processDisconnect,updateState,onLeaveRoom,update,EStateM.run_bind,EStateM.run_get,
    EStateM.run_modify,disposed]
  by_cases connected : w.signaling.state = .kConnected <;> simp [connected]

/-- A message moves the connection as its signal says, and faults only where it
    is silent. -/
theorem outline_onWebsocketMsg (nl : Nlohmann) (msg : Text) {w : World} {c : Nat}
    (current : w.signaling.websocket = some c) :
    (after (onWebsocketMsg nl msg) w).outline = (signalOf nl (frameOf msg)).apply w.outline ∧
      (signalOf nl (frameOf msg) ≠ .silent → faultOf (onWebsocketMsg nl msg) w = none) := by
  have quiet : ∀ {x : Exec Unit}, Keeps World.outline x →
      (after x w).outline = Signal.silent.apply w.outline ∧ (Signal.silent ≠ .silent → faultOf x w = none) :=
    fun keeps => ⟨keeps w,fun loud => absurd rfl loud⟩
  unfold onWebsocketMsg
  cases frameOf msg with
  | opened msg => exact quiet (keeps_processSocketIOOpen (fun _ _ _ _ => rfl) nl msg)
  | pong => exact quiet (keeps_pure _)
  | connect =>
    have runs : (do updateState .kConnected; keepAlive; initToken : Exec Unit).run w = .ok ()
        ({ w with
            signaling.state := .kConnected
            pings := w.pings ++ [w.signaling.pingIntervalMs] }.updateSession c
              (·.sendMsg (.initToken w.signaling.token false))) := by
      simp [updateState,keepAlive,initToken,run_websocketSendMsg,current]
    refine ⟨?_,fun _ => by simp only [faultOf,runs]⟩
    rw [after_of_ok runs,outline_updateSession (fun s => chain_sendMsg s _)]
    rfl
  | initToken msg =>
    have spec := onJoinRoom_spec nl msg w
    simp only [signalOf]
    cases outcome : joinOutcome nl msg with
    | admitted response =>
      rw [outcome] at spec
      exact ⟨by rw [after_of_ok spec]; rfl,fun _ => by simp only [faultOf,spec]⟩
    | refused =>
      rw [outcome] at spec
      obtain ⟨t,⟨whole,-,-⟩,runs⟩ := spec
      exact ⟨by rw [after_of_ok runs,whole]; rfl,fun _ => by simp only [faultOf,runs]⟩
    | undefined =>
      rw [outcome] at spec
      obtain ⟨t,⟨whole,same,-⟩,runs⟩ := spec
      refine ⟨?_,fun loud => absurd rfl loud⟩
      rw [after_of_error runs,whole]
      simp only [World.outline,same]
      rfl
  | disconnect =>
    have runs := run_processDisconnect current
    have moved := outline_dispose (w := { w with signaling.state := .kDisconnect }) current
    refine ⟨?_,fun _ => by simp only [faultOf,runs]⟩
    rw [after_of_ok runs]
    have split : ∀ v : World,
        (if w.signaling.state = .kConnected then { v with room.state := .kDisconnected } else v).outline =
        { v.outline with room := if w.signaling.state = .kConnected then .kDisconnected else v.outline.room } := by
      intro v
      split <;> rfl
    rw [split,moved]
    simp only [Outline.dispose,World.outline,current,Outline.modify]
    rfl
  | subscribeStream msg => exact quiet (keeps_bind (keeps_ofExcept _) (fun _ => keeps_postTask (fun _ => rfl)))
  | publishStream msg => exact quiet (keeps_postTask (fun _ => rfl))
  | event msg => exact quiet (keeps_processEvent (fun _ _ _ => rfl) nl msg)
  | other => exact quiet (keeps_pure _)

theorem outline_join (survives : Bool) (w : World) : (after join w).outline = Move.join.apply survives w.outline := by
  by_cases apart : w.room.state = .kDisconnected
  · by_cases idle : w.signaling.state = .kDisconnect
    · simp [after,join,update,signalingInit,apart,idle,Move.apply,World.outline]
      rfl
    · simp [after,join,update,signalingInit,apart,idle,Move.apply,World.outline]
  · simp [after,join,apart,Move.apply,World.outline]

theorem outline_leave (survives : Bool) (w : World) :
    (after leave w).outline = Move.leave.apply survives w.outline := by
  by_cases apart : w.room.state = .kDisconnected
  · simp [after,leave,apart,Move.apply,World.outline]
  · have runs : after leave w = after dispose w := by simp [after,leave,apart]
    simp only [runs,Move.apply,show w.outline.room = w.room.state from rfl,apart,if_false]
    cases current : w.signaling.websocket with
    | some c => exact outline_dispose current
    | none => simp [after,dispose,websocket,current,Outline.dispose,World.outline]

theorem run_chained (k : Nat) (op : Operation) (failed : Bool) (next : Exec Unit) (w : World) :
    (chained k op failed next).run w =
      (if failed then sessionLost k else next).run (w.updateSession k (·.finish op)) := by
  simp [chained]

theorem run_sessionLost (k : Nat) (w : World) :
    (sessionLost k).run w =
      .ok () (if (w.session k).reports then { w with signaling.state := .kDisconnect } else w) := by
  simp only [sessionLost,updateState,EStateM.run_bind,EStateM.run_get,run_ite]
  split <;> simp

/-- An operation fails. -/
theorem run_failed {w : World} {k : Nat} (exist : k < w.sessions.length) (op : Operation) (next : Exec Unit) :
    (chained k op true next).run w = .ok () (if (w.session k).reports
      then { w.updateSession k (·.finish op) with signaling.state := .kDisconnect }
      else w.updateSession k (·.finish op)) := by
  simp only [run_chained,if_true,run_sessionLost,session_updateSession exist]
  rfl

theorem outline_failed {w : World} {k : Nat} (exist : k < w.sessions.length) (survives : Bool) (op : Operation)
    (next : Exec Unit) : (after (chained k op true next) w).outline = (Move.fail k op).apply survives w.outline := by
  have finished := outline_modify (f := (·.finish op)) (h := Chain.finish op) (fun _ => rfl) w k
  rw [after_of_ok (run_failed exist op next)]
  simp only [Move.apply,reports_outline w k,← finished]
  split <;> rfl

/-- An operation succeeds and another one is started. -/
theorem outline_advanced {f : WebsocketSession → WebsocketSession} {op next : Operation}
    (same : ∀ s : WebsocketSession, (f (s.finish op)).chain = Chain.advance op next s.chain) (survives : Bool)
    (w : World) (k : Nat) : (after (chained k op false (modify (·.updateSession k f))) w).outline =
      (Move.advance k op next).apply survives w.outline := by
  have runs : (chained k op false (modify (·.updateSession k f))).run w =
      .ok () (w.updateSession k (f ∘ (·.finish op))) := by simp [run_chained,updateSession_updateSession]
  rw [after_of_ok runs]
  exact outline_modify same w k

/-- The session once a frame has arrived. -/
def World.received (w : World) (k : Nat) (frame : Text) : World :=
  w.updateSession k (fun s => { s.finish .read with buffer := s.buffer ++ frame })

/-- What is done with the frame. -/
def World.deliver (nl : Nlohmann) (w : World) (k : Nat) (frame : Text) : Exec Unit :=
  if (w.session k).receiveMsgCallback then onWebsocketMsg nl ((w.session k).buffer ++ frame) else pure ()

/-- A frame is handed on, then the next one is read. -/
theorem run_onRead (nl : Nlohmann) (frame : Text) {w : World} {k : Nat} (exist : k < w.sessions.length) :
    (onRead nl k (some frame)).run w =
      match (w.deliver nl k frame).run (w.received k frame) with
      | .ok _ t => .ok () (t.updateSession k (fun s => { s with buffer := [] }.start .read))
      | .error fault t => .error fault t := by
  have heard : (w.received k frame).session k = _ := session_updateSession exist _
  have callback : ((w.received k frame).session k).receiveMsgCallback = (w.session k).receiveMsgCallback := by
    rw [heard]; rfl
  have text : ((w.received k frame).session k).buffer = (w.session k).buffer ++ frame := by rw [heard]
  have same : (w.updateSession k (·.finish .read)).updateSession k (fun s => { s with buffer := s.buffer ++ frame }) =
      w.received k frame := updateSession_updateSession w k _ _
  simp only [onRead,run_chained,Bool.false_eq_true,if_false,EStateM.run_bind,EStateM.run_modify,EStateM.run_get,same,
    callback,text,World.deliver]
  split
  · simp only [EStateM.run_bind,EStateM.run_modify]
    cases (onWebsocketMsg nl ((w.session k).buffer ++ frame)).run (w.received k frame) <;> rfl
  · rfl

/-- Whatever does not look at the sessions is left by a read as the frame's
    handler leaves it. -/
theorem after_onRead {γ : Type*} {f : World → γ} (blind : ∀ w k g, f (w.updateSession k g) = f w) (nl : Nlohmann)
    (frame : Text) {w : World} {k : Nat} (exist : k < w.sessions.length) :
    f (after (onRead nl k (some frame)) w) = f (after (w.deliver nl k frame) (w.received k frame)) := by
  have runs := run_onRead nl frame exist
  cases done : (w.deliver nl k frame).run (w.received k frame) with
  | ok a t =>
    rw [done] at runs
    rw [after_of_ok runs,after_of_ok done,blind]
  | error fault t =>
    rw [done] at runs
    rw [after_of_error runs,after_of_error done]

/-- A frame is read: what it does to the connection, and whether the next read
    is started. -/
theorem outline_read (nl : Nlohmann) (frame : Text) {w : World} {k c : Nat} (exist : k < w.sessions.length)
    (current : w.signaling.websocket = some c) :
    (after (onRead nl k (some frame)) w).outline =
        (Move.message k (w.signal nl k frame)).apply (faultOf (onRead nl k (some frame)) w).isNone w.outline ∧
      (w.signal nl k frame ≠ .silent → faultOf (onRead nl k (some frame)) w = none) := by
  have shown : (w.received k frame).outline = w.outline.modify k (Chain.finish .read) :=
    outline_modify (fun _ => rfl) w k
  have moves : (after (w.deliver nl k frame) (w.received k frame)).outline =
        (w.signal nl k frame).apply (w.received k frame).outline ∧
      (w.signal nl k frame ≠ .silent → faultOf (w.deliver nl k frame) (w.received k frame) = none) := by
    simp only [World.deliver,World.signal]
    split
    · exact outline_onWebsocketMsg nl _ current
    · exact ⟨rfl,fun _ => rfl⟩
  have runs := run_onRead nl frame exist
  cases done : (w.deliver nl k frame).run (w.received k frame) with
  | ok a t =>
    rw [done] at runs
    rw [after_of_ok done] at moves
    have fine : faultOf (onRead nl k (some frame)) w = none := by simp only [faultOf,runs]
    refine ⟨?_,fun _ => fine⟩
    rw [after_of_ok runs,fine,Move.apply,← shown,← moves.1]
    exact outline_modify (fun _ => rfl) t k
  | error fault t =>
    rw [done] at runs
    rw [after_of_error done] at moves
    have faults : faultOf (onRead nl k (some frame)) w = some fault := by simp only [faultOf,runs]
    refine ⟨?_,fun loud => ?_⟩
    · rw [after_of_error runs,faults,Move.apply,← shown,← moves.1]
      rfl
    · have none := moves.2 loud
      simp only [faultOf,done] at none
      cases none

/-! ### What sessions wait for -/

namespace Outline

/-- The operations that each session waits for. -/
def waits (o : Outline) : List (List Operation) := o.chains.map Chain.outstanding

/-- The signaling uses the latest session, and no session waits for more than
    one operation. -/
structure Wired (o : Outline) : Prop where
  latest : o.waits.length = o.websocket.elim 0 (· + 1)
  single : ∀ ops ∈ o.waits, ops.length ≤ 1

theorem Wired.current {o : Outline} (wired : o.Wired) {k : Nat} (exist : k < o.waits.length) :
    ∃ c, o.websocket = some c ∧ c < o.waits.length := by
  have latest := wired.latest
  cases socket : o.websocket with
  | none => simp [socket] at latest; simp [latest] at exist
  | some c => exact ⟨c,rfl,by simp [socket] at latest; omega⟩

theorem waits_modify {f : Chain → Chain} {h : List Operation → List Operation}
    (same : ∀ c, (f c).outstanding = h c.outstanding) (o : Outline) (k : Nat) :
    (o.modify k f).waits = o.waits.modify k h := map_modify same o.chains k

theorem waits_dispose (o : Outline) : o.dispose.waits = o.waits := by
  unfold dispose
  split
  · rfl
  · rw [waits_modify (f := Chain.dispose) (h := id) (fun _ => rfl),List.modify_id]

theorem websocket_dispose (o : Outline) : o.dispose.websocket = o.websocket := by
  unfold dispose
  split <;> rfl

theorem waits_signal (s : Signal) (o : Outline) : (s.apply o).waits = o.waits := by
  cases s <;> first | rfl | exact waits_dispose o

theorem websocket_signal (s : Signal) (o : Outline) : (s.apply o).websocket = o.websocket := by
  cases s <;> first | rfl | exact websocket_dispose o

end Outline

/-- What a move makes of the operations that are waited for. -/
def Move.wait (survives : Bool) : Move → Outline → List (List Operation)
  | .join, o => if o.room = .kDisconnected ∧ o.signaling = .kDisconnect then o.waits ++ [[.resolve]] else o.waits
  | .advance k op next, o => o.waits.modify k (fun ops => ops.erase op ++ [next])
  | .fail k op, o => o.waits.modify k (·.erase op)
  | .message k _, o => o.waits.modify k (fun ops => if survives then ops.erase .read ++ [.read] else ops.erase .read)
  | .leave, o | .idle, o => o.waits

theorem waits_apply (survives : Bool) (m : Move) (o : Outline) : (m.apply survives o).waits = m.wait survives o := by
  cases m with
  | join =>
    by_cases apart : o.room = .kDisconnected <;> by_cases idle : o.signaling = .kDisconnect <;>
      simp [Move.apply,Move.wait,apart,idle,Outline.waits,Chain.fresh]
  | leave =>
    simp only [Move.apply]
    split
    · rfl
    · exact Outline.waits_dispose o
  | advance k op next => exact Outline.waits_modify (fun _ => rfl) o k
  | fail k op =>
    have finished := Outline.waits_modify (f := Chain.finish op) (h := (·.erase op)) (fun _ => rfl) o k
    simp only [Move.apply]
    split <;> exact finished
  | message k signal =>
    have finished := Outline.waits_modify (f := Chain.finish .read) (h := (·.erase .read)) (fun _ => rfl) o k
    cases survives with
    | false => exact (Outline.waits_signal signal _).trans finished
    | true =>
      have started := Outline.waits_modify (f := Chain.start .read) (h := (· ++ [.read])) (fun _ => rfl)
        (signal.apply (o.modify k (Chain.finish .read))) k
      rw [Outline.waits_signal,finished,List.modify_modify_eq] at started
      exact started
  | idle => rfl

theorem Move.websocket_apply (survives : Bool) (m : Move) (o : Outline) :
    (m.apply survives o).websocket =
      match m with
      | .join => if o.room = .kDisconnected ∧ o.signaling = .kDisconnect then some o.waits.length else o.websocket
      | _ => o.websocket := by
  cases m with
  | join =>
    by_cases apart : o.room = .kDisconnected <;> by_cases idle : o.signaling = .kDisconnect <;>
      simp [Move.apply,apart,idle,Outline.waits]
  | leave =>
    simp only [Move.apply]
    split
    · rfl
    · exact Outline.websocket_dispose o
  | advance k op next => rfl
  | fail k op =>
    simp only [Move.apply]
    split <;> rfl
  | message k signal =>
    simp only [Move.apply]
    split <;> exact Outline.websocket_signal signal _
  | idle => rfl

/-- The operation that a move ends is one that is waited for. -/
def Move.Due (o : Outline) : Move → Prop
  | .advance k op _ | .fail k op => ∀ ops, o.waits[k]? = some ops → op ∈ ops
  | .message k _ => ∀ ops, o.waits[k]? = some ops → .read ∈ ops
  | .join | .leave | .idle => True

theorem mem_modify {α : Type*} {f : α → α} {xs : List α} {k : Nat} {b : α} (member : b ∈ xs.modify k f) :
    b ∈ xs ∨ ∃ a, xs[k]? = some a ∧ b = f a := by
  obtain ⟨i,at_i⟩ := List.mem_iff_getElem?.mp member
  rw [List.getElem?_modify] at at_i
  cases found : xs[i]? with
  | none => simp [found] at at_i
  | some a =>
    by_cases here : k = i
    · subst here
      exact .inr ⟨a,found,by simpa [found] using at_i.symm⟩
    · exact .inl (List.mem_iff_getElem?.mpr ⟨i,by simpa [found,here] using at_i⟩)

theorem wired_apply {survives : Bool} {m : Move} {o : Outline} (wired : o.Wired) (due : m.Due o) :
    (m.apply survives o).Wired := by
  obtain ⟨latest,single⟩ := wired
  have small : ∀ {op : Operation} {ops : List Operation}, ops ∈ o.waits → op ∈ ops → ops.erase op = [] := by
    intro op ops member waited
    have one := single ops member
    have less := List.length_erase_of_mem waited
    exact List.eq_nil_of_length_eq_zero (by omega)
  have at_most : ∀ {k : Nat} {op : Operation} {h : List Operation → List Operation},
      (∀ ops, o.waits[k]? = some ops → op ∈ ops) → (∀ ops, ops.erase op = [] → (h ops).length ≤ 1) →
        ∀ ops ∈ o.waits.modify k h, ops.length ≤ 1 := by
    intro k op h due short ops member
    rcases mem_modify member with same | ⟨before,found,rfl⟩
    · exact single ops same
    · exact short before (small (List.mem_of_getElem? found) (due before found))
  refine ⟨?_,?_⟩
  · rw [waits_apply,Move.websocket_apply]
    cases m with
    | join => simp only [Move.wait]; split <;> simp [latest]
    | leave => exact latest
    | idle => exact latest
    | advance k op next => simpa [Move.wait] using latest
    | fail k op => simpa [Move.wait] using latest
    | message k signal => simpa [Move.wait] using latest
  · rw [waits_apply]
    cases m with
    | join =>
      simp only [Move.wait]
      split
      · intro ops member
        rcases List.mem_append.mp member with old | new
        · exact single ops old
        · cases List.mem_singleton.mp new; exact le_rfl
      · exact single
    | leave => exact single
    | idle => exact single
    | advance k op next => exact at_most due (fun ops empty => by simp [empty])
    | fail k op => exact at_most due (fun ops empty => by simp [empty])
    | message k signal => exact at_most due (fun ops empty => by cases survives <;> simp [empty])

/-! ### The client's steps are moves -/

theorem exists_of_enabled {k n : Nat} {b : Bool} (can : (decide (k < n) && b) = true) : k < n := by
  rw [Bool.and_eq_true,decide_eq_true_eq] at can
  exact can.1

/-- The step that an event takes is the move it stands for. -/
theorem step_outline {nl : Nlohmann} {w w' : World} {e : Event} (wired : w.outline.Wired)
    (taken : step nl w e = some w') :
    w'.outline = (moveOf nl w e).apply w'.crashed.isNone w.outline := by
  obtain ⟨-,can,rfl⟩ := step_eq_some taken
  have quiet : ∀ {x : Exec Unit}, Keeps World.outline x → ∀ survives,
    (after x w).outline = Move.idle.apply survives w.outline := fun keeps _ => keeps w
  show (after (handler nl e) w).outline = (moveOf nl w e).apply (faultOf (handler nl e) w).isNone w.outline
  cases e with
  | join => exact outline_join _ w
  | leave => exact outline_leave _ w
  | makeStream info => exact quiet (keeps_bind (aloof_outline.makeShared info) (fun _ => keeps_pure _)) _
  | call api => exact quiet (keeps_bind keeps_get (fun _ => keeps_postTask (fun _ => rfl))) _
  | dispatch api order => exact quiet (keeps_bind keeps_get (fun _ => aloof_outline.run nl order _)) _
  | work order => exact quiet (aloof_outline.work (fun _ _ => rfl) nl order) _
  | resolved k failed =>
    cases failed with
    | true => exact outline_failed (exists_of_enabled can) _ _ _
    | false => exact outline_advanced (fun _ => rfl) _ w k
  | connected k failed =>
    cases failed with
    | true => exact outline_failed (exists_of_enabled can) _ _ _
    | false => exact outline_advanced (fun _ => rfl) _ w k
  | handshaken k failed =>
    cases failed with
    | true => exact outline_failed (exists_of_enabled can) _ _ _
    | false => exact outline_advanced (fun _ => rfl) _ w k
  | read k frame =>
    have exist := exists_of_enabled can
    cases frame with
    | none => exact outline_failed exist _ _ _
    | some frame =>
      obtain ⟨c,current,-⟩ := wired.current (k := k) (by simpa [World.outline,Outline.waits] using exist)
      exact (outline_read nl frame exist current).1
  | posted k closes => exact quiet (outline_runPosted k closes) _
  | wrote k succeeded =>
    exact quiet (keeps_modify (fun w => outline_updateSession (fun s => chain_onWrite s succeeded) w k)) _
  | ping i => exact quiet (outline_firePing i) _

/-- The two states after a move. -/
def Move.link : Move → Outline → Link
  | .join, o =>
    if o.room ≠ .kDisconnected then o.toLink
    else ⟨.kConnecting,if o.signaling = .kDisconnect then .kConnecting else o.signaling⟩
  | .fail k _, o => if o.reports k then { o.toLink with signaling := .kDisconnect } else o.toLink
  | .message _ signal, o => signal.link o.toLink
  | .leave, o | .advance _ _ _, o | .idle, o => o.toLink

theorem toLink_dispose (o : Outline) : o.dispose.toLink = o.toLink := by
  unfold Outline.dispose
  split <;> rfl

theorem link_apply (survives : Bool) (m : Move) (o : Outline) : (m.apply survives o).toLink = m.link o := by
  cases m with
  | join =>
    by_cases apart : o.room = .kDisconnected <;> by_cases idle : o.signaling = .kDisconnect <;>
      simp [Move.apply,Move.link,apart,idle]
  | leave =>
    simp only [Move.apply,Move.link]
    split
    · rfl
    · exact toLink_dispose o
  | advance k op next => rfl
  | fail k op =>
    simp only [Move.apply,Move.link]
    split <;> rfl
  | message k signal =>
    simp only [Move.apply,Move.link]
    split <;> rfl
  | idle => rfl

theorem step_link {nl : Nlohmann} {w w' : World} {e : Event} (wired : w.outline.Wired) (taken : step nl w e = some w') :
    w'.outline.toLink = (moveOf nl w e).link w.outline := by
  rw [step_outline wired taken,link_apply]

theorem due_of_enabled {w : World} {k : Nat} {op : Operation}
    (can : (decide (k < w.sessions.length) && (w.session k).outstanding.contains op) = true) :
    ∀ ops, w.outline.waits[k]? = some ops → op ∈ ops := by
  intro ops found
  have exist := exists_of_enabled can
  have chain := chains_getElem? w exist
  rw [Outline.waits,List.getElem?_map,chain] at found
  cases found
  show op ∈ (w.session k).outstanding
  simpa [exist] using can

/-- The events that can happen end operations that are under way. -/
theorem step_due {nl : Nlohmann} {w w' : World} {e : Event} (taken : step nl w e = some w') :
    (moveOf nl w e).Due w.outline := by
  obtain ⟨-,can,-⟩ := step_eq_some taken
  cases e with
  | resolved k failed => cases failed <;> exact due_of_enabled can
  | connected k failed => cases failed <;> exact due_of_enabled can
  | handshaken k failed => cases failed <;> exact due_of_enabled can
  | read k frame => cases frame <;> exact due_of_enabled can
  | _ => trivial

theorem step_wired {nl : Nlohmann} {w w' : World} {e : Event} (wired : w.outline.Wired)
    (taken : step nl w e = some w') :
    w'.outline.Wired := by
  rw [step_outline wired taken]
  exact wired_apply wired (step_due taken)

theorem wired_init (token : LicodeToken) : (World.init token).outline.Wired :=
  ⟨rfl,by simp [World.outline,World.init,Outline.waits]⟩

/-- A failed operation and a message with a signal never end the process. -/
def Move.loud : Move → Bool
  | .fail _ _ => true
  | .message _ signal => signal ≠ .silent
  | _ => false

theorem step_loud {nl : Nlohmann} {w w' : World} {e : Event} (wired : w.outline.Wired) (taken : step nl w e = some w')
    (loud : (moveOf nl w e).loud = true) : w'.crashed = none := by
  obtain ⟨-,can,rfl⟩ := step_eq_some taken
  show faultOf (handler nl e) w = none
  cases e with
  | resolved k failed =>
    cases failed with
    | true => simp only [faultOf,handler,onResolve,run_failed (exists_of_enabled can)]
    | false => cases loud
  | connected k failed =>
    cases failed with
    | true => simp only [faultOf,handler,onConnect,run_failed (exists_of_enabled can)]
    | false => cases loud
  | handshaken k failed =>
    cases failed with
    | true => simp only [faultOf,handler,onHandshake,run_failed (exists_of_enabled can)]
    | false => cases loud
  | read k frame =>
    have exist := exists_of_enabled can
    cases frame with
    | none => simp only [faultOf,handler,onRead,run_failed exist]
    | some frame =>
      obtain ⟨c,current,-⟩ := wired.current (k := k) (by simpa [World.outline,Outline.waits] using exist)
      exact (outline_read nl frame exist current).2 (by simpa [moveOf,Move.loud] using loud)
  | _ => cases loud

end LicodeClient
