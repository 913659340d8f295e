import LicodeClient.Requests
import LicodeClient.View

/-!
The address of a stream's messages. An ack carries an erizo and a connection;
the connection is kept with the stream, the erizo only once for the whole room.
The client runs against the server that acks its requests in order, together
with what the last ack of each stream carried (`Tracked`): which stream an ack is
for is the server's word, not that of the client's queues. Every offer, answer
and candidate is addressed by the ack of its stream exactly as long as every ack
is stored where it belongs and every change keeps the addresses of the streams
that it does not concern (`addressed_iff`).
-/
namespace LicodeClient
open LicodeClient.Table LicodeClient.Program LicodeClient.Run

/-- An erizo and a connection. -/
abbrev Address := Text × Text

/-- The text of a frame is a message with the erizo and the connection in its
    body. -/
def Packet.Carries (nl : Nlohmann) (msg : Packet) (address : Address) : Prop :=
  ∃ json body, msg.text nl = eventHeader ++ nl.dump json ∧ json.index 1 = .ok body ∧
    body.member "erizoId" = .ok (.string address.1) ∧ body.member "connectionId" = .ok (.string address.2)

/-- The stream whose connection a task sends a message to. -/
def Task.about : Task → Option UInt64
  | .sendAnswer streamId _ | .sendOffer streamId _ | .sendIceCandidate streamId _ _ _ => some streamId
  | _ => none

/-- The frame that such a task makes; an offer or an answer is made for a remote
    stream only. -/
def Task.frame (w : World) : Task → Option Packet
  | .sendAnswer streamId sdp => (entry w.room.remoteStreamInfos streamId).map (fun p =>
      .offerOrAnswer (lit "answer") (w.heap.cell p).connectionId w.room.erizoId sdp)
  | .sendOffer streamId sdp => (entry w.room.remoteStreamInfos streamId).map (fun p =>
      .offerOrAnswer (lit "offer") (w.heap.cell p).connectionId w.room.erizoId sdp)
  | .sendIceCandidate streamId sdpMid sdpMLineIndex candidate => (w.view.target streamId).map (fun p =>
      .iceCandidate w.room.erizoId (w.heap.cell p).connectionId sdpMid sdpMLineIndex candidate)
  | _ => none

/-- Where the messages of a stream go. -/
def View.address (v : View) (streamId : UInt64) : Option Address :=
  (v.target streamId).map (fun p => (v.erizoId,v.connection p))

/-! ### What the acks carried -/

/-- The erizo that an ack names. -/
def Task.erizo (nl : Nlohmann) : Task → Option Text
  | .onSubscribeStream json => (json.indexConst 1 >>= Json.toText).toOption
  | .onPublishStream msg => (nl.parseOrThrow msg >>= (·.index 1) >>= Json.toText).toOption
  | _ => none

/-- The stream that a request subscribes to. -/
def Request.streamId : Request → Option UInt64
  | .subscribe streamId => some streamId
  | .publish _ => none

/-- The description that a request publishes. -/
def Request.description : Request → Option StreamPtr
  | .publish p => some p
  | .subscribe _ => none

/-- The stream that an ack is for: the id that was subscribed to or that the ack
    names, and the description that was published. -/
structure Recipient where
  named : Option UInt64
  given : Option StreamPtr

def Recipient.Is (r : Recipient) (streamId : UInt64) (p : StreamPtr) : Prop :=
  r.named = some streamId ∨ r.given = some p

/-- What the last ack for each id and for each description carried. -/
structure Carried where
  named : UInt64 → Option Address := fun _ => none
  given : StreamPtr → Option Address := fun _ => none

namespace Carried

/-- The ack of a stream, known under an id and by its description, carried the
    address. -/
def Of (c : Carried) (streamId : UInt64) (p : StreamPtr) (address : Address) : Prop :=
  c.named streamId = some address ∨ c.given p = some address

def book (c : Carried) (r : Recipient) (address : Option Address) : Carried :=
  ⟨fun streamId => if r.named = some streamId then address else c.named streamId,
    fun p => if r.given = some p then address else c.given p⟩

end Carried

/-- The streams that were acked have the addresses of their acks. -/
def View.Agrees (v : View) (carried : Carried) : Prop :=
  ∀ streamId p address, v.target streamId = some p → carried.Of streamId p address →
    address = (v.erizoId,v.connection p)

namespace Change

/-- The stream that an ack is for, given the request that it answers. -/
def recipient (answered : Option Request) : Change → Recipient
  | .stored _ _ _ _ => ⟨answered.bind Request.streamId,none⟩
  | .bound _ streamId _ _ => ⟨some streamId,answered.bind Request.description⟩
  | _ => ⟨none,none⟩

/-- What the acks carried, after a change. An ack that does not name an erizo
    carries no address, a new description has no ack, one that replaces another
    takes over its ack, and what was acked is forgotten with the stream. -/
def carried (answered : Option Request) (erizo : Option Text) (v : View) (carried : Carried) : Change → Carried
  | .stored erizoId streamId p connId =>
    carried.book (recipient answered (.stored erizoId streamId p connId)) (erizo.map (·,connId))
  | .bound erizoId streamId p connId =>
    carried.book (recipient answered (.bound erizoId streamId p connId)) (erizo.map (·,connId))
  | .added _ _ => { carried with given := Function.update carried.given v.next none }
  | .renewed _ p => { carried with given := Function.update carried.given v.next (carried.given p) }
  | .removed streamId =>
    ⟨Function.update carried.named streamId none,fun p => if v.own streamId = some p then none else carried.given p⟩
  | .cleared =>
    { carried with
      named := fun streamId =>
        if (v.remote streamId).isSome && (v.own streamId).isNone then none else carried.named streamId }
  | _ => carried

end Change

/-- A client and its server together with what the last ack of each stream
    carried. -/
structure Tracked extends Served where
  carried : Carried := {}

namespace Tracked

def init (token : LicodeToken) : Tracked := { Served.init token with }

/-- The erizo that is named when an event runs an ack. -/
def erizo (nl : Nlohmann) (w : World) (e : Event) : Option Text :=
  (started w e).bind (fun start => start.1.erizo nl)

/-- The request that the ack whose task runs next answers. -/
def answers (t : Tracked) : Option Request := t.acks.head?.map Prod.snd

/-- A step of the client and its server. -/
def step (nl : Nlohmann) (t : Tracked) (e : Event) : Option Tracked :=
  (t.toServed.step nl e).map (fun s =>
    ⟨s,(changeOf nl t.world e s.world).carried t.answers (erizo nl t.world e) (base t.world e).view t.carried⟩)

/-- The ack of the stream that an id leads to carried the address. -/
def Acked (t : Tracked) (streamId : UInt64) (address : Address) : Prop :=
  ∃ p, t.world.view.target streamId = some p ∧ t.carried.Of streamId p address

end Tracked

/-- Every message for a stream that has its ack is addressed as the ack said:
    the frame that its task makes, and whatever the task adds to the frames that
    the sessions have accepted. -/
structure Addressed (nl : Nlohmann) (t : Tracked) : Prop where
  frames : t.world.crashed = none → ∀ streamId address (task : Task) msg, t.Acked streamId address →
    task.about = some streamId → task.frame t.world = some msg → msg.address = some address
  sent : t.world.crashed = none → ∀ streamId address (task : Task) order k, t.Acked streamId address →
    task.about = some streamId →
    ∃ new, ((after (task.run nl order) t.world).session k).accepted = (t.world.session k).accepted ++ new ∧
      ∀ msg ∈ new, msg.Carries nl address

/-- An ack is stored in the description `p`, where ids lead to descriptions as
    `target` says. It names the erizo that the room has, and the stream that it is
    for is the one with this description or has the connection already. The acks
    of all other streams named this erizo too, and one that shares the description
    was given the same connection. -/
structure AckKeeps (r : Recipient) (erizo : Option Text) (carried : Carried) (v : View)
    (target : UInt64 → Option StreamPtr) (erizoId : Text) (p : StreamPtr) (connId : Text) : Prop where
  recipient : ∀ named streamId q, erizo = some named → target streamId = some q → r.Is streamId q →
    named = erizoId ∧ (q ≠ p → v.connection q = connId)
  others : ∀ streamId q address, target streamId = some q →
    (carried.named streamId = some address ∧ r.named ≠ some streamId) ∨
      (carried.given q = some address ∧ r.given ≠ some q) →
    address.1 = erizoId ∧ (q = p → address.2 = connId)

/-- A change keeps every address that was acked. A stream that arrives under the
    id of an acked one must come with its address, and so must the local stream
    that is left under an id when the remote streams are forgotten. -/
def Change.KeepsAddresses (answered : Option Request) (erizo : Option Text) (carried : Carried) (v : View) :
    Change → Prop
  | .stored erizoId streamId p connId =>
    AckKeeps (recipient answered (.stored erizoId streamId p connId)) erizo carried v v.target erizoId p connId
  | .bound erizoId streamId p connId =>
    AckKeeps (recipient answered (.bound erizoId streamId p connId)) erizo carried v
      (Function.update v.target streamId ((v.remote streamId).or (some p))) erizoId p connId
  | .added streamId connId => ∀ address, carried.named streamId = some address → address = (v.erizoId,connId)
  | .cleared => ∀ streamId p address, v.own streamId = some p → carried.Of streamId p address →
      address = (v.erizoId,v.connection p)
  | _ => True

/-- The condition on a step; one that ends the process is free. -/
def KeepsAddresses (nl : Nlohmann) (t : Tracked) (e : Event) : Prop :=
  ∀ w, step nl t.world e = some w → w.crashed = none →
    (changeOf nl t.world e w).KeepsAddresses t.answers (Tracked.erizo nl t.world e) t.carried (base t.world e).view

/-! ### Frames -/

/-- The members of the body of a connection message. -/
theorem members_of_connection (browser erizoId connId msg : Json) :
    (Builder.object [("browser",browser),("connectionId",connId),("erizoId",erizoId),("msg",msg)]).member
        "erizoId" = .ok erizoId ∧
      (Builder.object [("browser",browser),("connectionId",connId),("erizoId",erizoId),("msg",msg)]).member
        "connectionId" = .ok connId := by
  have first : lit "browser" ≠ lit "erizoId" := by decide
  have second : lit "connectionId" ≠ lit "erizoId" := by decide
  have third : lit "browser" ≠ lit "connectionId" := by decide
  constructor
  · simp only [Builder.object,Json.member,List.map_cons,Json.find_cons,if_neg first,if_neg second,if_true,
      Option.getD_some]
  · simp only [Builder.object,Json.member,List.map_cons,Json.find_cons,if_neg third,if_true,Option.getD_some]

theorem Packet.carries_of_address (nl : Nlohmann) {msg : Packet} {address : Address}
    (here : msg.address = some address) :
    msg.Carries nl address := by
  cases msg with
  | offerOrAnswer type connId erizoId sdp => cases here; exact ⟨_,_,rfl,rfl,members_of_connection _ _ _ _⟩
  | iceCandidate erizoId connId sdpMid index candidate => cases here; exact ⟨_,_,rfl,rfl,members_of_connection _ _ _ _⟩
  | _ => cases here

theorem accepted_signalingSendMsg (msg : Packet) (w : World) (k : Nat) :
    ∃ new, ((after (signalingSendMsg msg) w).session k).accepted = (w.session k).accepted ++ new ∧
      ∀ msg' ∈ new, msg' = msg := by
  rw [after_signalingSendMsg]
  cases routed : w.route with
  | none => exact ⟨[],by simp,by simp⟩
  | some c =>
    have connected := (connected_of_route routed).2.2
    by_cases here : k = c
    · subst here
      have exist : k < w.sessions.length := by
        by_contra beyond
        simp [World.session,List.getD_eq_getElem?_getD,List.getElem?_eq_none (Nat.le_of_not_lt beyond)] at connected
      refine ⟨[msg],?_,by simp⟩
      rw [Option.elim_some,session_updateSession exist,WebsocketSession.accepted_sendMsg,if_pos connected]
    · refine ⟨[],?_,by simp⟩
      simp [World.session,World.updateSession,List.getD_eq_getElem?_getD,Ne.symm here]

/-- A task that sends to a connection adds its frame, or nothing, to what a
    session has accepted. -/
theorem accepted_sender (nl : Nlohmann) (order : Order UInt64 StreamPtr) {task : Task} {streamId : UInt64}
    (about : task.about = some streamId) (w : World) (k : Nat) :
    ∃ new, ((after (task.run nl order) w).session k).accepted = (w.session k).accepted ++ new ∧
      ∀ msg ∈ new, task.frame w = some msg := by
  have sends : ∀ {v : World} {msg : Packet}, (task.run nl order).run w = (signalingSendMsg msg).run v →
      v.sessions = w.sessions → task.frame w = some msg →
      ∃ new, ((after (task.run nl order) w).session k).accepted = (w.session k).accepted ++ new ∧
        ∀ msg ∈ new, task.frame w = some msg := by
    intro v msg runs same frame
    obtain ⟨new,adds,only⟩ := accepted_signalingSendMsg msg v k
    refine ⟨new,?_,fun msg' member => by rw [only msg' member,frame]⟩
    rw [after_congr runs,adds]
    simp only [World.session,same]
  have faults : ∀ {v : World} {fault : Fault}, (task.run nl order).run w = .error fault v → v.sessions = w.sessions →
      ∃ new, ((after (task.run nl order) w).session k).accepted = (w.session k).accepted ++ new ∧
        ∀ msg ∈ new, task.frame w = some msg := by
    intro v fault runs same
    refine ⟨[],?_,by simp⟩
    rw [after_of_error runs,List.append_nil]
    simp only [World.session,same]
  cases task with
  | sendAnswer streamId sdp =>
    have runs := run_runOfferOrAnswer "answer" streamId sdp w
    cases found : entry w.room.remoteStreamInfos streamId with
    | none => rw [found] at runs; exact faults runs rfl
    | some p => rw [found] at runs; exact sends runs rfl (by simp [Task.frame,found])
  | sendOffer streamId sdp =>
    have runs := run_runOfferOrAnswer "offer" streamId sdp w
    cases found : entry w.room.remoteStreamInfos streamId with
    | none => rw [found] at runs; exact faults runs rfl
    | some p => rw [found] at runs; exact sends runs rfl (by simp [Task.frame,found])
  | sendIceCandidate streamId sdpMid sdpMLineIndex candidate =>
    have runs := run_runSendIceCandidate streamId sdpMid sdpMLineIndex candidate w
    cases found : entry w.room.remoteStreamInfos streamId with
    | some p =>
      rw [found] at runs
      exact sends runs rfl (by simp [Task.frame,World.view,Streams.view,World.streams,View.target,found])
    | none =>
      cases own : entry w.room.localStreamInfos streamId with
      | some p =>
        rw [found,own] at runs
        exact sends runs rfl (by simp [Task.frame,World.view,Streams.view,World.streams,View.target,found,own])
      | none => rw [found,own] at runs; exact faults runs rfl
  | _ => cases about

/-- A message of a stream is addressed as the room's view of the stream says. -/
theorem address_frame {w : World} {task : Task} {streamId : UInt64} {msg : Packet} (about : task.about = some streamId)
    (frame : task.frame w = some msg) : msg.address = w.view.address streamId := by
  cases task with
  | sendAnswer streamId sdp =>
    cases about
    obtain ⟨p,found,rfl⟩ := Option.map_eq_some_iff.mp frame
    simp [View.address,View.target,World.view,Streams.view,World.streams,found,Packet.address]
  | sendOffer streamId sdp =>
    cases about
    obtain ⟨p,found,rfl⟩ := Option.map_eq_some_iff.mp frame
    simp [View.address,View.target,World.view,Streams.view,World.streams,found,Packet.address]
  | sendIceCandidate streamId sdpMid sdpMLineIndex candidate =>
    cases about
    obtain ⟨p,found,rfl⟩ := Option.map_eq_some_iff.mp frame
    rw [View.address,found]
    rfl
  | _ => cases about

/-- Messages are addressed as the acks said exactly when the room's view of the
    acked streams is. -/
theorem addressed_iff_view (nl : Nlohmann) (t : Tracked) :
    Addressed nl t ↔ (t.world.crashed = none → t.world.view.Agrees t.carried) := by
  constructor
  · intro addressed lives streamId p address target carried
    -- A candidate for the stream shows where its messages go.
    have frame : (Task.sendIceCandidate streamId [] 0 []).frame t.world =
        some (.iceCandidate t.world.room.erizoId (t.world.heap.cell p).connectionId [] 0 []) := by
      simp only [Task.frame,target,Option.map_some]
    have same := addressed.frames lives streamId address _ _ ⟨p,target,carried⟩ rfl frame
    exact (Option.some.inj same).symm
  · intro view
    have frames : t.world.crashed = none → ∀ streamId address (task : Task) msg, t.Acked streamId address →
        task.about = some streamId → task.frame t.world = some msg → msg.address = some address := by
      rintro lives streamId address task msg ⟨p,target,carried⟩ about frame
      rw [address_frame about frame,View.address,target,view lives streamId p address target carried]
      rfl
    refine ⟨frames,fun lives streamId address task order k acked about => ?_⟩
    obtain ⟨new,adds,only⟩ := accepted_sender nl order about t.world k
    exact ⟨new,adds,fun msg member =>
      Packet.carries_of_address nl (frames lives streamId address task msg acked about (only msg member))⟩

/-! ### Changes -/

section
variable {v : View} {answered : Option Request} {erizo : Option Text} {carried : Carried}

/-- An ack leaves acks and addresses in agreement exactly when it is stored where
    it belongs and disturbs no other stream. -/
theorem agrees_book_iff {v' : View} {r : Recipient} {erizoId connId : Text} {p : StreamPtr} (agrees : v.Agrees carried)
    (named : v'.erizoId = erizoId) (stored : v'.connection = Function.update v.connection p connId)
    (leads : ∀ streamId q, v'.target streamId = some q → q ≠ p → v.target streamId = some q) :
    v'.Agrees (carried.book r (erizo.map (·,connId))) ↔ AckKeeps r erizo carried v v'.target erizoId p connId := by
  have becomes : ∀ q, (v'.erizoId,v'.connection q) = (erizoId,if q = p then connId else v.connection q) := by
    intro q
    rw [named,stored,Function.update_apply]
  simp only [View.Agrees,becomes]
  constructor
  · intro all
    constructor
    · intro text streamId q names target own
      have carried' : (carried.book r (erizo.map (·,connId))).Of streamId q (text,connId) := by
        rcases own with own | own
        · exact .inl (by simp [Carried.book,own,names])
        · exact .inr (by simp [Carried.book,own,names])
      have same := all streamId q _ target carried'
      refine ⟨congrArg Prod.fst same,fun away => ?_⟩
      simpa [away] using (congrArg Prod.snd same).symm
    · rintro streamId q address target (⟨before,other⟩ | ⟨before,other⟩)
      · rw [all streamId q address target (.inl (by simp [Carried.book,other,before]))]
        exact ⟨rfl,fun here => if_pos here⟩
      · rw [all streamId q address target (.inr (by simp [Carried.book,other,before]))]
        exact ⟨rfl,fun here => if_pos here⟩
  · intro keeps streamId q address target booked
    -- The ack is the stream's own, or the stream had its ack before.
    have own : r.Is streamId q → erizo.map (·,connId) = some address →
        address = (erizoId,if q = p then connId else v.connection q) := by
      intro is carries
      obtain ⟨text,names,rfl⟩ := Option.map_eq_some_iff.mp carries
      obtain ⟨rfl,connection⟩ := keeps.recipient text streamId q names target is
      by_cases here : q = p
      · rw [if_pos here]
      · rw [if_neg here,connection here]
    have before : carried.Of streamId q address → address.1 = erizoId ∧ (q = p → address.2 = connId) →
        address = (erizoId,if q = p then connId else v.connection q) := by
      rintro held ⟨rfl,shared⟩
      by_cases here : q = p
      · rw [if_pos here,← shared here]
      · rw [if_neg here,agrees streamId q address (leads streamId q target here) held]
    simp only [Carried.Of,Carried.book] at booked
    rcases booked with booked | booked
    · split at booked
      · next is => exact own (.inl is) booked
      · next other => exact before (.inl booked) (keeps.others streamId q address target (.inl ⟨booked,other⟩))
    · split at booked
      · next is => exact own (.inr is) booked
      · next other => exact before (.inr booked) (keeps.others streamId q address target (.inr ⟨booked,other⟩))

/-- What is made of a new description does not concern the streams that are
    known. -/
theorem agrees_known (valid : v.Valid) (agrees : v.Agrees carried) {streamId : UInt64} {p : StreamPtr}
    (target : v.target streamId = some p) (connId : Text) (new : Option Address) {address : Address}
    (held : Carried.Of { carried with given := Function.update carried.given v.next new } streamId p address) :
    address = (v.erizoId,Function.update v.connection v.next connId p) := by
  have older : p ≠ v.next := Nat.ne_of_lt (valid.target target)
  simp only [Carried.Of,Function.update_of_ne older] at held
  rw [Function.update_of_ne older]
  exact agrees streamId p address target held

theorem agrees_renewed (valid : v.Valid) (agrees : v.Agrees carried) {streamId : UInt64} {p : StreamPtr}
    (own : v.own streamId = some p) :
    (Change.apply v (.renewed streamId p)).Agrees (Change.carried answered erizo v carried (.renewed streamId p)) := by
  intro other q address target held
  have found : (v.remote other).or (Function.update v.own streamId (some v.next) other) = some q := target
  rcases Option.or_eq_some_iff.mp found with remote | ⟨none,renewed⟩
  · exact agrees_known valid agrees (Option.or_eq_some_iff.mpr (.inl remote)) _ _ held
  · by_cases here : other = streamId
    · -- The new description has the connection and the ack of the one it replaces.
      subst here
      simp only [Function.update_self,Option.some.injEq] at renewed
      subst renewed
      have before : carried.Of other p address := by simpa [Carried.Of,Change.carried] using held
      have same := agrees other p address (Option.or_eq_some_iff.mpr (.inr ⟨none,own⟩)) before
      simpa [Change.apply,View.allocate] using same
    · rw [Function.update_of_ne here] at renewed
      exact agrees_known valid agrees (Option.or_eq_some_iff.mpr (.inr ⟨none,renewed⟩)) _ _ held

theorem agrees_added_iff (valid : v.Valid) (agrees : v.Agrees carried) (streamId : UInt64) (connId : Text) :
    (Change.apply v (.added streamId connId)).Agrees
        (Change.carried answered erizo v carried (.added streamId connId)) ↔
      ∀ address, carried.named streamId = some address → address = (v.erizoId,connId) := by
  constructor
  · intro all address named
    have target : (Change.apply v (.added streamId connId)).target streamId = some v.next := by
      simp [View.target,Change.apply]
    simpa [Change.apply,View.allocate] using all streamId v.next address target (.inl named)
  · intro keeps other q address target held
    have found : (Function.update v.remote streamId (some v.next) other).or (v.own other) = some q := target
    by_cases here : other = streamId
    · subst here
      simp only [Function.update_self,Option.some_or,Option.some.injEq] at found
      subst found
      have named : carried.named other = some address := by simpa [Carried.Of,Change.carried] using held
      simpa [Change.apply,View.allocate] using keeps address named
    · rw [Function.update_of_ne here] at found
      exact agrees_known valid agrees found _ _ held

theorem agrees_removed (agrees : v.Agrees carried) (streamId : UInt64) :
    (Change.apply v (.removed streamId)).Agrees (Change.carried answered erizo v carried (.removed streamId)) := by
  intro other p address target held
  have found : (Function.update v.remote streamId none other).or (v.own other) = some p := target
  simp only [Carried.Of,Change.carried] at held
  by_cases here : other = streamId
  · subst here
    simp only [Function.update_self,Option.none_or] at found
    simp [found] at held
  · rw [Function.update_of_ne here] at found
    refine agrees other p address found ?_
    rcases held with named | given
    · exact .inl (by simpa [here] using named)
    · split at given
      · cases given
      · exact .inr given

theorem agrees_cleared_iff :
    (Change.apply v .cleared).Agrees (Change.carried answered erizo v carried .cleared) ↔
      ∀ streamId p address, v.own streamId = some p → carried.Of streamId p address →
        address = (v.erizoId,v.connection p) := by
  refine forall_congr' (fun streamId => forall_congr' (fun p => forall_congr' (fun address => ?_)))
  have left : (Change.apply v .cleared).target streamId = v.own streamId := rfl
  rw [left]
  refine forall_congr' (fun own => ?_)
  have same : (Change.carried answered erizo v carried .cleared).Of streamId p address ↔
      carried.Of streamId p address := by
    simp [Carried.Of,Change.carried,own]
  rw [same]
  rfl

theorem target_bound (erizoId : Text) (streamId : UInt64) (p : StreamPtr) (connId : Text) :
    (Change.apply v (.bound erizoId streamId p connId)).target =
      Function.update v.target streamId ((v.remote streamId).or (some p)) := by
  funext other
  by_cases here : other = streamId
  · subst here
    simp [View.target,Change.apply]
  · simp [View.target,Change.apply,here]

/-- A change leaves acks and addresses in agreement exactly when it keeps the
    addresses. -/
theorem agrees_iff (valid : v.Valid) (agrees : v.Agrees carried) {c : Change} (fits : c.Fits v) :
    (c.apply v).Agrees (c.carried answered erizo v carried) ↔ c.KeepsAddresses answered erizo carried v := by
  cases c with
  | nothing => exact iff_of_true agrees trivial
  | queued p => exact iff_of_true agrees trivial
  | posted p => exact iff_of_true agrees trivial
  | made connId =>
    refine iff_of_true ?_ trivial
    intro streamId p address target held
    refine agrees_known valid agrees target connId (carried.given v.next) ?_
    rw [Function.update_eq_self]
    exact held
  | renewed streamId p => exact iff_of_true (agrees_renewed valid agrees fits) trivial
  | added streamId connId => exact agrees_added_iff valid agrees streamId connId
  | removed streamId => exact iff_of_true (agrees_removed agrees streamId) trivial
  | cleared => exact agrees_cleared_iff
  | stored erizoId streamId p connId => exact agrees_book_iff agrees rfl rfl (fun _ _ found _ => found)
  | bound erizoId streamId p connId =>
    simp only [Change.KeepsAddresses,← target_bound erizoId streamId p connId]
    refine agrees_book_iff agrees rfl rfl ?_
    intro other q found away
    rw [target_bound,Function.update_apply] at found
    split at found
    · next here =>
      rcases Option.or_eq_some_iff.mp found with remote | ⟨-,same⟩
      · exact Option.or_eq_some_iff.mpr (.inl (here ▸ remote))
      · exact absurd (Option.some.inj same).symm away
    · exact found

end

/-! ### Runs -/

/-- Pointers lead to streams that exist. -/
def Tracked.Kept (t : Tracked) : Prop := t.world.crashed = none → t.world.view.Valid

theorem Tracked.kept_init (token : LicodeToken) : (Tracked.init token).Kept := fun _ => valid_init token

theorem Tracked.step_eq_some {nl : Nlohmann} {t t' : Tracked} {e : Event} (taken : t.step nl e = some t') :
    LicodeClient.step nl t.world e = some t'.world ∧
      t'.carried = (changeOf nl t.world e t'.world).carried t.answers (erizo nl t.world e) (base t.world e).view
        t.carried := by
  obtain ⟨s,steps,rfl⟩ := Option.map_eq_some_iff.mp taken
  exact ⟨Served.step_world steps,rfl⟩

theorem Tracked.kept_step {nl : Nlohmann} {t t' : Tracked} {e : Event} (kept : t.Kept) (taken : t.step nl e = some t') :
    t'.Kept := by
  obtain ⟨steps,-⟩ := step_eq_some taken
  exact step_valid (kept (LicodeClient.step_eq_some steps).1) steps

theorem agrees_base {w : World} {e : Event} {carried : Carried} :
    (base w e).view.Agrees carried ↔ w.view.Agrees carried := by
  rw [base_eq]
  exact Iff.rfl

/-- A step leaves the messages addressed as the acks said exactly when it keeps
    the addresses. -/
theorem step_addressed_iff {nl : Nlohmann} {t t' : Tracked} {e : Event} (kept : t.Kept) (addressed : Addressed nl t)
    (taken : t.step nl e = some t') : Addressed nl t' ↔ KeepsAddresses nl t e := by
  obtain ⟨steps,carried⟩ := Tracked.step_eq_some taken
  have lives := (LicodeClient.step_eq_some steps).1
  have agrees : (base t.world e).view.Agrees t.carried :=
    agrees_base.mpr ((addressed_iff_view nl t).mp addressed lives)
  have only : KeepsAddresses nl t e ↔ (t'.world.crashed = none →
      (changeOf nl t.world e t'.world).KeepsAddresses t.answers (Tracked.erizo nl t.world e) t.carried
        (base t.world e).view) := by
    refine ⟨fun keeps => keeps t'.world steps,fun keeps w other => ?_⟩
    rw [steps] at other
    cases other
    exact keeps
  rw [addressed_iff_view nl t',only]
  refine forall_congr' ?_
  intro lives'
  obtain ⟨fits,view⟩ := step_view (kept lives) steps lives'
  rw [← agrees_iff (valid_base (kept lives) e) agrees fits,carried,view]

theorem addressed_init (nl : Nlohmann) (token : LicodeToken) : Addressed nl (Tracked.init token) :=
  (addressed_iff_view nl _).mpr (fun _ _ _ _ target => by cases target)

/-- In every state of a run the messages of a stream are addressed as its ack
    said exactly when every step keeps the addresses. -/
theorem addressed_iff (nl : Nlohmann) (token : LicodeToken) (es : List Event) :
    Always (Tracked.step nl) (Addressed nl) (Tracked.init token) es ↔
      Guarded (Tracked.step nl) (KeepsAddresses nl) (Tracked.init token) es :=
  always_iff_guarded (Q := Tracked.Kept) (fun _ _ _ kept _ _ taken => Tracked.kept_step kept taken)
    (fun _ _ _ kept addressed taken => step_addressed_iff kept addressed taken) (Tracked.kept_init token)
    (addressed_init nl token) es

def firstAck : Text := lit "[1,\"erizoA\",\"c1\"]"
def secondAck : Text := lit "[2,\"erizoB\",\"c2\"]"

def twoErizos : Nlohmann :=
  knownJson [(firstAck,.array [.unsigned 1,.string (lit "erizoA"),.string (lit "c1")]),
    (secondAck,.array [.unsigned 2,.string (lit "erizoB"),.string (lit "c2")])] []

/-- Two streams are made and published, and the frames are written. -/
def publishing : List Event :=
  [.makeStream ⟨0,true,true,true,[],false,[],[],false⟩,.makeStream ⟨0,true,true,true,[],false,[],[],false⟩,
    .call (.publishStream 0),.work .listed,.call (.publishStream 1),.work .listed] ++
  [.posted 0 false,.wrote 0 true,.posted 0 false,.wrote 0 true,.posted 0 false,.wrote 0 true]

/-- Two published streams are acked by different erizos; a candidate for the
    second one goes to the erizo of the first. -/
theorem addressed_fails :
    ∃ t, run (Tracked.step twoErizos) (Tracked.init ⟨[],[],false,[]⟩)
        (opening ++ publishing ++ [.read 0 (some (lit "43333" ++ firstAck)),.work .listed,
          .read 0 (some (lit "43333" ++ secondAck)),.work .listed]) = some t ∧ t.world.crashed = none ∧
      t.Acked 2 (lit "erizoB",lit "c2") ∧
      ((after ((Task.sendIceCandidate 2 [] 0 []).run twoErizos .listed) t.world).session 0).accepted.getLast? =
        some (.iceCandidate (lit "erizoA") (lit "c2") [] 0 []) ∧ ¬ Addressed twoErizos t := by
  have runs : (run (Tracked.step twoErizos) (Tracked.init ⟨[],[],false,[]⟩)
      (opening ++ publishing ++ [.read 0 (some (lit "43333" ++ firstAck)),.work .listed,
        .read 0 (some (lit "43333" ++ secondAck)),.work .listed])).map (fun t => decide (t.world.crashed = none ∧
          (t.world.view.target 2).isSome ∧ t.carried.named 2 = some (lit "erizoB",lit "c2") ∧
          ((after ((Task.sendIceCandidate 2 [] 0 []).run twoErizos .listed) t.world).session 0).accepted.getLast? =
            some (.iceCandidate (lit "erizoA") (lit "c2") [] 0 []) ∧
          (Task.sendIceCandidate 2 [] 0 []).frame t.world = some (.iceCandidate (lit "erizoA") (lit "c2") [] 0 []))) =
      some true := by decide +kernel
  obtain ⟨t,reached,facts⟩ := Option.map_eq_some_iff.mp runs
  obtain ⟨lives,known,named,sent,frame⟩ := of_decide_eq_true facts
  obtain ⟨p,target⟩ := Option.isSome_iff_exists.mp known
  have acked : t.Acked 2 (lit "erizoB",lit "c2") := ⟨p,target,.inl named⟩
  refine ⟨t,reached,lives,acked,sent,fun addressed => ?_⟩
  have wrong := addressed.frames lives 2 _ _ _ acked rfl frame
  revert wrong
  decide

end LicodeClient
