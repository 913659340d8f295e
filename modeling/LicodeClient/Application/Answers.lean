import LicodeClient.Application.Negotiation

/-!
Offers and answers. What the room tells the application of a stream's offers is what
the peer connection of the stream was given, in that order. Each of them is one that
the peer connection still has to answer or has been done with once, and the answers
that the room is asked to send for a stream are the ones that its peer connection was
given as its own (`answers_offers`). So no stream is answered more often than it was
offered.
-/
namespace LicodeClient
open LicodeClient.Table LicodeClient.Program LicodeClient.Run
open LicodeClient.Peer (SdpType)

/-- The offer for a stream that a call hands over, when it can be read. -/
def Call.offer (rtc : Webrtc) (streamId : UInt64) (heap : Heap) : Call → Option Text
  | .onReceiveOffer (some p) sdp =>
    if (heap.cell p).id = streamId ∧ rtc.parses .kOffer sdp = true then some sdp else none
  | _ => none

/-- The offers for a stream that the observer was handed and can read. -/
def World.offers (rtc : Webrtc) (w : World) (streamId : UInt64) : List Text :=
  w.calls.filterMap (Call.offer rtc streamId w.heap)

theorem offers_effect {task : Task} {w w' : World} {call : Option Call} (viewing : Viewing w)
    (effect : Effect task w w' call) (rtc : Webrtc) (streamId : UInt64) :
    w'.offers rtc streamId = w.offers rtc streamId ++ (call.bind (Call.offer rtc streamId w'.heap)).toList := by
  refine filterMap_effect (fun heap heap' c same => ?_) viewing effect
  cases c with
  | onReceiveOffer info sdp =>
    cases info with
    | none => rfl
    | some p => simp only [Call.offer,same p rfl]
  | _ => rfl

namespace TestBasicExampleRoom

/-- The answer that the room is asked to send for a stream. -/
def sentAnswer (streamId : UInt64) : LicodeClient.Event → Option Text
  | .call (.sendAnswer id sdp) => if id = streamId then some sdp else none
  | _ => none

/-- The peer connection of a stream is done with an answer, delivered or not. -/
def Event.settles (streamId : UInt64) : Event → Bool
  | .onSdpCreateSuccess id _ _ | .onSdpCreateFailure id => id = streamId
  | _ => false

/-- What a peer connection was given, and the answers that it was asked for and has not
    delivered. -/
structure Exchange where
  creating : Nat := 0
  remoteDescriptions : List Text := []
  localDescriptions : List Text := []

def exchangeOf (peer : PeerConnection) : Exchange :=
  ⟨peer.creating,peer.remoteDescriptions,peer.localDescriptions⟩

/-- The exchange for a stream, which is empty without a peer connection. -/
def exchange (a : TestBasicExampleRoom) (streamId : UInt64) : Exchange :=
  (entry a.peerConnections streamId).elim {} exchangeOf

section
variable {nl : Nlohmann} {rtc : Webrtc} {a b : TestBasicExampleRoom} {e : Event} {es : List Event} {streamId : UInt64}

theorem exchange_of_entry {id : UInt64} {peer : PeerConnection} (found : entry a.peerConnections id = some peer) :
    a.exchange id = exchangeOf peer := by
  simp only [exchange,found,Option.elim_some]

theorem exchange_setPeer (id : UInt64) (peer : PeerConnection) :
    (a.setPeer id peer).exchange streamId = if streamId = id then exchangeOf peer else a.exchange streamId := by
  simp only [exchange,entry_setPeer]
  split <;> rfl

/-- A peer connection is made with nothing exchanged. -/
theorem exchange_createPeerConnection (rtc : Webrtc) (id : UInt64) : Keeps exchange (createPeerConnection rtc id) := by
  intro a
  have indexed : (a.indexPeer id).exchange = a.exchange := by
    funext streamId
    simp only [exchange,indexPeer,entry_index]
  unfold after
  rw [run_createPeerConnection]
  cases found : entry a.peerConnections id with
  | some peer => rfl
  | none =>
    cases a.wrapper with
    | false => exact indexed
    | true =>
      funext streamId
      refine (exchange_setPeer (a := a.indexPeer id) id (newPeer rtc a id)).trans ?_
      split
      · next here =>
        rw [here,exchange,found]
        rfl
      · rw [indexed]

/-! ### What a step enters -/

/-- What a step adds to the exchange for a stream: the offers that the room tells of in
    it, and the answer, at most one, that it makes the room send. -/
structure Enters (rtc : Webrtc) (streamId : UInt64) (a : TestBasicExampleRoom) (e : Event) (b : TestBasicExampleRoom)
    (offers : List Text) : Prop where
  told : b.world.offers rtc streamId = a.world.offers rtc streamId ++ offers
  given : (b.exchange streamId).remoteDescriptions = (a.exchange streamId).remoteDescriptions ++ offers
  sent : (b.exchange streamId).localDescriptions =
    (a.exchange streamId).localDescriptions ++ (e.shown rtc).filterMap (sentAnswer streamId)
  owed : (b.exchange streamId).creating + (e.settles streamId).toNat =
    (a.exchange streamId).creating + offers.length
  once : ((e.shown rtc).filterMap (sentAnswer streamId)).length ≤ (e.settles streamId).toNat

/-- A step that exchanges nothing. -/
theorem enters_still (told : b.world.offers rtc streamId = a.world.offers rtc streamId)
    (same : b.exchange streamId = a.exchange streamId) (quiet : (e.shown rtc).filterMap (sentAnswer streamId) = [])
    (other : e.settles streamId = false) : Enters rtc streamId a e b [] := by
  refine ⟨?_,?_,?_,?_,?_⟩
  · rw [told,List.append_nil]
  · rw [same,List.append_nil]
  · rw [same,quiet,List.append_nil]
  · rw [same,other]
    rfl
  · rw [quiet]
    exact Nat.zero_le _

/-- A peer connection that is done with an answer. -/
theorem enters_settled {id : UInt64} {peer : PeerConnection} (answers : List Text)
    (found : entry a.peerConnections id = some peer) (asked : 0 < peer.creating) (few : answers.length ≤ 1)
    (told : b.world.offers rtc streamId = a.world.offers rtc streamId)
    (same : b.peerConnections = (a.setPeer id { peer with
      creating := peer.creating - 1, localDescriptions := peer.localDescriptions ++ answers }).peerConnections)
    (shown : (e.shown rtc).filterMap (sentAnswer streamId) = if id = streamId then answers else [])
    (settles : e.settles streamId = decide (id = streamId)) : Enters rtc streamId a e b [] := by
  have changed : b.exchange streamId = if streamId = id then
      ⟨peer.creating - 1,peer.remoteDescriptions,peer.localDescriptions ++ answers⟩ else a.exchange streamId := by
    rw [exchange,same]
    exact exchange_setPeer id _
  by_cases here : streamId = id
  · subst here
    rw [if_pos rfl] at changed shown
    have before := exchange_of_entry found
    refine ⟨?_,?_,?_,?_,?_⟩
    · rw [told,List.append_nil]
    · rw [changed,before,List.append_nil]
      rfl
    · rw [changed,before,shown]
      rfl
    · rw [changed,before,settles]
      simp only [exchangeOf,decide_true,Bool.toNat_true,List.length_nil]
      omega
    · rw [shown,settles]
      simpa using few
  · rw [if_neg here] at changed
    rw [if_neg (Ne.symm here)] at shown
    exact enters_still told changed shown (settles.trans (decide_eq_false (Ne.symm here)))

/-- An offer that is handed over is taken in and asks for one answer. -/
theorem enters_offer {info : Option StreamPtr} {sdp : Text} {w : World} {order inner : Order UInt64 StreamPtr}
    (told : w.offers rtc streamId =
      a.world.offers rtc streamId ++ (Call.offer rtc streamId w.heap (.onReceiveOffer info sdp)).toList)
    (fine : faultOf (onReceiveOffer rtc info sdp) { a with world := w } = none) :
    ∃ offers, Enters rtc streamId a (.work order inner)
      (settle (onReceiveOffer rtc info sdp) { a with world := w }) offers := by
  have world : (settle (onReceiveOffer rtc info sdp) { a with world := w }).world = w :=
    world_onReceiveOffer info sdp { a with world := w }
  rcases after_onReceiveOffer fine with ⟨unread,same⟩ | ⟨p,peer,reads,rfl,found,same⟩
  · have none_read : Call.offer rtc streamId w.heap (.onReceiveOffer info sdp) = none := by
      cases info <;> simp [Call.offer,unread]
    rw [none_read,Option.toList_none,List.append_nil] at told
    refine ⟨[],enters_still (by rw [world,told]) ?_ rfl rfl⟩
    exact congrArg (fun c => c.exchange streamId) same
  · have taken : (settle (onReceiveOffer rtc (some p) sdp) { a with world := w }).exchange streamId = _ :=
      congrArg (fun c => c.exchange streamId) same
    rw [exchange_setPeer,exchange_setPeer] at taken
    by_cases here : streamId = (w.heap.cell p).id
    · have offer : Call.offer rtc streamId w.heap (.onReceiveOffer (some p) sdp) = some sdp :=
        if_pos ⟨here.symm,reads⟩
      have before : a.exchange streamId = exchangeOf peer := by
        rw [here]
        exact exchange_of_entry found
      rw [if_pos here] at taken
      rw [offer] at told
      refine ⟨[sdp],by rw [world,told]; rfl,?_,?_,?_,Nat.zero_le _⟩
      · rw [taken,before]
        rfl
      · rw [taken,before]
        exact (List.append_nil _).symm
      · rw [taken,before]
        rfl
    · have offer : Call.offer rtc streamId w.heap (.onReceiveOffer (some p) sdp) = none :=
        if_neg (fun both => here both.1.symm)
      rw [if_neg here,if_neg here] at taken
      rw [offer,Option.toList_none,List.append_nil] at told
      exact ⟨[],enters_still (by rw [world,told]) taken rfl rfl⟩

theorem enters_work {order inner : Order UInt64 StreamPtr} (viewing : Viewing a.world) (balanced : Balanced a)
    (taken : step nl rtc a (.work order inner) = some b) (lives : b.crashed = none ∧ b.world.crashed = none) :
    ∃ offers, Enters rtc streamId a (.work order inner) b offers := by
  obtain ⟨task,rest,w,queue,-,⟨crashed,rfl⟩ | ⟨up,viewing',call,effect,same⟩⟩ := step_work viewing taken
  · exact absurd lives.2 crashed
  · have told := offers_effect viewing effect rtc streamId
    cases call with
    | none =>
      rw [Option.bind_none,Option.toList_none,List.append_nil] at told
      exact ⟨[],enters_still (by rw [same]; exact told) (by rw [same]; rfl) rfl rfl⟩
    | some c =>
      cases c with
      | onReceiveOffer info sdp =>
        rw [same] at lives ⊢
        exact enters_offer told lives.1
      | onAddRemoteStream p =>
        have reported : .onAddRemoteStream p ∈ w.calls := by rw [effect.called]; simp
        obtain ⟨c,made,kept,-,-,subscribes⟩ := settle_report balanced.wrapper viewing' up reported same lives.2
        have still := offers_effect viewing' subscribes rtc streamId
        rw [Option.bind_none,Option.toList_none,List.append_nil] at still
        have empty : c.exchange = a.exchange := by
          have keeps := exchange_createPeerConnection rtc (w.heap.cell p).id { a with world := w }
          rw [after_of_ok made] at keeps
          exact keeps
        refine ⟨[],enters_still (still.trans (told.trans (List.append_nil _))) ?_ rfl rfl⟩
        rw [exchange,kept]
        exact congrFun empty streamId
      | onSubscribeStreamAllocateConnId info =>
        rw [same]
        cases info <;> exact ⟨[],enters_still (told.trans (List.append_nil _)) rfl rfl rfl⟩
      | _ =>
        rw [same]
        exact ⟨[],enters_still (told.trans (List.append_nil _)) rfl rfl rfl⟩

theorem enters_step (viewing : Viewing a.world) (balanced : Balanced a) (taken : step nl rtc a e = some b)
    (lives : b.crashed = none ∧ b.world.crashed = none) :
    ∃ offers, Enters rtc streamId a e b offers := by
  cases takes_of_step taken with
  | @client e w elsewhere moved =>
    obtain ⟨called,heap,-⟩ := still_step elsewhere moved
    have told : w.offers rtc streamId = a.world.offers rtc streamId := by
      simp only [World.offers,called,heap]
    have quiet : sentAnswer streamId e = none := by
      cases e <;> first | rfl | cases elsewhere
    exact ⟨[],enters_still told rfl (by simp [Event.shown,quiet]) rfl⟩
  | work _ => exact enters_work viewing balanced taken lives
  | @answered id type sdp peer found asked reads =>
    refine ⟨[],enters_settled [sdp] found asked le_rfl rfl rfl ?_ rfl⟩
    simp only [Event.shown,reads,if_true]
    split <;> simp_all [sentAnswer]
  | @unread id type sdp peer found asked reads =>
    refine ⟨[],enters_settled [] found asked (Nat.zero_le 1) rfl (by rw [List.append_nil]) ?_ rfl⟩
    simp [Event.shown,reads]
  | @failed id peer found asked =>
    refine ⟨[],enters_settled [] found asked (Nat.zero_le 1) rfl (by rw [List.append_nil]) ?_ rfl⟩
    simp [Event.shown]
  | candidate found made => exact ⟨[],enters_still rfl rfl rfl rfl⟩

/-! ### Whole runs -/

/-- The exchange for a stream after the events `es`. -/
structure Accounts (rtc : Webrtc) (streamId : UInt64) (es : List Event) (a : TestBasicExampleRoom) : Prop where
  given : (a.exchange streamId).remoteDescriptions = a.world.offers rtc streamId
  sent : (a.exchange streamId).localDescriptions = (es.flatMap (Event.shown rtc)).filterMap (sentAnswer streamId)
  owed : (a.exchange streamId).creating + es.countP (Event.settles streamId) = (a.world.offers rtc streamId).length
  once : (a.exchange streamId).localDescriptions.length ≤ es.countP (Event.settles streamId)

theorem countP_settles (es : List Event) (e : Event) :
    (es ++ [e]).countP (Event.settles streamId) =
      es.countP (Event.settles streamId) + (e.settles streamId).toNat := by
  rw [List.countP_append]
  cases done : e.settles streamId <;> simp [done]

theorem accounts_enters {offers : List Text} (accounts : Accounts rtc streamId es a)
    (enters : Enters rtc streamId a e b offers) : Accounts rtc streamId (es ++ [e]) b where
  given := by rw [enters.given,enters.told,accounts.given]
  sent := by
    rw [enters.sent,accounts.sent,List.flatMap_append,List.filterMap_append,List.flatMap_singleton]
  owed := by
    have before := accounts.owed
    have here := enters.owed
    rw [enters.told,countP_settles,List.length_append]
    omega
  once := by
    have before := accounts.once
    have here := enters.once
    rw [enters.sent,countP_settles,List.length_append]
    omega

theorem accounts_run {token : LicodeToken} (done : run (step nl rtc) (init token) es = some a)
    (up : a.crashed = none ∧ a.world.crashed = none) (streamId : UInt64) : Accounts rtc streamId es a := by
  refine run_history (P := fun es a => a.crashed = none ∧ a.world.crashed = none → Accounts rtc streamId es a)
    ?_ ?_ done up
  · intro before a e b first accounts taken lives
    have up := up_of_step taken
    have viewing := (viewing_always nl rtc token before).last first up.2
    have balanced := (balanced_always nl rtc token before).last first up
    obtain ⟨offers,enters⟩ : ∃ offers, Enters rtc streamId a e b offers := enters_step viewing balanced taken lives
    exact accounts_enters (accounts up) enters
  · intro _
    have empty : (init token).exchange streamId = {} := by simp [exchange,init]
    refine ⟨?_,?_,?_,?_⟩ <;> rw [empty] <;> rfl

theorem filterMap_external (ds : List LicodeClient.Event) :
    (ds.flatMap external).filterMap (sentAnswer streamId) = ds.filterMap (sentAnswer streamId) := by
  induction ds with
  | nil => rfl
  | cons d ds ih =>
    have head : (external d).filterMap (sentAnswer streamId) = [d].filterMap (sentAnswer streamId) := by
      cases d <;> rfl
    rw [List.flatMap_cons,List.filterMap_append,ih,head,← List.filterMap_append]
    rfl

/-- In every run and for every stream, the peer connection was given the offers that the
    room has told of and that can be read, in their order. Some of them it still has to
    answer, and with each of the others it was done once. The answers that the room was
    asked to send for the stream are the peer connection's own descriptions, at most one
    for an offer that it was done with. -/
theorem answers_offers {token : LicodeToken} (done : run (step nl rtc) (init token) es = some a)
    (up : a.crashed = none ∧ a.world.crashed = none) :
    ∃ ds, run (LicodeClient.step nl) (.init token) ds = some a.world ∧
      ds.flatMap external = es.flatMap (Event.shown rtc) ∧ ∀ streamId,
        (a.exchange streamId).remoteDescriptions = a.world.offers rtc streamId ∧
        (a.exchange streamId).localDescriptions = ds.filterMap (sentAnswer streamId) ∧
        (a.exchange streamId).creating + es.countP (Event.settles streamId) =
          (a.world.offers rtc streamId).length ∧
        (ds.filterMap (sentAnswer streamId)).length ≤ es.countP (Event.settles streamId) := by
  obtain ⟨w,ds,answer,rfl,-⟩ := (simulates nl rtc).answers (owns_init token) done
  refine ⟨ds,answer.done,answer.shown,fun streamId => ?_⟩
  have accounts := accounts_run done up streamId
  have sent := accounts.sent
  rw [← answer.shown,filterMap_external] at sent
  exact ⟨accounts.given,sent,accounts.owed,sent ▸ accounts.once⟩

theorem answers_offers_answering : ∃ a ds,
    run (step offering readyWebrtc) (init ⟨[],[],false,[]⟩) answering = some a ∧
    a.world.offers readyWebrtc 7 = [lit "o"] ∧ (a.exchange 7).localDescriptions = [lit "a"] ∧
    run (LicodeClient.step offering) (.init ⟨[],[],false,[]⟩) ds = some a.world ∧
    ds.filterMap (sentAnswer 7) = [lit "a"] := by
  have runs : (run (step offering readyWebrtc) (init ⟨[],[],false,[]⟩) answering).map (fun a =>
      decide ((a.crashed = none ∧ a.world.crashed = none) ∧ a.world.offers readyWebrtc 7 = [lit "o"] ∧
        (a.exchange 7).localDescriptions = [lit "a"])) = some true := by decide +kernel
  obtain ⟨a,done,facts⟩ := Option.map_eq_some_iff.mp runs
  obtain ⟨up,offered,answered⟩ := of_decide_eq_true facts
  obtain ⟨ds,room,-,accounts⟩ := answers_offers done up
  exact ⟨a,ds,done,offered,answered,room,(accounts 7).2.1.symm.trans answered⟩

end
end TestBasicExampleRoom
end LicodeClient
