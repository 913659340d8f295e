import LicodeClient.Streams
import LicodeClient.Worker

/-!
The keep-alive of the signaling. A `40` schedules a ping, and a ping that finds
the signaling connected schedules the next one; nothing else starts or ends such
a loop (`step_pings`), so a loop outlives the connection that started it until
its next ping. With the clock beside the client, `ScheduleEvery` aims every ping
of a loop at a multiple of the interval after its start, and the pings that have
left never get ahead of the time that has passed since then, as long as no loop is
started beside another.
-/
namespace LicodeClient
open LicodeClient.Table LicodeClient.Program LicodeClient.Run

/-- What can happen to the signaling: anything that can happen to the client, and
    calls of `Init` besides those that the room makes. -/
inductive SignalingEvent where
  | init (token : LicodeToken)
  | client (e : Event)

def signalingStep (nl : Nlohmann) (w : World) : SignalingEvent → Option World
  | .init token => if w.crashed = none then some (settle (do let _ ← signalingInit token) w) else none
  | .client e => step nl w e

/-- Whether a `40` is received. -/
def SignalingEvent.opens (nl : Nlohmann) (w : World) : SignalingEvent → Bool
  | .client (.read k (some frame)) => w.signal nl k frame = .opened
  | _ => false

/-- The scheduled pings after an event. -/
def SignalingEvent.pings (nl : Nlohmann) (w : World) (e : SignalingEvent) : List Int32 :=
  if e.opens nl w then w.pings ++ [w.signaling.pingIntervalMs]
  else
    match e with
    | .client (.ping i) => if w.signaling.state = .kConnected then w.pings else w.pings.eraseIdx i
    | _ => w.pings

/-! ### What starts and ends a loop of pings -/

theorem detached_pings : Detached World.pings := fun _ _ _ _ => rfl

theorem aloof_pings : Aloof World.pings where
  heap _ _ := rfl
  calls _ _ := rfl
  localStreamInfos _ _ := rfl
  remoteStreamInfos _ _ := rfl
  sendMsg _ _ _ _ := rfl
  erizoId _ _ := rfl
  pendingSubscribeStreams _ _ := rfl
  pendingPublishLocalStreams _ _ := rfl
  sends _ _ _ := rfl

/-- Of all messages a `40` alone schedules a ping. -/
theorem pings_onWebsocketMsg (nl : Nlohmann) (msg : Text) (w : World) :
    (after (onWebsocketMsg nl msg) w).pings =
      if signalOf nl (frameOf msg) = .opened then w.pings ++ [w.signaling.pingIntervalMs] else w.pings := by
  unfold onWebsocketMsg
  cases frameOf msg with
  | opened msg => exact keeps_processSocketIOOpen (fun _ _ _ _ => rfl) nl msg w
  | pong => rfl
  | connect =>
    have runs : after (do updateState .kConnected; keepAlive; initToken : Exec Unit) w =
        after initToken { w with
          signaling.state := .kConnected
          pings := w.pings ++ [w.signaling.pingIntervalMs] } := by
      simp [after,updateState,keepAlive]
    have keeps : Keeps World.pings initToken := keeps_bind keeps_get (fun _ => keeps_websocketSendMsg (fun _ _ => rfl))
    rw [runs,keeps]
    rfl
  | initToken msg =>
    have other : signalOf nl (.initToken msg) ≠ .opened := by
      simp only [signalOf]
      cases joinOutcome nl msg <;> simp
    rw [if_neg other]
    exact keeps_onJoinRoom (fun _ _ _ => rfl) nl msg w
  | disconnect => exact detached_pings.processDisconnect w
  | subscribeStream msg => exact keeps_bind (keeps_ofExcept _) (fun _ => keeps_postTask (fun _ => rfl)) w
  | publishStream msg => rfl
  | event msg => exact keeps_processEvent (fun _ _ _ => rfl) nl msg w
  | other => rfl

theorem pings_read (nl : Nlohmann) (frame : Text) {w : World} {k : Nat} (exist : k < w.sessions.length) :
    (after (onRead nl k (some frame)) w).pings =
      if w.signal nl k frame = .opened then w.pings ++ [w.signaling.pingIntervalMs] else w.pings := by
  rw [after_onRead (f := World.pings) (fun _ _ _ => rfl) nl frame exist]
  simp only [World.deliver,World.signal]
  split
  · exact pings_onWebsocketMsg nl _ _
  · rfl

/-- A ping that is due goes on when the signaling is connected. -/
theorem pings_firePing (i : Nat) (w : World) :
    (after (firePing i) w).pings = if w.signaling.state = .kConnected then w.pings else w.pings.eraseIdx i := by
  by_cases connected : w.signaling.state = .kConnected
  · rw [if_pos connected]
    cases current : w.signaling.websocket with
    | some c => simp [after,firePing,socketIoPing,connected,run_websocketSendMsg current,World.updateSession]
    | none => simp [after,firePing,socketIoPing,connected,websocketSendMsg,websocket,current]
  · simp [after,firePing,socketIoPing,connected]

theorem step_pings {nl : Nlohmann} {w w' : World} {e : SignalingEvent} (taken : signalingStep nl w e = some w') :
    w'.pings = e.pings nl w := by
  cases e with
  | init token =>
    simp only [signalingStep] at taken
    split at taken
    · cases taken
      exact keeps_bind (detached_pings.signalingInit token) (fun _ => keeps_pure _) w
    · cases taken
  | client e =>
    obtain ⟨-,can,rfl⟩ := step_eq_some taken
    show (after (handler nl e) w).pings = _
    cases e with
    | join => exact detached_pings.join w
    | leave => exact detached_pings.leave w
    | makeStream info => rfl
    | call api => rfl
    | dispatch api order => exact keeps_bind keeps_get (fun _ => aloof_pings.run nl order _) w
    | work order => exact aloof_pings.work (fun _ _ => rfl) nl order w
    | resolved k failed => exact detached_pings.advanced k _ failed _ w
    | connected k failed => exact detached_pings.advanced k _ failed _ w
    | handshaken k failed => exact detached_pings.advanced k _ failed _ w
    | read k frame =>
      cases frame with
      | none => exact detached_pings.chained (keeps_pure _) k _ true w
      | some frame =>
        rw [handler,pings_read nl frame (exists_of_enabled can)]
        simp only [SignalingEvent.pings,SignalingEvent.opens,decide_eq_true_eq]
    | posted k closes => exact detached_pings.runPosted k closes w
    | wrote k succeeded => rfl
    | ping i => exact pings_firePing i w

/-! ### The pace of the pings -/

/-- An event with the readings of the clock: when it begins, when a ping has been
    sent, and the two when the next one is scheduled. -/
structure Stamped where
  event : SignalingEvent
  began : Int
  ended : Int
  started : Int
  scheduled : Int

/-- The client with the time that has passed, the pending pings, the time at which the
    last loop was started, and the periods of the pings that have left since. -/
structure Clocked where
  world : World
  now : Int := 0
  loops : List Loop := []
  begun : Int := 0
  sent : List Int := []

namespace Clocked

def init (token : LicodeToken) : Clocked := { world := .init token }

/-- The clock does not go back, and no ping comes before its time point. -/
def timely (c : Clocked) (s : Stamped) : Bool :=
  c.now ≤ s.began && s.began ≤ s.ended && s.ended ≤ s.started && s.started ≤ s.scheduled &&
    match s.event with
    | .client (.ping i) => c.loops[i]?.all (·.point ≤ s.began)
    | _ => true

/-- The loops and what they have sent after an event. -/
def beat (nl : Nlohmann) (c : Clocked) (s : Stamped) (world : World) : Clocked :=
  let c' := { c with world, now := s.scheduled }
  let interval := c.world.signaling.pingIntervalMs.toInt * millisecond
  if s.event.opens nl c.world then
    { c' with
      loops := c.loops ++ [scheduleEvery interval interval s.started s.scheduled]
      begun := s.started
      sent := [] }
  else
    match s.event with
    | .client (.ping i) =>
      if c.world.signaling.state = .kConnected then
        { c' with
          loops := c.loops.modify i (·.again s.ended s.started s.scheduled)
          sent := c.sent ++ (c.loops[i]?.map Loop.period).toList }
      else { c' with loops := c.loops.eraseIdx i }
    | _ => c'

def step (nl : Nlohmann) (c : Clocked) (s : Stamped) : Option Clocked :=
  if c.timely s then (signalingStep nl c.world s.event).map (c.beat nl s) else none

/-- At most one ping is pending, and since the last loop was started its pings took
    their periods, but for a millisecond. -/
structure Steady (c : Clocked) : Prop where
  single : c.world.pings.length ≤ 1
  paced : c.sent.sum ≤ c.now - c.begun + millisecond

/-- What is kept as long as at most one ping is pending: a pending ping is aimed
    at a time by which it and the pings before it may have left, and comes less
    than a millisecond before. -/
structure Kept (c : Clocked) : Prop where
  length : c.loops.length = c.world.pings.length
  paced : c.sent.sum ≤ c.now - c.begun + millisecond
  aimed : ∀ l ∈ c.loops, c.begun + c.sent.sum + l.period ≤ l.start + l.nextDelay
  prompt : ∀ l ∈ c.loops, l.start + l.nextDelay ≤ l.point + millisecond

theorem kept_init (token : LicodeToken) : (init token).Kept := by
  constructor <;> simp [init,World.init,Int.le_of_lt millisecond_pos]

theorem prompt_scheduleEvery {start now : Int} (later : start ≤ now) (period nextDelay : Int) :
    start + nextDelay ≤ (scheduleEvery period nextDelay start now).point + millisecond := by
  have early := early_scheduleEvery later period nextDelay
  unfold Loop.target at early
  simp only [scheduleEvery] at early ⊢
  omega

theorem step_eq_some {nl : Nlohmann} {c c' : Clocked} {s : Stamped} (taken : c.step nl s = some c') :
    c.timely s = true ∧ ∃ w, signalingStep nl c.world s.event = some w ∧ c' = c.beat nl s w := by
  unfold step at taken
  split at taken
  · next timely =>
    obtain ⟨w,steps,same⟩ := Option.map_eq_some_iff.mp taken
    exact ⟨timely,w,steps,same.symm⟩
  · cases taken

/-- The three things that an event can do to the loops. -/
theorem beat_cases (nl : Nlohmann) (c : Clocked) (s : Stamped) (w : World) :
    let interval := c.world.signaling.pingIntervalMs.toInt * millisecond
    (s.event.opens nl c.world = true ∧ c.beat nl s w = { c with
        world := w
        now := s.scheduled
        loops := c.loops ++ [scheduleEvery interval interval s.started s.scheduled]
        begun := s.started
        sent := [] }) ∨
      (∃ i, s.event = .client (.ping i) ∧ c.world.signaling.state = .kConnected ∧ c.beat nl s w = { c with
        world := w
        now := s.scheduled
        loops := c.loops.modify i (·.again s.ended s.started s.scheduled)
        sent := c.sent ++ (c.loops[i]?.map Loop.period).toList }) ∨
      (s.event.opens nl c.world = false ∧ ∃ loops, loops.Sublist c.loops ∧
        c.beat nl s w = { c with world := w, now := s.scheduled, loops }) := by
  unfold beat
  by_cases opens : s.event.opens nl c.world = true
  · exact .inl ⟨opens,by simp only [opens,if_true]⟩
  · simp only [if_neg opens]
    have shut : s.event.opens nl c.world = false := by simpa using opens
    split
    · next i ping =>
      split
      · next connected => exact .inr (.inl ⟨i,ping,connected,rfl⟩)
      · exact .inr (.inr ⟨shut,_,List.eraseIdx_sublist _ _,rfl⟩)
    · exact .inr (.inr ⟨shut,_,List.Sublist.refl _,rfl⟩)

theorem world_beat (nl : Nlohmann) (c : Clocked) (s : Stamped) (w : World) : (c.beat nl s w).world = w := by
  rcases beat_cases nl c s w with ⟨-,same⟩ | ⟨i,-,-,same⟩ | ⟨-,loops,-,same⟩ <;> rw [same]

/-- The loops are those of the scheduled pings. -/
theorem length_beat (nl : Nlohmann) {c : Clocked} (length : c.loops.length = c.world.pings.length) (s : Stamped)
    (w : World) : (c.beat nl s w).loops.length = (s.event.pings nl c.world).length := by
  unfold beat SignalingEvent.pings
  split
  · simp [length]
  · split
    · split <;> simp [List.length_eraseIdx,length]
    · exact length

/-- A step keeps the pace when a `40` comes only while no ping is pending. -/
theorem kept_step {nl : Nlohmann} {c c' : Clocked} {s : Stamped} (kept : c.Kept) (single : c.world.pings.length ≤ 1)
    (apart : s.event.opens nl c.world = true → c.world.pings = []) (taken : c.step nl s = some c') : c'.Kept := by
  obtain ⟨timely,w,steps,rfl⟩ := step_eq_some taken
  obtain ⟨length,paced,aimed,prompt⟩ := kept
  have pings : (c.beat nl s w).loops.length = (c.beat nl s w).world.pings.length := by
    rw [world_beat,length_beat nl length,step_pings steps]
  simp only [Clocked.timely,Bool.and_eq_true,decide_eq_true_eq] at timely
  obtain ⟨⟨⟨⟨began,ended⟩,started⟩,scheduled⟩,due⟩ := timely
  rcases beat_cases nl c s w with ⟨opens,same⟩ | ⟨i,ping,-,same⟩ | ⟨-,loops,fewer,same⟩
  · -- The only loop is the new one.
    have empty : c.loops = [] := List.length_eq_zero_iff.mp (length.trans (by rw [apart opens]; rfl))
    rw [same] at pings ⊢
    refine ⟨pings,?_,?_,?_⟩
    · have pos := millisecond_pos
      simp only [List.sum_nil]
      omega
    · intro l member
      simp only [empty,List.nil_append,List.mem_singleton] at member
      subst member
      simp [scheduleEvery]
    · intro l member
      simp only [empty,List.nil_append,List.mem_singleton] at member
      subst member
      exact prompt_scheduleEvery scheduled _ _
  · -- The only loop sends its ping and goes on.
    rw [ping] at steps
    have can := of_decide_eq_true (LicodeClient.step_eq_some steps).2.1
    have first : i = 0 := by omega
    obtain ⟨l,only⟩ : ∃ l, c.loops = [l] := List.length_eq_one_iff.mp (by omega)
    have goal := aimed l (by simp [only])
    have near := prompt l (by simp [only])
    have came : l.point ≤ s.began := by simpa [ping,first,only] using due
    rw [same] at pings ⊢
    simp only [first,only] at pings ⊢
    refine ⟨pings,?_,?_,?_⟩
    · show (c.sent ++ [l.period]).sum ≤ s.scheduled - c.begun + millisecond
      rw [List.sum_append,List.sum_singleton]
      omega
    · intro l' member
      cases List.mem_singleton.mp member
      show c.begun + (c.sent ++ [l.period]).sum + l.period ≤
        s.started + (l.period - (s.ended - l.start - l.nextDelay))
      rw [List.sum_append,List.sum_singleton]
      omega
    · intro l' member
      cases List.mem_singleton.mp member
      exact prompt_scheduleEvery scheduled _ _
  · rw [same] at pings ⊢
    refine ⟨pings,?_,fun l member => aimed l (fewer.subset member),fun l member => prompt l (fewer.subset member)⟩
    show c.sent.sum ≤ s.scheduled - c.begun + millisecond
    omega

theorem single_iff {nl : Nlohmann} {c c' : Clocked} {s : Stamped} (single : c.world.pings.length ≤ 1)
    (taken : c.step nl s = some c') :
    c'.world.pings.length ≤ 1 ↔ (s.event.opens nl c.world = true → c.world.pings = []) := by
  obtain ⟨-,w,steps,rfl⟩ := step_eq_some taken
  rw [world_beat,step_pings steps]
  unfold SignalingEvent.pings
  by_cases opens : s.event.opens nl c.world = true
  · simp [opens]
  · simp only [if_neg opens,iff_true_right (fun yes => absurd yes opens)]
    split
    · split
      · exact single
      · exact Nat.le_trans (List.eraseIdx_sublist _ _).length_le single
    · exact single

/-- In the runs in which every `40` comes while no ping is pending, and in no
    others, there is at most one loop of pings; on average since it was started they
    then leave at most once in an interval. -/
theorem steady_iff (nl : Nlohmann) (token : LicodeToken) (es : List Stamped) :
    Always (step nl) Steady (init token) es ↔
      Guarded (step nl) (fun c s => s.event.opens nl c.world = true → c.world.pings = []) (init token) es := by
  refine always_iff_guarded (Q := Kept) ?_ ?_ (kept_init token) ?_ es
  · intro c s c' kept steady steady' taken
    exact kept_step kept steady.single ((single_iff steady.single taken).mp steady'.single) taken
  · intro c s c' kept steady taken
    refine ⟨fun steady' => (single_iff steady.single taken).mp steady'.single,fun apart => ?_⟩
    exact ⟨(single_iff steady.single taken).mpr apart,(kept_step kept steady.single apart taken).paced⟩
  · exact ⟨Nat.zero_le 1,(kept_init token).paced⟩

/-- A connection is lost right after its `40` and another one is opened. -/
def reopening : List SignalingEvent :=
  opening.map .client ++ [.client (.read 0 none),.init ⟨[],[],false,[]⟩] ++
    [.client (.resolved 1 false),.client (.connected 1 false),.client (.handshaken 1 false),
      .client (.read 1 (some (lit "40")))]

/-- The loop of the first connection goes on beside that of the second one. -/
theorem steady_fails :
    ∃ c, run (step noJson) (init ⟨[],[],false,[]⟩) (reopening.map (⟨·,0,0,0,0⟩)) = some c ∧
      c.world.signaling.state = .kConnected ∧ c.world.pings.length = 2 ∧ ¬ c.Steady := by
  have runs : (run (step noJson) (init ⟨[],[],false,[]⟩) (reopening.map (⟨·,0,0,0,0⟩))).map (fun c =>
      decide (c.world.signaling.state = .kConnected ∧ c.world.pings.length = 2)) = some true := by decide +kernel
  obtain ⟨c,done,holds⟩ := Option.map_eq_some_iff.mp runs
  obtain ⟨connected,two⟩ := of_decide_eq_true holds
  refine ⟨c,done,connected,two,fun steady => ?_⟩
  have one := steady.single
  omega

end Clocked
end LicodeClient
