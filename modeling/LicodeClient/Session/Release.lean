import LicodeClient.Lib.Simulation
import LicodeClient.Session.Calls

/-!
The end of a session. Its handlers hold on to it while they are under way or posted, and
so does the signaling to the session in use. Whoever lets go last runs the destructor,
which joins the thread of the session: on that thread itself the join throws out of the
destructor and ends the process. A client therefore outlives its sessions exactly when it
joins again only where nothing of the old session is under way (`outlives_iff`).
-/
namespace LicodeClient
open LicodeClient.Program LicodeClient.Run

/-- The handlers that hold on to a session: those of its operations, those posted and
    that of a write. -/
def WebsocketSession.handlers (s : WebsocketSession) : Nat := s.outstanding.length + s.posted.length + s.writing.toNat

/-- `use_count()` of a session. -/
def World.useCount (w : World) (k : Nat) : Nat :=
  (w.session k).handlers + if w.signaling.websocket = some k then 1 else 0

theorem useCount_eq_zero_iff {w : World} {k : Nat} :
    w.useCount k = 0 ↔ (w.session k).handlers = 0 ∧ w.signaling.websocket ≠ some k := by
  unfold World.useCount
  split <;> simp_all

/-- A client, and whether a destructor has ended its process. -/
structure Process where
  world : World
  terminated : Bool := false

/-! ### Sessions that are not in use -/

/-- Two moments at which the same session is in use, and every session is the same but
    that one and the one of the thread. -/
structure Confined (thread : Option Nat) (s s' : Seat) : Prop where
  websocket : s'.websocket = s.websocket
  length : s'.sessions.length = s.sessions.length
  others : ∀ c, s.websocket ≠ some c → thread ≠ some c → s'.sessions[c]? = s.sessions[c]?

theorem confined_modify {thread : Option Nat} {s : Seat} {k : Nat} (within : s.websocket = some k ∨ thread = some k)
    (g : WebsocketSession → WebsocketSession) : Confined thread s { s with sessions := s.sessions.modify k g } := by
  refine ⟨rfl,List.length_modify ..,fun c unused apart => ?_⟩
  have other : k ≠ c := by
    rintro rfl
    rcases within with used | here
    · exact unused used
    · exact apart here
  simp [other]

theorem Confined.trans {thread : Option Nat} {s t u : Seat} (first : Confined thread s t)
    (second : Confined thread t u) : Confined thread s u where
  websocket := second.websocket.trans first.websocket
  length := second.length.trans first.length
  others := by
    intro c unused apart
    rw [second.others c (first.websocket ▸ unused) apart,first.others c unused apart]

theorem confined_called {greets : Prop} {thread : Option Nat} {w : World} {s : Seat} (called : Called greets w s) :
    Confined thread w.seat s := by
  cases called with
  | nothing => exact ⟨rfl,rfl,fun _ _ _ => rfl⟩
  | sendMsg k msg current _ _ => exact confined_modify (s := w.seat) (.inl current) _
  | initToken k current _ => exact confined_modify (s := w.seat) (.inl current) _
  | disconnect k current => exact confined_modify (s := w.seat) (.inl current) _

section
variable {nl : Nlohmann} {w w' : World} {e : Event} {k : Nat}

theorem Confined.session {thread : Option Nat} (confined : Confined thread w.seat w'.seat) {c : Nat}
    (unused : w.signaling.websocket ≠ some c) (apart : thread ≠ some c) : w'.session c = w.session c := by
  have same : w'.sessions[c]? = w.sessions[c]? := confined.others c unused apart
  simp only [World.session,List.getD_eq_getElem?_getD,same]

/-- A step that makes no session changes the one in use and the one on whose thread it
    happens. -/
theorem confined_step (taken : stepUp nl w e = some w') (same : w.makes e = false) :
    Confined e.thread w.seat w'.seat := by
  cases stir_step taken with
  | called elsewhere _ called => exact confined_called called
  | joined event makes url state made => rw [same] at makes; cases makes
  | own k g here unread accepts seat =>
    rw [seat]
    exact confined_modify (.inr here) g
  | read k frame t event done state seat =>
    subst event
    have called := called_deliver nl w k frame (w.received k frame)
    rw [after_of_ok done] at called
    have heard : Confined (some k) w.seat (w.received k frame).seat := confined_modify (.inr rfl) _
    rw [seat]
    exact (heard.trans (confined_called called)).trans (confined_modify (.inr rfl) _)

theorem makes_of_ne_join (other : e ≠ .join) (w : World) : w.makes e = false := by
  cases e with
  | join => exact absurd rfl other
  | _ => rfl

/-- A session that is made is the one in use, and changes no other. -/
theorem joined_step (taken : stepUp nl w e = some w') (makes : w.makes e = true) :
    e.thread = none ∧ w'.signaling.websocket = some w.sessions.length ∧
      w'.sessions.length = w.sessions.length + 1 ∧ ∀ c, c < w.sessions.length → w'.session c = w.session c := by
  obtain rfl : e = .join := by
    by_contra other
    rw [makes_of_ne_join other] at makes
    cases makes
  cases stir_step taken with
  | called _ same _ => rw [makes] at same; cases same
  | joined event _ url state made =>
    obtain ⟨sessions,websocket,-,-⟩ := Seat.mk.inj made
    refine ⟨rfl,websocket,by simp [sessions],fun c exist => ?_⟩
    simp [World.session,List.getD_eq_getElem?_getD,sessions,List.getElem?_append_left exist]
  | own k g here _ _ _ => cases here
  | read k frame t event _ _ _ => cases event

theorem handlers_pos (can : enabled w e = true) (here : e.thread = some k) :
    k < w.sessions.length ∧ 0 < (w.session k).handlers := by
  have under : ∀ {op : Operation},
      (decide (k < w.sessions.length) && (w.session k).outstanding.contains op) = true →
      k < w.sessions.length ∧ 0 < (w.session k).handlers := by
    intro op can
    obtain ⟨exist,member⟩ := under_of_enabled can
    have some := List.length_pos_of_mem member
    exact ⟨exist,by unfold WebsocketSession.handlers; omega⟩
  cases e with
  | resolved j failed => cases here; exact under can
  | connected j failed => cases here; exact under can
  | handshaken j failed => cases here; exact under can
  | read j frame => cases here; exact under can
  | posted j closes =>
    cases here
    obtain ⟨exist,waits⟩ : k < w.sessions.length ∧ (w.session k).posted ≠ [] := by simpa [enabled] using can
    have some := List.length_pos_of_ne_nil waits
    exact ⟨exist,by unfold WebsocketSession.handlers; omega⟩
  | wrote j succeeded =>
    cases here
    obtain ⟨exist,writing⟩ : k < w.sessions.length ∧ (w.session k).writing = true := by simpa [enabled] using can
    exact ⟨exist,by simp [WebsocketSession.handlers,writing]⟩
  | _ => cases here

end

/-! ### A process and its sessions -/

namespace Process

/-- Whether a destructor of a session ends the process in a step. A handler that was the
    last to hold its session runs it on the session's own thread, which cannot be joined
    there. `Join` runs it on another thread, where closing a stream that is still open
    may throw. -/
def fatal (w w' : World) (e : Event) (closes : Bool) : Bool :=
  match e.thread with
  | some k => w'.useCount k = 0
  | none =>
    w.makes e && w.signaling.websocket.any (fun c => w'.useCount c = 0 && (w.session c).isOpen && !closes)

/-- A step of the client that no fault ends, with what becomes of the sessions that nobody
    holds any more. The second part of an event says whether such a stream can be closed. -/
def step (nl : Nlohmann) (p : Process) (e : Event × Bool) : Option Process :=
  if p.terminated then none
  else (stepUp nl p.world e.1).map (fun w => ⟨w,fatal p.world w e.1 e.2⟩)

def init (token : LicodeToken) : Process := ⟨.init token,false⟩

/-- A new session is made only where nothing holds the old one any more, and its stream
    is closed or can be closed. -/
def Patient (p : Process) (e : Event × Bool) : Prop :=
  p.world.makes e.1 = true → ∀ c, p.world.signaling.websocket = some c →
    (p.world.session c).handlers = 0 ∧ ((p.world.session c).isOpen = true → e.2 = true)

/-- The process goes on, and nothing is under way on any session that is not in use. -/
structure Settled (p : Process) : Prop where
  lives : p.terminated = false
  quiet : ∀ k, k < p.world.sessions.length → p.world.signaling.websocket ≠ some k → (p.world.session k).handlers = 0

/-- The session in use exists, and no handler has failed. -/
structure Placed (p : Process) : Prop where
  exist : ∀ c, p.world.signaling.websocket = some c → c < p.world.sessions.length
  up : p.world.crashed = none

section
variable {nl : Nlohmann} {p p' : Process} {e : Event × Bool}

theorem of_step (taken : step nl p e = some p') : p.terminated = false ∧
    stepUp nl p.world e.1 = some p'.world ∧ p'.terminated = fatal p.world p'.world e.1 e.2 := by
  obtain ⟨lives,taken⟩ := Option.ite_none_left_eq_some.mp taken
  obtain ⟨w,steps,rfl⟩ := Option.map_eq_some_iff.mp taken
  exact ⟨eq_false_of_ne_true lives,steps,rfl⟩

theorem terminated_here {k : Nat} (taken : step nl p e = some p') (here : e.1.thread = some k) :
    p'.terminated = true ↔ (p'.world.session k).handlers = 0 ∧ p'.world.signaling.websocket ≠ some k := by
  rw [(of_step taken).2.2,← useCount_eq_zero_iff]
  simp [fatal,here]

theorem terminated_elsewhere (taken : step nl p e = some p') (elsewhere : e.1.thread = none) :
    p'.terminated = true ↔ p.world.makes e.1 = true ∧ ∃ c, p.world.signaling.websocket = some c ∧
      ((p'.world.session c).handlers = 0 ∧ p'.world.signaling.websocket ≠ some c) ∧
        (p.world.session c).isOpen = true ∧ e.2 = false := by
  rw [(of_step taken).2.2]
  simp only [← useCount_eq_zero_iff]
  simp [fatal,elsewhere,Option.any_eq_true,and_assoc]

theorem placed_step (placed : p.Placed) (taken : step nl p e = some p') : p'.Placed := by
  obtain ⟨-,steps,-⟩ := of_step taken
  refine ⟨fun c used => ?_,by simpa using (Option.filter_eq_some_iff.mp steps).2⟩
  cases makes : p.world.makes e.1 with
  | false =>
    have confined := confined_step steps makes
    have length : p'.world.sessions.length = p.world.sessions.length := confined.length
    rw [length]
    exact placed.exist c (confined.websocket.symm.trans used)
  | true =>
    obtain ⟨-,websocket,length,-⟩ := joined_step steps makes
    obtain rfl := Option.some.inj (websocket.symm.trans used)
    omega

/-- A step that makes no session leaves the others without handlers. -/
theorem settled_kept (settled : p.Settled) (taken : step nl p e = some p') (same : p.world.makes e.1 = false) :
    p'.Settled := by
  obtain ⟨-,steps,-⟩ := of_step taken
  have confined := confined_step steps same
  have websocket : p'.world.signaling.websocket = p.world.signaling.websocket := confined.websocket
  have length : p'.world.sessions.length = p.world.sessions.length := confined.length
  -- Handlers run only on the session in use.
  have current : ∀ k, e.1.thread = some k → p.world.signaling.websocket = some k := by
    intro k here
    obtain ⟨exist,busy⟩ := handlers_pos (of_stepUp steps).1 here
    by_contra unused
    have none := settled.quiet k exist unused
    omega
  constructor
  · refine eq_false_of_ne_true (fun ended => ?_)
    cases thread : e.1.thread with
    | some k => exact ((terminated_here taken thread).mp ended).2 (websocket.trans (current k thread))
    | none =>
      obtain ⟨makes,-⟩ := (terminated_elsewhere taken thread).mp ended
      rw [same] at makes
      cases makes
  · intro k exist unused
    rw [websocket] at unused
    rw [confined.session unused (fun here => unused (current k here))]
    exact settled.quiet k (length ▸ exist) unused

/-- A new session leaves the old one behind. -/
theorem settled_joined (placed : p.Placed) (settled : p.Settled) (taken : step nl p e = some p')
    (makes : p.world.makes e.1 = true) : p'.Settled ↔ p.Patient e := by
  obtain ⟨-,steps,-⟩ := of_step taken
  obtain ⟨elsewhere,websocket,length,others⟩ := joined_step steps makes
  have replaced : ∀ c, c < p.world.sessions.length → p'.world.signaling.websocket ≠ some c := by
    rintro c exist used
    obtain rfl := Option.some.inj (websocket.symm.trans used)
    exact absurd exist (lt_irrefl _)
  constructor
  · intro later _ c used
    have exist := placed.exist c used
    have quiet := later.quiet c (by omega) (replaced c exist)
    refine ⟨others c exist ▸ quiet,fun isOpen => ?_⟩
    by_contra closes
    have ended := (terminated_elsewhere taken elsewhere).mpr
      ⟨makes,c,used,⟨quiet,replaced c exist⟩,isOpen,eq_false_of_ne_true closes⟩
    exact Bool.eq_false_iff.mp later.lives ended
  · intro patient
    constructor
    · refine eq_false_of_ne_true (fun ended => ?_)
      obtain ⟨-,c,used,-,isOpen,closes⟩ := (terminated_elsewhere taken elsewhere).mp ended
      rw [(patient makes c used).2 isOpen] at closes
      cases closes
    · intro k exist unused
      have old : k < p.world.sessions.length := by
        have other : k ≠ p.world.sessions.length := by
          rintro rfl
          exact unused websocket
        omega
      rw [others k old]
      by_cases used : p.world.signaling.websocket = some k
      · exact (patient makes k used).1
      · exact settled.quiet k old used

theorem settled_step (placed : p.Placed) (settled : p.Settled) (taken : step nl p e = some p') :
    p'.Settled ↔ p.Patient e := by
  cases makes : p.world.makes e.1 with
  | true => exact settled_joined placed settled taken makes
  | false =>
    refine ⟨fun _ makes' => ?_,fun _ => settled_kept settled taken makes⟩
    rw [makes] at makes'
    cases makes'

/-- A handler left behind on a session ends the process when it is the last, so that no
    step settles. -/
theorem settled_of_step (taken : step nl p e = some p') (settled : p'.Settled) : p.Settled := by
  obtain ⟨lives,steps,-⟩ := of_step taken
  refine ⟨lives,fun k exist unused => ?_⟩
  cases makes : p.world.makes e.1 with
  | false =>
    have confined := confined_step steps makes
    have websocket : p'.world.signaling.websocket = p.world.signaling.websocket := confined.websocket
    have length : p'.world.sessions.length = p.world.sessions.length := confined.length
    have quiet := settled.quiet k (length ▸ exist) (websocket ▸ unused)
    by_cases here : e.1.thread = some k
    · exact absurd ((terminated_here taken here).mpr ⟨quiet,websocket ▸ unused⟩) (Bool.eq_false_iff.mp settled.lives)
    · rwa [confined.session unused here] at quiet
  | true =>
    obtain ⟨elsewhere,websocket,length,others⟩ := joined_step steps makes
    have quiet := settled.quiet k (by omega) (fun used => by
      obtain rfl := Option.some.inj (websocket.symm.trans used)
      exact absurd exist (lt_irrefl _))
    rwa [others k exist] at quiet

end

/-! ### Handlers come to their end -/

/-- The event of an operation that fails. -/
def failure (k : Nat) : Operation → Event
  | .resolve => .resolved k true
  | .connect => .connected k true
  | .handshake => .handshaken k true
  | .read => .read k none

/-- What is left to do on a session that is given nothing more. -/
def work (s : WebsocketSession) : Nat := s.outstanding.length + 2 * s.posted.length + s.writing.toNat

section
variable {nl : Nlohmann} {w w' : World} {k : Nat}

/-- A session that has less left to do after a handler on its own thread. -/
def Drains (nl : Nlohmann) (w : World) (k : Nat) : Prop :=
  ∃ e w', e.thread = some k ∧ stepUp nl w e = some w' ∧ work (w'.session k) < work (w.session k)

theorem drains_of_seat {e : Event} {g : WebsocketSession → WebsocketSession} (up : w.crashed = none)
    (here : e.thread = some k) (can : enabled w e = true) (fine : faultOf (handler nl e) w = none)
    (exist : k < w.sessions.length)
    (seat : (after (handler nl e) w).seat = { w.seat with sessions := w.sessions.modify k g })
    (less : work (g (w.session k)) < work (w.session k)) : Drains nl w k := by
  have steps : LicodeClient.step nl w e = some (settle (handler nl e) w) := if_pos ⟨up,can⟩
  refine ⟨e,settle (handler nl e) w,here,Option.filter_eq_some_iff.mpr ⟨steps,by simp [settle,fine]⟩,?_⟩
  have sessions : (settle (handler nl e) w).sessions = w.sessions.modify k g := congrArg Seat.sessions seat
  have same : (settle (handler nl e) w).session k = g (w.session k) := by
    simp [World.session,List.getD_eq_getElem?_getD,sessions,exist]
  rwa [same]

theorem faultOf_runPosted (w : World) (k : Nat) : faultOf (runPosted k true) w = none := by
  cases posted : (w.session k).posted with
  | nil => simp [faultOf,runPosted,posted]
  | cons handler rest =>
    cases handler with
    | onSend msg => simp [faultOf,runPosted,posted]
    | doClose =>
      simp only [faultOf,runPosted,posted,EStateM.run_bind,EStateM.run_get,EStateM.run_modify,if_true]
      by_cases isOpen : ((w.updateSession k (fun s => { s with posted := rest })).session k).isOpen <;> simp [isOpen]

theorem work_runNext {s s' : WebsocketSession} {closes : Bool} (next : s.runNext closes = some s') :
    work s' < work s := by
  unfold WebsocketSession.runNext at next
  split at next
  · cases next
  · next msg rest posted =>
    cases next
    have flag := Bool.toNat_le s.writing
    unfold WebsocketSession.onSend
    dsimp only
    split
    · simp [work,posted]
    · simp [work,posted]
      omega
  · next rest posted =>
    split at next
    · cases next
      simp [work,posted]
    · split at next
      · cases next
        simp [work,posted]
      · cases next

/-- An operation fails. -/
theorem drains_outstanding (up : w.crashed = none) (exist : k < w.sessions.length) {op : Operation}
    (under : op ∈ (w.session k).outstanding) : Drains nl w k := by
  obtain ⟨next,same⟩ : ∃ next, handler nl (failure k op) = chained k op true next := by
    cases op <;> exact ⟨_,rfl⟩
  have can : enabled w (failure k op) = true := by cases op <;> simp [failure,enabled,exist,under]
  have fine : faultOf (handler nl (failure k op)) w = none := by rw [same,faultOf,run_failed exist]
  refine drains_of_seat up (by cases op <;> rfl) can fine exist (same ▸ seat_failed exist op next) ?_
  have fewer := List.length_erase_of_mem under
  have some := List.length_pos_of_mem under
  simp only [work,WebsocketSession.finish]
  omega

/-- A posted handler runs. -/
theorem drains_posted (up : w.crashed = none) (exist : k < w.sessions.length) (waits : (w.session k).posted ≠ []) :
    Drains nl w k := by
  have can : enabled w (.posted k true) = true := by simp [enabled,exist,waits]
  have fine : faultOf (runPosted k true) w = none := faultOf_runPosted w k
  obtain ⟨s',next,seat⟩ := seat_runPosted exist waits fine
  exact drains_of_seat up rfl can fine exist seat (work_runNext next)

/-- A write fails. -/
theorem drains_writing (up : w.crashed = none) (exist : k < w.sessions.length)
    (writing : (w.session k).writing = true) : Drains nl w k := by
  have can : enabled w (.wrote k false) = true := by simp [enabled,exist,writing]
  refine drains_of_seat (e := .wrote k false) (g := (·.onWrite false)) up rfl can rfl exist rfl ?_
  simp [work,WebsocketSession.onWrite,writing]

theorem drains_of_busy (up : w.crashed = none) (exist : k < w.sessions.length) (busy : 0 < (w.session k).handlers) :
    Drains nl w k := by
  by_cases idle : (w.session k).outstanding = []
  · by_cases served : (w.session k).posted = []
    · have writing : (w.session k).writing = true := by
        by_contra silent
        simp [WebsocketSession.handlers,idle,served,eq_false_of_ne_true silent] at busy
      exact drains_writing up exist writing
    · exact drains_posted up exist served
  · obtain ⟨op,under⟩ := List.exists_mem_of_ne_nil _ idle
    exact drains_outstanding up exist under

end

section
variable {nl : Nlohmann} {p : Process}

/-- A session that is not in use and has handlers ends the process. -/
theorem ends_of_busy {k : Nat} (lives : p.terminated = false) (up : p.world.crashed = none)
    (exist : k < p.world.sessions.length) (unused : p.world.signaling.websocket ≠ some k)
    (busy : 0 < (p.world.session k).handlers) :
    ∃ later p', (∀ e ∈ later, e.1 ≠ .join) ∧ run (step nl) p later = some p' ∧ p'.terminated = true := by
  induction left : work (p.world.session k) using Nat.strong_induction_on generalizing p with
  | h n ih =>
    obtain ⟨e,w,here,taken,less⟩ : Drains nl p.world k := drains_of_busy up exist busy
    have apart : e ≠ .join := by
      rintro rfl
      cases here
    have confined := confined_step taken (makes_of_ne_join apart p.world)
    have websocket : w.signaling.websocket = p.world.signaling.websocket := confined.websocket
    have length : w.sessions.length = p.world.sessions.length := confined.length
    have steps : step nl p (e,true) = some ⟨w,fatal p.world w e true⟩ := by simp [step,lives,taken]
    by_cases last : (w.session k).handlers = 0
    · refine ⟨[(e,true)],_,by simpa using apart,run_singleton steps,?_⟩
      exact (terminated_here steps here).mpr ⟨last,websocket ▸ unused⟩
    · have goes : fatal p.world w e true = false :=
        eq_false_of_ne_true (fun ended => last ((terminated_here steps here).mp ended).1)
      have fine : w.crashed = none := by simpa using (Option.filter_eq_some_iff.mp taken).2
      obtain ⟨later,p',without,done,ended⟩ := ih (p := ⟨w,_⟩) _ (left ▸ less) goes fine (length ▸ exist)
        (websocket ▸ unused) (Nat.pos_of_ne_zero last) rfl
      refine ⟨(e,true) :: later,p',List.forall_mem_cons.mpr ⟨apart,without⟩,?_,ended⟩
      exact Option.bind_eq_some_iff.mpr ⟨_,steps,done⟩

/-- A process that goes on whatever follows, short of another `Join`, is settled. -/
theorem settled_iff (placed : p.Placed) :
    p.Settled ↔ ∀ later p', (∀ e ∈ later, e.1 ≠ .join) → run (step nl) p later = some p' → p'.terminated = false := by
  constructor
  · intro settled later p' without done
    have always : Always (step nl) Settled p later :=
      always_of_guarded (fun p e p' settled other taken => settled_kept settled taken (makes_of_ne_join other p.world))
        settled (guarded_of_forall without)
    exact (always.last done).lives
  · intro outlives
    refine ⟨outlives [] p (by simp) rfl,fun k exist unused => ?_⟩
    by_contra busy
    obtain ⟨later,p',without,done,ended⟩ :=
      ends_of_busy (outlives [] p (by simp) rfl) placed.up exist unused (Nat.pos_of_ne_zero busy)
    exact Bool.eq_false_iff.mp (outlives later p' without done) ended

/-- A client outlives its sessions, whatever follows short of another `Join`, exactly when
    it has made each session only where nothing of the one before was under way. -/
theorem outlives_iff {token : LicodeToken} {es : List (Event × Bool)} (done : run (step nl) (init token) es = some p) :
    (∀ later p', (∀ e ∈ later, e.1 ≠ .join) → run (step nl) p later = some p' → p'.terminated = false) ↔
      Guarded (step nl) Patient (init token) es := by
  have keep : ∀ p e p', Placed p → step nl p e = some p' → p'.Placed := fun p e p' => placed_step
  have placed : Placed (init token) := ⟨fun c used => (by cases used),rfl⟩
  have settled : Settled (init token) := ⟨rfl,fun k exist => absurd exist (Nat.not_lt_zero k)⟩
  have final : p.Placed := (always_of_invariant keep placed es).last done
  calc (∀ later p', (∀ e ∈ later, e.1 ≠ .join) → run (step nl) p later = some p' → p'.terminated = false)
    _ ↔ p.Settled := (settled_iff final).symm
    _ ↔ Always (step nl) Settled (init token) es :=
      ⟨fun last => always_of_last keep (fun _ _ _ _ => settled_of_step) placed done last,fun always => always.last done⟩
    _ ↔ Guarded (step nl) Patient (init token) es :=
      always_iff_guarded (fun p e p' kept _ _ taken => keep p e p' kept taken)
        (fun p e p' kept settled taken => settled_step kept settled taken) placed settled es

/-- The server has disconnected the client, which has not closed the connection yet. -/
def dropped : List (Event × Bool) := (opening ++ [Event.read 0 (some (lit "41"))]).map (·,true)

theorem outlives_iff_dropped : ∃ p, run (step noJson) (init ⟨[],[],false,[]⟩) (dropped ++ [(.join,true)]) = some p ∧
    ¬ ∀ later p', (∀ e ∈ later, e.1 ≠ .join) → run (step noJson) p later = some p' → p'.terminated = false := by
  obtain ⟨t,before,busy,makes,used⟩ : ∃ t, run (step noJson) (init ⟨[],[],false,[]⟩) dropped = some t ∧
      (t.world.session 0).handlers = 3 ∧ t.world.makes .join = true ∧ t.world.signaling.websocket = some 0 := by
    refine ⟨_,rfl,?_,?_,?_⟩ <;> rfl
  obtain ⟨p,whole⟩ : ∃ p, run (step noJson) (init ⟨[],[],false,[]⟩) (dropped ++ [(.join,true)]) = some p := ⟨_,rfl⟩
  refine ⟨p,whole,fun outlives => ?_⟩
  have patient := ((outlives_iff whole).mp outlives).suffix before
  rw [run_append before] at whole
  obtain ⟨p,taken,-⟩ := Option.bind_eq_some_iff.mp whole
  have quiet := ((patient p taken).1 makes 0 used).1
  omega

end
end Process
end LicodeClient
