import LicodeClient.Lifecycle
import LicodeClient.Session.Bank

/-!
What is said to the server at first. Before a session has read a `40` nothing goes out,
as the signaling is not connected and nobody sends the token. Each `40` sends the token
once at most, on the session in use, and it is the token of the room
(`says_after_opening`). The handler of a `40` connects the signaling before it sends the
token; whether a task or a ping that runs meanwhile gets ahead of it is left open.
-/
namespace LicodeClient
open LicodeClient.Program LicodeClient.Run

/-- The frames that each session has accepted. -/
def Seat.rows (s : Seat) : List (List Packet) := s.sessions.map WebsocketSession.accepted

/-- A row gets longer. -/
theorem countP_flatten_modify {α : Type*} (p : α → Bool) (rows : List (List α)) (k : Nat) (new : List α) :
    (rows.modify k (· ++ new)).flatten.countP p ≤ rows.flatten.countP p + new.countP p := by
  induction rows generalizing k with
  | nil => simp
  | cons row rows ih =>
    cases k with
    | zero =>
      simp only [List.modify_zero_cons,List.flatten_cons,List.countP_append]
      omega
    | succ k =>
      have rest := ih k
      simp only [List.modify_succ_cons,List.flatten_cons,List.countP_append]
      omega

/-- What is kept when so many `40`s were read. -/
structure Vowed (token : LicodeToken) (opened : Nat) (s : Seat) (state : SignalingState) : Prop where
  room : s.roomToken = token
  known : ∀ c, s.websocket = some c → s.token = token
  alike : ∀ row ∈ s.rows, ∀ msg ∈ row, msg.isToken = true → msg = .initToken token false
  fewer : s.rows.flatten.countP Packet.isToken ≤ opened
  silent : opened = 0 → state ≠ .kConnected ∧ ∀ row ∈ s.rows, row = []

section
variable {token : LicodeToken} {n n' : Nat} {s s' : Seat} {state state' : SignalingState}

/-- Nothing is said. -/
theorem vowed_silent (vowed : Vowed token n s state) (rows : s'.rows = s.rows) (websocket : s'.websocket = s.websocket)
    (same : s'.token = s.token) (room : s'.roomToken = s.roomToken) (more : n ≤ n')
    (calm : n' = 0 → state' = .kConnected → state = .kConnected) : Vowed token n' s' state' where
  room := room.trans vowed.room
  known := fun c found => same.trans (vowed.known c (websocket ▸ found))
  alike := rows ▸ vowed.alike
  fewer := rows ▸ Nat.le_trans vowed.fewer more
  silent := by
    intro none
    obtain ⟨down,empty⟩ := vowed.silent (by omega)
    exact ⟨fun up => down (calm none up),rows ▸ empty⟩

/-- A frame is said, once a `40` was read. -/
theorem vowed_append {k : Nat} {new : List Packet} (vowed : Vowed token n s state)
    (rows : s'.rows = s.rows.modify k (· ++ new)) (websocket : s'.websocket = s.websocket) (same : s'.token = s.token)
    (room : s'.roomToken = s.roomToken) (alike : ∀ msg ∈ new, msg.isToken = true → msg = .initToken token false)
    (paid : n + new.countP Packet.isToken ≤ n') (some : n' ≠ 0) : Vowed token n' s' state' where
  room := room.trans vowed.room
  known := fun c found => same.trans (vowed.known c (websocket ▸ found))
  alike := by
    rw [rows]
    intro row member msg said
    rcases mem_modify member with before | ⟨old,here,rfl⟩
    · exact vowed.alike row before msg said
    · rcases List.mem_append.mp said with before | now
      · exact vowed.alike old (List.mem_of_getElem? here) msg before
      · exact alike msg now
  fewer := by
    have count := countP_flatten_modify Packet.isToken s.rows k new
    have fewer := vowed.fewer
    rw [rows]
    omega
  silent := fun none => absurd none some

end

section
variable {token : LicodeToken} {n n' : Nat} {w w' : World} {k : Nat} {s : Seat} {state state' : SignalingState}

/-- What a session does to its own row. -/
theorem rows_modify {g : WebsocketSession → WebsocketSession} {h : List Packet → List Packet}
    (does : ∀ s, w.sessions[k]? = some s → (g s).accepted = h s.accepted) :
    (w.sessions.modify k g).map WebsocketSession.accepted =
      (w.sessions.map WebsocketSession.accepted).modify k h := by
  refine List.ext_getElem? (fun i => ?_)
  simp only [List.getElem?_map,List.getElem?_modify]
  cases found : w.sessions[i]? with
  | none => rfl
  | some s =>
    by_cases here : k = i
    · subst here
      simp [does s found]
    · simp [here]

theorem rows_same {g : WebsocketSession → WebsocketSession}
    (same : ∀ s, w.sessions[k]? = some s → (g s).accepted = s.accepted) :
    (w.sessions.modify k g).map WebsocketSession.accepted = w.sessions.map WebsocketSession.accepted :=
  (rows_modify (h := id) same).trans (List.modify_id _ _)

/-- A frame is accepted by a connected session and dropped by another. -/
theorem rows_sendMsg (w : World) (k : Nat) (msg : Packet) :
    (w.sessions.modify k (·.sendMsg msg)).map WebsocketSession.accepted =
      (w.sessions.map WebsocketSession.accepted).modify k
        (· ++ if (w.session k).connected then [msg] else []) := by
  refine rows_modify (fun s found => ?_)
  have said := WebsocketSession.accepted_sendMsg s msg
  cases connected : s.connected <;> simp [said,connected,session_of_getElem? found]

/-- A handler of a session that accepts nothing. -/
theorem vowed_modify {g : WebsocketSession → WebsocketSession} (vowed : Vowed token n w.seat state)
    (same : ∀ s, w.sessions[k]? = some s → (g s).accepted = s.accepted)
    (seat : s = { w.seat with sessions := w.sessions.modify k g }) (more : n ≤ n')
    (calm : n' = 0 → state' = .kConnected → state = .kConnected) : Vowed token n' s state' := by
  subst seat
  exact vowed_silent vowed (rows_same same) rfl rfl rfl more calm

/-- A session is given a frame. -/
theorem vowed_sendMsg {msg : Packet} (vowed : Vowed token n w.seat state)
    (seat : s = { w.seat with sessions := w.sessions.modify k (·.sendMsg msg) })
    (alike : msg.isToken = true → msg = .initToken token false)
    (paid : n + (if msg.isToken then 1 else 0) ≤ n') (some : n' ≠ 0) : Vowed token n' s state' := by
  subst seat
  refine vowed_append vowed (rows_sendMsg w k msg) rfl rfl rfl ?_ ?_ some
  · intro m said isToken
    split at said
    · obtain rfl := List.mem_singleton.mp said
      exact alike isToken
    · cases said
  · have most : (if (w.session k).connected then [msg] else []).countP Packet.isToken ≤
        if msg.isToken then 1 else 0 := by
      split
      · rw [List.countP_singleton]
      · exact Nat.zero_le _
    omega

/-- What a handler or a task calls. -/
theorem vowed_called {greets : Prop} (vowed : Vowed token n w.seat w.signaling.state) (called : Called greets w s)
    (opens : greets → n < n') (more : n ≤ n')
    (calm : n' = 0 → state' = .kConnected → w.signaling.state = .kConnected) : Vowed token n' s state' := by
  cases called with
  | nothing => exact vowed_silent vowed rfl rfl rfl rfl more calm
  | sendMsg k msg current connected plain =>
    have some : n ≠ 0 := fun none => (vowed.silent none).1 connected
    exact vowed_sendMsg vowed rfl (by simp [plain]) (by simpa [plain] using more) (by omega)
  | initToken k current greets =>
    have greeted := opens greets
    have known : w.signaling.token = token := vowed.known k current
    exact vowed_sendMsg vowed rfl (fun _ => by rw [known]) greeted (by omega)
  | disconnect k current =>
    refine vowed_silent vowed ?_ rfl rfl rfl more calm
    exact rows_same (fun s _ => WebsocketSession.accepted_disconnect s)

/-- A new session has accepted nothing, and the signaling waits for it. -/
theorem vowed_joined (vowed : Vowed token n w.seat state) (url : Text)
    (made : s = ⟨w.sessions ++ [newSession url],some w.sessions.length,w.room.token,w.room.token⟩)
    (waits : state' = .kConnecting) (more : n ≤ n') : Vowed token n' s state' := by
  subst made
  have rows : Seat.rows ⟨w.sessions ++ [newSession url],some w.sessions.length,w.room.token,w.room.token⟩ =
      w.seat.rows ++ [[]] := by
    rw [Seat.rows,List.map_append]
    rfl
  refine ⟨vowed.room,fun _ _ => vowed.room,?_,?_,fun none => ?_⟩
  · rw [rows]
    intro row member msg said
    rcases List.mem_append.mp member with before | new
    · exact vowed.alike row before msg said
    · obtain rfl := List.mem_singleton.mp new
      cases said
  · rw [rows,List.flatten_append,List.countP_append]
    exact Nat.le_trans vowed.fewer more
  · rw [rows,waits]
    refine ⟨by decide,fun row member => ?_⟩
    rcases List.mem_append.mp member with before | new
    · exact (vowed.silent (by omega)).2 row before
    · exact List.mem_singleton.mp new

end

section
variable {nl : Nlohmann} {token : LicodeToken} {n : Nat} {w w' : World} {e : Event}

/-- Only a `40` connects the signaling. -/
theorem connected_of_step (wired : w.outline.Wired) (taken : step nl w e = some w')
    (unopened : ∀ k, moveOf nl w e ≠ .message k .opened) (connected : w'.signaling.state = .kConnected) :
    w.signaling.state = .kConnected := by
  have link : w'.signaling.state = ((moveOf nl w e).link w.outline).signaling :=
    congrArg Link.signaling (step_link wired taken)
  rw [link] at connected
  cases move : moveOf nl w e with
  | join =>
    simp only [move,Move.link] at connected
    split at connected
    · exact connected
    · split at connected
      · cases connected
      · exact connected
  | fail k op =>
    simp only [move,Move.link] at connected
    split at connected
    · cases connected
    · exact connected
  | message k signal =>
    rw [move] at connected
    cases signal with
    | opened => exact absurd move (unopened k)
    | dropped => cases connected
    | _ => exact connected
  | _ =>
    rw [move] at connected
    exact connected

/-- How many `40`s an event reads, one at most. -/
def heard (nl : Nlohmann) (w : World) (e : Event) : Nat := ((moveOf nl w e).word w.outline).toList.count .opened

theorem heard_opened {k : Nat} {frame : Text} (opened : w.signal nl k frame = .opened) :
    heard nl w (.read k (some frame)) = 1 := by
  unfold heard
  rw [show moveOf nl w (.read k (some frame)) = .message k (w.signal nl k frame) from rfl,opened]
  rfl

theorem unopened_of_heard (none : heard nl w e = 0) (k : Nat) : moveOf nl w e ≠ .message k .opened := by
  intro opened
  unfold heard at none
  rw [opened] at none
  cases none

/-- One step adds what it reads. -/
theorem vowed_step (vowed : Vowed token n w.seat w.signaling.state) (wired : w.outline.Wired)
    (taken : stepUp nl w e = some w') : Vowed token (n + heard nl w e) w'.seat w'.signaling.state := by
  obtain ⟨steps,-⟩ := Option.filter_eq_some_iff.mp taken
  have more : n ≤ n + heard nl w e := Nat.le_add_right _ _
  have calm : n + heard nl w e = 0 → w'.signaling.state = .kConnected → w.signaling.state = .kConnected :=
    fun none => connected_of_step wired steps (unopened_of_heard (by omega))
  cases stir_step taken with
  | called elsewhere same called => exact vowed_called vowed called False.elim more calm
  | joined event makes url state made => exact vowed_joined vowed url made state more
  | own k g here unread accepts seat => exact vowed_modify vowed accepts seat more calm
  | read k frame t event done state seat =>
    subst event
    have received : Vowed token n (w.received k frame).seat (w.received k frame).signaling.state :=
      vowed_modify (g := fun s => { s.finish .read with buffer := s.buffer ++ frame }) vowed (fun s _ => rfl) rfl le_rfl
        (fun _ => id)
    have called := called_deliver nl w k frame (w.received k frame)
    rw [after_of_ok done] at called
    have handed : Vowed token (n + heard nl w (.read k (some frame))) t.seat t.signaling.state := by
      refine vowed_called received called (fun opened => ?_) more (fun none up => calm none (state.trans up))
      rw [heard_opened opened]
      exact Nat.lt_succ_self n
    rw [state]
    exact vowed_modify (g := fun s => { s with buffer := [] }.start .read) handed (fun s _ => rfl) seat le_rfl
      (fun _ => id)

/-- A run adds what it reads. -/
theorem vowed_run {es : List Event} (vowed : Vowed token n w.seat w.signaling.state) (wired : w.outline.Wired)
    (done : run (stepUp nl) w es = some w') :
    Vowed token (n + (words nl w es).count .opened) w'.seat w'.signaling.state := by
  induction es generalizing w n with
  | nil => cases done; exact vowed
  | cons e es ih =>
    obtain ⟨u,taken,rest⟩ := Option.bind_eq_some_iff.mp done
    obtain ⟨steps,-⟩ := Option.filter_eq_some_iff.mp taken
    have later := ih (vowed_step vowed wired taken) (step_wired wired steps) rest
    have split : (words nl w (e :: es)).count .opened = heard nl w e + (words nl u es).count .opened := by
      rw [words,trace_cons steps,List.count_append]
      rfl
    rwa [split,← Nat.add_assoc]

theorem vowed_init (token : LicodeToken) :
    Vowed token 0 (World.init token).seat (World.init token).signaling.state where
  room := rfl
  known := fun c used => (by cases used)
  alike := fun row member => (by cases member)
  fewer := le_rfl
  silent := fun _ => ⟨nofun,fun row member => (by cases member)⟩

theorem vowed_of_run {es : List Event} (done : run (step nl) (World.init token) es = some w) (up : w.crashed = none) :
    Vowed token ((words nl (World.init token) es).count .opened) w.seat w.signaling.state := by
  have vowed := vowed_run (vowed_init token) (wired_init token) (run_stepUp done up)
  rwa [Nat.zero_add] at vowed

/-- As long as no `40` was read no session has accepted a frame; the sessions have not
    accepted the token more often than a `40` was read, and it is the token of the
    room. -/
theorem says_after_opening {es : List Event} (done : run (step nl) (World.init token) es = some w)
    (up : w.crashed = none) :
    (.opened ∉ words nl (World.init token) es → ∀ s ∈ w.sessions, s.accepted = []) ∧
      (w.sessions.flatMap WebsocketSession.accepted).countP Packet.isToken ≤
        (words nl (World.init token) es).count .opened ∧
      ∀ s ∈ w.sessions, ∀ msg ∈ s.accepted, msg.isToken = true → msg = .initToken token false := by
  have vowed := vowed_of_run done up
  refine ⟨fun unopened s member => ?_,?_,fun s member => ?_⟩
  · exact (vowed.silent (List.count_eq_zero.mpr unopened)).2 _ (List.mem_map_of_mem member)
  · rw [List.flatMap_def]
    exact vowed.fewer
  · exact vowed.alike _ (List.mem_map_of_mem member)

end

/-- The opening without its `40`, and with it. -/
theorem says_after_opening_once :
    (∃ w, run (step noJson) (World.init ⟨[],[],false,[]⟩) (opening.take 4) = some w ∧
        w.sessions.map (fun s => s.accepted.length) = [0] ∧ ∀ s ∈ w.sessions, s.accepted = []) ∧
      ∃ w, run (step noJson) (World.init ⟨[],[],false,[]⟩) opening = some w ∧
        words noJson (World.init ⟨[],[],false,[]⟩) opening = [.opened] ∧
        w.sessions.map (fun s => s.accepted.length) = [1] ∧
        ∀ s ∈ w.sessions, ∀ msg ∈ s.accepted, msg.isToken = true → msg = .initToken ⟨[],[],false,[]⟩ false := by
  have before : run (step noJson) (World.init ⟨[],[],false,[]⟩) (opening.take 4) = some _ := rfl
  have done : run (step noJson) (World.init ⟨[],[],false,[]⟩) opening = some _ := rfl
  refine ⟨⟨_,before,rfl,?_⟩,_,done,rfl,rfl,?_⟩
  · exact (says_after_opening before rfl).1 (by decide)
  · exact (says_after_opening done rfl).2.2

end LicodeClient
