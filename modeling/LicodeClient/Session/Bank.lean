import LicodeClient.Lib.Family
import LicodeClient.Lib.Simulation
import LicodeClient.Session
import LicodeClient.Session.Calls

/-!
The sessions of a client are sessions by themselves: what happens to them in a run of
the client that does not end the process is a run of a family of sessions, each of which
is connected once, when it is made, and keeps its callbacks (`bank_simulates`). So each
of them calls back as a single session does, and since it is never connected again, it
reports nothing once it was disconnected (`sessions_call_back`).
-/
namespace LicodeClient
open LicodeClient.Table LicodeClient.Program LicodeClient.Run

/-- A session that `LicodeSignaling::Init` has made and connected. -/
def Driven.opened (url : Text) : Driven := { session := newSession url, marks := [.connect] }

/-- The sessions of a client, each by itself. -/
abbrev bank : List Driven → Member Text WebsocketSession.Event → Option (List Driven) :=
  family Driven.opened Driven.step

/-- The client neither connects a session again nor changes its callbacks. -/
def Driven.Owned (_ : Driven) (e : WebsocketSession.Event) : Prop := e ≠ .connect ∧ ∀ setter, e ≠ .set setter

/-- What the session's own thread does. -/
def WebsocketSession.Event.inner : WebsocketSession.Event → Bool
  | .resolved _ | .connected _ | .handshaken _ | .read _ _ | .posted _ | .wrote _ => true
  | _ => false

/-- What happens on the thread of a session, as the session has it. -/
def Event.inner : Event → List (Nat × WebsocketSession.Event)
  | .resolved k failed => [(k,.resolved failed)]
  | .connected k failed => [(k,.connected failed)]
  | .handshaken k failed => [(k,.handshaken failed)]
  | .read k none => [(k,.read [] true)]
  | .read k (some frame) => [(k,.read frame false)]
  | .posted k closes => [(k,.posted closes)]
  | .wrote k succeeded => [(k,.wrote succeeded)]
  | _ => []

def innerOf : Member Text WebsocketSession.Event → List (Nat × WebsocketSession.Event)
  | .joined _ => []
  | .member k e => if e.inner then [(k,e)] else []

/-- The sessions are those of the client, and no callback is under way. -/
structure Related (w : World) (ds : List Driven) : Prop where
  sessions : ds.map Driven.session = w.sessions
  idle : ∀ d ∈ ds, d.calling = none

/-! ### Answers -/

/-- A run of the sessions that shows `seen`. -/
abbrev BankRun (ds : List Driven) (seen : List (Nat × WebsocketSession.Event)) (ds' : List Driven)
    (ms : List (Member Text WebsocketSession.Event)) : Prop :=
  Answer bank (Permits Driven.Owned) innerOf ds seen ds' ms

section
variable {nl : Nlohmann} {w w' : World} {ds ds' : List Driven} {k : Nat} {d d' : Driven} {e : WebsocketSession.Event}

theorem map_set_modify {g : WebsocketSession → WebsocketSession} {ss : List WebsocketSession}
    (sessions : ds.map Driven.session = ss) (here : ds[k]? = some d) (same : d'.session = g d.session) :
    (ds.set k d').map Driven.session = ss.modify k g := by
  subst sessions
  refine List.ext_getElem? (fun i => ?_)
  simp only [List.getElem?_map,List.getElem?_set,List.getElem?_modify]
  by_cases there : k = i
  · subst there
    obtain ⟨exist,found⟩ := List.getElem?_eq_some_iff.mp here
    simp [exist,found,same]
  · simp [there]

theorem map_set_calling (here : ds[k]? = some d) (same : d'.calling = d.calling) :
    (ds.set k d').map Driven.calling = ds.map Driven.calling := by
  refine List.ext_getElem? (fun i => ?_)
  simp only [List.getElem?_map,List.getElem?_set]
  by_cases there : k = i
  · subst there
    obtain ⟨exist,found⟩ := List.getElem?_eq_some_iff.mp here
    simp [exist,found,same]
  · simp [there]

theorem member_of_related (related : Related w ds) (exist : k < w.sessions.length) :
    ∃ d, ds[k]? = some d ∧ d.session = w.session k ∧ d.calling = none := by
  have short : k < ds.length := by rw [← related.sessions,List.length_map] at exist; exact exist
  refine ⟨ds[k],List.getElem?_eq_getElem short,?_,related.idle _ (List.getElem_mem short)⟩
  simp only [World.session,List.getD_eq_getElem?_getD,← related.sessions,List.getElem?_map,
    List.getElem?_eq_getElem short,Option.map_some,Option.getD_some]

theorem answer_member (here : ds[k]? = some d) (steps : d.step e = some d') (owned : d.Owned e) :
    BankRun ds (innerOf (.member k e)) (ds.set k d') [.member k e] := by
  refine .one (family_member here steps) ?_
  intro s found
  exact owned

/-- A session answers what the client calls, with no callback made or returning. -/
theorem answer_called {greets : Prop} {s : Seat} (sessions : ds.map Driven.session = w.sessions)
    (called : Called greets w s) :
    ∃ ds' ms, BankRun ds [] ds' ms ∧ ds'.map Driven.session = s.sessions ∧
      ds'.map Driven.calling = ds.map Driven.calling := by
  have answers : ∀ (k : Nat) (e : WebsocketSession.Event) (g : WebsocketSession → WebsocketSession)
      (marks : List WebsocketSession.Mark), e.inner = false → (∀ d : Driven, d.Owned e) →
      (∀ d : Driven, d.step e = some { d with session := g d.session, marks := d.marks ++ marks }) →
      ∃ ds' ms, BankRun ds [] ds' ms ∧ ds'.map Driven.session = w.sessions.modify k g ∧
        ds'.map Driven.calling = ds.map Driven.calling := by
    intro k e g marks outer owned steps
    cases here : ds[k]? with
    | none =>
      have long : w.sessions.length ≤ k := by
        rw [← sessions,List.length_map]
        exact List.getElem?_eq_none_iff.mp here
      exact ⟨ds,[],.nil _,sessions.trans (List.modify_eq_self long).symm,rfl⟩
    | some d =>
      have answer := answer_member here (steps d) (owned d)
      simp only [innerOf,outer,Bool.false_eq_true,if_false] at answer
      exact ⟨_,_,answer,map_set_modify sessions here rfl,map_set_calling here rfl⟩
  cases called with
  | nothing => exact ⟨ds,[],.nil _,sessions,rfl⟩
  | sendMsg k msg current _ _ =>
    refine answers k (.sendMsg msg) _ [] rfl (fun _ => ⟨by simp,by simp⟩) (fun d => ?_)
    simp [Driven.step]
  | initToken k current _ =>
    refine answers k (.sendMsg (.initToken w.signaling.token false)) _ [] rfl (fun _ => ⟨by simp,by simp⟩) (fun d => ?_)
    simp [Driven.step]
  | disconnect k current => exact answers k .disconnect _ [.disconnect] rfl (fun _ => ⟨by simp,by simp⟩) (fun d => rfl)

theorem related_called {s : Seat} (related : Related w ds) (called : Called False w s)
    (same : w'.sessions = s.sessions) :
    ∃ ds' ms, BankRun ds [] ds' ms ∧ Related w' ds' := by
  obtain ⟨ds',ms,answer,sessions,callings⟩ := answer_called related.sessions called
  refine ⟨ds',ms,answer,sessions.trans same.symm,?_⟩
  have idle : ∀ c ∈ ds'.map Driven.calling, c = none := callings ▸ List.forall_mem_map.mpr related.idle
  exact List.forall_mem_map.mp idle

/-- What happens on the thread of a session is no call of the client. -/
theorem answer_inner (here : ds[k]? = some d) (taken : d.step e = some d') (inner : e.inner = true) :
    BankRun ds [(k,e)] (ds.set k d') [.member k e] := by
  have owned : d.Owned e := by
    refine ⟨?_,?_⟩
    · rintro rfl
      cases inner
    · rintro setter rfl
      cases inner
  have answer := answer_member here taken owned
  simp only [innerOf,inner,if_true] at answer
  exact answer

/-- A handler that makes no callback, or makes it last. -/
theorem related_handled {g : WebsocketSession → WebsocketSession} (related : Related w ds)
    (exist : k < w.sessions.length) (inner : e.inner = true)
    (steps : ∀ d : Driven, d.session = w.session k → d.calling = none →
      ∃ d', d.step e = some d' ∧ d'.session = g d.session ∧ d'.calling = none)
    (same : w'.sessions = w.sessions.modify k g) :
    ∃ ds' ms, BankRun ds [(k,e)] ds' ms ∧ Related w' ds' := by
  obtain ⟨d,here,session,calling⟩ := member_of_related related exist
  obtain ⟨d',taken,session',calling'⟩ := steps d session calling
  refine ⟨_,_,answer_inner here taken inner,?_,?_⟩
  · rw [same]
    exact map_set_modify related.sessions here session'
  · intro c member
    rcases List.mem_or_eq_of_mem_set member with before | rfl
    · exact related.idle c before
    · exact calling'

/-- A handler with a callback in which the client calls a session: the call, what the
    client does in it, and the rest of the handler once it returns. -/
theorem related_callback {op : Operation} {g h : WebsocketSession → WebsocketSession} {u : World} {s : Seat}
    {greets : Prop}
    (related : Related w ds) (exist : k < w.sessions.length) (inner : e.inner = true)
    (calls : ∀ d : Driven, d.session = w.session k → d.calling = none →
      ∃ d', d.step e = some d' ∧ d'.session = g d.session ∧ d'.calling = some op)
    (held : u.sessions = w.sessions.modify k g) (called : Called greets u s)
    (returns : ∀ d : Driven, d.calling = some op →
      ∃ d', d.step .returned = some d' ∧ d'.session = h d.session ∧ d'.calling = none)
    (same : w'.sessions = s.sessions.modify k h) :
    ∃ ds' ms, BankRun ds [(k,e)] ds' ms ∧ Related w' ds' := by
  obtain ⟨d,here,session,calling⟩ := member_of_related related exist
  obtain ⟨d₁,taken,session₁,calling₁⟩ := calls d session calling
  have first := answer_inner here taken inner
  have sessions₁ := (map_set_modify related.sessions here session₁).trans held.symm
  obtain ⟨ds₂,ms,second,sessions₂,callings₂⟩ := answer_called sessions₁ called
  -- Whatever the client has called, the handler of this session waits for its return.
  have waits : (ds₂.map Driven.calling)[k]? = some (some op) := by
    obtain ⟨short,-⟩ := List.getElem?_eq_some_iff.mp here
    simp [callings₂,short,calling₁]
  rw [List.getElem?_map] at waits
  obtain ⟨d₂,here₂,calling₂⟩ := Option.map_eq_some_iff.mp waits
  obtain ⟨d₃,returned,session₃,calling₃⟩ := returns d₂ calling₂
  have third : BankRun ds₂ [] (ds₂.set k d₃) [.member k .returned] := answer_member here₂ returned ⟨by simp,by simp⟩
  have answer := (first.append second).append third
  simp only [List.append_nil] at answer
  refine ⟨_,_,answer,?_,?_⟩
  · rw [same]
    exact map_set_modify sessions₂ here₂ session₃
  · have callings : (ds₂.set k d₃).map Driven.calling = (ds.map Driven.calling).set k none := by
      rw [List.map_set,callings₂,List.map_set,List.set_set,calling₃]
    have idle : ∀ c ∈ (ds₂.set k d₃).map Driven.calling, c = none := by
      rw [callings]
      intro c member
      rcases List.mem_or_eq_of_mem_set member with before | rfl
      · obtain ⟨d,old,rfl⟩ := List.mem_map.mp before
        exact related.idle d old
      · rfl
    exact List.forall_mem_map.mp idle

/-! ### The handlers of a session -/

theorem session_call (d : Driven) (installed : Bool) (c : WebsocketSession.Callback) :
    (d.call installed c).session = d.session := by
  unfold Driven.call
  split <;> rfl

theorem calling_call (d : Driven) (installed : Bool) (c : WebsocketSession.Callback) :
    (d.call installed c).calling = d.calling := by
  unfold Driven.call
  split <;> rfl

theorem handle_fails {op : Operation} {next : Driven → Driven} (under : op ∈ d.session.outstanding)
    (idle : d.calling = none) :
    d.handle op true next = some { d with session := d.session.finish op }.processDisconnect :=
  if_pos ⟨under,idle⟩

theorem handle_goes {op : Operation} {next : Driven → Driven} (under : op ∈ d.session.outstanding)
    (idle : d.calling = none) : d.handle op false next = some (next { d with session := d.session.finish op }) :=
  if_pos ⟨under,idle⟩

theorem step_handshaken (under : .handshake ∈ d.session.outstanding) (idle : d.calling = none) :
    ∃ d', d.step (.handshaken false) = some d' ∧
      d'.session = { d.session.finish .handshake with connected := true, isOpen := true } ∧
      d'.calling = some .handshake := by
  simp only [Driven.step,handle_goes under idle]
  exact ⟨_,rfl,session_call _ _ _,calling_call _ _ _⟩

theorem step_read (under : .read ∈ d.session.outstanding) (idle : d.calling = none) (data : Text) :
    ∃ d', d.step (.read data false) = some d' ∧
      d'.session = { d.session.finish .read with buffer := d.session.buffer ++ data } ∧ d'.calling = some .read := by
  have waits : Operation.read ∈ { d.session with buffer := d.session.buffer ++ data }.outstanding := under
  refine ⟨_,if_pos ⟨waits,idle⟩,?_⟩
  exact ⟨session_call _ _ _,calling_call _ _ _⟩

theorem step_read_fails (under : .read ∈ d.session.outstanding) (idle : d.calling = none) :
    ∃ d', d.step (.read [] true) = some d' ∧ d'.session = d.session.finish .read ∧ d'.calling = none := by
  have waits : Operation.read ∈ { d.session with buffer := d.session.buffer ++ [] }.outstanding := under
  refine ⟨_,if_pos ⟨waits,idle⟩,(session_call _ _ _).trans ?_,(calling_call _ _ _).trans idle⟩
  simp

/-- A step of the connect chain starts the next operation, or fails. -/
theorem related_chained {op after' : Operation} {failed : Bool} (related : Related w ds)
    (exist : k < w.sessions.length) (under : op ∈ (w.session k).outstanding) (inner : e.inner = true)
    (steps : ∀ d : Driven, d.step e = d.handle op failed (fun d => { d with session := d.session.start after' }))
    (same : w'.sessions = (after (chained k op failed (modify (·.updateSession k (·.start after')))) w).sessions) :
    ∃ ds' ms, BankRun ds [(k,e)] ds' ms ∧ Related w' ds' := by
  refine related_handled related exist inner (fun d session idle => ?_)
    (same.trans (congrArg Seat.sessions (seat_chained exist _ _ _)))
  rw [steps]
  cases failed with
  | true => exact ⟨_,handle_fails (session ▸ under) idle,session_call _ _ _,(calling_call _ _ _).trans idle⟩
  | false => exact ⟨_,handle_goes (session ▸ under) idle,rfl,idle⟩

theorem related_handshaken {failed : Bool} (related : Related w ds) (exist : k < w.sessions.length)
    (under : .handshake ∈ (w.session k).outstanding) (same : w'.sessions = (after (onHandshake k failed) w).sessions) :
    ∃ ds' ms, BankRun ds [(k,.handshaken failed)] ds' ms ∧ Related w' ds' := by
  cases failed with
  | true =>
    refine related_handled related exist rfl (fun d session idle => ?_)
      (same.trans (congrArg Seat.sessions (seat_failed exist _ _)))
    simp only [Driven.step,handle_fails (session ▸ under) idle]
    exact ⟨_,rfl,session_call _ _ _,(calling_call _ _ _).trans idle⟩
  | false =>
    have held : (w.updateSession k (fun s => { s.finish .handshake with connected := true, isOpen := true })).sessions =
        w.sessions.modify k (fun s => { s.finish .handshake with connected := true, isOpen := true }) := rfl
    refine related_callback (h := (·.start .read)) related exist rfl
      (fun d session idle => step_handshaken (session ▸ under) idle) held (show Called False _ _ from .nothing)
      (fun d calling => ?_) ?_
    · simp [Driven.step,Driven.resume,calling]
    · have shaken := congrArg Seat.sessions (seat_chained exist .handshake false
        (fun s => { s with connected := true, isOpen := true }.start .read))
      rw [same,onHandshake,World.seat,held,List.modify_modify_eq]
      exact shaken

theorem related_read {frame : Option Text} (related : Related w ds) (exist : k < w.sessions.length)
    (under : .read ∈ (w.session k).outstanding) (same : w'.sessions = (after (onRead nl k frame) w).sessions)
    (up : faultOf (onRead nl k frame) w = none) :
    ∃ ds' ms, BankRun ds (Event.inner (.read k frame)) ds' ms ∧ Related w' ds' := by
  cases frame with
  | none =>
    exact related_handled related exist rfl (fun d session idle => step_read_fails (session ▸ under) idle)
      (same.trans (congrArg Seat.sessions (seat_failed exist _ _)))
  | some frame =>
    have runs := run_onRead nl frame exist
    cases done : (w.deliver nl k frame).run (w.received k frame) with
    | error fault t =>
      rw [done] at runs
      simp [faultOf,runs] at up
    | ok a t =>
      rw [done] at runs
      rw [after_of_ok runs] at same
      have called := called_deliver nl w k frame (w.received k frame)
      rw [after_of_ok done] at called
      have read : w'.sessions = t.sessions.modify k (fun s => { s with buffer := [] }.start .read) := same
      refine related_callback (g := fun s => { s.finish .read with buffer := s.buffer ++ frame }) related exist rfl
        (fun d session idle => step_read (session ▸ under) idle frame) rfl called (fun d calling => ?_) read
      simp [Driven.step,Driven.resume,calling]

/-- A session runs a posted handler as the client has it run. -/
theorem step_runNext {s : WebsocketSession} {closes : Bool} (next : d.session.runNext closes = some s)
    (idle : d.calling = none) : ∃ d', d.step (.posted closes) = some d' ∧ d'.session = s ∧ d'.calling = none := by
  have runs : d.step (.posted closes) = d.runPosted closes := if_pos idle
  rw [runs]
  cases posted : d.session.posted with
  | nil => simp [WebsocketSession.runNext,posted] at next
  | cons handler rest =>
    cases handler with
    | onSend msg =>
      simp only [WebsocketSession.runNext,posted] at next
      simp only [Driven.runPosted,posted]
      exact ⟨_,rfl,Option.some.inj next,idle⟩
    | doClose =>
      simp only [WebsocketSession.runNext,posted] at next
      simp only [Driven.runPosted,posted]
      split at next
      · next closed => exact ⟨_,if_pos closed,Option.some.inj next,idle⟩
      · next unclosed =>
        split at next
        · next succeeds => exact ⟨_,(if_neg unclosed).trans (if_pos succeeds),Option.some.inj next,idle⟩
        · cases next

theorem related_posted {closes : Bool} (related : Related w ds) (exist : k < w.sessions.length)
    (waits : (w.session k).posted ≠ []) (same : w'.sessions = (after (runPosted k closes) w).sessions)
    (up : faultOf (runPosted k closes) w = none) :
    ∃ ds' ms, BankRun ds [(k,.posted closes)] ds' ms ∧ Related w' ds' := by
  obtain ⟨s,next,ran⟩ := seat_runPosted exist waits up
  refine related_handled related exist rfl (fun d session idle => ?_) (same.trans (congrArg Seat.sessions ran))
  exact step_runNext (session ▸ next) idle

theorem related_joined (url : Text) (related : Related w ds) (same : w'.sessions = w.sessions ++ [newSession url]) :
    ∃ ds' ms, BankRun ds [] ds' ms ∧ Related w' ds' := by
  have made : bank ds (.joined url) = some (ds ++ [Driven.opened url]) := rfl
  have answer : BankRun ds (innerOf (.joined url)) (ds ++ [Driven.opened url]) [.joined url] := .one made trivial
  refine ⟨_,_,answer,?_,?_⟩
  · rw [same,List.map_append,related.sessions]
    rfl
  · intro d member
    rcases List.mem_append.mp member with before | new
    · exact related.idle d before
    · rw [List.mem_singleton.mp new]
      rfl

/-- A step of the client is a run of its sessions. -/
theorem bank_simulates (nl : Nlohmann) :
    Simulation (stepUp nl) bank (Permits Driven.Owned) Event.inner innerOf Related := by
  intro w e w' ds related taken
  obtain ⟨can,final,up⟩ := of_stepUp taken
  have same : w'.sessions = (after (handler nl e) w).sessions := final ▸ rfl
  have idles : ∀ {x : Exec Unit}, Touches x → w'.sessions = (after x w).sessions →
      ∃ ds' ms, BankRun ds [] ds' ms ∧ Related w' ds' := by
    intro x touches same
    exact related_called related (touches w) same
  cases e with
  | join =>
    rcases seat_join w with ⟨-,none⟩ | ⟨-,url,made,-⟩
    · exact related_called related .nothing (same.trans (congrArg Seat.sessions none))
    · exact related_joined url related (same.trans (congrArg Seat.sessions made))
  | leave => exact idles closes_leave.touches same
  | makeStream info => exact idles (touches_keeps (fun _ => rfl)) same
  | call api => exact idles (touches_keeps (keeps_bind keeps_get (fun _ => keeps_postTask (fun _ => rfl)))) same
  | dispatch api order => exact idles (touches_last keeps_get (fun w => touches_task nl order _)) same
  | work order => exact idles (touches_work nl order) same
  | resolved k failed =>
    obtain ⟨exist,under⟩ := under_of_enabled can
    exact related_chained related exist under rfl (fun _ => rfl) same
  | connected k failed =>
    obtain ⟨exist,under⟩ := under_of_enabled can
    exact related_chained related exist under rfl (fun _ => rfl) same
  | handshaken k failed =>
    obtain ⟨exist,under⟩ := under_of_enabled can
    exact related_handshaken related exist under same
  | read k frame =>
    obtain ⟨exist,under⟩ := under_of_enabled can
    exact related_read related exist under same up
  | posted k closes =>
    obtain ⟨exist,waits⟩ : k < w.sessions.length ∧ (w.session k).posted ≠ [] := by simpa [enabled] using can
    exact related_posted related exist waits same up
  | wrote k succeeded =>
    obtain ⟨exist,writing⟩ : k < w.sessions.length ∧ (w.session k).writing = true := by simpa [enabled] using can
    refine related_handled related exist rfl (fun d session idle => ?_) same
    exact ⟨_,if_pos ⟨session ▸ writing,idle⟩,rfl,idle⟩
  | ping i => exact idles (touches_firePing i) same

/-- A run that has not ended the process has ended it nowhere. -/
theorem run_stepUp {es : List Event} (done : run (step nl) w es = some w') (up : w'.crashed = none) :
    run (stepUp nl) w es = some w' := by
  induction es generalizing w with
  | nil => exact done
  | cons e es ih =>
    obtain ⟨u,first,rest⟩ := Option.bind_eq_some_iff.mp done
    have going : u.crashed = none := by
      cases es with
      | nil => cases rest; exact up
      | cons e' es =>
        obtain ⟨v,second,-⟩ := Option.bind_eq_some_iff.mp rest
        exact (step_eq_some second).1
    have taken : stepUp nl w e = some u := Option.filter_eq_some_iff.mpr ⟨first,by simp [going]⟩
    simpa only [run,taken,Option.bind_some] using ih rest

end

/-! ### What the sessions of a client keep -/

namespace Driven
open WebsocketSession

/-- What is kept of a session that is connected when it is made and not again. -/
structure Once (d : Driven) : Prop where
  kept : d.Kept
  once : ∃ rest, d.marks = .connect :: rest ∧ .connect ∉ rest

theorem once_opened (url : Text) : (opened url).Once where
  kept := kept_step (e := .connect) (kept_prepared url installers ⟨rfl,rfl,rfl⟩) ⟨fun _ => List.not_mem_nil,by simp⟩ rfl
  once := ⟨[],rfl,List.not_mem_nil⟩

theorem once_step {d d' : Driven} {e : WebsocketSession.Event} (known : d.Once) (owned : d.Owned e)
    (taken : d.step e = some d') : d'.Once where
  kept := kept_step known.kept ⟨fun same => absurd same owned.1,owned.2⟩ taken
  once := by
    obtain ⟨rest,marks,once⟩ := known.once
    cases step_noted taken with
    | nothing same flag => exact ⟨rest,same.trans marks,once⟩
    | connect event same => exact absurd event owned.1
    | disconnect same flag => exact ⟨rest ++ [.disconnect],by rw [same,marks]; rfl,by simp [once]⟩
    | callback c same flag wanted => exact ⟨rest ++ [.callback c],by rw [same,marks]; rfl,by simp [once]⟩

/-- The one `Connect` comes before every `Disconnect`, so a report that is taken back
    stays so. -/
theorem hushed_of_once {d : Driven} (known : d.Once) : d.Hushed := by
  intro before later whole
  obtain ⟨rest,marks,once⟩ := known.once
  refine (known.kept.muted before later whole ?_).2
  rw [marks] at whole
  cases before with
  | nil => cases whole
  | cons m before =>
    obtain ⟨-,rfl⟩ := List.cons.inj whole
    intro again
    exact once (List.mem_append_right before (List.mem_cons_of_mem _ again))

end Driven

/-- The frame that a handler hands on. -/
def WebsocketSession.Event.handed : WebsocketSession.Event → List Text
  | .read data false => [data]
  | _ => []

/-- The frames that the handlers of a session hand on. -/
def handedAt (k : Nat) (inner : List (Nat × WebsocketSession.Event)) : List Text :=
  inner.flatMap (fun p => if p.1 = k then p.2.handed else [])

theorem handed_of_outer {e : WebsocketSession.Event} (outer : e.inner = false) : e.handed = [] := by
  cases e with
  | read data failed => cases outer
  | _ => rfl

theorem frames_call (d : Driven) (installed : Bool) (c : WebsocketSession.Callback) :
    (d.call installed c).frames = d.frames := by
  unfold Driven.call
  split <;> rfl

theorem frames_handle {d d' : Driven} {op : Operation} {failed : Bool} {next : Driven → Driven}
    (data : List Text) (taken : d.handle op failed next = some d')
    (goes : ∀ c : Driven, (next c).frames = c.frames ++ data) :
    d'.frames = d.frames ++ if failed then [] else data := by
  unfold Driven.handle at taken
  split at taken
  · cases failed with
    | true => cases taken; exact (frames_call _ _ _).trans (List.append_nil _).symm
    | false => cases taken; exact goes _
  · cases taken

/-- Only a read that succeeds adds a frame. -/
theorem frames_step {d d' : Driven} {e : WebsocketSession.Event} (taken : d.step e = some d') :
    d'.frames = d.frames ++ e.handed := by
  cases e with
  | set setter => cases taken; exact (List.append_nil _).symm
  | connect => cases taken; exact (List.append_nil _).symm
  | disconnect => cases taken; exact (List.append_nil _).symm
  | sendMsg msg => cases taken; exact (List.append_nil _).symm
  | resolved failed =>
    simp only [Driven.step] at taken
    simpa [WebsocketSession.Event.handed] using frames_handle [] taken (fun c => (List.append_nil _).symm)
  | connected failed =>
    simp only [Driven.step] at taken
    simpa [WebsocketSession.Event.handed] using frames_handle [] taken (fun c => (List.append_nil _).symm)
  | handshaken failed =>
    simp only [Driven.step] at taken
    simpa [WebsocketSession.Event.handed] using
      frames_handle [] taken (fun c => (frames_call _ _ _).trans (List.append_nil _).symm)
  | read data failed =>
    simp only [Driven.step] at taken
    have frames := frames_handle [data] taken (fun c => frames_call _ _ _)
    cases failed <;> exact frames
  | returned =>
    simp only [Driven.step,Driven.resume] at taken
    split at taken <;> cases taken <;> exact (List.append_nil _).symm
  | posted closes =>
    obtain ⟨rest,-,ran⟩ := Driven.step_posted taken
    rcases ran with ⟨msg,-,rfl⟩ | ⟨-,-,rfl⟩ | ⟨-,-,rfl⟩ <;> exact (List.append_nil _).symm
  | wrote succeeded =>
    simp only [Driven.step] at taken
    split at taken <;> cases taken
    exact (List.append_nil _).symm

/-- The frames of the member `k`, none when there is no such member yet. -/
def framesAt (ds : List Driven) (k : Nat) : List Text := (ds[k]?.map Driven.frames).getD []

theorem framesAt_bank {ds ds' : List Driven} {m : Member Text WebsocketSession.Event} (taken : bank ds m = some ds')
    (k : Nat) : framesAt ds' k = framesAt ds k ++ handedAt k (innerOf m) := by
  cases m with
  | joined url =>
    cases taken
    simp only [framesAt,handedAt,innerOf,List.flatMap_nil,List.append_nil]
    rcases Nat.lt_trichotomy k ds.length with short | rfl | long
    · rw [List.getElem?_append_left short]
    · simp [Driven.opened]
    · have beyond : (ds ++ [Driven.opened url])[k]? = none :=
        List.getElem?_eq_none (by rw [List.length_append]; exact long)
      rw [beyond,List.getElem?_eq_none (Nat.le_of_lt long)]
  | member j e =>
    obtain ⟨d,here,moved⟩ := Option.bind_eq_some_iff.mp taken
    obtain ⟨d',steps,rfl⟩ := Option.map_eq_some_iff.mp moved
    have grows := frames_step steps
    have outer : handedAt k (innerOf (.member j e)) = if j = k then e.handed else [] := by
      cases inner : e.inner with
      | true => simp [handedAt,innerOf,inner]
      | false => simp [handedAt,innerOf,inner,handed_of_outer inner]
    rw [outer]
    by_cases there : j = k
    · subst there
      obtain ⟨short,found⟩ := List.getElem?_eq_some_iff.mp here
      simp [framesAt,short,found,grows]
    · simp [framesAt,there]

theorem framesAt_run {ds ds' : List Driven} {ms : List (Member Text WebsocketSession.Event)}
    (done : run bank ds ms = some ds') (k : Nat) :
    framesAt ds' k = framesAt ds k ++ handedAt k (ms.flatMap innerOf) := by
  induction ms generalizing ds with
  | nil => cases done; simp [handedAt]
  | cons m ms ih =>
    obtain ⟨between,first,rest⟩ := Option.bind_eq_some_iff.mp done
    rw [ih rest,framesAt_bank first]
    simp [handedAt]

/-- The sessions of a client that has not ended are those that result when each of them
    goes through what happened on its thread, connected once and called by the client:
    it calls back as a single session does, hands on each frame that it read, in order,
    and reports no abnormal disconnect once the client has disconnected it. -/
theorem sessions_call_back {nl : Nlohmann} {token : LicodeToken} {es : List Event} {w : World}
    (done : run (step nl) (World.init token) es = some w) (up : w.crashed = none) :
    ∃ ds ms, BankRun [] (es.flatMap Event.inner) ds ms ∧ ds.map Driven.session = w.sessions ∧
      ∀ k d, ds[k]? = some d → d.Protocol ∧ d.Hushed ∧ d.frames = handedAt k (es.flatMap Event.inner) := by
  have start : Related (World.init token) [] := ⟨rfl,by simp⟩
  obtain ⟨ds,ms,answer,related⟩ := (bank_simulates nl).answers start (run_stepUp done up)
  refine ⟨ds,ms,answer,related.sessions,?_⟩
  intro k d here
  have all : ∀ d ∈ ds, d.Once := by
    have always := always_of_guarded (P := fun ds => ∀ d ∈ ds, Driven.Once d)
      (fun ds m ds' known permits taken => kept_family (fun d e d' => Driven.once_step) Driven.once_opened known permits
        taken) (by simp) answer.guarded
    exact always.last answer.done
  have known := all d (List.mem_of_getElem? here)
  have frames := framesAt_run answer.done k
  rw [answer.shown] at frames
  refine ⟨Driven.protocol_of_stage known.kept.stage,Driven.hushed_of_once known,?_⟩
  simpa [framesAt,here] using frames

theorem sessions_call_back_opening :
    ∃ w, run (step noJson) (World.init ⟨[],[],false,[]⟩) opening = some w ∧ ∃ ds ms,
      BankRun [] (opening.flatMap Event.inner) ds ms ∧ ds.map Driven.session = w.sessions ∧
        ∀ k d, ds[k]? = some d → d.Protocol ∧ d.Hushed ∧ d.frames = handedAt k (opening.flatMap Event.inner) :=
  ⟨_,rfl,sessions_call_back rfl rfl⟩

end LicodeClient
