import LicodeClient.Connection
import Mathlib.Data.List.Induction

/-!
Joining, losing and leaving. For each of three promises there is a condition on
the single steps of a run that holds along the run exactly when the promise is
kept: that the room notices a lost connection (`noticed_iff`), that a join from
`kDisconnected` starts a connection and a room that connects has one to wait for
(`joinable_iff`), and that a leave ends in both states being disconnected
(`leave_effective_iff`). None of the promises is kept by every run.
-/
namespace LicodeClient
open LicodeClient.Program LicodeClient.Run

/-! ### Noticing a lost connection -/

/-- A room whose signaling is disconnected is disconnected too. -/
def Noticed (w : World) : Prop := w.signaling.state = .kDisconnect → w.room.state = .kDisconnected

/-- A join response is taken only while the signaling is up, a `41` arrives on a
    connected signaling or finds the room disconnected, and so does every failure
    that a session reports. -/
def Move.KeepsNotice (o : Outline) : Move → Prop
  | .message _ .admitted => o.signaling ≠ .kDisconnect
  | .message _ .dropped => o.signaling = .kConnected ∨ o.room = .kDisconnected
  | .fail k _ => o.reports k → o.room = .kDisconnected
  | _ => True

theorem link_noticed_iff {o : Outline} (m : Move) (noticed : o.signaling = .kDisconnect → o.room = .kDisconnected) :
    ((m.link o).signaling = .kDisconnect → (m.link o).room = .kDisconnected) ↔ m.KeepsNotice o := by
  cases m with
  | join =>
    by_cases apart : o.room = .kDisconnected <;> by_cases idle : o.signaling = .kDisconnect <;>
      simp_all [Move.link,Move.KeepsNotice]
  | leave => simpa [Move.link,Move.KeepsNotice] using noticed
  | advance k op next => simpa [Move.link,Move.KeepsNotice] using noticed
  | idle => simpa [Move.link,Move.KeepsNotice] using noticed
  | fail k op =>
    simp only [Move.link,Move.KeepsNotice]
    cases o.reports k with
    | true => simp
    | false => simpa using noticed
  | message k signal =>
    cases signal with
    | opened => simp [Move.link,Signal.link,Move.KeepsNotice]
    | admitted => simp [Move.link,Signal.link,Move.KeepsNotice]
    | refused => simp [Move.link,Signal.link,Move.KeepsNotice]
    | dropped => by_cases up : o.signaling = .kConnected <;> simp [Move.link,Signal.link,Move.KeepsNotice,up]
    | silent => simpa [Move.link,Signal.link,Move.KeepsNotice] using noticed

/-- The room notices every lost connection of a run exactly when every step of
    the run keeps the two states together. -/
theorem noticed_iff (nl : Nlohmann) (token : LicodeToken) (es : List Event) :
    Always (step nl) Noticed (World.init token) es ↔
      Guarded (step nl) (fun w e => (moveOf nl w e).KeepsNotice w.outline) (World.init token) es := by
  refine always_iff_guarded (fun _ _ _ wired _ _ taken => step_wired wired taken) ?_ (wired_init token)
    (fun _ => rfl) es
  intro w e w' wired noticed taken
  rw [← link_noticed_iff (o := w.outline) (moveOf nl w e) noticed,← step_link wired taken]
  rfl

/-- A host that cannot be resolved: the signaling gives up, the room goes on
    connecting. -/
theorem noticed_fails :
    ∃ w, run (step noJson) (World.init ⟨[],[],false,[]⟩) [.join,.resolved 0 true] = some w ∧ ¬ Noticed w :=
  ⟨_,rfl,by unfold Noticed; decide⟩

/-! ### Joining -/

/-- `Init`, as `Join` calls it, returns true and starts to connect with the token. -/
def InitSucceeds (w : World) : Prop :=
  ∃ w' session, (signalingInit w.room.token).run { w with room.state := .kConnecting } = .ok true w' ∧
    w'.signaling.token = w.room.token ∧ w'.signaling.websocket = some w.sessions.length ∧
    w'.sessions = w.sessions ++ [session] ∧ session.outstanding = [.resolve]

/-- A connection attempt or a token response is waited for: the signaling is
    connecting or connected and its session has an operation under way. -/
def Attempting (w : World) : Prop :=
  w.signaling.state ≠ .kDisconnect ∧ ∃ c, w.signaling.websocket = some c ∧ (w.session c).outstanding ≠ []

/-- As long as the process lives, a join from `kDisconnected` really joins and
    `kConnecting` means that there is something to wait for. -/
structure Joinable (w : World) : Prop where
  starts : w.crashed = none → w.room.state = .kDisconnected → InitSucceeds w
  waits : w.crashed = none → w.room.state = .kConnecting → Attempting w

theorem initSucceeds_iff (w : World) : InitSucceeds w ↔ w.signaling.state = .kDisconnect := by
  constructor
  · rintro ⟨w',session,runs,-⟩
    by_contra up
    simp [signalingInit,up] at runs
  · intro idle
    exact ⟨_,newSession _,by simp [signalingInit,idle]; rfl,rfl,rfl,rfl,rfl⟩

namespace Outline

/-- The current session has an operation under way. -/
def Busy (o : Outline) : Prop := ∃ c, o.websocket = some c ∧ o.waits[c]?.getD [] ≠ []

/-- `Joinable` of a process that lives. -/
def Joinable (o : Outline) : Prop :=
  (o.room = .kDisconnected → o.signaling = .kDisconnect) ∧ (o.room = .kConnecting → o.signaling ≠ .kDisconnect ∧ o.Busy)

/-- Operations that follow one another keep the session busy. -/
theorem busy_modify {o o' : Outline} {k : Nat} {h : List Operation → List Operation} (busy : o.Busy)
    (same : o'.websocket = o.websocket) (waits : o'.waits = o.waits.modify k h) (follow : ∀ ops, h ops ≠ []) :
    o'.Busy := by
  obtain ⟨c,current,waited⟩ := busy
  refine ⟨c,same.trans current,?_⟩
  rw [waits,List.getElem?_modify]
  cases found : o.waits[c]? with
  | none => simp [found] at waited
  | some ops =>
    by_cases here : k = c
    · simpa [here] using follow ops
    · simpa [here,found] using waited

end Outline

theorem attempting_iff (w : World) : Attempting w ↔ w.outline.signaling ≠ .kDisconnect ∧ w.outline.Busy := by
  have same : ∀ c, w.outline.waits[c]?.getD [] = (w.session c).outstanding := by
    intro c
    simp only [Outline.waits,World.outline,World.session,List.map_map,List.getElem?_map,List.getD_eq_getElem?_getD]
    cases w.sessions[c]? <;> rfl
  simp only [Attempting,Outline.Busy,same]
  rfl

theorem joinable_outline {w : World} (lives : w.crashed = none) : Joinable w ↔ w.outline.Joinable := by
  constructor
  · rintro ⟨starts,waits⟩
    exact ⟨fun apart => (initSucceeds_iff w).mp (starts lives apart),
      fun joining => (attempting_iff w).mp (waits lives joining)⟩
  · rintro ⟨starts,waits⟩
    exact ⟨fun _ apart => (initSucceeds_iff w).mpr (starts apart),
      fun _ joining => (attempting_iff w).mpr (waits joining)⟩

/-- The signaling opens only for a room that wants it, a refusal finds the
    signaling disconnected, a `41` does not interrupt a room that is connecting
    before the signaling is connected, and a room that is connecting loses neither
    its own session nor another one that reports it. -/
def Move.KeepsJoinable (o : Outline) : Move → Prop
  | .message _ .opened => o.room ≠ .kDisconnected
  | .message _ .refused => o.signaling = .kDisconnect
  | .message _ .dropped => o.signaling = .kConnected ∨ o.room ≠ .kConnecting
  | .fail k _ => o.room = .kConnecting → o.reports k = false ∧ o.websocket ≠ some k
  | _ => True

/-- A failure ends the only operation that its session waits for. -/
theorem busy_fail {o : Outline} {k : Nat} {op : Operation} (wired : o.Wired) (due : (Move.fail k op).Due o)
    (busy : o.Busy) :
    ((Move.fail k op).apply true o).Busy ↔ o.websocket ≠ some k := by
  obtain ⟨c,current,waited⟩ := busy
  have waits := waits_apply true (.fail k op) o
  simp only [Outline.Busy,Move.websocket_apply,waits,Move.wait,List.getElem?_modify,current,Option.some.injEq]
  constructor
  · rintro ⟨d,rfl,after⟩ same
    cases same
    cases found : o.waits[k]? with
    | none => simp [found] at waited
    | some ops =>
      have one := wired.single ops (List.mem_of_getElem? found)
      have less := List.length_erase_of_mem (due ops found)
      have empty : ops.erase op = [] := List.eq_nil_of_length_eq_zero (by omega)
      simp [found,empty] at after
  · intro other
    refine ⟨c,rfl,?_⟩
    have apart : ¬ k = c := fun same => other (congrArg some same.symm)
    cases found : o.waits[c]? with
    | none => simp [found] at waited
    | some ops => simpa [found,apart] using waited

theorem apply_joinable_iff {o : Outline} {m : Move} (wired : o.Wired) (due : m.Due o) (joinable : o.Joinable) :
    (m.apply true o).Joinable ↔ m.KeepsJoinable o := by
  have busy : ∀ {k : Nat} {h : List Operation → List Operation}, (m.apply true o).websocket = o.websocket →
      m.wait true o = o.waits.modify k h → (∀ ops, h ops ≠ []) → o.Busy → (m.apply true o).Busy :=
    fun same waits follow busy => Outline.busy_modify busy same ((waits_apply true m o).trans waits) follow
  have link := link_apply true m o
  obtain ⟨starts,waits⟩ := joinable
  unfold Outline.Joinable
  rw [link]
  cases m with
  | join =>
    by_cases apart : o.room = .kDisconnected
    · have fresh : (Move.join.apply true o).Busy := by
        refine ⟨o.waits.length,?_,?_⟩
        · simp [Move.websocket_apply,apart,starts apart]
        · simp [waits_apply,Move.wait,apart,starts apart]
      simp [Move.link,Move.KeepsJoinable,apart,starts apart,fresh]
    · simp only [Move.link,Move.KeepsJoinable,Move.apply,apart,not_false_eq_true,if_true,ne_eq]
      exact ⟨fun _ => trivial,fun _ => ⟨fun h => absurd h id,waits⟩⟩
  | leave =>
    have same : o.Busy → (Move.leave.apply true o).Busy := by
      rintro ⟨c,current,waited⟩
      exact ⟨c,by rw [Move.websocket_apply]; exact current,by rw [waits_apply]; exact waited⟩
    exact ⟨fun _ => trivial,fun _ => ⟨starts,fun joining => ⟨(waits joining).1,same (waits joining).2⟩⟩⟩
  | advance k op next =>
    have goes := busy (Move.websocket_apply ..) rfl (fun ops => by simp)
    exact ⟨fun _ => trivial,fun _ => ⟨starts,fun joining => ⟨(waits joining).1,goes (waits joining).2⟩⟩⟩
  | idle => exact ⟨fun _ => trivial,fun _ => ⟨starts,waits⟩⟩
  | fail k op =>
    cases reported : o.reports k with
    | true => simp [Move.link,Move.KeepsJoinable,reported]
    | false =>
      have ends := fun joining => busy_fail wired due (waits joining).2
      simp only [Move.link,Move.KeepsJoinable,reported,Bool.false_eq_true,if_false,true_and]
      exact ⟨fun h joining => (ends joining).mp (h.2 joining).2,
        fun h => ⟨starts,fun joining => ⟨(waits joining).1,(ends joining).mpr (h joining)⟩⟩⟩
  | message k signal =>
    have goes := busy (Move.websocket_apply ..) rfl (fun ops => by simp)
    cases signal with
    | opened =>
      simp only [Move.link,Signal.link,Move.KeepsJoinable,reduceCtorEq,imp_false,not_false_eq_true,true_and,ne_eq]
      exact ⟨fun h => h.1,fun h => ⟨h,fun joining => goes (waits joining).2⟩⟩
    | admitted => simp [Move.link,Signal.link,Move.KeepsJoinable]
    | refused => simp [Move.link,Signal.link,Move.KeepsJoinable]
    | dropped => by_cases up : o.signaling = .kConnected <;> simp [Move.link,Signal.link,Move.KeepsJoinable,up]
    | silent => exact ⟨fun _ => trivial,fun _ => ⟨starts,fun joining => ⟨(waits joining).1,goes (waits joining).2⟩⟩⟩

theorem keepsJoinable_of_quiet {m : Move} {o : Outline} (quiet : m.loud ≠ true) : m.KeepsJoinable o := by
  cases m with
  | fail k op => exact absurd rfl quiet
  | message k signal =>
    cases signal with
    | silent => trivial
    | _ => exact absurd rfl quiet
  | _ => trivial

/-- Every join of a run from `kDisconnected` can start a connection, and a room
    that is connecting waits for one, exactly when every step of the run keeps it
    so. -/
theorem joinable_iff (nl : Nlohmann) (token : LicodeToken) (es : List Event) :
    Always (step nl) Joinable (World.init token) es ↔
      Guarded (step nl) (fun w e => (moveOf nl w e).KeepsJoinable w.outline) (World.init token) es := by
  refine always_iff_guarded (fun _ _ _ wired _ _ taken => step_wired wired taken) ?_ (wired_init token) ?_ es
  · intro w e w' wired joinable taken
    have lived := (step_eq_some taken).1
    have moved := step_outline wired taken
    cases lives : w'.crashed with
    | none =>
      rw [joinable_outline lives,moved,lives]
      exact apply_joinable_iff wired (step_due taken) ((joinable_outline lived).mp joinable)
    | some fault =>
      have quiet : (moveOf nl w e).loud ≠ true := fun loud => by simp [step_loud wired taken loud] at lives
      exact ⟨fun _ => keepsJoinable_of_quiet quiet,
        fun _ => ⟨fun lived => by simp [lives] at lived,fun lived => by simp [lives] at lived⟩⟩
  · exact (joinable_outline rfl).mpr ⟨fun _ => rfl,fun joining => by cases joining⟩

/-- A token response that cannot be parsed: the room is disconnected, the
    signaling stays connected and refuses the next join. -/
theorem joinable_fails :
    ∃ w, run (step noJson) (World.init ⟨[],[],false,[]⟩) (opening ++ [.read 0 (some (lit "43111"))]) = some w ∧
      ¬ Joinable w := by
  refine ⟨_,rfl,fun joinable => ?_⟩
  have idle := (initSucceeds_iff _).mp (joinable.starts (by decide) (by decide))
  exact absurd idle (by decide)

/-! ### Leaving -/

/-- Nothing of the network is outstanding: no operation, no posted handler and no
    write. -/
def Quiet (w : World) : Prop :=
  w.crashed = none ∧ ∀ s ∈ w.sessions, s.outstanding = [] ∧ s.posted = [] ∧ s.writing = false

/-- What a leave promises about the events that follow it, from `w` right after
    it to `w'`: the room is not admitted any more, and once the network is quiet
    both states are disconnected. -/
structure LeaveEffective (nl : Nlohmann) (w : World) (post : List Event) (w' : World) : Prop where
  apart : Guarded (step nl) (fun v e => ∀ v', step nl v e = some v' → v'.room.state = .kConnected →
    v.room.state = .kConnected)
    w post
  settled : Quiet w' → w'.room.state = .kDisconnected ∧ w'.signaling.state = .kDisconnect

/-- What the room and its signaling hear: a `40`, a token response that admits the
    room or refuses it, a `41`, and the failure of an operation on a session that
    was not told to close. -/
inductive Word where
  | opened
  | admitted
  | refused
  | dropped
  | lost
  deriving DecidableEq

def Move.word (o : Outline) : Move → Option Word
  | .message _ .opened => some .opened
  | .message _ .admitted => some .admitted
  | .message _ .refused => some .refused
  | .message _ .dropped => some .dropped
  | .fail k _ => if o.reports k then some .lost else none
  | _ => none

/-- The words that are heard during a run, in order. -/
def words (nl : Nlohmann) : World → List Event → List Word :=
  trace (step nl) (fun v e => (moveOf nl v e).word v.outline)

/-- The signaling is up after some words: the last `40` was followed by no `41` and
    by no failure, or it was connected from the start and heard none. -/
def Up (start : SignalingState) (ws : List Word) : Prop :=
  (∃ before later, ws = before ++ .opened :: later ∧ .dropped ∉ later ∧ .lost ∉ later) ∨
    start = .kConnected ∧ .dropped ∉ ws ∧ .lost ∉ ws

/-- The signaling is shut after some words: a `41` or a failure was followed by no
    `40`, or it was disconnected from the start and heard none. -/
def Shut (start : SignalingState) (ws : List Word) : Prop :=
  (∃ before word later, ws = before ++ word :: later ∧ (word = .dropped ∨ word = .lost) ∧ .opened ∉ later) ∨
    start = .kDisconnect ∧ .opened ∉ ws

/-- The server has closed the room: it has refused the token, or sent a `41` while
    the signaling was up. -/
def Closed (start : SignalingState) (ws : List Word) : Prop :=
  ∃ before word later, ws = before ++ word :: later ∧ (word = .refused ∨ word = .dropped ∧ Up start before)

/-- The condition on what is heard after a leave: the token is accepted only for a
    room that was connected at the leave and that the server has not closed since;
    and if the network gets quiet, the server has closed the room, and the
    signaling is shut. -/
structure ServerEnds (nl : Nlohmann) (w : World) (post : List Event) (w' : World) : Prop where
  unadmitted : ∀ before later, words nl w post = before ++ .admitted :: later →
    w.room.state = .kConnected ∧ ¬ Closed w.signaling.state before
  closed : Quiet w' → Closed w.signaling.state (words nl w post)
  shut : Quiet w' → Shut w.signaling.state (words nl w post)

/-! ### What words do -/

/-- The two states after a word. -/
def Word.link (l : Link) : Word → Link
  | .opened => { l with signaling := .kConnected }
  | .admitted => { l with room := .kConnected }
  | .refused => { l with room := .kDisconnected }
  | .dropped => ⟨if l.signaling = .kConnected then .kDisconnected else l.room,.kDisconnect⟩
  | .lost => { l with signaling := .kDisconnect }

theorem link_word (m : Move) (o : Outline) (other : m ≠ .join) :
    m.link o = (m.word o).toList.foldl Word.link o.toLink := by
  cases m with
  | join => exact absurd rfl other
  | fail k op => cases reported : o.reports k <;> simp [Move.link,Move.word,Word.link,reported]
  | message k signal => cases signal <;> rfl
  | _ => rfl

/-- Where a list with one more element can be split. -/
theorem concat_eq_append_cons {α : Type*} {xs before later : List α} {x a : α} :
    xs ++ [x] = before ++ a :: later ↔
      before = xs ∧ a = x ∧ later = [] ∨ ∃ rest, later = rest ++ [x] ∧ xs = before ++ a :: rest := by
  constructor
  · intro same
    rcases List.eq_nil_or_concat later with rfl | ⟨rest,y,rfl⟩
    · obtain ⟨left,right⟩ := List.append_inj' same rfl
      exact .inl ⟨left.symm,(List.singleton_inj.mp right).symm,rfl⟩
    · have whole : xs ++ [x] = (before ++ a :: rest) ++ [y] := by simpa using same
      obtain ⟨left,right⟩ := List.append_inj' whole rfl
      cases right
      exact .inr ⟨rest,by simp,left⟩
  · rintro (⟨rfl,rfl,rfl⟩ | ⟨rest,rfl,rfl⟩)
    · rfl
    · simp

section
variable {start : SignalingState} {ws : List Word} {word : Word}

theorem up_concat : Up start (ws ++ [word]) ↔ word = .opened ∨ Up start ws ∧ word ≠ .dropped ∧ word ≠ .lost := by
  constructor
  · rintro (⟨before,later,split,undropped,unlost⟩ | ⟨connected,undropped,unlost⟩)
    · rcases concat_eq_append_cons.mp split with ⟨-,last,-⟩ | ⟨rest,rfl,rfl⟩
      · exact .inl last.symm
      · simp only [List.mem_append,List.mem_singleton,not_or] at undropped unlost
        exact .inr ⟨.inl ⟨before,rest,rfl,undropped.1,unlost.1⟩,Ne.symm undropped.2,Ne.symm unlost.2⟩
    · simp only [List.mem_append,List.mem_singleton,not_or] at undropped unlost
      exact .inr ⟨.inr ⟨connected,undropped.1,unlost.1⟩,Ne.symm undropped.2,Ne.symm unlost.2⟩
  · rintro (rfl | ⟨⟨before,later,rfl,undropped,unlost⟩ | ⟨connected,undropped,unlost⟩,other,another⟩)
    · exact .inl ⟨ws,[],rfl,by simp,by simp⟩
    · exact .inl ⟨before,later ++ [word],by simp,by simp [undropped,Ne.symm other],by simp [unlost,Ne.symm another]⟩
    · exact .inr ⟨connected,by simp [undropped,Ne.symm other],by simp [unlost,Ne.symm another]⟩

theorem shut_concat :
    Shut start (ws ++ [word]) ↔ (word = .dropped ∨ word = .lost) ∨ Shut start ws ∧ word ≠ .opened := by
  constructor
  · rintro (⟨before,last,later,split,shuts,unopened⟩ | ⟨disconnected,unopened⟩)
    · rcases concat_eq_append_cons.mp split with ⟨-,rfl,-⟩ | ⟨rest,rfl,rfl⟩
      · exact .inl shuts
      · simp only [List.mem_append,List.mem_singleton,not_or] at unopened
        exact .inr ⟨.inl ⟨before,last,rest,rfl,shuts,unopened.1⟩,Ne.symm unopened.2⟩
    · simp only [List.mem_append,List.mem_singleton,not_or] at unopened
      exact .inr ⟨.inr ⟨disconnected,unopened.1⟩,Ne.symm unopened.2⟩
  · rintro (shuts | ⟨⟨before,last,later,rfl,shuts,unopened⟩ | ⟨disconnected,unopened⟩,other⟩)
    · exact .inl ⟨ws,word,[],rfl,shuts,by simp⟩
    · exact .inl ⟨before,last,later ++ [word],by simp,shuts,by simp [unopened,Ne.symm other]⟩
    · exact .inr ⟨disconnected,by simp [unopened,Ne.symm other]⟩

theorem closed_concat :
    Closed start (ws ++ [word]) ↔ Closed start ws ∨ word = .refused ∨ word = .dropped ∧ Up start ws := by
  constructor
  · rintro ⟨before,last,later,split,closes⟩
    rcases concat_eq_append_cons.mp split with ⟨rfl,rfl,-⟩ | ⟨rest,rfl,rfl⟩
    · exact .inr closes
    · exact .inl ⟨before,last,rest,rfl,closes⟩
  · rintro (⟨before,last,later,rfl,closes⟩ | closes)
    · exact ⟨before,last,later ++ [word],by simp,closes⟩
    · exact ⟨ws,word,[],rfl,closes⟩

end

section
variable {l : Link} {ws : List Word}

/-- The signaling's state after some words, told by the words. -/
theorem signaling_words (l : Link) (ws : List Word) :
    ((ws.foldl Word.link l).signaling = .kConnected ↔ Up l.signaling ws) ∧
      ((ws.foldl Word.link l).signaling = .kDisconnect ↔ Shut l.signaling ws) := by
  induction ws using List.reverseRecOn with
  | nil => simp [Up,Shut]
  | append_singleton ws word ih =>
    rw [List.foldl_append,up_concat,shut_concat,← ih.1,← ih.2]
    cases word <;> simp [Word.link]

/-- The token is accepted only while the room is connected. -/
def Admitting (l : Link) (ws : List Word) : Prop :=
  ∀ before later, ws = before ++ .admitted :: later → (before.foldl Word.link l).room = .kConnected

theorem admitting_cons {word : Word} :
    Admitting l (word :: ws) ↔ (word = .admitted → l.room = .kConnected) ∧ Admitting (word.link l) ws := by
  constructor
  · intro all
    exact ⟨fun here => all [] ws (by rw [here]; rfl),
      fun before later split => all (word :: before) later (by rw [split]; rfl)⟩
  · rintro ⟨here,rest⟩ before later split
    cases before with
    | nil => exact here (List.cons.inj split).1
    | cons first before =>
      obtain ⟨rfl,inner⟩ := List.cons.inj split
      exact rest before later inner

/-- Words that admit nobody anew leave the room as it was, unless they close it. -/
theorem room_words (admitting : Admitting l ws) :
    (Closed l.signaling ws → (ws.foldl Word.link l).room = .kDisconnected) ∧
      (¬ Closed l.signaling ws → (ws.foldl Word.link l).room = l.room) := by
  induction ws using List.reverseRecOn with
  | nil => exact ⟨fun ⟨before,_,_,split,_⟩ => by simp at split,fun _ => rfl⟩
  | append_singleton ws word ih =>
    have before : Admitting l ws := fun first later split => admitting first (later ++ [word]) (by simp [split])
    obtain ⟨closed,kept⟩ := ih before
    have up := (signaling_words l ws).1
    rw [closed_concat,List.foldl_append]
    simp only [List.foldl_cons,List.foldl_nil]
    cases word with
    | admitted =>
      have connected := admitting ws [] rfl
      have unclosed : ¬ Closed l.signaling ws := fun now => by simp [closed now] at connected
      simp [unclosed,Word.link,← kept unclosed,connected]
    | refused => simp [Word.link]
    | dropped =>
      by_cases connected : Up l.signaling ws
      · simp [Word.link,up.mpr connected,connected]
      · have down : (ws.foldl Word.link l).signaling ≠ .kConnected := fun now => connected (up.mp now)
        simpa [Word.link,down,connected] using ⟨closed,kept⟩
    | opened => simpa [Word.link] using ⟨closed,kept⟩
    | lost => simpa [Word.link] using ⟨closed,kept⟩

/-- A token is accepted only while the room is connected exactly when the room was
    connected at the start and not closed before. -/
theorem admitting_iff : Admitting l ws ↔
    ∀ before later, ws = before ++ .admitted :: later → l.room = .kConnected ∧ ¬ Closed l.signaling before := by
  constructor
  · intro admitting before later split
    have connected := admitting before later split
    have first : Admitting l before := fun b r split' => admitting b (r ++ .admitted :: later) (by simp [split,split'])
    obtain ⟨closed,kept⟩ := room_words first
    have unclosed : ¬ Closed l.signaling before := fun now => by simp [closed now] at connected
    exact ⟨(kept unclosed).symm.trans connected,unclosed⟩
  · induction ws using List.reverseRecOn with
    | nil => exact fun _ before later split => by simp at split
    | append_singleton ws word ih =>
      intro all before later split
      have first : Admitting l ws := ih (fun b r split' => all b (r ++ [word]) (by simp [split']))
      rcases concat_eq_append_cons.mp split with ⟨rfl,-,-⟩ | ⟨rest,-,split'⟩
      · obtain ⟨connected,unclosed⟩ := all before later split
        exact ((room_words first).2 unclosed).trans connected
      · exact first before rest split'

end

/-! ### The end of a leave -/

theorem step_word {nl : Nlohmann} {w w' : World} {e : Event} (wired : w.outline.Wired) (other : e ≠ .join)
    (taken : step nl w e = some w') :
    w'.outline.toLink = ((moveOf nl w e).word w.outline).toList.foldl Word.link w.outline.toLink := by
  rw [step_link wired taken,link_word]
  cases e with
  | join => exact absurd rfl other
  | resolved k failed => cases failed <;> simp [moveOf]
  | connected k failed => cases failed <;> simp [moveOf]
  | handshaken k failed => cases failed <;> simp [moveOf]
  | read k frame => cases frame <;> simp [moveOf]
  | _ => simp [moveOf]

/-- The room is not admitted during a run exactly when no token is accepted while
    it is apart. -/
theorem apart_iff {nl : Nlohmann} {post : List Event} {w w' : World} (wired : w.outline.Wired) (unjoined : .join ∉ post)
    (rest : run (step nl) w post = some w') :
    Guarded (step nl) (fun v e => ∀ v', step nl v e = some v' → v'.room.state = .kConnected →
      v.room.state = .kConnected) w post ↔ Admitting w.outline.toLink (words nl w post) := by
  induction post generalizing w with
  | nil => exact iff_of_true trivial (fun before later split => by simp [words,trace] at split)
  | cons e post ih =>
    obtain ⟨v,taken,rest⟩ := Option.bind_eq_some_iff.mp rest
    obtain ⟨other,unjoined⟩ := List.ne_and_not_mem_of_not_mem_cons unjoined
    have word := step_word wired (Ne.symm other) taken
    have later := ih (step_wired wired taken) unjoined rest
    have here : (∀ v', step nl w e = some v' → v'.room.state = .kConnected → w.room.state = .kConnected) ↔
        (v.outline.toLink.room = .kConnected → w.outline.toLink.room = .kConnected) :=
      ⟨fun all => all v taken,fun one v' taken' => by cases taken.symm.trans taken'; exact one⟩
    have split : Guarded (step nl) (fun v e => ∀ v', step nl v e = some v' → v'.room.state = .kConnected →
        v.room.state = .kConnected) w (e :: post) ↔
        (v.outline.toLink.room = .kConnected → w.outline.toLink.room = .kConnected) ∧
          Admitting v.outline.toLink (words nl v post) := by
      rw [← here,← later]
      exact ⟨fun all => all v taken,fun both v' taken' => by cases taken.symm.trans taken'; exact both⟩
    rw [split,words,trace_cons taken,word]
    cases heard : (moveOf nl w e).word w.outline with
    | none => simp
    | some word =>
      simp only [Option.toList_some,List.singleton_append,List.foldl_cons,List.foldl_nil,admitting_cons]
      refine and_congr ?_ Iff.rfl
      cases word with
      | dropped => by_cases up : w.outline.signaling = .kConnected <;> simp [Word.link,up]
      | _ => simp [Word.link]

/-- A leave keeps its promise exactly when the server does its work: the leave
    itself changes neither state. -/
theorem leave_effective_iff {nl : Nlohmann} {token : LicodeToken} {pre post : List Event} {w w₁ w₂ : World}
    (before : run (step nl) (World.init token) pre = some w) (present : w.room.state ≠ .kDisconnected)
    (left : step nl w .leave = some w₁) (unjoined : .join ∉ post) (rest : run (step nl) w₁ post = some w₂) :
    LeaveEffective nl w₁ post w₂ ↔ ServerEnds nl w₁ post w₂ := by
  have keep : ∀ v e v', v.outline.Wired → step nl v e = some v' → v'.outline.Wired := fun _ _ _ => step_wired
  have wired : w.outline.Wired := (always_of_invariant keep (wired_init token) pre).last before
  have wired₁ := keep w .leave w₁ wired left
  have unmoved : w₁.outline.toLink = w.outline.toLink := step_link wired left
  have present₁ : w₁.outline.toLink.room ≠ .kDisconnected := unmoved ▸ present
  have ends : w₂.outline.toLink = (words nl w₁ post).foldl Word.link w₁.outline.toLink :=
    run_trace Word.link (fun v => v.outline.toLink) keep
      (fun _ _ _ wired other taken => step_word wired other taken) wired₁
      (fun e member same => unjoined (same ▸ member)) rest
  have shut := (signaling_words w₁.outline.toLink (words nl w₁ post)).2
  have apart := apart_iff wired₁ unjoined rest
  have closes : Admitting w₁.outline.toLink (words nl w₁ post) →
      (w₂.outline.toLink.room = .kDisconnected ↔ Closed w₁.outline.toLink.signaling (words nl w₁ post)) := by
    intro admitting
    obtain ⟨closed,kept⟩ := room_words admitting
    rw [ends]
    exact ⟨fun gone => by_contra (fun unclosed => present₁ ((kept unclosed).symm.trans gone)),closed⟩
  rw [← ends] at shut
  constructor
  · rintro ⟨unadmitted,settled⟩
    have admitting := apart.mp unadmitted
    exact ⟨admitting_iff.mp admitting,fun quiet => (closes admitting).mp (settled quiet).1,
      fun quiet => shut.mp (settled quiet).2⟩
  · rintro ⟨unadmitted,closed,shuts⟩
    have admitting : Admitting w₁.outline.toLink (words nl w₁ post) := admitting_iff.mpr unadmitted
    exact ⟨apart.mpr admitting,fun quiet => ⟨(closes admitting).mpr (closed quiet),shut.mpr (shuts quiet)⟩⟩

/-- The server answers the leave with a `41`, the session is closed and its read
    ends. -/
def dropping : List Event :=
  [.read 0 (some (lit "41")),.posted 0 true,.wrote 0 true,.posted 0 true,.posted 0 true,.read 0 none]

/-- A leave that the server answers with a `41` is effective. -/
theorem leave_effective_iff_dropping :
    ∃ w w₁ w₂, run (step noJson) (World.init ⟨[],[],false,[]⟩) opening = some w ∧ w.room.state = .kConnecting ∧
      step noJson w .leave = some w₁ ∧ .join ∉ dropping ∧ run (step noJson) w₁ dropping = some w₂ ∧ Quiet w₂ ∧
      words noJson w₁ dropping = [.dropped] ∧ ServerEnds noJson w₁ dropping w₂ ∧
      LeaveEffective noJson w₁ dropping w₂ := by
  have unjoined : Event.join ∉ dropping := by simp [dropping]
  refine ⟨_,_,_,rfl,by decide,rfl,unjoined,rfl,by unfold Quiet; decide,rfl,?_⟩
  refine (fun ends => ⟨ends,(leave_effective_iff (show run (step noJson) (World.init ⟨[],[],false,[]⟩) opening = some _
    from rfl) (by decide) rfl unjoined rfl).mpr ends⟩) ?_
  refine ⟨fun before later split => ?_,fun _ => ⟨[],.dropped,[],rfl,.inr ⟨rfl,.inr ⟨rfl,by simp,by simp⟩⟩⟩,
    fun _ => .inl ⟨[],.dropped,[],rfl,.inl rfl,by simp⟩⟩
  have heard : [Word.dropped] = before ++ .admitted :: later := split
  cases before with
  | nil => cases heard
  | cons first before => simp at heard

/-- The end of a connection that was closed while its token frame was posted. -/
def closing : List Event := [.posted 0 true,.wrote 0 true,.posted 0 true,.read 0 none]

/-- A leave before the token is answered: the session is closed without a word to
    the signaling, and both states stay as they were. -/
theorem leave_effective_fails :
    ∃ w w₁ w₂, run (step noJson) (World.init ⟨[],[],false,[]⟩) opening = some w ∧ w.room.state = .kConnecting ∧
      step noJson w .leave = some w₁ ∧ run (step noJson) w₁ closing = some w₂ ∧ .join ∉ closing ∧ Quiet w₂ ∧
      w₂.room.state = .kConnecting ∧ w₂.signaling.state = .kConnected ∧ ¬ LeaveEffective noJson w₁ closing w₂ := by
  refine ⟨_,_,_,rfl,by decide,rfl,rfl,by simp [closing],?_,by decide,by decide,fun effective => ?_⟩
  · unfold Quiet
    decide
  · exact absurd (effective.settled (by unfold Quiet; decide)).1 (by decide)

end LicodeClient
