import LicodeClient.Lib.Run
import LicodeClient.Websocket

/-!
A `WebsocketSession` by itself, driven by whoever owns it and by the network, in
any order. Its handlers run one at a time on the session's thread. A handler that
calls back is cut there, since the owner may call the session in turn before the
callback returns; what is left of it runs when it does (`returned`). Beside the
session stand the calls of `Connect` and `Disconnect` and the callbacks, in order,
and the frames that were read.
-/
namespace LicodeClient
open LicodeClient.Run

namespace WebsocketSession

/-- The calls that a session makes to its owner. -/
inductive Callback where
  | ready
  | message (msg : Text)
  | abnormal
  deriving DecidableEq

/-- The setters of the callbacks, told whether they are given one. -/
inductive Setter where
  | onReady (callback : Bool)
  | onReceiveMsg (callback : Bool)
  | onAbnormalDisconnect (callback : Bool)
  deriving DecidableEq

def Setter.apply (s : WebsocketSession) : Setter → WebsocketSession
  | .onReady callback => s.setOnReadyCallback callback
  | .onReceiveMsg callback => s.setOnReceiveMsgCallback callback
  | .onAbnormalDisconnect callback => s.setOnAbnormalDisconnectCallback callback

/-- What can happen to a session. A read adds data to the buffer whether it
    fails or not; `posted` runs the next posted handler and says whether a stream
    that it closes closes without an error. -/
inductive Event where
  | set (setter : Setter)
  | connect
  | disconnect
  | sendMsg (msg : Packet)
  | resolved (failed : Bool)
  | connected (failed : Bool)
  | handshaken (failed : Bool)
  | read (data : Text) (failed : Bool)
  | returned
  | posted (closes : Bool)
  | wrote (succeeded : Bool)
  deriving DecidableEq

/-- What is noted of a run. -/
inductive Mark where
  | connect
  | disconnect
  | callback (c : Callback)
  deriving DecidableEq

def Mark.made : Mark → Option Callback
  | .callback c => some c
  | _ => none

end WebsocketSession

open WebsocketSession in
/-- A session with the handler whose callback has not returned, the notes of the
    run, the frames that were read, and whether a handshake has succeeded since
    which no read has failed and the stream was not closed. -/
structure Driven where
  session : WebsocketSession
  calling : Option Operation := none
  marks : List Mark := []
  frames : List Text := []
  live : Bool := false

namespace Driven
open WebsocketSession

/-- A session that was constructed and given its callbacks. -/
def prepared (url : Text) (setters : List Setter) : Driven := { session := setters.foldl Setter.apply { url } }

def callbacks (d : Driven) : List Callback := d.marks.filterMap Mark.made

/-- A callback that is installed is made. -/
def call (d : Driven) (installed : Bool) (c : Callback) : Driven :=
  if installed then { d with marks := d.marks ++ [.callback c] } else d

/-- `ProcessDisconnect`. -/
def processDisconnect (d : Driven) : Driven := d.call d.session.reports .abnormal

/-- The handler of an operation that has completed; a failure ends the chain. -/
def handle (d : Driven) (op : Operation) (failed : Bool) (next : Driven → Driven) : Option Driven :=
  if op ∈ d.session.outstanding ∧ d.calling = none then
    let d := { d with session := d.session.finish op }
    some (if failed then d.processDisconnect else next d)
  else none

/-- A posted handler runs. A close that throws ends the process. -/
def runPosted (d : Driven) (closes : Bool) : Option Driven :=
  match d.session.posted with
  | [] => none
  | .onSend msg :: rest => some { d with session := { d.session with posted := rest }.onSend msg }
  | .doClose :: rest =>
    if !d.session.isOpen then some { d with session := { d.session with posted := rest } }
    else if closes then some { d with session := { d.session with posted := rest, isOpen := false }, live := false }
    else none

/-- What is left of a handler when its callback returns. -/
def resume (d : Driven) : Option Driven :=
  match d.calling with
  | some .handshake => some { d with calling := none, session := d.session.start .read }
  | some .read => some { d with calling := none, session := { d.session with buffer := [] }.start .read }
  | _ => none

/-- One step of the session. -/
def step (d : Driven) : Event → Option Driven
  | .set setter => some { d with session := setter.apply d.session }
  | .connect => some { d with session := d.session.connect, marks := d.marks ++ [.connect] }
  | .disconnect => some { d with session := d.session.disconnect, marks := d.marks ++ [.disconnect] }
  | .sendMsg msg => some { d with session := d.session.sendMsg msg }
  | .resolved failed => d.handle .resolve failed (fun d => { d with session := d.session.start .connect })
  | .connected failed => d.handle .connect failed (fun d => { d with session := d.session.start .handshake })
  | .handshaken failed => d.handle .handshake failed (fun d =>
      { d with session := { d.session with connected := true, isOpen := true }, live := true
               calling := some .handshake }.call d.session.readyCallback .ready)
  | .read data failed =>
    ({ d with session := { d.session with buffer := d.session.buffer ++ data }, live := d.live && !failed }).handle
      .read failed (fun d => { d with frames := d.frames ++ [data], calling := some .read }.call
        d.session.receiveMsgCallback (.message d.session.buffer))
  | .returned => d.resume
  | .posted closes => if d.calling = none then d.runPosted closes else none
  | .wrote succeeded =>
    if d.session.writing ∧ d.calling = none then some { d with session := d.session.onWrite succeeded } else none

/-- The three ends of a posted handler: a frame is queued, a stream that is not
    open is left alone, an open one is closed. -/
theorem step_posted {d d' : Driven} {closes : Bool} (taken : d.step (.posted closes) = some d') :
    ∃ rest, d.calling = none ∧
      ((∃ msg, d.session.posted = .onSend msg :: rest ∧
          d' = { d with session := { d.session with posted := rest }.onSend msg }) ∨
        (d.session.posted = .doClose :: rest ∧ d.session.isOpen = false ∧
          d' = { d with session := { d.session with posted := rest } }) ∨
        (d.session.posted = .doClose :: rest ∧ d.session.isOpen = true ∧
          d' = { d with session := { d.session with posted := rest, isOpen := false }, live := false })) := by
  simp only [step,runPosted] at taken
  split at taken
  · next idle =>
    split at taken
    · cases taken
    · next msg rest posted =>
      cases taken
      exact ⟨rest,idle,.inl ⟨msg,posted,rfl⟩⟩
    · next rest posted =>
      split at taken
      · next closed =>
        cases taken
        exact ⟨rest,idle,.inr (.inl ⟨posted,by simpa using closed,rfl⟩)⟩
      · next isOpen =>
        split at taken <;> cases taken
        exact ⟨rest,idle,.inr (.inr ⟨posted,by simpa using isOpen,rfl⟩)⟩
  · cases taken

/-! ### The callbacks of a session -/

/-- The three callbacks are installed. -/
def Installed (d : Driven) : Prop :=
  d.session.readyCallback = true ∧ d.session.receiveMsgCallback = true ∧ d.session.abnormalDisconnectCallback = true

/-- The callbacks are `ready? message* abnormal?`, the messages being the frames
    that were read, each alone; one operation is under way at most. -/
structure Protocol (d : Driven) : Prop where
  word : ∃ greeting farewell, d.callbacks = greeting ++ d.frames.map .message ++ farewell ∧
    (greeting = [] ∨ greeting = [.ready]) ∧ (farewell = [] ∨ farewell = [.abnormal]) ∧
    (d.frames ≠ [] → greeting = [.ready])
  alone : .read ∈ d.session.outstanding → d.session.buffer = []
  single : d.session.outstanding.length ≤ 1

/-- No abnormal disconnect is reported once `Disconnect` was called. -/
def Hushed (d : Driven) : Prop :=
  ∀ before later, d.marks = before ++ .disconnect :: later → .callback .abnormal ∉ later

/-- No abnormal disconnect is reported once `Disconnect` was called and until
    `Connect` is. -/
def HushedApart (d : Driven) : Prop :=
  ∀ before later, d.marks = before ++ .disconnect :: later → .connect ∉ later → .callback .abnormal ∉ later

/-- What the connect and read chain and its callbacks have come to. -/
structure Talk where
  outstanding : List Operation
  buffer : Text
  calling : Option Operation
  callbacks : List Callback
  frames : List Text
  called : Bool

def talk (d : Driven) : Talk :=
  ⟨d.session.outstanding,d.session.buffer,d.calling,d.callbacks,d.frames,.connect ∈ d.marks⟩

/-- The shapes that this takes when `Connect` is called once. -/
inductive Stage : Talk → Prop where
  | idle : Stage ⟨[],[],none,[],[],false⟩
  | connecting (op : Operation) (before : op ≠ .read) : Stage ⟨[op],[],none,[],[],true⟩
  | greeting : Stage ⟨[],[],some .handshake,[.ready],[],true⟩
  | reading (frames : List Text) : Stage ⟨[.read],[],none,.ready :: frames.map .message,frames,true⟩
  | handing (buffer : Text) (frames : List Text) :
      Stage ⟨[],buffer,some .read,.ready :: frames.map .message,frames,true⟩
  | ended (buffer : Text) (frames : List Text) (greeting farewell : List Callback)
      (begins : greeting = [] ∨ greeting = [.ready]) (ends : farewell = [] ∨ farewell = [.abnormal])
      (greets : frames ≠ [] → greeting = [.ready]) :
      Stage ⟨[],buffer,none,greeting ++ frames.map .message ++ farewell,frames,true⟩

theorem protocol_of_stage {d : Driven} (stage : Stage d.talk) : d.Protocol := by
  generalize shape : d.talk = t at stage
  simp only [talk] at shape
  cases stage <;> simp only [Talk.mk.injEq] at shape <;>
    obtain ⟨outstanding,buffer,-,callbacks,frames,-⟩ := shape
  · exact ⟨⟨[],[],by simp [callbacks,frames]⟩,fun _ => buffer,by simp [outstanding]⟩
  · exact ⟨⟨[],[],by simp [callbacks,frames]⟩,fun _ => buffer,by simp [outstanding]⟩
  · exact ⟨⟨[.ready],[],by simp [callbacks,frames]⟩,fun _ => buffer,by simp [outstanding]⟩
  · exact ⟨⟨[.ready],[],by simp [callbacks,frames]⟩,fun _ => buffer,by simp [outstanding]⟩
  · exact ⟨⟨[.ready],[],by simp [callbacks,frames]⟩,fun waits => by simp [outstanding] at waits,by simp [outstanding]⟩
  · next greeting farewell begins ends greets =>
    exact ⟨⟨greeting,farewell,by rw [callbacks,frames],begins,ends,frames ▸ greets⟩,
      fun waits => by simp [outstanding] at waits,by simp [outstanding]⟩

/-- An operation of the connect chain is under way only before anything was
    called back. -/
theorem Stage.of_connecting {t : Talk} (stage : Stage t) {op : Operation} (waits : op ∈ t.outstanding)
    (before : op ≠ .read) : t = ⟨[op],[],none,[],[],true⟩ := by
  cases stage with
  | connecting op' before' => rw [List.mem_singleton.mp waits]
  | reading frames => exact absurd (List.mem_singleton.mp waits) before
  | _ => cases waits

theorem Stage.of_reading {t : Talk} (stage : Stage t) (waits : .read ∈ t.outstanding) :
    t = ⟨[.read],[],none,.ready :: t.frames.map .message,t.frames,true⟩ := by
  cases stage with
  | connecting op before => exact absurd (List.mem_singleton.mp waits).symm before
  | reading frames => rfl
  | _ => cases waits

theorem talk_call (d : Driven) (c : Callback) :
    (d.call true c).talk = { d.talk with callbacks := d.callbacks ++ [c] } := by
  simp [call,talk,callbacks,Mark.made]

theorem talk_processDisconnect (d : Driven) :
    ∃ farewell, (farewell = [] ∨ farewell = [.abnormal]) ∧
      d.processDisconnect.talk = { d.talk with callbacks := d.callbacks ++ farewell } := by
  unfold processDisconnect
  cases d.session.reports with
  | false => exact ⟨[],.inl rfl,by simp [call,talk]⟩
  | true => exact ⟨[.abnormal],.inr rfl,talk_call d _⟩

/-- A failure ends the chain, and nothing is called back after it. -/
theorem stage_processDisconnect {d : Driven} (greeting : List Callback) (outstanding : d.session.outstanding = [])
    (calling : d.calling = none) (callbacks : d.callbacks = greeting ++ d.frames.map .message)
    (begins : greeting = [] ∨ greeting = [.ready]) (greets : d.frames ≠ [] → greeting = [.ready])
    (called : .connect ∈ d.marks) : Stage d.processDisconnect.talk := by
  obtain ⟨farewell,ends,shape⟩ := talk_processDisconnect d
  rw [shape,callbacks]
  have last : Stage ⟨[],d.session.buffer,none,greeting ++ d.frames.map .message ++ farewell,d.frames,true⟩ :=
    .ended _ _ _ _ begins ends greets
  simpa only [talk,outstanding,calling,called,decide_true] using last

/-- A step of the connect chain fails, or `next` says what comes of it. -/
theorem stage_handle {d d' : Driven} {op : Operation} {failed : Bool} {next : Driven → Driven} (stage : Stage d.talk)
    (before : op ≠ .read) (taken : d.handle op failed next = some d')
    (goes : ∀ c : Driven, c.session.readyCallback = d.session.readyCallback →
      c.talk = ⟨[],[],none,[],[],true⟩ → Stage (next c).talk) : Stage d'.talk := by
  unfold handle at taken
  split at taken
  · next enabled =>
    have shape := stage.of_connecting enabled.1 before
    simp only [talk,Talk.mk.injEq,decide_eq_true_eq] at shape
    obtain ⟨outstanding,buffer,calling,callbacks,frames,called⟩ := shape
    have finished : (d.session.finish op).outstanding = [] := by simp [finish,outstanding]
    cases failed with
    | true =>
      cases taken
      have silent : d.callbacks = [] ++ d.frames.map .message := by simpa [frames] using callbacks
      exact stage_processDisconnect [] finished calling silent (.inl rfl) (fun some => absurd frames some) called
    | false =>
      cases taken
      refine goes _ rfl ?_
      simp only [talk,Talk.mk.injEq,decide_eq_true_eq]
      exact ⟨finished,buffer,calling,callbacks,frames,called⟩
  · cases taken

/-- The rest of what happens to a session leaves the chain alone. -/
def Aside : Event → Prop
  | .disconnect | .sendMsg _ | .posted _ | .wrote _ => True
  | _ => False

theorem talk_aside {d d' : Driven} {e : Event} (aside : Aside e) (taken : d.step e = some d') : d'.talk = d.talk := by
  cases e with
  | disconnect => cases taken; simp [talk,callbacks,Mark.made,disconnect]
  | sendMsg msg =>
    cases taken
    simp only [talk,callbacks,sendMsg]
    split <;> rfl
  | posted closes =>
    obtain ⟨rest,-,ran⟩ := step_posted taken
    rcases ran with ⟨msg,-,rfl⟩ | ⟨-,-,rfl⟩ | ⟨-,-,rfl⟩
    · simp only [talk,callbacks,onSend]
      split <;> rfl
    · rfl
    · rfl
  | wrote succeeded =>
    simp only [step] at taken
    split at taken
    · cases taken
      simp only [talk,callbacks,onWrite]
      split <;> rfl
    · cases taken
  | _ => exact absurd aside id

theorem talk_start (d : Driven) (op : Operation) :
    { d with session := d.session.start op }.talk = { d.talk with outstanding := d.talk.outstanding ++ [op] } := rfl

theorem talk_connect (d : Driven) :
    { d with session := d.session.connect, marks := d.marks ++ [Mark.connect] }.talk =
      { d.talk with outstanding := d.talk.outstanding ++ if d.session.connected then [] else [Operation.resolve]
                    called := true } := by
  have made : [Mark.connect].filterMap Mark.made = [] := rfl
  by_cases connected : d.session.connected <;>
    simp [talk,callbacks,WebsocketSession.connect,connected,start,made]

/-- `OnHandshake` goes on to its callback. -/
theorem stage_ready {d : Driven} (installed : d.session.readyCallback = true)
    (shape : d.talk = ⟨[],[],none,[],[],true⟩) :
    Stage ({ d with session := { d.session with connected := true, isOpen := true }, live := true
                    calling := some .handshake }.call d.session.readyCallback .ready).talk := by
  simp only [talk,Talk.mk.injEq] at shape
  obtain ⟨outstanding,buffer,-,callbacks,frames,called⟩ := shape
  rw [installed,talk_call]
  simp only [Driven.callbacks] at callbacks
  simpa only [talk,Driven.callbacks,outstanding,buffer,callbacks,frames,called,List.nil_append] using Stage.greeting

/-- `OnRead` hands over what was read, or fails. -/
theorem stage_read {d d' : Driven} {data : Text} {failed : Bool} (installed : d.session.receiveMsgCallback = true)
    (stage : Stage d.talk) (taken : d.step (.read data failed) = some d') : Stage d'.talk := by
  simp only [step,handle] at taken
  split at taken
  · next enabled =>
    have shape := stage.of_reading enabled.1
    simp only [talk,Talk.mk.injEq,decide_eq_true_eq,Driven.callbacks] at shape
    obtain ⟨outstanding,buffer,calling,callbacks,-,called⟩ := shape
    have finished : (d.session.finish .read).outstanding = [] := by simp [finish,outstanding]
    cases failed with
    | true =>
      cases taken
      exact stage_processDisconnect [.ready] finished calling callbacks (.inr rfl) (fun _ => rfl) called
    | false =>
      cases taken
      have handed : Stage ⟨[],data,some .read,.ready :: (d.frames ++ [data]).map .message,d.frames ++ [data],true⟩ :=
        .handing _ _
      simp only [finish] at finished ⊢
      simpa [call,installed,talk,Driven.callbacks,finished,buffer,callbacks,called,Mark.made] using handed
  · cases taken

/-- A callback returns and the next read is issued. -/
theorem stage_returned {d d' : Driven} (stage : Stage d.talk) (taken : d.resume = some d') : Stage d'.talk := by
  generalize shape : d.talk = t at stage
  simp only [talk] at shape
  simp only [resume] at taken
  cases stage with
  | greeting =>
    simp only [Talk.mk.injEq] at shape
    obtain ⟨outstanding,buffer,calling,callbacks,frames,called⟩ := shape
    rw [calling] at taken
    cases taken
    simp only [Driven.callbacks] at callbacks
    simp only [talk,start,Driven.callbacks,outstanding,buffer,callbacks,frames,called]
    exact .reading []
  | handing buffer frames =>
    simp only [Talk.mk.injEq] at shape
    obtain ⟨outstanding,-,calling,callbacks,frames,called⟩ := shape
    rw [calling] at taken
    cases taken
    simp only [Driven.callbacks] at callbacks
    simp only [talk,start,Driven.callbacks,outstanding,callbacks,frames,called]
    exact .reading _
  | _ =>
    simp only [Talk.mk.injEq] at shape
    rw [shape.2.2.1] at taken
    cases taken

/-- One step of a session keeps to the stages, `Connect` being called for the
    first time. -/
theorem stage_step {d d' : Driven} {e : Event} (installed : d.Installed) (stage : Stage d.talk)
    (first : e = .connect → .connect ∉ d.marks) (settled : ∀ setter, e ≠ .set setter) (taken : d.step e = some d') :
    Stage d'.talk := by
  cases e with
  | set setter => exact absurd rfl (settled setter)
  | connect =>
    have unused : d.talk.called = false := decide_eq_false (first rfl)
    cases taken
    rw [talk_connect]
    generalize d.talk = t at stage unused
    cases stage with
    | idle =>
      by_cases connected : d.session.connected
      · rw [if_pos connected]
        exact .ended [] [] [] [] (.inl rfl) (.inl rfl) (fun some => absurd rfl some)
      · rw [if_neg connected]
        exact .connecting .resolve (by decide)
    | _ => cases unused
  | resolved failed =>
    simp only [step] at taken
    refine stage_handle stage (by decide) taken (fun c _ shape => ?_)
    rw [talk_start,shape]
    exact .connecting .connect (by decide)
  | connected failed =>
    simp only [step] at taken
    refine stage_handle stage (by decide) taken (fun c _ shape => ?_)
    rw [talk_start,shape]
    exact .connecting .handshake (by decide)
  | handshaken failed =>
    simp only [step] at taken
    refine stage_handle stage (by decide) taken (fun c same shape => ?_)
    exact stage_ready (same.trans installed.1) shape
  | read data failed => exact stage_read installed.2.1 stage taken
  | returned => exact stage_returned stage taken
  | disconnect => exact talk_aside (e := .disconnect) trivial taken ▸ stage
  | sendMsg msg => exact talk_aside (e := .sendMsg msg) trivial taken ▸ stage
  | posted closes => exact talk_aside (e := .posted closes) trivial taken ▸ stage
  | wrote succeeded => exact talk_aside (e := .wrote succeeded) trivial taken ▸ stage

/-- What a step notes, and what it does to `do_disconnect_`. -/
inductive Noted (d : Driven) (e : Event) (d' : Driven) : Prop where
  | nothing (marks : d'.marks = d.marks) (flag : d'.session.doDisconnect = d.session.doDisconnect)
  | connect (event : e = .connect) (marks : d'.marks = d.marks ++ [.connect])
  | disconnect (marks : d'.marks = d.marks ++ [.disconnect]) (flag : d'.session.doDisconnect = true)
  | callback (c : Callback) (marks : d'.marks = d.marks ++ [.callback c])
      (flag : d'.session.doDisconnect = d.session.doDisconnect)
      (wanted : c = .abnormal → d.session.doDisconnect = false)

theorem noted_call {d c : Driven} {e : Event} {installed : Bool} {called : Callback} (marks : c.marks = d.marks)
    (flag : c.session.doDisconnect = d.session.doDisconnect)
    (wanted : installed = true → called = .abnormal → d.session.doDisconnect = false) :
    Noted d e (c.call installed called) := by
  cases installed with
  | false => exact .nothing marks flag
  | true => exact .callback called (congrArg (· ++ [_]) marks) flag (wanted rfl)

theorem noted_handle {d c d' : Driven} {e : Event} {op : Operation} {failed : Bool} {next : Driven → Driven}
    (taken : c.handle op failed next = some d') (marks : c.marks = d.marks)
    (flag : c.session.doDisconnect = d.session.doDisconnect)
    (goes : Noted d e (next { c with session := c.session.finish op })) : Noted d e d' := by
  unfold handle at taken
  split at taken
  · cases failed with
    | true =>
      cases taken
      refine noted_call marks flag (fun reports _ => ?_)
      rw [← flag]
      exact Bool.not_eq_true' _ ▸ (Bool.and_eq_true_iff.mp reports).1
    | false => cases taken; exact goes
  · cases taken

theorem step_noted {d d' : Driven} {e : Event} (taken : d.step e = some d') : Noted d e d' := by
  cases e with
  | set setter =>
    cases taken
    cases setter <;> exact .nothing rfl rfl
  | connect => cases taken; exact .connect rfl rfl
  | disconnect => cases taken; exact .disconnect rfl rfl
  | sendMsg msg =>
    cases taken
    refine .nothing rfl ?_
    simp only [sendMsg]
    split <;> rfl
  | resolved failed =>
    simp only [step] at taken
    exact noted_handle taken rfl rfl (.nothing rfl rfl)
  | connected failed =>
    simp only [step] at taken
    exact noted_handle taken rfl rfl (.nothing rfl rfl)
  | handshaken failed =>
    simp only [step] at taken
    exact noted_handle taken rfl rfl (noted_call rfl rfl (fun _ abnormal => by cases abnormal))
  | read data failed =>
    simp only [step] at taken
    exact noted_handle taken rfl rfl (noted_call rfl rfl (fun _ abnormal => by cases abnormal))
  | returned =>
    simp only [step,resume] at taken
    split at taken <;> cases taken <;> exact .nothing rfl rfl
  | posted closes =>
    obtain ⟨rest,-,ran⟩ := step_posted taken
    rcases ran with ⟨msg,-,rfl⟩ | ⟨-,-,rfl⟩ | ⟨-,-,rfl⟩
    · refine .nothing rfl ?_
      simp only [onSend]
      split <;> rfl
    · exact .nothing rfl rfl
    · exact .nothing rfl rfl
  | wrote succeeded =>
    simp only [step] at taken
    split at taken
    · cases taken
      refine .nothing rfl ?_
      simp only [onWrite]
      split <;> rfl
    · cases taken

theorem installed_call {d : Driven} (all : d.Installed) (installed : Bool) (c : Callback) :
    (d.call installed c).Installed := by
  cases installed <;> exact all

theorem installed_handle {d d' : Driven} {op : Operation} {failed : Bool} {next : Driven → Driven}
    (taken : d.handle op failed next = some d') (all : d.Installed)
    (goes : (next { d with session := d.session.finish op }).Installed) : d'.Installed := by
  unfold handle at taken
  split at taken
  · cases failed with
    | true =>
      cases taken
      refine installed_call ?_ _ _
      exact all
    | false => cases taken; exact goes
  · cases taken

/-- Only the setters change which callbacks are installed. -/
theorem installed_step {d d' : Driven} {e : Event} (settled : ∀ setter, e ≠ .set setter) (all : d.Installed)
    (taken : d.step e = some d') : d'.Installed := by
  cases e with
  | set setter => exact absurd rfl (settled setter)
  | connect =>
    cases taken
    simp only [Installed,connect]
    split <;> exact all
  | disconnect => cases taken; exact all
  | sendMsg msg =>
    cases taken
    simp only [Installed,sendMsg]
    split <;> exact all
  | resolved failed =>
    simp only [step] at taken
    exact installed_handle taken all all
  | connected failed =>
    simp only [step] at taken
    exact installed_handle taken all all
  | handshaken failed =>
    simp only [step] at taken
    refine installed_handle taken all (installed_call ?_ _ _)
    exact all
  | read data failed =>
    simp only [step] at taken
    refine installed_handle taken all (installed_call ?_ _ _)
    exact all
  | returned =>
    simp only [step,resume] at taken
    split at taken <;> cases taken <;> exact all
  | posted closes =>
    obtain ⟨rest,-,ran⟩ := step_posted taken
    rcases ran with ⟨msg,-,rfl⟩ | ⟨-,-,rfl⟩ | ⟨-,-,rfl⟩
    · simp only [Installed,onSend]
      split <;> exact all
    · exact all
    · exact all
  | wrote succeeded =>
    simp only [step] at taken
    split at taken
    · cases taken
      simp only [Installed,onWrite]
      split <;> exact all
    · cases taken

/-- While no `Connect` follows a `Disconnect`, `do_disconnect_` stands and nothing
    abnormal was reported since. -/
def Muted (d : Driven) : Prop :=
  ∀ before later, d.marks = before ++ .disconnect :: later → .connect ∉ later →
    d.session.doDisconnect = true ∧ .callback .abnormal ∉ later

/-- A mark at the end either is the `Disconnect` or comes after it. -/
theorem split_snoc {marks before later : List Mark} {m : Mark} (whole : marks ++ [m] = before ++ .disconnect :: later) :
    m = .disconnect ∧ later = [] ∨ ∃ rest, later = rest ++ [m] ∧ marks = before ++ .disconnect :: rest := by
  rcases later.eq_nil_or_concat with rfl | ⟨rest,last,rfl⟩
  · exact .inl ⟨(List.append_inj' whole rfl).2 |> List.singleton_inj.mp,rfl⟩
  · rw [List.concat_eq_append] at whole ⊢
    rw [← List.cons_append,← List.append_assoc] at whole
    obtain ⟨same,final⟩ := List.append_inj' whole rfl
    cases final
    exact .inr ⟨rest,rfl,same⟩

theorem muted_step {d d' : Driven} {e : Event} (muted : d.Muted) (taken : d.step e = some d') : d'.Muted := by
  intro before later whole apart
  cases step_noted taken with
  | nothing marks flag =>
    rw [flag]
    exact muted before later (marks ▸ whole) apart
  | connect event marks =>
    rcases split_snoc (marks ▸ whole) with ⟨wrong,-⟩ | ⟨rest,rfl,-⟩
    · cases wrong
    · exact absurd (List.mem_append_right rest List.mem_cons_self) apart
  | disconnect marks flag =>
    refine ⟨flag,?_⟩
    rcases split_snoc (marks ▸ whole) with ⟨-,rfl⟩ | ⟨rest,rfl,earlier⟩
    · exact List.not_mem_nil
    · have quiet := (muted before rest earlier (fun member => apart (List.mem_append_left _ member))).2
      simpa using quiet
  | callback c marks flag wanted =>
    rcases split_snoc (marks ▸ whole) with ⟨wrong,-⟩ | ⟨rest,rfl,earlier⟩
    · cases wrong
    · obtain ⟨standing,quiet⟩ := muted before rest earlier (fun member => apart (List.mem_append_left _ member))
      refine ⟨flag.trans standing,?_⟩
      have other : c ≠ .abnormal := fun same => by simp [wanted same] at standing
      simpa [quiet] using Ne.symm other

/-- What is kept while `Connect` is called at most once and no setter is. -/
structure Kept (d : Driven) : Prop where
  installed : d.Installed
  stage : Stage d.talk
  muted : d.Muted

theorem kept_step {d d' : Driven} {e : Event} (kept : d.Kept)
    (allowed : (e = .connect → .connect ∉ d.marks) ∧ ∀ setter, e ≠ .set setter) (taken : d.step e = some d') :
    d'.Kept where
  installed := installed_step allowed.2 kept.installed taken
  stage := stage_step kept.installed kept.stage allowed.1 allowed.2 taken
  muted := muted_step kept.muted taken

/-- A run that calls `Connect` once calls it for the first time. -/
theorem guarded_once {d : Driven} {es : List Event} (once : es.count .connect + d.marks.count .connect ≤ 1)
    (settled : ∀ setter, .set setter ∉ es) :
    Guarded step (fun d e => (e = .connect → .connect ∉ d.marks) ∧ ∀ setter, e ≠ .set setter) d es := by
  induction es generalizing d with
  | nil => trivial
  | cons e es ih =>
    intro d' taken
    refine ⟨⟨?_,fun setter same => settled setter (same ▸ List.mem_cons_self)⟩,
      ih ?_ (fun setter member => settled setter (List.mem_cons_of_mem e member))⟩
    · rintro rfl
      rw [List.count_cons_self] at once
      exact List.count_eq_zero.mp (by omega)
    · have counts : d'.marks.count .connect ≤ d.marks.count .connect + [e].count .connect := by
        cases step_noted taken with
        | nothing marks flag => rw [marks]; omega
        | connect event marks => simp [marks,event]
        | disconnect marks flag => simp [marks]
        | callback c marks flag wanted => simp [marks]
      rw [← List.singleton_append,List.count_append] at once
      omega

/-- The setters start nothing and read nothing. -/
theorem foldl_apply_idle (setters : List Setter) (s : WebsocketSession) :
    (setters.foldl Setter.apply s).outstanding = s.outstanding ∧ (setters.foldl Setter.apply s).buffer = s.buffer := by
  induction setters generalizing s with
  | nil => exact ⟨rfl,rfl⟩
  | cons setter setters ih => cases setter <;> exact ih _

theorem kept_prepared (url : Text) (setters : List Setter) (installed : (prepared url setters).Installed) :
    (prepared url setters).Kept := by
  refine ⟨installed,?_,?_⟩
  · obtain ⟨outstanding,buffer⟩ := foldl_apply_idle setters { url }
    simp only [prepared,talk,callbacks,outstanding,buffer]
    exact .idle
  · intro before later whole
    cases before <;> cases whole

/-- A session whose callbacks are installed and on which `Connect` is called at
    most once calls back as its owner expects. -/
theorem protocol_always (url : Text) (setters : List Setter) (installed : (prepared url setters).Installed)
    (es : List Event) (once : es.count .connect ≤ 1) (settled : ∀ setter, .set setter ∉ es) :
    Always step (fun d => d.Protocol ∧ d.HushedApart) (prepared url setters) es := by
  have all : Always step Kept (prepared url setters) es :=
    always_of_guarded (fun d e d' kept allowed taken => kept_step kept allowed taken)
      (kept_prepared url setters installed) (guarded_once once settled)
  exact all.mono (fun d kept => ⟨protocol_of_stage kept.stage,
    fun before later whole apart => (kept.muted before later whole apart).2⟩)

/-- The callbacks in the order in which `LicodeSignaling` installs them. -/
def installers : List Setter := [.onReady true,.onReceiveMsg true,.onAbnormalDisconnect true]

/-- A connection that is made, brings one frame and is closed. -/
def visit : List Event :=
  [.connect,.resolved false,.connected false,.handshaken false,.returned,.read ['2'] false,.returned,.disconnect,
    .posted true,.read [] true]

theorem protocol_always_visit :
    ((run step (prepared [] installers) visit).map (fun d => d.callbacks)) = some [.ready,.message ['2']] ∧
      Always step (fun d => d.Protocol ∧ d.HushedApart) (prepared [] installers) visit :=
  ⟨by decide,protocol_always [] installers ⟨rfl,rfl,rfl⟩ visit (by decide) (fun setter => by simp [visit])⟩

/-- `Connect` takes back a `Disconnect` that came before it. -/
theorem hushed_fails :
    ∃ d, run step (prepared [] installers) [.disconnect,.connect,.resolved true] = some d ∧ ¬ d.Hushed := by
  refine ⟨_,rfl,fun hushed => hushed [] [.connect,.callback .abnormal] rfl ?_⟩
  decide

end Driven
end LicodeClient
