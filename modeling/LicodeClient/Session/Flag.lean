import LicodeClient.Session

/-!
`IsConnected` answers with `connected_`, which a successful handshake sets and no
failure takes back, and which two of the setters of callbacks write as well. The
flag is compared here with the connection itself (`live`): what each event does
to the two is said once (`flags`), and from that the runs in which the flag can
be trusted are exactly those in which `SetOnReadyCallback` is called on a
connected session only, `SetOnAbnormalDisconnectCallback` on one that is not
only, and in which no read fails and no stream is closed under a raised flag.
-/
namespace LicodeClient
open LicodeClient.Run

namespace Driven
open WebsocketSession

/-- `IsConnected` tells the truth, and `Connect` goes on when there is no
    connection. -/
structure Truthful (d : Driven) : Prop where
  connected : d.session.connected = true → d.live = true
  connects : d.live = false → d.session.connect.outstanding = d.session.outstanding ++ [.resolve]

/-- A setter leaves `connected_` as it is. -/
def Discreet (d : Driven) (e : Event) : Prop :=
  ∀ setter, e = .set setter → (setter.apply d.session).connected = d.session.connected

/-- The setters of two callbacks. -/
def Distinct : Setter → Setter → Prop
  | .onReady _,.onReady _ | .onReceiveMsg _,.onReceiveMsg _ | .onAbnormalDisconnect _,.onAbnormalDisconnect _ => False
  | _,_ => True

/-- Two setters called one after the other do the same in either order. -/
def Commuting (d : Driven) (es : List Event) : Prop :=
  ∀ before first second later, es = before ++ .set first :: .set second :: later → Distinct first second →
    ∀ c, run step d before = some c → second.apply (first.apply c.session) = first.apply (second.apply c.session)

/-- The next posted handler closes an open stream. -/
def closing (d : Driven) : Bool := d.session.isOpen && decide (d.session.posted.head? = some .doClose)

/-- Where an event is harmless to the flag. -/
def Careful (d : Driven) : Event → Prop
  | .set (.onReady _) => d.session.connected = true
  | .set (.onAbnormalDisconnect _) => d.session.connected = false
  | .read _ true => d.session.connected = false
  | .posted _ => d.closing = true → d.session.connected = false
  | _ => True

/-- What an event makes of the flag and of the connection. -/
def flags (d : Driven) : Event → Bool × Bool
  | .set (.onReady _) => (true,d.live)
  | .set (.onAbnormalDisconnect _) => (false,d.live)
  | .handshaken false => (true,true)
  | .read _ true => (d.session.connected,false)
  | .posted _ => (d.session.connected,d.live && !d.closing)
  | _ => (d.session.connected,d.live)

theorem call_flags (d : Driven) (installed : Bool) (c : Callback) :
    ((d.call installed c).session.connected,(d.call installed c).live) = (d.session.connected,d.live) := by
  cases installed <;> rfl

theorem handle_flags {d d' : Driven} {op : Operation} {failed : Bool} {next : Driven → Driven}
    (taken : d.handle op failed next = some d') :
    (d'.session.connected,d'.live) = if failed then (d.session.connected,d.live) else
      ((next { d with session := d.session.finish op }).session.connected,
        (next { d with session := d.session.finish op }).live) := by
  unfold handle at taken
  split at taken
  · cases failed with
    | true => cases taken; exact call_flags _ _ _
    | false => cases taken; rfl
  · cases taken

theorem step_flags {d d' : Driven} {e : Event} (taken : d.step e = some d') :
    (d'.session.connected,d'.live) = d.flags e := by
  cases e with
  | set setter => cases taken; cases setter <;> rfl
  | connect =>
    cases taken
    by_cases connected : d.session.connected <;> simp [flags,WebsocketSession.connect,connected,start]
  | disconnect => cases taken; rfl
  | sendMsg msg =>
    cases taken
    simp only [flags,sendMsg]
    split <;> rfl
  | resolved failed =>
    simp only [step] at taken
    exact (handle_flags taken).trans (ite_self _)
  | connected failed =>
    simp only [step] at taken
    exact (handle_flags taken).trans (ite_self _)
  | handshaken failed =>
    simp only [step] at taken
    rw [handle_flags taken,call_flags]
    cases failed <;> rfl
  | read data failed =>
    simp only [step] at taken
    rw [handle_flags taken,call_flags]
    cases failed <;> simp [flags,finish]
  | returned =>
    simp only [step,resume] at taken
    split at taken <;> cases taken <;> rfl
  | posted closes =>
    obtain ⟨rest,-,ran⟩ := step_posted taken
    rcases ran with ⟨msg,posted,rfl⟩ | ⟨posted,closed,rfl⟩ | ⟨posted,isOpen,rfl⟩
    · simp only [flags,closing,posted,onSend]
      split <;> simp
    · simp [flags,closing,closed]
    · simp [flags,closing,posted,isOpen]
  | wrote succeeded =>
    simp only [step] at taken
    split at taken
    · cases taken
      simp only [flags,onWrite]
      split <;> rfl
    · cases taken

theorem truthful_iff_connected (d : Driven) : d.Truthful ↔ (d.session.connected = true → d.live = true) := by
  refine ⟨Truthful.connected,fun honest => ⟨honest,fun dead => ?_⟩⟩
  have down : d.session.connected = false := by
    by_contra up
    exact Bool.false_ne_true (dead.symm.trans (honest (Bool.not_eq_false _ ▸ up)))
  simp [WebsocketSession.connect,down,start]

/-- A step keeps the flag true to the connection, and a setter leaves it alone,
    exactly when the step is careful. -/
theorem truthful_step {d d' : Driven} {e : Event} (truthful : d.Truthful) (taken : d.step e = some d') :
    d'.Truthful ∧ d.Discreet e ↔ d.Careful e := by
  obtain ⟨flag,connection⟩ := Prod.ext_iff.mp (step_flags taken)
  have honest := truthful.connected
  dsimp only at flag connection
  rw [truthful_iff_connected,flag,connection]
  cases e with
  | set setter =>
    cases setter with
    | onReady callback =>
      refine ⟨fun ⟨_,discreet⟩ => (discreet _ rfl).symm,fun up => ⟨fun _ => honest up,?_⟩⟩
      rintro _ ⟨⟩
      exact up.symm
    | onReceiveMsg callback =>
      refine ⟨fun _ => trivial,fun _ => ⟨honest,?_⟩⟩
      rintro _ ⟨⟩
      rfl
    | onAbnormalDisconnect callback =>
      refine ⟨fun ⟨_,discreet⟩ => (discreet _ rfl).symm,fun down => ⟨fun up => absurd up Bool.false_ne_true,?_⟩⟩
      rintro _ ⟨⟩
      exact down.symm
  | read data failed =>
    have discreet : d.Discreet (.read data failed) := fun setter other => by cases other
    cases failed with
    | true =>
      simp only [flags,Careful,discreet,and_true]
      exact ⟨fun never => Bool.eq_false_iff.mpr (fun up => Bool.false_ne_true (never up)),
        fun down up => absurd (down.symm.trans up) Bool.false_ne_true⟩
    | false => exact ⟨fun _ => trivial,fun _ => ⟨honest,discreet⟩⟩
  | posted closes =>
    have discreet : d.Discreet (.posted closes) := fun setter other => by cases other
    simp only [flags,Careful,discreet,and_true]
    cases d.closing with
    | true =>
      simp only [Bool.not_true,Bool.and_false,forall_const]
      exact ⟨fun never => Bool.eq_false_iff.mpr (fun up => Bool.false_ne_true (never up)),
        fun down up => absurd (down.symm.trans up) Bool.false_ne_true⟩
    | false => exact ⟨fun _ closing => absurd closing Bool.false_ne_true,fun _ => by simpa using honest⟩
  | handshaken failed =>
    have discreet : d.Discreet (.handshaken failed) := fun setter other => by cases other
    cases failed with
    | true => exact ⟨fun _ => trivial,fun _ => ⟨honest,discreet⟩⟩
    | false => exact ⟨fun _ => trivial,fun _ => ⟨fun _ => rfl,discreet⟩⟩
  | _ => exact ⟨fun _ => trivial,fun _ => ⟨honest,fun setter other => by cases other⟩⟩

/-- Of two setters that are called carefully one after the other, only one
    writes the flag. -/
theorem commuting_of_careful {d : Driven} {es : List Event} (all : Guarded step Careful d es) : d.Commuting es := by
  rintro before first second later rfl distinct c done
  obtain ⟨here,rest⟩ := all.suffix done _ rfl
  have there := (rest _ rfl).1
  cases first <;> cases second <;> first | exact absurd distinct id | rfl | cases there

/-- In the runs of a session whose steps are all careful, and in no others, the
    flag tells the truth, the setters leave it alone and their order is of no
    account. -/
theorem truthful_iff (url : Text) (es : List Event) :
    (Always step Truthful (prepared url []) es ∧ Guarded step Discreet (prepared url []) es ∧
      (prepared url []).Commuting es) ↔ Guarded step Careful (prepared url []) es := by
  have fresh : (prepared url []).Truthful := (truthful_iff_connected _).mpr (fun up => absurd up Bool.false_ne_true)
  have both : Always step Truthful (prepared url []) es ∧ Guarded step Discreet (prepared url []) es ↔
      Guarded step Careful (prepared url []) es :=
    always_and_guarded_iff (fun d e d' truthful taken => truthful_step truthful taken) fresh es
  constructor
  · rintro ⟨truthful,discreet,-⟩
    exact both.mp ⟨truthful,discreet⟩
  · intro careful
    obtain ⟨truthful,discreet⟩ := both.mpr careful
    exact ⟨truthful,discreet,commuting_of_careful careful⟩

/-- With its ready callback installed last a new session takes itself for
    connected and `Connect` does nothing. -/
theorem truthful_fails :
    ∃ d, run step (prepared [] []) [.set (.onReceiveMsg true),.set (.onAbnormalDisconnect true),.set (.onReady true)] =
        some d ∧ ¬ d.Truthful ∧ d.session.connect = d.session := by
  refine ⟨_,rfl,fun truthful => ?_,rfl⟩
  exact Bool.false_ne_true (truthful.connected rfl)

end Driven
end LicodeClient
