import LicodeClient.Lib.Progress
import LicodeClient.Lib.Simulation
import LicodeClient.Nuve

/-!
`SimpleHttpSession`, through which a request to the server goes. It runs its operations
on a thread of its own, whose handlers own the session together with the caller, who
waits for a promise. A handler that fails fulfils the promise first and says what failed
afterwards, so the caller may see less than was written; whatever it sees, it returns
what `syncRequest` returns (`request_ends`). The thread is joined by whoever lets go of
the session last, which must not be the thread itself (`survives_iff`).
-/
namespace LicodeClient.Nuve
open LicodeClient.Run

/-- The operations of a session, each started by the handler of the one before. -/
inductive Operation where
  | resolve
  | connect
  | write
  | read
  deriving DecidableEq

namespace Operation

def next : Operation → Option Operation
  | .resolve => some .connect
  | .connect => some .write
  | .write => some .read
  | .read => none

/-- The operation and those after it. -/
def onwards : Operation → List Operation
  | .resolve => [.resolve,.connect,.write,.read]
  | .connect => [.connect,.write,.read]
  | .write => [.write,.read]
  | .read => [.read]

/-- What is said of an operation that failed. -/
def reason : Operation → Text
  | .resolve => lit "resolve failed"
  | .connect => lit "connect failed"
  | .write => lit "write failed"
  | .read => lit "read failed"

end Operation

/-- What the network does: which operations fail, and the answer when none does. -/
structure Network where
  fails : Operation → Bool
  answer : Response

/-- The first operation that fails. -/
def Network.failing (net : Network) : Option Operation := Operation.resolve.onwards.find? net.fails

/-- The answer as the request gets it through the network. -/
def Network.response (net : Network) : Response := if net.failing.isSome then ⟨0,[]⟩ else net.answer

/-- `response_`, as it is constructed. -/
structure HttpResponse where
  result : Nat := 200
  reason : Text := []
  body : Text := []

/-- What `LicodeNuveApi::SyncRequest` takes from the response. -/
def HttpResponse.text (r : HttpResponse) : Text := if r.result = 200 then r.body else []

/-- The statements of a handler that other threads can tell apart. -/
inductive Statement where
  | setValue (success : Bool)
  | setResult (result : Nat)
  | setReason (reason : Text)
  /-- The handler is destroyed, and with it its pointer to the session. -/
  | release
  deriving DecidableEq

/-- The branch of a handler whose operation failed. -/
def failure (op : Operation) : List Statement := [.setValue false,.setResult 0,.setReason op.reason,.release]

/-- `OnRead` without an error. -/
def success : List Statement := [.setValue true,.release]

/-- The thread that called `SyncRequest`: it waits for the promise, has copied the
    response, or is destroying the session; then it has returned. -/
inductive Caller where
  | waits
  | holds (response : HttpResponse)
  | joins (text : Text)
  | returned (text : Text)

/-- `pending` is the operation that is under way, `todo` what is left of the handler
    that is running, `stopped` and `exited` say whether the session's thread was told to
    stop and has. -/
structure SimpleHttpSession where
  pending : Option Operation := some .resolve
  todo : List Statement := []
  promise : Option Bool := none
  response : HttpResponse := {}
  caller : Caller := .waits
  stopped : Bool := false
  exited : Bool := false
  terminated : Bool := false

namespace SimpleHttpSession

/-- What happens next: the operation ends, or one of the two threads goes on. -/
inductive Event where
  | completed
  | io
  | caller

/-- `OnResolve`, `OnConnect`, `OnWrite` and `OnRead`. -/
def onCompleted (net : Network) (s : SimpleHttpSession) (op : Operation) : SimpleHttpSession :=
  if net.fails op then { s with pending := none, todo := failure op }
  else
    match op.next with
    | some next => { s with pending := some next }
    | none => { s with
        pending := none
        todo := success
        response := { result := net.answer.result, body := net.answer.body } }

/-- The caller does not own the session any more. -/
def left (s : SimpleHttpSession) : Bool :=
  match s.caller with
  | .returned _ => true
  | _ => false

/-- One statement of a handler. A promise that is fulfilled twice throws, and so does a
    thread that joins itself, out of a destructor. -/
def execute (s : SimpleHttpSession) : Statement → SimpleHttpSession
  | .setValue value =>
    if s.promise.isSome then { s with terminated := true } else { s with promise := some value }
  | .setResult result => { s with response.result := result }
  | .setReason reason => { s with response.reason := reason }
  | .release => if s.left then { s with terminated := true } else s

/-- The caller goes on. It is the last owner when no handler is left. -/
def proceed (s : SimpleHttpSession) : Option SimpleHttpSession :=
  match s.caller with
  | .waits => if s.promise.isSome then some { s with caller := .holds s.response } else none
  | .holds response =>
    if s.pending.isSome || !s.todo.isEmpty then some { s with caller := .returned response.text }
    else some { s with stopped := true, caller := .joins response.text }
  | .joins text => if s.exited then some { s with caller := .returned text } else none
  | .returned _ => none

def step (net : Network) (s : SimpleHttpSession) (e : Event) : Option SimpleHttpSession :=
  if s.terminated then none
  else
    match e with
    | .completed => s.pending.map (s.onCompleted net)
    | .io =>
      match s.todo with
      | statement :: rest => some ({ s with todo := rest }.execute statement)
      | [] => if s.stopped && !s.exited then some { s with exited := true } else none
    | .caller => s.proceed

/-! ### What a session keeps -/

/-- What the last handler of the session does. -/
def script (net : Network) : List Statement := net.failing.elim success failure

/-- The response gives the text of the answer, and nothing when an operation failed. -/
def Gives (net : Network) (r : HttpResponse) : Prop :=
  match net.failing with
  | some _ => r.body = []
  | none => r = { result := net.answer.result, body := net.answer.body }

/-- The text that the request returns. -/
def text (net : Network) : Text := if net.response.result = 200 then net.response.body else []

/-- What the caller has got is what it returns, and it does not get it before the promise
    is fulfilled. -/
def Right (net : Network) (s : SimpleHttpSession) : Caller → Prop
  | .waits => True
  | .holds r => s.promise ≠ none ∧ r.text = text net
  | .joins t => s.promise ≠ none ∧ t = text net ∧ s.todo = [] ∧ s.stopped = true
  | .returned t => s.promise ≠ none ∧ t = text net

/-- Operations are under way as long as none has failed; then the last handler runs, and
    it fulfils the promise first. -/
structure Sound (net : Network) (s : SimpleHttpSession) : Prop where
  waiting : ∀ op, s.pending = some op →
    s.todo = [] ∧ s.promise = none ∧ s.response = {} ∧ op.onwards.find? net.fails = net.failing
  handling : s.pending = none → ∃ done, done ++ s.todo = script net ∧ (s.promise = none ↔ done = [])
  gives : s.pending = none → Gives net s.response
  right : Right net s s.caller
  terminated : s.terminated = true → s.left = true

section
variable {net : Network} {s t : SimpleHttpSession}

theorem text_of_gives {r : HttpResponse} (gives : Gives net r) : r.text = text net := by
  unfold Gives at gives
  unfold HttpResponse.text text Network.response
  cases failing : net.failing with
  | none =>
    simp only [failing] at gives
    rw [gives]
    rfl
  | some op =>
    simp only [failing] at gives
    simp [gives]

theorem sound_init (net : Network) : Sound net {} :=
  ⟨fun op first => (by cases first; exact ⟨rfl,rfl,rfl,rfl⟩),fun ended => (by cases ended),
    fun ended => (by cases ended),trivial,fun ended => (by cases ended)⟩

/-- Who waits for the promise has got nothing. -/
theorem caller_of_waiting (sound : Sound net s) {op : Operation} (pending : s.pending = some op) :
    s.caller = .waits := by
  have unset := (sound.waiting op pending).2.1
  have right := sound.right
  cases caller : s.caller with
  | waits => rfl
  | holds r => rw [caller] at right; exact absurd unset right.1
  | joins t => rw [caller] at right; exact absurd unset right.1
  | returned t => rw [caller] at right; exact absurd unset right.1

theorem find_onwards (op : Operation) :
    op.onwards.find? net.fails =
      if net.fails op then some op else op.next.elim none (·.onwards.find? net.fails) := by
  cases op <;> cases fails : net.fails _ <;> simp [Operation.onwards,Operation.next,List.find?_cons,fails]

theorem sound_completed (sound : Sound net s) {op : Operation} (pending : s.pending = some op) :
    Sound net (s.onCompleted net op) := by
  obtain ⟨todo,unset,fresh,first⟩ := sound.waiting op pending
  have waits := caller_of_waiting sound pending
  rw [find_onwards] at first
  unfold onCompleted
  by_cases fails : net.fails op = true
  · rw [if_pos fails] at first ⊢
    refine ⟨fun _ under => (by cases under),fun _ => ⟨[],?_,by simp [unset]⟩,fun _ => ?_,?_,sound.terminated⟩
    · simp [script,← first]
    · simp only [Gives,← first,fresh]
    · simp only [waits,Right]
  · rw [if_neg fails] at first ⊢
    cases next : op.next with
    | some later =>
      rw [next,Option.elim_some] at first
      refine ⟨fun op' under => ?_,fun ended => (by cases ended),fun ended => (by cases ended),?_,sound.terminated⟩
      · cases under
        exact ⟨todo,unset,fresh,first⟩
      · simp only [waits,Right]
    | none =>
      rw [next,Option.elim_none] at first
      refine ⟨fun _ under => (by cases under),fun _ => ⟨[],?_,by simp [unset]⟩,fun _ => ?_,?_,sound.terminated⟩
      · simp [script,← first]
      · simp only [Gives,← first]
      · simp only [waits,Right]

/-- The promise is fulfilled first, the session let go of last, and what failed is said in
    between. -/
theorem script_split {done rest : List Statement} {statement : Statement}
    (split : done ++ statement :: rest = script net) :
    done = [] ∧ (∃ value, statement = .setValue value) ∧ rest ≠ [] ∨
      done ≠ [] ∧ (statement = .release ∧ rest = [] ∨
        net.failing ≠ none ∧ (statement = .setResult 0 ∨ ∃ reason, statement = .setReason reason) ∧ rest ≠ []) := by
  unfold script at split
  cases failing : net.failing with
  | none =>
    rw [failing,Option.elim_none,success] at split
    rcases done with _ | ⟨_,_ | ⟨_,_⟩⟩ <;> simp at split <;> simp [split]
  | some op =>
    rw [failing,Option.elim_some,failure] at split
    rcases done with _ | ⟨_,_ | ⟨_,_ | ⟨_,_ | ⟨_,_⟩⟩⟩⟩ <;> simp at split <;> simp [split]

theorem ended_of_todo (sound : Sound net s) (todo : s.todo ≠ []) : s.pending = none := by
  by_contra under
  obtain ⟨op,pending⟩ := Option.ne_none_iff_exists'.mp under
  exact todo (sound.waiting op pending).1

/-- The session after a statement that leaves the promise fulfilled. -/
theorem sound_rest (sound : Sound net s) {statement : Statement} {rest : List Statement}
    (todo : s.todo = statement :: rest) {promise : Option Bool} {response : HttpResponse} {terminated : Bool}
    (set : promise ≠ none) (gives : Gives net response) (ends : terminated = true → s.left = true) :
    Sound net { s with todo := rest, promise, response, terminated } := by
  have ended := ended_of_todo sound (by rw [todo]; exact List.cons_ne_nil _ _)
  obtain ⟨done,split,-⟩ := sound.handling ended
  rw [todo,← List.singleton_append,← List.append_assoc] at split
  have right := sound.right
  refine ⟨fun op under => absurd under (by rw [ended]; simp),fun _ => ⟨_,split,by simp [set]⟩,fun _ => gives,?_,ends⟩
  simp only
  cases caller : s.caller with
  | waits => trivial
  | holds r => rw [caller] at right; exact ⟨set,right.2⟩
  | joins t =>
    rw [caller] at right
    exact absurd (right.2.2.1.symm.trans todo) (by simp)
  | returned t => rw [caller] at right; exact ⟨set,right.2⟩

/-- A handler goes on with its next statement. -/
theorem sound_execute (sound : Sound net s) {statement : Statement} {rest : List Statement}
    (todo : s.todo = statement :: rest) : Sound net ({ s with todo := rest }.execute statement) := by
  have ended := ended_of_todo sound (by rw [todo]; exact List.cons_ne_nil _ _)
  have gives := sound.gives ended
  obtain ⟨done,split,unset⟩ := sound.handling ended
  rw [todo] at split
  rcases script_split split with ⟨first,⟨value,rfl⟩,-⟩ | ⟨later,⟨rfl,-⟩ | ⟨failing,said,-⟩⟩
  · simp only [execute,unset.mpr first,Option.isSome_none,Bool.false_eq_true,if_false]
    exact sound_rest sound todo (by simp) gives sound.terminated
  · have set : s.promise ≠ none := fun none => later (unset.mp none)
    unfold execute
    simp only
    split
    · next left => exact sound_rest sound todo set gives (fun _ => left)
    · exact sound_rest sound todo set gives sound.terminated
  · have set : s.promise ≠ none := fun none => later (unset.mp none)
    obtain ⟨op,fails⟩ := Option.ne_none_iff_exists'.mp failing
    have empty : s.response.body = [] := by simpa only [Gives,fails] using gives
    rcases said with rfl | ⟨reason,rfl⟩
    · exact sound_rest sound todo set (by simpa only [Gives,fails] using empty) sound.terminated
    · exact sound_rest sound todo set (by simpa only [Gives,fails] using empty) sound.terminated

/-- The caller goes on. -/
theorem sound_proceed (sound : Sound net s) (lives : ¬ s.terminated = true) (moved : s.proceed = some t) :
    Sound net t := by
  have right := sound.right
  have kept : ∀ caller stopped, Right net { s with caller, stopped } caller → Sound net { s with caller, stopped } :=
    fun caller stopped right => ⟨sound.waiting,sound.handling,sound.gives,right,fun ends => absurd ends lives⟩
  unfold proceed at moved
  cases caller : s.caller with
  | waits =>
    simp only [caller] at moved
    obtain ⟨set,done⟩ := Option.ite_none_right_eq_some.mp moved
    cases done
    have set := Option.isSome_iff_ne_none.mp set
    have ended : s.pending = none := by
      by_contra under
      obtain ⟨op,pending⟩ := Option.ne_none_iff_exists'.mp under
      exact set (sound.waiting op pending).2.1
    exact kept _ s.stopped ⟨set,text_of_gives (sound.gives ended)⟩
  | holds response =>
    simp only [caller] at moved
    rw [caller] at right
    split at moved
    · cases moved
      exact kept _ s.stopped right
    · next last =>
      cases moved
      have idle : s.pending = none ∧ s.todo = [] := by simpa using last
      exact kept _ true ⟨right.1,right.2,idle.2,rfl⟩
  | joins text =>
    simp only [caller] at moved
    rw [caller] at right
    obtain ⟨-,done⟩ := Option.ite_none_right_eq_some.mp moved
    cases done
    exact kept _ s.stopped ⟨right.1,right.2.1⟩
  | returned text => simp only [caller] at moved; cases moved

/-- Every step of either thread or of the network keeps that. -/
theorem sound_step {e : Event} (sound : Sound net s) (taken : step net s e = some t) : Sound net t := by
  obtain ⟨lives,taken⟩ := Option.ite_none_left_eq_some.mp taken
  cases e with
  | completed =>
    obtain ⟨op,pending,rfl⟩ := Option.map_eq_some_iff.mp taken
    exact sound_completed sound pending
  | io =>
    simp only at taken
    split at taken
    · next todo =>
      cases taken
      exact sound_execute sound todo
    · obtain ⟨-,done⟩ := Option.ite_none_right_eq_some.mp taken
      cases done
      exact ⟨sound.waiting,sound.handling,sound.gives,sound.right,sound.terminated⟩
  | caller => exact sound_proceed sound lives taken

/-! ### The request comes to its end -/

/-- The steps that the caller has before it. -/
def ahead : Caller → Nat
  | .waits => 3
  | .holds _ => 2
  | .joins _ => 1
  | .returned _ => 0

/-- The steps that are left, at most. -/
def rank (s : SimpleHttpSession) : Nat :=
  s.pending.elim 0 (fun op => op.onwards.length + 4) + s.todo.length + ahead s.caller + if s.exited then 0 else 1

theorem onwards_next {op later : Operation} (next : op.next = some later) :
    op.onwards.length = later.onwards.length + 1 := by
  cases op <;> cases next <;> rfl

theorem rank_completed {op : Operation} (pending : s.pending = some op) (todo : s.todo = []) :
    rank (s.onCompleted net op) + 1 ≤ rank s := by
  have some : 0 < op.onwards.length := by cases op <;> decide
  unfold onCompleted
  split
  · simp only [rank,pending,todo,Option.elim_none,Option.elim_some,failure,List.length_cons,List.length_nil]
    omega
  · split
    · next next =>
      have longer := onwards_next next
      simp only [rank,pending,Option.elim_some]
      omega
    · simp only [rank,pending,todo,Option.elim_none,Option.elim_some,success,List.length_cons,List.length_nil]
      omega

/-- A statement changes nothing that the rank looks at. -/
theorem rank_execute (s : SimpleHttpSession) (statement : Statement) : rank (s.execute statement) = rank s := by
  cases statement with
  | setValue value => unfold execute; simp only; split <;> rfl
  | release => unfold execute; simp only; split <;> rfl
  | _ => rfl

theorem rank_step {e : Event} (sound : Sound net s) (taken : step net s e = some t) : rank t + 1 ≤ rank s := by
  obtain ⟨-,taken⟩ := Option.ite_none_left_eq_some.mp taken
  cases e with
  | completed =>
    obtain ⟨op,pending,rfl⟩ := Option.map_eq_some_iff.mp taken
    exact rank_completed pending (sound.waiting op pending).1
  | io =>
    simp only at taken
    split at taken
    · next todo =>
      cases taken
      rw [rank_execute]
      simp only [rank,todo,List.length_cons]
      omega
    · obtain ⟨runs,done⟩ := Option.ite_none_right_eq_some.mp taken
      cases done
      have running : s.exited = false := by simpa using (Bool.and_eq_true_iff.mp runs).2
      simp [rank,running]
  | caller =>
    simp only [proceed] at taken
    cases caller : s.caller with
    | waits =>
      simp only [caller] at taken
      obtain ⟨-,done⟩ := Option.ite_none_right_eq_some.mp taken
      cases done
      simp only [rank,caller,ahead]
      omega
    | holds response =>
      simp only [caller] at taken
      split at taken <;> cases taken <;> simp only [rank,caller,ahead] <;> omega
    | joins text =>
      simp only [caller] at taken
      obtain ⟨-,done⟩ := Option.ite_none_right_eq_some.mp taken
      cases done
      simp only [rank,caller,ahead]
      omega
    | returned text => simp only [caller] at taken; cases taken

/-- Something happens until the caller has returned. -/
theorem goesOn (sound : Sound net s) : s.left = true ∨ ∃ e t, step net s e = some t := by
  by_cases final : s.terminated = true
  · exact .inl (sound.terminated final)
  have goes : ∀ e, (step net s e).isSome = true → s.left = true ∨ ∃ e t, step net s e = some t :=
    fun e can => .inr ⟨e,Option.isSome_iff_exists.mp can⟩
  cases pending : s.pending with
  | some op => exact goes .completed (by simp [step,final,pending])
  | none =>
    cases todo : s.todo with
    | cons statement rest => exact goes .io (by simp [step,final,todo])
    | nil =>
      obtain ⟨done,split,unset⟩ := sound.handling pending
      have set : s.promise ≠ none := by
        intro none
        have nothing : script net = [] := by rw [← split,unset.mp none,todo]; rfl
        unfold script at nothing
        cases failing : net.failing <;> simp [failing,success,failure] at nothing
      cases caller : s.caller with
      | waits => exact goes .caller (by simp [step,final,proceed,caller,Option.isSome_iff_ne_none.mpr set])
      | holds response => exact goes .caller (by simp [step,final,proceed,caller,pending,todo])
      | joins text =>
        have right := sound.right
        rw [caller] at right
        cases exited : s.exited with
        | true => exact goes .caller (by simp [step,final,proceed,caller,exited])
        | false => exact goes .io (by simp [step,final,todo,right.2.2.2,exited])
      | returned text => exact .inl (by simp only [left,caller])

theorem caller_onCompleted (s : SimpleHttpSession) (op : Operation) : (s.onCompleted net op).caller = s.caller := by
  unfold onCompleted
  split
  · rfl
  · split <;> rfl

theorem caller_execute (s : SimpleHttpSession) (statement : Statement) : (s.execute statement).caller = s.caller := by
  cases statement with
  | setValue value => unfold execute; simp only; split <;> rfl
  | release => unfold execute; simp only; split <;> rfl
  | _ => rfl

/-- Only the caller itself goes on. -/
theorem caller_step {e : Event} (taken : step net s e = some t) : t.caller = s.caller ∨ s.proceed = some t := by
  obtain ⟨-,taken⟩ := Option.ite_none_left_eq_some.mp taken
  cases e with
  | completed =>
    obtain ⟨op,-,rfl⟩ := Option.map_eq_some_iff.mp taken
    exact .inl (caller_onCompleted s op)
  | io =>
    simp only at taken
    split at taken
    · cases taken
      exact .inl (caller_execute _ _)
    · obtain ⟨-,done⟩ := Option.ite_none_right_eq_some.mp taken
      cases done
      exact .inl rfl
  | caller => exact .inr taken

theorem left_iff : s.left = true ↔ ∃ text, s.caller = .returned text := by
  cases caller : s.caller <;> simp [left,caller]

theorem left_step {e : Event} (gone : s.left = true) (taken : step net s e = some t) : t.left = true := by
  obtain ⟨text,returned⟩ := left_iff.mp gone
  rcases caller_step taken with same | moved
  · exact left_iff.mpr ⟨text,same.trans returned⟩
  · simp only [proceed,returned] at moved
    cases moved

/-- Every step lowers the rank until the caller has returned. -/
theorem ends_request (net : Network) :
    Ends (step net) (fun _ => true) (fun _ => 0) (Sound net) (fun s => s.left = true) rank where
  stays := fun _ _ _ => left_step
  lowers := fun s e t sound taken => .inr ⟨sound_step sound taken,by simpa using rank_step sound taken⟩
  goesOn := by
    intro s sound
    refine (goesOn sound).imp_right ?_
    rintro ⟨e,t,taken⟩
    exact ⟨e,t,rfl,taken⟩

/-- However the two threads and the network go on, the caller returns after a few steps,
    and it returns what the answer of the server gives. -/
theorem request_ends {es : List Event} (done : run (step net) {} es = some s) (request : Request) :
    (∀ text, s.caller = .returned text → text = syncRequest (fun _ => net.response) request) ∧
      (s.left = true ∨ es.length ≤ 12 ∧ ∃ e t, step net s e = some t) := by
  have sound : Sound net s :=
    (always_of_invariant (fun _ _ _ => sound_step) (sound_init net) es).last done
  refine ⟨fun text returned => ?_,((ends_request net).pays (sound_init net) done).imp_right ?_⟩
  · have right := sound.right
    rw [returned] at right
    exact right.2
  · rintro ⟨few,e,t,-,taken⟩
    rw [List.countP_true] at few
    exact ⟨by simpa [rank,ahead,Operation.onwards] using few,e,t,taken⟩

/-- A network without failures, and a run in which the caller lets go last. -/
def reachable : Network := ⟨fun _ => false,⟨200,lit "[]"⟩⟩

def inTurn : List Event := [.completed,.completed,.completed,.completed,.io,.caller,.io,.caller,.io,.caller]

/-- The session at the end of that run. -/
def finished : SimpleHttpSession where
  pending := none
  promise := some true
  response := { body := lit "[]" }
  caller := .returned (lit "[]")
  stopped := true
  exited := true

theorem request_ends_inTurn : run (step reachable) {} inTurn = some finished ∧
    (∀ text, finished.caller = .returned text →
      text = syncRequest (fun _ => reachable.response) { method := lit "GET", body := [], target := lit "/rooms" }) ∧
    (finished.left = true ∨ inTurn.length ≤ 12 ∧ ∃ e t, step reachable finished e = some t) :=
  have done : run (step reachable) {} inTurn = some finished := rfl
  ⟨done,request_ends done _⟩

/-! ### Who lets go last -/

/-- The caller lets go of the session only after its thread has. -/
def Patient (s : SimpleHttpSession) : Event → Prop
  | .caller => ∀ response, s.caller = .holds response → s.todo = []
  | _ => True

/-- The session's thread will be the last owner. -/
def Doomed (s : SimpleHttpSession) : Prop := s.terminated = true ∨ s.left = true ∧ s.todo ≠ []

theorem terminated_onCompleted (s : SimpleHttpSession) (op : Operation) :
    (s.onCompleted net op).terminated = s.terminated := by
  unfold onCompleted
  split
  · rfl
  · split <;> rfl

theorem todo_execute (s : SimpleHttpSession) (statement : Statement) : (s.execute statement).todo = s.todo := by
  cases statement with
  | setValue value => unfold execute; simp only; split <;> rfl
  | release => unfold execute; simp only; split <;> rfl
  | _ => rfl

theorem left_congr (same : t.caller = s.caller) : t.left = s.left := by simp only [left,same]

/-- A thread that is to let go last will, and end the process. -/
theorem doomed_step {e : Event} (sound : Sound net s) (doomed : Doomed s) (taken : step net s e = some t) :
    Doomed t := by
  obtain ⟨lives,moved⟩ := Option.ite_none_left_eq_some.mp taken
  obtain ⟨gone,todo⟩ := doomed.resolve_left lives
  have gone' := left_step gone taken
  cases e with
  | completed =>
    obtain ⟨op,pending,-⟩ := Option.map_eq_some_iff.mp moved
    exact absurd (sound.waiting op pending).1 todo
  | io =>
    cases here : s.todo with
    | nil => exact absurd here todo
    | cons statement rest =>
      simp only [here] at moved
      cases moved
      obtain ⟨done,split,-⟩ := sound.handling (ended_of_todo sound todo)
      rw [here] at split
      by_cases last : rest = []
      · rcases script_split split with ⟨-,-,more⟩ | ⟨-,⟨rfl,-⟩ | ⟨-,-,more⟩⟩
        · exact absurd last more
        · left
          have still : ({ s with todo := rest } : SimpleHttpSession).left = true := gone
          simp only [execute,if_pos still]
        · exact absurd last more
      · exact .inr ⟨gone',by rw [todo_execute]; exact last⟩
  | caller =>
    obtain ⟨text,returned⟩ := left_iff.mp gone
    simp only [proceed,returned] at moved
    cases moved

/-- A handler does not end the process while the caller owns the session. -/
theorem terminated_execute (sound : Sound net s) {statement : Statement} {rest : List Statement}
    (todo : s.todo = statement :: rest) (owns : s.left = false) :
    ({ s with todo := rest }.execute statement).terminated = s.terminated := by
  obtain ⟨done,split,unset⟩ := sound.handling (ended_of_todo sound (by rw [todo]; exact List.cons_ne_nil _ _))
  rw [todo] at split
  rcases script_split split with ⟨first,⟨value,rfl⟩,-⟩ | ⟨-,⟨rfl,-⟩ | ⟨-,rfl | ⟨reason,rfl⟩,-⟩⟩
  · simp only [execute,unset.mpr first,Option.isSome_none,Bool.false_eq_true,if_false]
  · have still : ({ s with todo := rest } : SimpleHttpSession).left = false := owns
    simp only [execute,still,Bool.false_eq_true,if_false]
  · rfl
  · rfl

/-- A step dooms the session exactly when the caller is the first to let go. -/
theorem doomed_iff {e : Event} (sound : Sound net s) (fine : ¬ Doomed s) (taken : step net s e = some t) :
    ¬ Doomed t ↔ Patient s e := by
  obtain ⟨lives,moved⟩ := Option.ite_none_left_eq_some.mp taken
  have safe : t.terminated = s.terminated → t.left = false → ¬ Doomed t := by
    rintro same owns (final | ⟨gone,-⟩)
    · exact lives (same ▸ final)
    · rw [owns] at gone
      cases gone
  cases e with
  | completed =>
    obtain ⟨op,pending,rfl⟩ := Option.map_eq_some_iff.mp moved
    refine iff_of_true (safe (terminated_onCompleted s op) ?_) trivial
    rw [left_congr (caller_onCompleted s op),left,caller_of_waiting sound pending]
  | io =>
    refine iff_of_true ?_ trivial
    simp only at moved
    split at moved
    · next statement rest todo =>
      cases moved
      have owns : s.left = false := by
        by_contra gone
        exact fine (.inr ⟨by simpa using gone,by rw [todo]; exact List.cons_ne_nil _ _⟩)
      exact safe (terminated_execute sound todo owns) ((left_congr (caller_execute _ _)).trans owns)
    · obtain ⟨-,done⟩ := Option.ite_none_right_eq_some.mp moved
      cases done
      exact fine
  | caller =>
    have right := sound.right
    simp only [proceed] at moved
    cases caller : s.caller with
    | waits =>
      simp only [caller] at moved
      obtain ⟨-,done⟩ := Option.ite_none_right_eq_some.mp moved
      cases done
      exact iff_of_true (safe rfl rfl) (fun response here => by rw [caller] at here; cases here)
    | holds response =>
      rw [caller] at right
      have ended : s.pending = none := by
        by_contra under
        obtain ⟨op,pending⟩ := Option.ne_none_iff_exists'.mp under
        exact right.1 (sound.waiting op pending).2.1
      simp only [caller,ended,Option.isSome_none,Bool.false_or] at moved
      split at moved
      · next first =>
        cases moved
        have todo : s.todo ≠ [] := by simpa using first
        exact iff_of_false (not_not_intro (.inr ⟨rfl,todo⟩)) (fun patient => todo (patient response caller))
      · next last =>
        cases moved
        exact iff_of_true (safe rfl rfl) (fun _ _ => by simpa using last)
    | joins text =>
      simp only [caller] at moved
      rw [caller] at right
      obtain ⟨-,done⟩ := Option.ite_none_right_eq_some.mp moved
      cases done
      refine iff_of_true ?_ (fun response here => by rw [caller] at here; cases here)
      rintro (final | ⟨-,todo⟩)
      · exact lives final
      · exact todo right.2.2.1
    | returned text => simp only [caller] at moved; cases moved

theorem doomed_run {es : List Event} (sound : Sound net s) (doomed : Doomed s) (done : run (step net) s es = some t) :
    Doomed t := by
  have keep : ∀ s e t, Sound net s ∧ Doomed s → step net s e = some t → Sound net t ∧ Doomed t :=
    fun s e t both taken => ⟨sound_step both.1 taken,doomed_step both.1 both.2 taken⟩
  exact ((always_of_invariant keep ⟨sound,doomed⟩ es).last done).2

/-- A session is fine in the end exactly when it was all along. -/
theorem always_fine_iff {es : List Event} (done : run (step net) {} es = some s) :
    Always (step net) (fun s => ¬ Doomed s) {} es ↔ ¬ Doomed s := by
  refine ⟨fun all => all.last done,fun fine => always_iff_reached.mpr ?_⟩
  rintro before later u rfl reached doomed
  have sound : Sound net u := (always_of_invariant (fun _ _ _ => sound_step) (sound_init net) before).last reached
  rw [run_append reached] at done
  exact fine (doomed_run sound doomed done)

/-- A request that has come to its end has not ended the process exactly when the caller
    let go of the session last. -/
theorem survives_iff {es : List Event} (done : run (step net) {} es = some s) (final : ∀ e, step net s e = none) :
    s.terminated = false ↔ Guarded (step net) Patient {} es := by
  have start : ¬ Doomed {} := by
    rintro (ended | ⟨gone,-⟩)
    · cases ended
    · cases gone
  rw [← always_iff_guarded (fun _ _ _ sound _ _ => sound_step sound) (fun _ _ _ => doomed_iff) (sound_init net) start
    es,always_fine_iff done]
  constructor
  · rintro lives (ended | ⟨-,todo⟩)
    · rw [lives] at ended
      cases ended
    · obtain ⟨statement,rest,here⟩ := List.exists_cons_of_ne_nil todo
      have goes := final .io
      simp [step,lives,here] at goes
  · intro fine
    by_contra ended
    exact fine (.inl (by simpa using ended))

theorem survives_iff_inTurn : run (step reachable) {} inTurn = some finished ∧
    (∀ e, step reachable finished e = none) ∧
    (finished.terminated = false ↔ Guarded (step reachable) Patient {} inTurn) := by
  have done : run (step reachable) {} inTurn = some finished := rfl
  have final : ∀ e, step reachable finished e = none := by
    intro e
    cases e <;> rfl
  exact ⟨done,final,survives_iff done final⟩

end
end SimpleHttpSession
end LicodeClient.Nuve
