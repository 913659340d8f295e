import LicodeClient.Url.RoundTrip
import LicodeClient.World

/-!
Where a `WebsocketSession` connects. Its constructor cuts the url into host, port
and target, and `Connect` resolves the host with the port printed again. The port
passes through a field of 16 bits with a sign, so that the upper half of the ports
comes out negative.
-/
namespace LicodeClient
open MonadExcept (ofExcept)
open Positions (find next minus find_append find_none find_mark substr_mark minus_add)
open LicodeClient.Program

/-- The fields of a `WebsocketSession` that `ParseUrl` sets. -/
structure Endpoint where
  scheme : Text := []
  host : Text := []
  port : Int16 := -1
  target : Text := []
  deriving DecidableEq

namespace Endpoint

/-- Programs on these fields. -/
abbrev Edit := EStateM Fault Endpoint

/-- `scheme` in `ParseUrl`; the answer says whether it goes on. -/
def parseScheme (url : Text) : Edit Bool := do
  let scheme ← ofExcept (substrOf url 0 (find ':' url))
  if scheme.isEmpty then pure false
  else if scheme.map Char.toLower = lit "ws" then
    modify fun e => { e with scheme := lit "ws" }
    pure true
  else if scheme.map Char.toLower = lit "wss" then
    modify fun e => { e with scheme := lit "wss" }
    pure true
  else pure false

/-- The port of a host that is followed by a colon. The `int` that `atoi` returns
    is cut to the 16 bits of the field. -/
def parsePort (hostPath : Text) (portStart : Nat) : Edit Unit := do
  let portS ← ofExcept
    (match find '/' hostPath with
    | none => substrOf hostPath (portStart + 1) none
    | some portEnd => substrOf hostPath (portStart + 1) (minus portEnd (portStart + 1)))
  if portS.isEmpty then modify fun e => { e with port := 8080 }
  else
    let port ← ofExcept (HttpUrl.Builder.atoi portS)
    modify fun e => { e with port := port.toInt16 }

/-- `host` in `ParseUrl`. -/
def parseHost (hostPath : Text) : Edit Unit := do
  match find ':' hostPath with
  | none =>
    modify fun e => { e with port := 8080 }
    let host ← ofExcept (substrOf hostPath 0 (find '/' hostPath))
    modify fun e => { e with host := host }
  | some portStart =>
    let host ← ofExcept (substrOf hostPath 0 (some portStart))
    modify fun e => { e with host := host }
    parsePort hostPath portStart

/-- `target` in `ParseUrl`. -/
def parseTarget (hostPath : Text) : Edit Unit := do
  let target ← ofExcept (substrOf hostPath (next (find '/' hostPath)) none)
  modify fun e => { e with target := '/' :: target }

/-- `WebsocketSession::ParseUrl`. -/
def parseUrl (url : Text) : Edit Bool := do
  if url.isEmpty ∨ url.length ≤ 5 then pure false
  else if ← parseScheme url then
    let pathStart := (← get).scheme.length + 3
    let hostPath ← ofExcept (substrOf url pathStart (minus url.length pathStart))
    if hostPath.isEmpty then pure false
    else
      parseHost hostPath
      parseTarget hostPath
      pure true
  else pure false

/-- The service that `Connect` passes to `async_resolve` beside the host. -/
def service (e : Endpoint) : Text := Json.decimal e.port.toInt

/-! ### The url that the signaling makes -/

theorem substrOf_zero (s : Text) (count : Option Nat) : substrOf s 0 count = .ok (Positions.front s count) := by
  rw [substrOf,Positions.substr_zero]

theorem substrOf_mark (xs : Text) (a : Char) (ys : Text) (count : Option Nat) :
    substrOf (xs ++ a :: ys) (xs.length + 1) count = .ok (Positions.front ys count) := by
  rw [substrOf,substr_mark]

theorem substrOf_append (xs ys : Text) (count : Option Nat) :
    substrOf (xs ++ ys) xs.length count = .ok (Positions.front ys count) := by
  rw [substrOf,Positions.substr_append]

/-- A url with the scheme `ws` is cut behind its slashes. -/
theorem run_parseUrl {hostPath : Text} (given : hostPath ≠ []) (e : Endpoint) :
    (parseUrl (lit "ws://" ++ hostPath)).run e =
      (do
        parseHost hostPath
        parseTarget hostPath
        pure true : Edit Bool).run { e with scheme := lit "ws" } := by
  have filled := List.length_pos_of_ne_nil given
  have slashes : (lit "ws://").length = 5 := by decide
  have size : (lit "ws://" ++ hostPath).length = 5 + hostPath.length := by rw [List.length_append,slashes]
  have accepted : ¬ ((lit "ws://" ++ hostPath).isEmpty = true ∨ (lit "ws://" ++ hostPath).length ≤ 5) := by
    rintro (empty | short)
    · rw [List.isEmpty_iff.mp empty] at size
      simp only [List.length_nil] at size
      omega
    · omega
  have apart : ':' ∉ lit "ws" := by decide
  have colon : find ':' (lit "ws://" ++ hostPath) = some 2 := find_mark apart ('/' :: '/' :: hostPath)
  have scheme : (parseScheme (lit "ws://" ++ hostPath)).run e = .ok true { e with scheme := lit "ws" } := by
    rw [parseScheme,colon,substrOf_zero]
    rfl
  have slice : substrOf (lit "ws://" ++ hostPath) ((lit "ws").length + 3)
      (minus (lit "ws://" ++ hostPath).length ((lit "ws").length + 3)) = .ok hostPath := by
    have start : (lit "ws").length + 3 = (lit "ws://").length := by decide
    rw [start,List.length_append,minus_add,substrOf_append,Positions.front,List.take_length]
  have named : hostPath.isEmpty = false := by simpa using given
  rw [parseUrl,if_neg accepted,EStateM.run_bind,scheme]
  simp only [if_true,EStateM.run_bind,EStateM.run_get,slice,run_ofExcept,named,Bool.false_eq_true,if_false]

theorem run_parseHost_name {name path : Text} (free : ':' ∉ name ∧ '/' ∉ name) (clean : ':' ∉ path) (e : Endpoint) :
    (parseHost (name ++ '/' :: path)).run e = .ok () { e with host := name, port := 8080 } := by
  have absent : ':' ∉ name ++ '/' :: path := by simp [free.1,clean]
  rw [parseHost,find_none absent,find_mark free.2,substrOf_zero,Positions.front_append]
  rfl

theorem run_parseHost_port {name portS : Text} {port : Int32} (free : ':' ∉ name ∧ '/' ∉ name) (given : portS ≠ [])
    (clean : '/' ∉ portS) (read : HttpUrl.Builder.atoi portS = .ok port) (path : Text) (e : Endpoint) :
    (parseHost (name ++ ':' :: (portS ++ '/' :: path))).run e =
      .ok () { e with host := name, port := port.toInt16 } := by
  have apart : '/' ∉ name ++ ':' :: portS := by simp [free.2,clean]
  have shape : name ++ ':' :: (portS ++ '/' :: path) = (name ++ ':' :: portS) ++ '/' :: path := by simp
  have slash : find '/' (name ++ ':' :: (portS ++ '/' :: path)) = some (name.length + 1 + portS.length) := by
    rw [shape,find_mark apart,List.length_append,List.length_cons]
    congr 1
    omega
  have named : portS.isEmpty = false := by simpa using given
  rw [parseHost,find_mark free.1]
  simp only [EStateM.run_bind,substrOf_zero,Positions.front_append,run_ofExcept,EStateM.run_modify]
  rw [parsePort,slash,EStateM.run_bind,run_ofExcept]
  simp only [minus_add,substrOf_mark,Positions.front_append,named,Bool.false_eq_true,if_false,EStateM.run_bind,
    run_ofExcept,read,EStateM.run_modify]

theorem run_parseTarget {authority : Text} (free : '/' ∉ authority) (path : Text) (e : Endpoint) :
    (parseTarget (authority ++ '/' :: path)).run e = .ok () { e with target := '/' :: path } := by
  rw [parseTarget,find_mark free,next,substrOf_mark]
  rfl

/-! ### The endpoint of a token -/

/-- The target of every url that `LicodeSignaling::Init` makes. -/
def socketTarget : Text := lit "/socket.io/?EIO=3&transport=websocket"

/-- The host of a token: a name, with a port or without. -/
def hostText (name : Text) (port : Option Nat) : Text := name ++ HttpUrl.marked ':' (port.map Json.digits)

/-- The session resolves the name with its port, and asks for the socket. -/
structure Reaches (e : Endpoint) (name : Text) (port : Option Nat) : Prop where
  host : e.host = name
  service : e.service = (port.map Json.digits).getD (lit "8080")
  target : e.target = socketTarget

/-- The port that the field holds. -/
def fieldOf (port : Option Nat) : Int16 := port.elim 8080 (fun n => (Int32.ofInt n).toInt16)

theorem atoi_digits {n : Nat} (fits : n ≤ 65535) : HttpUrl.Builder.atoi (Json.digits n) = .ok (Int32.ofInt n) := by
  have value : (Int32.ofInt n).toInt = n := Int32.toInt_ofInt_of_le (by omega) (by omega)
  have read := HttpUrl.atoi_decimal (Int32.ofInt n)
  rwa [value] at read

/-- What `ParseUrl` makes of the url of a token. -/
theorem run_parseUrl_hostText {name : Text} {port : Option Nat} (free : ':' ∉ name ∧ '/' ∉ name)
    (range : ∀ n ∈ port, n ≤ 65535) (e : Endpoint) :
    (parseUrl (lit "ws://" ++ hostText name port ++ socketTarget)).run e =
      .ok true ⟨lit "ws",name,fieldOf port,socketTarget⟩ := by
  obtain ⟨path,target,clean⟩ : ∃ path, socketTarget = '/' :: path ∧ ':' ∉ path :=
    ⟨lit "socket.io/?EIO=3&transport=websocket",by decide,by decide⟩
  have given : hostText name port ++ socketTarget ≠ [] := by simp [target]
  rw [List.append_assoc,run_parseUrl given,target]
  cases port with
  | none =>
    have shape : hostText name none = name := List.append_nil name
    simp only [shape,EStateM.run_bind,run_parseHost_name free clean,run_parseTarget free.2]
    rfl
  | some n =>
    have fits := range n rfl
    have digits : '/' ∉ Json.digits n := by
      intro member
      exact absurd (Json.isDigit_of_mem_digits member) (by decide)
    have filled : Json.digits n ≠ [] := by
      obtain ⟨c,rest,whole,_⟩ := Json.head_digits n
      simp [whole]
    have shape : hostText name (some n) ++ '/' :: path = name ++ ':' :: (Json.digits n ++ '/' :: path) := by
      simp [hostText,HttpUrl.marked]
    have whole : name ++ ':' :: (Json.digits n ++ '/' :: path) = (name ++ ':' :: Json.digits n) ++ '/' :: path := by
      simp
    have apart : '/' ∉ name ++ ':' :: Json.digits n := by simp [free.2,digits]
    rw [shape,EStateM.run_bind,run_parseHost_port free filled digits (atoi_digits fits)]
    simp only [EStateM.run_bind]
    rw [whole,run_parseTarget apart]
    rfl

/-- The field prints as the port when the port is below its sign bit. -/
theorem decimal_fieldOf {n : Nat} (fits : n ≤ 65535) :
    Json.decimal (fieldOf (some n)).toInt = Json.digits n ↔ n ≤ 32767 := by
  have value : (Int32.ofInt n).toInt = n := Int32.toInt_ofInt_of_le (by omega) (by omega)
  have cut : (fieldOf (some n)).toInt = (n : Int).bmod (2 ^ 16) := by
    show (Int32.ofInt n).toInt16.toInt = _
    rw [Int32.toInt_toInt16,value]
  rw [cut]
  constructor
  · intro same
    have whole : Json.decimal ((n : Int).bmod (2 ^ 16)) ++ [] = Json.decimal n ++ [] := by
      rw [same]
      rfl
    have ends : Json.Ends [] := by simp [Scan.Stops]
    have kept := (Json.decimal_inj ends ends whole).1
    rw [Int.bmod_def] at kept
    omega
  · intro low
    rw [Int.bmod_eq_of_le (by omega) (by omega)]
    rfl

theorem after_signalingInit (token : LicodeToken) {w : World} (idle : w.signaling.state = .kDisconnect) :
    (after (signalingInit token) w).signaling.websocket = some w.sessions.length ∧
      (after (signalingInit token) w).sessions =
        w.sessions ++ [newSession (lit "ws://" ++ token.host ++ socketTarget)] := by
  unfold after signalingInit
  simp only [EStateM.run_bind,EStateM.run_get,idle,ne_eq,not_true_eq_false,if_false]
  exact ⟨rfl,rfl⟩

/-- The session that `Init` makes reaches the host and the port of the token when
    the port has no more than 15 bits. -/
theorem reaches_iff {token : LicodeToken} {name : Text} {port : Option Nat} {w : World}
    (idle : w.signaling.state = .kDisconnect) (free : ':' ∉ name ∧ '/' ∉ name)
    (range : ∀ n ∈ port, 1 ≤ n ∧ n ≤ 65535) (host : token.host = hostText name port) :
    (∃ k s e, (after (signalingInit token) w).signaling.websocket = some k ∧
        (after (signalingInit token) w).sessions[k]? = some s ∧
        (parseUrl s.url).run {} = .ok true e ∧ e.Reaches name port) ↔
      ∀ n ∈ port, n ≤ 32767 := by
  have parsed := run_parseUrl_hostText free (fun n member => (range n member).2) {}
  rw [← host] at parsed
  obtain ⟨websocket,sessions⟩ := after_signalingInit token idle
  rw [websocket,sessions]
  constructor
  · rintro ⟨k,s,e,current,found,run,reaches⟩ n rfl
    obtain rfl := Option.some.inj current
    rw [List.getElem?_concat_length] at found
    obtain rfl := Option.some.inj found
    have same : EStateM.Result.ok true _ = EStateM.Result.ok true e := parsed.symm.trans run
    cases same
    exact (decimal_fieldOf (range n rfl).2).mp reaches.service
  · intro low
    refine ⟨w.sessions.length,newSession (lit "ws://" ++ token.host ++ socketTarget),_,rfl,
      List.getElem?_concat_length,parsed,rfl,?_,rfl⟩
    cases port with
    | none =>
      have printed : Json.decimal (fieldOf none).toInt = lit "8080" := by decide
      exact printed
    | some n => exact (decimal_fieldOf (range n rfl).2).mpr (low n rfl)

theorem reaches_3000 :
    ∃ k s e, (after (signalingInit ⟨[],lit "h:3000",false,[]⟩) (.init ⟨[],[],false,[]⟩)).signaling.websocket = some k ∧
      (after (signalingInit ⟨[],lit "h:3000",false,[]⟩) (.init ⟨[],[],false,[]⟩)).sessions[k]? = some s ∧
      (parseUrl s.url).run {} = .ok true e ∧ e.Reaches (lit "h") (some 3000) := by
  have range : ∀ n ∈ some 3000, 1 ≤ n ∧ n ≤ 65535 := by simp
  have low : ∀ n ∈ some 3000, n ≤ 32767 := by simp
  exact (reaches_iff rfl (by decide) range (by decide)).mpr low

/-- Port 40000 is resolved as -25536. -/
theorem misses_40000 :
    ∃ k s e, (after (signalingInit ⟨[],lit "h:40000",false,[]⟩) (.init ⟨[],[],false,[]⟩)).signaling.websocket = some k ∧
      (after (signalingInit ⟨[],lit "h:40000",false,[]⟩) (.init ⟨[],[],false,[]⟩)).sessions[k]? = some s ∧
      (parseUrl s.url).run {} = .ok true e ∧ e.service = lit "-25536" ∧ ¬ e.Reaches (lit "h") (some 40000) := by
  have host : lit "h:40000" = hostText (lit "h") (some 40000) := by decide
  have fits : ∀ n ∈ some 40000, n ≤ 65535 := by simp
  have free : ':' ∉ lit "h" ∧ '/' ∉ lit "h" := by decide
  have parsed := run_parseUrl_hostText free fits {}
  rw [← host] at parsed
  refine ⟨0,newSession (lit "ws://" ++ lit "h:40000" ++ socketTarget),_,rfl,rfl,parsed,by decide,?_⟩
  intro reaches
  have printed : lit "-25536" = lit "40000" := reaches.service
  revert printed
  decide

end Endpoint
end LicodeClient
