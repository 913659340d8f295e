import LicodeClient.Nuve
import LicodeClient.Url.Canonical

/-!
What `LicodeNuveApi::SyncRequest` writes to the server: where the request goes, what it
asks for, and the header that signs it. The url is printed, parsed and cut again, and a
path arrives as it was given when all of its pieces do (`message_arrives`). The signature
covers the time, the nonce and the name and role of the user, which stand in one text,
so that a comma in a name can be moved into the role (`toSign_eq_iff`).
-/
namespace LicodeClient.Nuve
open Positions (before behind between before_mark behind_mark before_append)
open HttpUrl HttpUrl.Builder

/-- The fields of a `LicodeNuveApi`. -/
structure LicodeNuveApi where
  serviceId : Text
  key : Text
  url : Text
  port : Int16

/-- The clock and the random engine, as a request reads them. -/
structure Draw where
  timestamp : Int
  cnounce : Nat

/-- The keyed hash over a text, first the text and then the key. -/
abbrev Hmac := Text → Text → Text

/-! ### The signature -/

/-- The character of six bits, as `base64_from_binary` looks it up. -/
def sextet (n : Nat) : Char :=
  if n < 26 then Char.ofNat (n + 65)
  else if n < 52 then Char.ofNat (n - 26 + 97)
  else if n < 62 then Char.ofNat (n - 52 + 48)
  else if n = 62 then '+'
  else '/'

/-- `base64_from_binary<transform_width<..., 6, 8>>` over a text, whose last bits are
    filled up with zeros. -/
def base64FromBinary : Text → Text
  | [] => []
  | [a] => [sextet (a.toNat / 4),sextet (a.toNat % 4 * 16)]
  | [a,b] => [sextet (a.toNat / 4),sextet (a.toNat % 4 * 16 + b.toNat / 16),sextet (b.toNat % 16 * 4)]
  | a :: b :: c :: rest =>
    sextet (a.toNat / 4) :: sextet (a.toNat % 4 * 16 + b.toNat / 16) :: sextet (b.toNat % 16 * 4 + c.toNat / 64) ::
      sextet (c.toNat % 64) :: base64FromBinary rest

/-- The padding of a text. -/
def equalCount (hash : Text) : Nat := (3 - hash.length % 3) % 3

/-- `LicodeNuveApi::CalculateSignature`. -/
def calculateSignature (hmac : Hmac) (toSign key : Text) : Text :=
  let hash := hmac toSign key
  base64FromBinary hash ++ List.replicate (equalCount hash) '='

/-- A user is named when there are a name and a role. -/
def Request.named (r : Request) : Bool := !r.userName.isEmpty && !r.role.isEmpty

/-- What is signed of the user. -/
def Request.user (r : Request) : Text := if r.named then ',' :: (r.userName ++ ',' :: r.role) else []

/-- The text that is signed. -/
def toSign (draw : Draw) (r : Request) : Text :=
  Json.decimal draw.timestamp ++ ',' :: (Json.digits draw.cnounce ++ r.user)

/-- The value of the header `Authorization`. -/
def authorization (hmac : Hmac) (api : LicodeNuveApi) (draw : Draw) (r : Request) : Text :=
  lit "MAuth realm=http://marte3.dit.upm.es,mauth_signature_method=HMAC_SHA1" ++
    (if r.named then lit ",,mauth_username=" ++ r.userName ++ lit ",,,mauth_role=" ++ r.role else []) ++
    lit ",mauth_serviceid=" ++ api.serviceId ++
    lit ",mauth_cnonce=" ++ Json.digits draw.cnounce ++
    lit ",mauth_timestamp=" ++ Json.decimal draw.timestamp ++
    lit ",mauth_signature=" ++ calculateSignature hmac (toSign draw r) api.key

/-! ### The message -/

/-- What is written to the stream, with the url that says where to. -/
structure Message where
  request : HttpRequest
  method : Text
  headers : List (Text × Text)
  body : Text

/-- `HttpRequest::AddHeader` with the name of a known field. -/
def Message.addHeader (name value : Text) (m : Message) : Message :=
  if name.isEmpty ∨ value.isEmpty then m
  else { m with headers := m.headers.filter (fun h => h.1 ≠ name) ++ [(name,value)] }

/-- The url of a request. -/
def LicodeNuveApi.address (api : LicodeNuveApi) (target : Text) : Text :=
  lit "http://" ++ api.url ++ ':' :: Json.decimal api.port.toInt ++ target

/-- The message that `LicodeNuveApi::SyncRequest` makes of its arguments; `agent` is the
    version string of the library. -/
def LicodeNuveApi.message (api : LicodeNuveApi) (hmac : Hmac) (agent : Text) (draw : Draw) (r : Request) :
    Except Fault Message := do
  let url ← HttpUrl.ofText (api.address r.target)
  match (HttpRequest.setUrl url).run {} with
  | .error fault _ => .error fault
  | .ok _ request =>
    let m : Message := { request, method := r.method, headers := [], body := [] }
    let m := m.addHeader (lit "User-Agent") agent
    let m := m.addHeader (lit "Authorization") (authorization hmac api draw r)
    let m := m.addHeader (lit "Content-Type") (lit "application/json")
    return if r.method ≠ lit "GET" ∧ ¬ r.body.isEmpty then { m with body := r.body } else m

/-! ### What the signature covers -/

theorem ends_user (r : Request) : Json.Ends r.user := by
  intro c head
  unfold Request.user at head
  split at head
  · cases head
    rfl
  · cases head

theorem user_eq_iff (r r' : Request) : r.user = r'.user ↔ r.named = r'.named ∧
    (r.named → r.userName ++ ',' :: r.role = r'.userName ++ ',' :: r'.role) := by
  unfold Request.user
  cases r.named <;> cases r'.named <;> simp

/-- Two requests sign the same text exactly when they are made at the same time with
    the same nonce, and both name no user or both a name and a role that read the same
    with a comma in between. -/
theorem toSign_eq_iff (draw draw' : Draw) (r r' : Request) :
    toSign draw r = toSign draw' r' ↔ draw = draw' ∧ r.named = r'.named ∧
      (r.named → r.userName ++ ',' :: r.role = r'.userName ++ ',' :: r'.role) := by
  rw [← user_eq_iff]
  constructor
  · intro same
    obtain ⟨time,rest⟩ := Json.decimal_inj (by rintro c ⟨⟩; rfl) (by rintro c ⟨⟩; rfl) same
    obtain ⟨nonce,who⟩ := Json.digits_inj (ends_user r) (ends_user r') (List.cons.inj rest).2
    cases draw
    cases draw'
    obtain rfl : _ = _ := time
    obtain rfl : _ = _ := nonce
    exact ⟨rfl,who⟩
  · rintro ⟨rfl,who⟩
    rw [toSign,toSign,who]

/-! ### Where a message goes -/

section
variable {api : LicodeNuveApi} {path : Text}

theorem known_http : lit "http" = lit "http" ∨ lit "http" = lit "https" := .inl rfl

theorem free_of_plain {host : Text} (plain : Free [':','/','?','#'] host) : Free ['?','#'] host :=
  free_marks (plain '?' (by decide)) (plain '#' (by decide))

theorem cut_slash (path : Text) : cut ('/' :: path) = '/' :: cut path := by
  have ends : ∀ a ∈ ['/'].getLast?, a ∉ trimmed := by
    rintro a ⟨⟩
    decide
  exact cut_front ends path

/-- Host and path of the url of a request, as it is trimmed. -/
theorem leadOf_body (plain : Free ['?','#'] api.url) (scheme path : Text) (port : Int32) :
    leadOf (body api.url (renderPort scheme port) ('/' :: path)) =
      api.url ++ ':' :: (renderPort scheme port ++ '/' :: leadOf (cut path)) := by
  have rendered := free_renderPort scheme port
  have shape : body api.url (renderPort scheme port) ('/' :: path) =
      (api.url ++ ':' :: (renderPort scheme port ++ ['/'])) ++ cut path := by
    simp [body,cut_slash]
  have free : '?' ∉ api.url ++ ':' :: (renderPort scheme port ++ ['/']) ∧
      '#' ∉ api.url ++ ':' :: (renderPort scheme port ++ ['/']) := by
    constructor
    · simp [plain '?' (by decide),rendered '?' (by decide)]
    · simp [plain '#' (by decide),rendered '#' (by decide)]
  rw [shape,leadOf_lead free]
  simp

theorem renderPort_port (set : api.port ≠ -1) :
    renderPort (lit "http") api.port.toInt32 = Json.decimal api.port.toInt := by
  have given : api.port.toInt32 ≠ -1 := by
    intro unset
    have same := congrArg Int32.toInt unset
    rw [Int16.toInt_toInt32] at same
    exact set (Int16.toInt_inj.mp same)
  rw [renderPort,if_neg given,Int16.toInt_toInt32]

/-- The url that is parsed is one that the printer would print. -/
theorem address_eq (set : api.port ≠ -1) (target : Text) :
    api.address target = (lit "http" ++ lit "://") ++
      (api.url ++ ':' :: renderPort (lit "http") api.port.toInt32 ++ target) := by
  have slashes : lit "http://" = lit "http" ++ lit "://" := by decide
  have shape : ∀ lead port : Text,
      lead ++ api.url ++ ':' :: port ++ target = lead ++ (api.url ++ ':' :: port ++ target) := by simp
  calc
    api.address target = lit "http://" ++ api.url ++ ':' :: Json.decimal api.port.toInt ++ target := rfl
    _ = lit "http://" ++ (api.url ++ ':' :: Json.decimal api.port.toInt ++ target) := shape _ _
    _ = (lit "http" ++ lit "://") ++ (api.url ++ ':' :: Json.decimal api.port.toInt ++ target) :=
      congrArg (· ++ (api.url ++ ':' :: Json.decimal api.port.toInt ++ target)) slashes
    _ = _ := congrArg (fun port => (lit "http" ++ lit "://") ++ (api.url ++ ':' :: port ++ target))
      (renderPort_port set).symm

/-- The port is read as it was configured. -/
theorem portOf_lead (plain : Free [':','/','?','#'] api.url) (set : api.port ≠ -1) (rest : Text) :
    portOf (lit "http")
        (between ':' '/' (api.url ++ ':' :: (renderPort (lit "http") api.port.toInt32 ++ '/' :: rest))) =
      .ok api.port.toInt32 := by
  have rendered := free_renderPort (lit "http") api.port.toInt32
  have slash : '/' ∉ renderPort (lit "http") api.port.toInt32 := rendered '/' (by decide)
  have colon : ':' ∉ api.url := plain ':' (by decide)
  have given : (renderPort (lit "http") api.port.toInt32).isEmpty = false := by
    rw [List.isEmpty_eq_false_iff]
    exact renderPort_ne_nil _ _
  rw [between,before_mark colon,if_neg (plain '/' (by decide)),behind_mark colon,before_mark slash,portOf,given,
    if_neg Bool.false_ne_true,renderPort_port set,← Int16.toInt_toInt32]
  exact atoi_decimal _

/-- The url as it is stored. -/
def LicodeNuveApi.stored (api : LicodeNuveApi) (path : Text) : HttpUrl :=
  init (HttpUrl.stored (lit "http") ((lit "http" ++ lit "://") ++
    body api.url (renderPort (lit "http") api.port.toInt32) ('/' :: path)) api.port.toInt32)

theorem ofText_address (plain : Free [':','/','?','#'] api.url) (set : api.port ≠ -1) (path : Text) :
    HttpUrl.ofText (api.address ('/' :: path)) = .ok (api.stored path) := by
  have free := free_of_plain plain
  have accepted : (parse (api.address ('/' :: path))).run {} = .ok true (HttpUrl.stored (lit "http")
      ((lit "http" ++ lit "://") ++ body api.url (renderPort (lit "http") api.port.toInt32) ('/' :: path))
      api.port.toInt32) := by
    rw [address_eq set]
    refine parse_accepted_iff.mpr ⟨?_,lit "http",api.port.toInt32,?_⟩
    · have size := (length_lead known_http
        (api.url ++ ':' :: renderPort (lit "http") api.port.toInt32 ++ '/' :: path)).2
      simp only [List.length_append,List.length_cons] at size ⊢
      omega
    · rw [trim_printed known_http,schemeOf_printed known_http,hostPathOf_printed known_http,leadOf_body free]
      exact ⟨rfl,(length_lead known_http _).1,by simp,portOf_lead plain set _,rfl⟩
  rw [HttpUrl.ofText,accepted]
  rfl

theorem host_stored (plain : Free [':','/','?','#'] api.url) (path : Text) : (api.stored path).host = api.url := by
  have free := free_of_plain plain
  have colon : ∀ rest, ':' ∈ api.url ++ ':' :: rest := by simp
  show hostOf (hostPathOf (lit "http") _) = _
  rw [hostPathOf_printed known_http,leadOf_body free,hostOf,if_pos (colon _)]
  exact before_mark (plain ':' (by decide)) _

theorem printed_stored (plain : Free [':','/','?','#'] api.url) (path : Text) :
    (api.stored path).printed =
      reread api.url (renderPort (lit "http") api.port.toInt32) (cut ('/' :: path)) := by
  have free := free_of_plain plain
  exact tailOf_printed known_http free (free_renderPort _ _)

/-- The target that is cut out of the stored url. -/
theorem run_setUrl_stored (plain : Free [':','/','?','#'] api.url) (path : Text) :
    (HttpRequest.setUrl (api.stored path)).run {} =
      .ok () ⟨api.stored path,api.url,
        reread api.url (renderPort (lit "http") api.port.toInt32) (cut ('/' :: path))⟩ := by
  have whole : (api.stored path).url = (api.stored path).authority ++ (api.stored path).printed := url_init _
  have colon : ':' ∉ (api.stored path).host := by
    rw [host_stored plain]
    exact plain ':' (by decide)
  have length := HttpRequest.length_authority colon
  have http : ¬ ((api.stored path).port = -1 ∧ (api.stored path).scheme = lit "https") := by
    rintro ⟨-,https⟩
    have different : lit "http" ≠ lit "https" := by decide
    exact different https
  rw [if_neg http,Nat.add_zero] at length
  have within : HttpRequest.counted (api.stored path) ≤ (api.stored path).url.length := by
    rw [whole,List.length_append,length]
    omega
  rw [HttpRequest.run_setUrl within,host_stored plain,whole,← length,List.drop_left,printed_stored plain]

theorem request_addHeader (name value : Text) (m : Message) : (m.addHeader name value).request = m.request := by
  unfold Message.addHeader
  split <;> rfl

/-- Where the message goes and what it asks for. -/
theorem message_goes (hmac : Hmac) (agent : Text) (draw : Draw) {r : Request} (target : r.target = '/' :: path)
    (plain : Free [':','/','?','#'] api.url) (set : api.port ≠ -1) :
    ∃ m, api.message hmac agent draw r = .ok m ∧ m.request.url.host = api.url ∧
      m.request.url.port = api.port.toInt32 ∧
      m.request.target = reread api.url (renderPort (lit "http") api.port.toInt32) (cut ('/' :: path)) := by
  simp only [LicodeNuveApi.message,target,ofText_address plain set,Program.ok_bind,run_setUrl_stored plain]
  refine ⟨_,rfl,?_⟩
  split <;> simp only [request_addHeader,host_stored plain,true_and,and_true] <;> rfl

/-- The settled tails that are only a path. -/
theorem settled_path_iff {host port : Text} (slash : '/' ∉ host) (free : Free ['?','#'] path) :
    Settled host port ('/' :: path) ↔ (∀ piece ∈ path.splitOn '/', Stays piece) ∧ cut ('/' :: path) = '/' :: path := by
  constructor
  · intro settled
    cases settled with
    | path slash shape free stay ends =>
      cases shape
      exact ⟨stay,ends⟩
    | fragment slash shape =>
      cases shape
      exact absurd (by simp) (free '#' (by decide))
    | query slash shape =>
      cases shape
      exact absurd (by simp) (free '?' (by decide))
    | undone shape =>
      have hash : '#' ∈ '/' :: path := by rw [shape]; simp
      exact absurd ((List.mem_cons.mp hash).resolve_left (by decide)) (free '#' (by decide))
    | trimmed inside => exact absurd inside slash
  · rintro ⟨stay,ends⟩
    exact .path slash rfl free stay ends

/-- A request always goes to the configured host and port. It asks for a path without
    a mark as it was given exactly when none of the pieces of the path is empty or made
    of dots and the path does not end with a blank. -/
theorem message_arrives (hmac : Hmac) (agent : Text) (draw : Draw) {r : Request} (target : r.target = '/' :: path)
    (plain : Free [':','/','?','#'] api.url) (set : api.port ≠ -1) (free : Free ['?','#'] path) :
    ∃ m, api.message hmac agent draw r = .ok m ∧ m.request.url.host = api.url ∧
      m.request.url.port = api.port.toInt32 ∧
      (m.request.target = r.target ↔ (∀ piece ∈ path.splitOn '/', Stays piece) ∧ cut r.target = r.target) := by
  obtain ⟨m,made,host,port,asked⟩ := message_goes hmac agent draw target plain set
  refine ⟨m,made,host,port,?_⟩
  rw [target,asked,← settled_path_iff (plain '/' (by decide)) free]
  exact reread_iff (free_of_plain plain) (free_renderPort (lit "http") api.port.toInt32)

/-- A room is asked for by its identifier. -/
def roomRequest : Request := { method := lit "GET", body := [], target := lit "/rooms/5f" }

theorem message_arrives_room :
    ∃ m, (⟨lit "s",lit "k",lit "h",3000⟩ : LicodeNuveApi).message (fun _ _ => []) [] ⟨0,0⟩ roomRequest = .ok m ∧
      m.request.target = lit "/rooms/5f" := by
  have target : roomRequest.target = '/' :: lit "rooms/5f" := rfl
  have plain : Free [':','/','?','#'] (⟨lit "s",lit "k",lit "h",3000⟩ : LicodeNuveApi).url := by decide
  have set : (⟨lit "s",lit "k",lit "h",3000⟩ : LicodeNuveApi).port ≠ -1 := by decide
  have stay : ∀ piece ∈ (lit "rooms/5f").splitOn '/', Stays piece := by
    simp only [Stays]
    decide
  obtain ⟨m,made,-,-,asked⟩ := message_arrives (fun _ _ => []) [] ⟨0,0⟩ target plain set (by decide)
  exact ⟨m,made,asked.mpr ⟨stay,by decide⟩⟩

end

end LicodeClient.Nuve
