import LicodeClient.Lib.Program
import LicodeClient.Packets
import LicodeClient.Printer

/-!
`LicodeNuveApi`: rooms are created, listed, destroyed and entered by requests to the
server, whose answers are JSON, a plain text, or for a token JSON in base64. The
server, with the network in between, is a parameter. Every answer to the other calls
is absorbed, but the text of a token is decoded before the `try` begins, so that an
answer that is no base64 leaves the call as an exception (`absorbs_iff`). The list of
rooms reads the name of a room a second time without asking whether it is a text, so
that one room without a name hides all of them (`faithful_iff`).
-/
namespace LicodeClient.Nuve
open Decode Json

/-- `LicodeRoomInfo`. -/
structure LicodeRoomInfo where
  id : Text
  name : Text
  data : Text
  mediaConfiguration : Text
  p2p : Bool
  deriving DecidableEq

/-- The arguments of `LicodeNuveApi::SyncRequest`. -/
structure Request where
  method : Text
  body : Text
  target : Text
  userName : Text := []
  role : Text := []

/-- An answer of the server: its status and its body. -/
structure Response where
  result : Nat
  body : Text

/-- The server, with the network in between. -/
abbrev Server := Request → Response

/-- `LicodeNuveApi::SyncRequest`: the body of an answer with status 200, else nothing. -/
def syncRequest (server : Server) (request : Request) : Text :=
  let response := server request
  if response.result = 200 then response.body else []

/-- `try { return x } catch (const std::exception&) { return std::nullopt }`. -/
def orNullopt {α : Type} (x : Except Fault α) : Except Fault (Option α) :=
  match x with
  | .ok a => .ok (some a)
  | .error .exception => .ok none
  | .error .undefined => .error .undefined

/-! ### One room -/

/-- The body of the request that creates a room. -/
def createRoomBody (name roomData : Text) (p2p : Bool) : Json :=
  Builder.object [("name",.string name),
    ("options",Builder.object ([("data",.string roomData),("mediaConfiguration",Builder.text "default")] ++
      if p2p then [("p2p",.boolean true)] else []))]

/-- The description of a room in an answer. -/
def roomInfo (response : Json) : Except Fault LicodeRoomInfo := do
  return {
    id := ← response.value Json.toText "_id" []
    name := ← response.value Json.toText "name" []
    data := ← response.value Json.toText "data" []
    mediaConfiguration := ← response.value Json.toText "mediaConfiguration" []
    p2p := ← response.value Json.toBool "p2p" false }

/-- The room that the text of an answer describes. -/
def readRoom (nl : Nlohmann) (result : Text) : Except Fault (Option LicodeRoomInfo) :=
  if result.isEmpty then .ok none else orNullopt (nl.parseOrThrow result >>= roomInfo)

/-- `LicodeNuveApi::SyncCreateRoom`; the media configuration it is given is not used. -/
def syncCreateRoom (nl : Nlohmann) (server : Server) (name _mediaConfiguration roomData : Text) (p2p : Bool) :
    Except Fault (Option LicodeRoomInfo) :=
  readRoom nl (syncRequest server
    { method := lit "POST", body := nl.dump (createRoomBody name roomData p2p), target := lit "/rooms" })

/-- `LicodeNuveApi::SyncGetRoom`. -/
def syncGetRoom (nl : Nlohmann) (server : Server) (roomId : Text) : Except Fault (Option LicodeRoomInfo) :=
  readRoom nl (syncRequest server { method := lit "GET", body := [], target := lit "/rooms/" ++ roomId })

/-- `LicodeNuveApi::SyncDestroyRoom`. -/
def syncDestroyRoom (server : Server) (roomId : Text) : Except Fault Bool :=
  .ok (syncRequest server { method := lit "DELETE", body := [], target := lit "/rooms/" ++ roomId } =
    lit "Room deleted")

/-! ### Tokens -/

/-- The six bits of a character, as `binary_from_base64` looks them up: padding reads
    as zero, and a character outside the alphabet throws. -/
def sixBits (c : Char) : Except Fault Nat :=
  if 'A' ≤ c ∧ c ≤ 'Z' then .ok (c.toNat - 65)
  else if 'a' ≤ c ∧ c ≤ 'z' then .ok (c.toNat - 97 + 26)
  else if '0' ≤ c ∧ c ≤ '9' then .ok (c.toNat - 48 + 52)
  else if c = '+' then .ok 62
  else if c = '/' then .ok 63
  else if c = '=' then .ok 0
  else .error .exception

/-- `transform_width<binary_from_base64<...>, 8, 6>` over a text. Bits that are left over
    at the end are dropped; when there are too few for a byte, the iterator goes on
    reading behind the end of the text. -/
def fromBase64 : Text → Except Fault Text
  | [] => .ok []
  | [a] => do
    let _ ← sixBits a
    .error .undefined
  | [a,b] => do
    let x ← sixBits a
    let y ← sixBits b
    return [Char.ofNat (x * 4 + y / 16)]
  | [a,b,c] => do
    let x ← sixBits a
    let y ← sixBits b
    let z ← sixBits c
    return [Char.ofNat (x * 4 + y / 16),Char.ofNat (y % 16 * 16 + z / 4)]
  | a :: b :: c :: d :: rest => do
    let x ← sixBits a
    let y ← sixBits b
    let z ← sixBits c
    let t ← sixBits d
    let dec ← fromBase64 rest
    return Char.ofNat (x * 4 + y / 16) :: Char.ofNat (y % 16 * 16 + z / 4) :: Char.ofNat (z % 4 * 64 + t) :: dec

/-- The token in an answer. -/
def tokenOf (token : Json) : Except Fault LicodeToken := do
  let signature ← token.value Json.toText "signature" []
  let host ← token.value Json.toText "host" []
  let tokenId ← token.value Json.toText "tokenId" []
  let secure ← token.value Json.toBool "secure" false
  return { tokenId, host, secure, signature }

/-- `LicodeNuveApi::SyncCreateToken`, which decodes outside of its `try`. -/
def syncCreateToken (nl : Nlohmann) (server : Server) (roomId userName role : Text) :
    Except Fault (Option LicodeToken) := do
  let result := syncRequest server
    { method := lit "POST", body := [], target := lit "/rooms/" ++ roomId ++ lit "/tokens", userName, role }
  if result.isEmpty then return none
  let dec ← fromBase64 result
  orNullopt (nl.parseOrThrow dec >>= tokenOf)

/-! ### The list of rooms -/

/-- A member put in its place among the others. -/
def insertMember (key : Text) (x : Json) : List (Text × Json) → List (Text × Json)
  | [] => [(key,x)]
  | (name,y) :: rest =>
    if compare name key = .lt then (name,y) :: insertMember key x rest else (key,x) :: (name,y) :: rest

/-- `json["key"]` on a value that may be changed, with the value as it is afterwards:
    a missing member has become one that is null. -/
def subscript (json : Json) (key : String) : Except Fault (Json × Json) :=
  match json with
  | .null => .ok (.null,.object [(lit key,.null)])
  | .object members =>
    match Json.find members (lit key) with
    | some x => .ok (x,json)
    | none => .ok (.null,.object (insertMember (lit key) .null members))
  | _ => .error .exception

/-- `name` of a room in the list, nothing unless it is a text. -/
def nameOf (name room : Json) : Except Fault Text :=
  match name with
  | .string _ => room.value Json.toText "name" []
  | _ => .ok []

/-- `data` of a room in the list: nothing for null, the text of an object, or a text. -/
def dataOf (nl : Nlohmann) : Json → Except Fault Text
  | .null => .ok []
  | .object members => .ok (nl.dump (.object members))
  | data => data.toText

/-- `mediaConfiguration` of a room in the list. -/
def mediaConfigurationOf : Json → Except Fault Text
  | .null => .ok []
  | mediaConfiguration => mediaConfiguration.toText

/-- One pass of the loop over the rooms. Every lookup hands on the room as it leaves
    it. The name that is read first is not used: it is read again for the result,
    whatever it is by then. -/
def listedRoom (nl : Nlohmann) (room : Json) : Except Fault LicodeRoomInfo := do
  let named ← subscript room "name"
  let _name ← nameOf named.1 named.2
  let filled ← subscript named.2 "data"
  let data ← dataOf nl filled.1
  let configured ← subscript filled.2 "mediaConfiguration"
  let mediaConfiguration ← mediaConfigurationOf configured.1
  return {
    id := ← configured.2.value Json.toText "_id" []
    name := ← configured.2.value Json.toText "name" []
    data
    mediaConfiguration
    p2p := false }

/-- `LicodeNuveApi::SyncListRoom`. -/
def syncListRoom (nl : Nlohmann) (server : Server) : Except Fault (Option (List LicodeRoomInfo)) :=
  let result := syncRequest server { method := lit "GET", body := [], target := lit "/rooms" }
  if result.isEmpty then .ok none
  else orNullopt (do
    let response ← nl.parseOrThrow result
    response.elements.mapM (listedRoom nl))

/-! ### Calls that return -/

theorem orNullopt_returns {α : Type} {x : Except Fault α} (avoids : Avoids .undefined x) :
    ∃ r, orNullopt x = .ok r := by
  cases x with
  | ok a => exact ⟨some a,rfl⟩
  | error fault =>
    cases fault with
    | exception => exact ⟨none,rfl⟩
    | undefined => exact absurd rfl avoids

theorem avoids_subscript (json : Json) (key : String) : Avoids .undefined (subscript json key) := by
  cases json with
  | null => exact avoids_ok _
  | object members =>
    simp only [subscript]
    cases Json.find members (lit key) <;> exact avoids_ok _
  | _ => exact avoids_error (by decide)

theorem avoids_roomInfo (response : Json) : Avoids .undefined (roomInfo response) := by
  have text := avoids_value avoids_toText response
  refine avoids_bind (text "_id" []) (fun _ => avoids_bind (text "name" []) (fun _ => ?_))
  refine avoids_bind (text "data" []) (fun _ => avoids_bind (text "mediaConfiguration" []) (fun _ => ?_))
  exact avoids_bind (avoids_value avoids_toBool response "p2p" false) (fun _ => avoids_ok _)

theorem avoids_tokenOf (token : Json) : Avoids .undefined (tokenOf token) := by
  have text := avoids_value avoids_toText token
  refine avoids_bind (text "signature" []) (fun _ => avoids_bind (text "host" []) (fun _ => ?_))
  refine avoids_bind (text "tokenId" []) (fun _ => ?_)
  exact avoids_bind (avoids_value avoids_toBool token "secure" false) (fun _ => avoids_ok _)

theorem avoids_nameOf (name room : Json) : Avoids .undefined (nameOf name room) := by
  cases name with
  | string s => exact avoids_value avoids_toText room "name" []
  | _ => exact avoids_ok _

theorem avoids_dataOf (nl : Nlohmann) (data : Json) : Avoids .undefined (dataOf nl data) := by
  cases data with
  | null => exact avoids_ok _
  | object members => exact avoids_ok _
  | string s => exact avoids_ok s
  | _ => exact avoids_error (by decide)

theorem avoids_mediaConfigurationOf (mediaConfiguration : Json) :
    Avoids .undefined (mediaConfigurationOf mediaConfiguration) := by
  cases mediaConfiguration with
  | null => exact avoids_ok _
  | string s => exact avoids_ok s
  | _ => exact avoids_error (by decide)

theorem avoids_listedRoom (nl : Nlohmann) (room : Json) : Avoids .undefined (listedRoom nl room) := by
  have text := fun room => avoids_value avoids_toText room
  refine avoids_bind (avoids_subscript room "name") (fun named => avoids_bind (avoids_nameOf _ _) (fun _ => ?_))
  refine avoids_bind (avoids_subscript _ "data") (fun filled => avoids_bind (avoids_dataOf nl _) (fun _ => ?_))
  refine avoids_bind (avoids_subscript _ "mediaConfiguration") (fun configured => ?_)
  refine avoids_bind (avoids_mediaConfigurationOf _) (fun _ => ?_)
  exact avoids_bind (text _ "_id" []) (fun _ => avoids_bind (text _ "name" []) (fun _ => avoids_ok _))

theorem readRoom_returns (nl : Nlohmann) (result : Text) : ∃ r, readRoom nl result = .ok r := by
  unfold readRoom
  split
  · exact ⟨none,rfl⟩
  · exact orNullopt_returns (avoids_bind (avoids_parseOrThrow nl result) avoids_roomInfo)

theorem syncListRoom_returns (nl : Nlohmann) (server : Server) : ∃ r, syncListRoom nl server = .ok r := by
  unfold syncListRoom
  simp only
  split
  · exact ⟨none,rfl⟩
  · exact orNullopt_returns (avoids_bind (avoids_parseOrThrow nl _)
      (fun response => avoids_mapM (avoids_listedRoom nl) response.elements))

/-! ### Base64 -/

/-- The characters of base64, with the padding. -/
def InAlphabet (c : Char) : Prop :=
  ('A' ≤ c ∧ c ≤ 'Z') ∨ ('a' ≤ c ∧ c ≤ 'z') ∨ ('0' ≤ c ∧ c ≤ '9') ∨ c = '+' ∨ c = '/' ∨ c = '='

theorem sixBits_ok_iff (c : Char) : (∃ v, sixBits c = .ok v) ↔ InAlphabet c := by
  unfold sixBits InAlphabet
  by_cases upper : 'A' ≤ c ∧ c ≤ 'Z'
  · simp [upper]
  by_cases lower : 'a' ≤ c ∧ c ≤ 'z'
  · simp [upper,lower]
  by_cases digit : '0' ≤ c ∧ c ≤ '9'
  · simp [upper,lower,digit]
  rw [if_neg upper,if_neg lower,if_neg digit]
  by_cases plus : c = '+'
  · simp [plus]
  by_cases slash : c = '/'
  · simp [slash]
  by_cases padding : c = '='
  · simp [padding]
  simp [upper,lower,digit,plus,slash,padding]

/-- A text is decoded when every character is in the alphabet and the last group has
    the bits for a byte. -/
theorem fromBase64_ok_iff (s : Text) :
    (∃ dec, fromBase64 s = .ok dec) ↔ (∀ c ∈ s, InAlphabet c) ∧ s.length % 4 ≠ 1 := by
  -- The induction takes the text in groups of four, as the decoder does.
  induction s using fromBase64.induct with
  | case1 => simp [fromBase64]
  | case2 a => simp [fromBase64,bind_eq_ok_iff]
  | case3 a b => simp [fromBase64,bind_eq_ok_iff,← sixBits_ok_iff,pure,Except.pure]
  | case4 a b c => simp [fromBase64,bind_eq_ok_iff,← sixBits_ok_iff,pure,Except.pure]
  | case5 a b c d rest ih =>
    have length : (a :: b :: c :: d :: rest).length % 4 = rest.length % 4 := by
      simp only [List.length_cons]
      omega
    rw [length]
    simp only [fromBase64,bind_eq_ok_iff,List.forall_mem_cons,← sixBits_ok_iff] at ih ⊢
    constructor
    · rintro ⟨dec,x,first,y,second,z,third,t,fourth,dec',decodes,-⟩
      obtain ⟨all,ends⟩ := ih.mp ⟨dec',decodes⟩
      exact ⟨⟨⟨x,first⟩,⟨y,second⟩,⟨z,third⟩,⟨t,fourth⟩,all⟩,ends⟩
    · rintro ⟨⟨⟨x,first⟩,⟨y,second⟩,⟨z,third⟩,⟨t,fourth⟩,all⟩,ends⟩
      obtain ⟨dec',decodes⟩ := ih.mpr ⟨all,ends⟩
      exact ⟨_,x,first,y,second,z,third,t,fourth,dec',decodes,rfl⟩

/-- With an answer of status 200 and this body every call returns, whatever its
    arguments. -/
def Absorbs (nl : Nlohmann) (body : Text) : Prop :=
  ∀ server : Server, (∀ request, server request = ⟨200,body⟩) →
    (∀ name mediaConfiguration roomData p2p,
      ∃ r, syncCreateRoom nl server name mediaConfiguration roomData p2p = .ok r) ∧
    (∀ roomId, ∃ r, syncGetRoom nl server roomId = .ok r) ∧
    (∃ r, syncListRoom nl server = .ok r) ∧
    (∀ roomId userName role, ∃ r, syncCreateToken nl server roomId userName role = .ok r) ∧
    ∀ roomId, ∃ r, syncDestroyRoom server roomId = .ok r

theorem syncCreateToken_returns_iff (nl : Nlohmann) {server : Server} {body : Text}
    (answers : ∀ request, server request = ⟨200,body⟩) (roomId userName role : Text) :
    (∃ r, syncCreateToken nl server roomId userName role = .ok r) ↔ ∃ dec, fromBase64 body = .ok dec := by
  have result : ∀ request, syncRequest server request = body := by
    intro request
    simp [syncRequest,answers]
  unfold syncCreateToken
  simp only [result]
  cases body with
  | nil => exact iff_of_true ⟨none,rfl⟩ ⟨[],rfl⟩
  | cons c body =>
    constructor
    · rintro ⟨r,returns⟩
      obtain ⟨dec,decodes,-⟩ := bind_eq_ok_iff.mp returns
      exact ⟨dec,decodes⟩
    · rintro ⟨dec,decodes⟩
      obtain ⟨r,returns⟩ := orNullopt_returns (avoids_bind (avoids_parseOrThrow nl dec) avoids_tokenOf)
      exact ⟨r,bind_eq_ok_iff.mpr ⟨dec,decodes,returns⟩⟩

/-- Every call returns exactly when the body is base64 up to its last byte. -/
theorem absorbs_iff (nl : Nlohmann) (body : Text) :
    Absorbs nl body ↔ (∀ c ∈ body, InAlphabet c) ∧ body.length % 4 ≠ 1 := by
  rw [← fromBase64_ok_iff]
  constructor
  · intro absorbs
    have token := (absorbs (fun _ => ⟨200,body⟩) (fun _ => rfl)).2.2.2.1 [] [] []
    exact (syncCreateToken_returns_iff nl (fun _ => rfl) [] [] []).mp token
  · intro decodes server answers
    refine ⟨fun _ _ _ _ => readRoom_returns nl _,fun _ => readRoom_returns nl _,syncListRoom_returns nl server,?_,
      fun _ => ⟨_,rfl⟩⟩
    exact fun roomId userName role => (syncCreateToken_returns_iff nl answers roomId userName role).mpr decodes

/-- An answer that is no base64 leaves the call for a token. -/
theorem absorbs_fails :
    syncCreateToken ⟨fun _ => none,fun _ => []⟩ (fun _ => ⟨200,lit "not found"⟩) (lit "r") (lit "u") (lit "guest") =
        .error .exception ∧
      ¬ Absorbs ⟨fun _ => none,fun _ => []⟩ (lit "not found") := by
  refine ⟨rfl,fun absorbs => ?_⟩
  obtain ⟨r,returns⟩ := (absorbs (fun _ => ⟨200,lit "not found"⟩) (fun _ => rfl)).2.2.2.1 [] [] []
  cases returns

/-! ### What the list tells of its rooms -/

theorem find_insertMember {members : List (Text × Json)} {key : Text} (absent : Json.find members key = none)
    (x : Json) (k : Text) :
    Json.find (insertMember key x members) k = if k = key then some x else Json.find members k := by
  induction members with
  | nil =>
    rw [insertMember,Json.find_cons]
    simp only [eq_comm]
  | cons member rest ih =>
    obtain ⟨name,y⟩ := member
    rw [Json.find_cons] at absent
    have other : name ≠ key := fun same => by rw [if_pos same] at absent; cases absent
    rw [if_neg other] at absent
    rw [insertMember]
    split
    · rw [Json.find_cons,Json.find_cons,ih absent]
      by_cases here : name = k
      · subst here
        rw [if_pos rfl,if_neg other,if_pos rfl]
      · rw [if_neg here,if_neg here]
    · rw [Json.find_cons,Json.find_cons]
      simp only [eq_comm]

/-- A lookup in an object finds the member or null, and leaves that member behind. -/
theorem subscript_object (members : List (Text × Json)) (key : String) :
    ∃ left, subscript (.object members) key = .ok ((Json.find members (lit key)).getD .null,.object left) ∧
      ∀ k, Json.find left k =
        if k = lit key then some ((Json.find members (lit key)).getD .null) else Json.find members k := by
  cases found : Json.find members (lit key) with
  | some x =>
    refine ⟨members,by simp only [subscript,found,Option.getD_some],fun k => ?_⟩
    by_cases here : k = lit key
    · rw [if_pos here,here,found,Option.getD_some]
    · rw [if_neg here]
  | none =>
    exact ⟨insertMember (lit key) .null members,by simp only [subscript,found,Option.getD_none],
      find_insertMember found .null⟩

/-- The rooms that a list may hold: objects with a text for their id, whose data is
    missing, null, an object or a text and whose media configuration is missing, null
    or a text. Nothing is asked of the name. -/
def Usual (room : Json) : Prop :=
  ∃ members, room = .object members ∧ (∃ id, Json.find members (lit "_id") = some (.string id)) ∧
    (∀ data, Json.find members (lit "data") = some data →
      data = .null ∨ (∃ inner, data = .object inner) ∨ ∃ text, data = .string text) ∧
    ∀ media, Json.find members (lit "mediaConfiguration") = some media → media = .null ∨ ∃ text, media = .string text

/-- The name of a room is a text. -/
def Named (room : Json) : Prop := ∃ name, room.member "name" = .ok (.string name)

/-- An entry of the result has the id of its room, and its name when that is a text. -/
structure Matches (room : Json) (info : LicodeRoomInfo) : Prop where
  id : room.member "_id" = .ok (.string info.id)
  name : ∀ name, room.member "name" = .ok (.string name) → info.name = name
  unnamed : ¬ Named room → info.name = []

theorem dataOf_usual (nl : Nlohmann) {found : Option Json}
    (usual : ∀ data, found = some data → data = .null ∨ (∃ inner, data = .object inner) ∨ ∃ text, data = .string text) :
    ∃ text, dataOf nl (found.getD .null) = .ok text := by
  cases found with
  | none => exact ⟨[],rfl⟩
  | some data =>
    rcases usual data rfl with rfl | ⟨inner,rfl⟩ | ⟨text,rfl⟩
    · exact ⟨[],rfl⟩
    · exact ⟨_,rfl⟩
    · exact ⟨text,rfl⟩

theorem mediaConfigurationOf_usual {found : Option Json}
    (usual : ∀ media, found = some media → media = .null ∨ ∃ text, media = .string text) :
    ∃ text, mediaConfigurationOf (found.getD .null) = .ok text := by
  cases found with
  | none => exact ⟨[],rfl⟩
  | some media =>
    rcases usual media rfl with rfl | ⟨text,rfl⟩
    · exact ⟨[],rfl⟩
    · exact ⟨text,rfl⟩

theorem value_of_find {members : List (Text × Json)} {key : String} {x : Json}
    (found : Json.find members (lit key) = some x) :
    (Json.object members).value Json.toText key [] = x.toText := by
  simp only [Json.value,found]

theorem nameOf_returns {name room : Json} (same : room.value Json.toText "name" [] = name.toText) :
    ∃ text, nameOf name room = .ok text := by
  cases name with
  | string text => exact ⟨text,same⟩
  | _ => exact ⟨[],rfl⟩

/-- What is made of a usual room depends on its name. -/
theorem listedRoom_usual (nl : Nlohmann) {members : List (Text × Json)} (usual : Usual (.object members)) :
    ∃ id data media, Json.find members (lit "_id") = some (.string id) ∧
      listedRoom nl (.object members) =
        (fun name => ⟨id,name,data,media,false⟩) <$> ((Json.find members (lit "name")).getD .null).toText := by
  obtain ⟨_,same,⟨id,identified⟩,usualData,usualMedia⟩ := usual
  cases same
  obtain ⟨first,named,findFirst⟩ := subscript_object members "name"
  obtain ⟨second,filled,findSecond⟩ := subscript_object first "data"
  obtain ⟨third,configured,findThird⟩ := subscript_object second "mediaConfiguration"
  -- The lookups before do not touch the members that are read after them.
  have findData : Json.find first (lit "data") = Json.find members (lit "data") := findFirst _
  have findMedia : Json.find second (lit "mediaConfiguration") = Json.find members (lit "mediaConfiguration") :=
    (findSecond _).trans (findFirst _)
  have findId : Json.find third (lit "_id") = some (.string id) :=
    (findThird _).trans ((findSecond _).trans ((findFirst _).trans identified))
  have findName : Json.find third (lit "name") = some ((Json.find members (lit "name")).getD .null) :=
    (findThird _).trans ((findSecond _).trans (findFirst _))
  obtain ⟨text,reads⟩ := nameOf_returns (value_of_find (findFirst (lit "name")))
  obtain ⟨data,hasData⟩ := dataOf_usual nl usualData
  obtain ⟨media,hasMedia⟩ := mediaConfigurationOf_usual usualMedia
  rw [findData] at filled
  rw [findMedia] at configured
  refine ⟨id,data,media,identified,?_⟩
  simp only [listedRoom,named,Program.ok_bind,reads,filled,hasData,configured,hasMedia,value_of_find findId,
    value_of_find findName,Json.toText]
  rfl

theorem listedRoom_iff (nl : Nlohmann) {room : Json} (usual : Usual room) :
    (∃ info, listedRoom nl room = .ok info ∧ Matches room info) ↔ Named room := by
  obtain ⟨members,rfl,-⟩ := id usual
  obtain ⟨id,data,media,identified,reads⟩ := listedRoom_usual nl usual
  have found : ∀ name, (Json.object members).member "name" = .ok (.string name) ↔
      ((Json.find members (lit "name")).getD .null).toText = .ok name := by
    intro name
    rw [Json.toText_eq_ok_iff]
    simp only [Json.member,Except.ok.injEq]
  rw [reads]
  constructor
  · rintro ⟨info,returns,-⟩
    obtain ⟨name,converts,-⟩ := map_eq_ok_iff.mp returns
    exact ⟨name,(found name).mpr converts⟩
  · rintro ⟨name,named⟩
    have converts := (found name).mp named
    refine ⟨_,map_eq_ok_iff.mpr ⟨name,converts,rfl⟩,?_,?_,fun unnamed => absurd ⟨name,named⟩ unnamed⟩
    · simp only [Json.member,identified,Option.getD_some]
    · intro other named'
      rw [found,converts] at named'
      cases named'
      rfl

/-- With this body the list comes back with an entry for every room, in order. -/
def Faithful (nl : Nlohmann) (body : Text) (rooms : List Json) : Prop :=
  ∃ infos, syncListRoom nl (fun _ => ⟨200,body⟩) = .ok (some infos) ∧ List.Forall₂ Matches rooms infos

theorem syncListRoom_array (nl : Nlohmann) {body : Text} {rooms : List Json} (given : body ≠ [])
    (parsed : nl.parse body = some (.array rooms)) :
    syncListRoom nl (fun _ => ⟨200,body⟩) = orNullopt (rooms.mapM (listedRoom nl)) := by
  have full : body.isEmpty = false := by simpa using given
  simp only [syncListRoom,syncRequest,if_true,full,Nlohmann.parseOrThrow,parsed]
  rfl

theorem orNullopt_eq_some_iff {α : Type} {x : Except Fault α} {a : α} : orNullopt x = .ok (some a) ↔ x = .ok a := by
  cases x with
  | ok b => simp [orNullopt]
  | error fault => cases fault <;> simp [orNullopt]

/-- The list is faithful exactly when every room in it has a text for its name. -/
theorem faithful_iff (nl : Nlohmann) (body : Text) (rooms : List Json) (given : body ≠ [])
    (parsed : nl.parse body = some (.array rooms)) (usual : ∀ room ∈ rooms, Usual room) :
    Faithful nl body rooms ↔ ∀ room ∈ rooms, Named room := by
  unfold Faithful
  rw [syncListRoom_array nl given parsed]
  simp only [orNullopt_eq_some_iff,mapM_eq_ok_iff]
  have each : (∀ room ∈ rooms, ∃ info, listedRoom nl room = .ok info ∧ Matches room info) ↔
      ∀ room ∈ rooms, Named room :=
    forall₂_congr (fun room listed => listedRoom_iff nl (usual room listed))
  rw [← each,← exists_forall₂_iff]
  constructor
  · rintro ⟨infos,reads,matching⟩
    exact ⟨infos,forall₂_and reads matching⟩
  · rintro ⟨infos,all⟩
    exact ⟨infos,all.imp (fun _ _ both => both.1),all.imp (fun _ _ both => both.2)⟩

/-- A library that knows the text of a list of rooms. -/
def listing (rooms : List Json) : Nlohmann := library [.array rooms]

def namedRoom : Json := .object [(lit "_id",.string (lit "1")),(lit "name",.string (lit "a"))]

def furnishedRoom : Json :=
  .object [(lit "_id",.string (lit "2")),(lit "data",.object []),
    (lit "mediaConfiguration",.string (lit "default")),(lit "name",.string (lit "b"))]

def namelessRoom : Json := .object [(lit "_id",.string (lit "2"))]

/-- A list of two rooms that have names. -/
theorem faithful_named :
    Faithful (listing [namedRoom,furnishedRoom]) (Json.array [namedRoom,furnishedRoom]).print
      [namedRoom,furnishedRoom] := by
  refine (faithful_iff _ _ _ (by decide) (parse_library _) ?_).mpr ?_
  · intro room listed
    rcases List.mem_pair.mp listed with rfl | rfl
    · refine ⟨_,rfl,⟨lit "1",rfl⟩,?_,?_⟩
      · intro data found
        cases found
      · intro media found
        cases found
    · refine ⟨_,rfl,⟨lit "2",rfl⟩,?_,?_⟩
      · intro data found
        cases found
        exact .inr (.inl ⟨[],rfl⟩)
      · intro media found
        cases found
        exact .inr ⟨lit "default",rfl⟩
  · intro room listed
    rcases List.mem_pair.mp listed with rfl | rfl
    · exact ⟨lit "a",rfl⟩
    · exact ⟨lit "b",rfl⟩

/-- A second room without a name hides the first. -/
theorem faithful_fails :
    syncListRoom (listing [namedRoom,namelessRoom]) (fun _ => ⟨200,(Json.array [namedRoom,namelessRoom]).print⟩) =
        .ok none ∧
      ¬ Faithful (listing [namedRoom,namelessRoom]) (Json.array [namedRoom,namelessRoom]).print
        [namedRoom,namelessRoom] := by
  have hidden : syncListRoom (listing [namedRoom,namelessRoom])
      (fun _ => ⟨200,(Json.array [namedRoom,namelessRoom]).print⟩) = .ok none := by rfl
  refine ⟨hidden,?_⟩
  rintro ⟨infos,returns,-⟩
  rw [hidden] at returns
  cases returns

end LicodeClient.Nuve
