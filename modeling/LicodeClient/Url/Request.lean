import LicodeClient.Url.Reading

/-!
`HttpUrl`, made from a text or from a builder, the operations that edit a builder,
and `HttpRequest::SetUrl`, which cuts the target of a request out of the printed
url. It counts the characters before the target from the stored host and port,
which are not always printed as they are stored: a port that is not set prints as
that of the scheme. The counts differ for `https` only, and the target begins with
a slash only when there is a path (`sliced_iff`).
-/
namespace LicodeClient
open MonadExcept (ofExcept)
open Positions (before behind between not_mem_before mem_of_mem_before)

/-- `HttpUrl`. -/
structure HttpUrl where
  url : Text := []
  scheme : Text := []
  port : Int32 := -1
  host : Text := []
  fragment : Text := []
  pathSegments : List Text := []
  queryNamesAndValues : HttpUrl.Query := ∅

namespace HttpUrl
open HttpUrl.Builder

/-- `HttpUrl::Init`. -/
def init (builder : Builder) : HttpUrl where
  url := builder.toString
  scheme := builder.scheme
  port := builder.port
  host := builder.host
  fragment := builder.encodedFragment
  pathSegments := builder.encodedPathSegments
  queryNamesAndValues := builder.encodedQueryNamesAndValues

/-- The constructor from a text; a text that is rejected gives an empty url. -/
def ofText (url : Text) : Except Fault HttpUrl :=
  match (parse url).run {} with
  | .ok true builder => .ok (init builder)
  | .ok false _ => .ok {}
  | .error fault _ => .error fault

namespace Builder

/-- `HttpUrl::Builder::Scheme`. -/
def setScheme (scheme : Text) (b : Builder) : Builder :=
  if scheme = lit "http" then { b with scheme := lit "http" }
  else if scheme = lit "https" then { b with scheme := lit "https" }
  else { b with scheme := lit "http" }

/-- `HttpUrl::Builder::Host`, which writes behind the end of a host that it has
    just emptied. -/
def setHost (host : Text) : Edit Unit := do
  if host.isEmpty then pure ()
  else
    modify fun b => { b with host := [] }
    throw .undefined

/-- `HttpUrl::Builder::Port`. -/
def setPort (port : Int32) (b : Builder) : Builder :=
  if port ≤ 0 ∨ 65535 < port then { b with port := -1 } else { b with port }

/-- `HttpUrl::Builder::AddEncodedPathSegment`. -/
def addEncodedPathSegment (pathSegment : Text) (b : Builder) : Builder :=
  if pathSegment.isEmpty then b else b.push pathSegment

/-- `HttpUrl::Builder::SetEncodedPathSegment`. -/
def setEncodedPathSegment (index : Int32) (pathSegment : Text) (b : Builder) : Builder :=
  if pathSegment.isEmpty then b
  else if pathSegment = lit "." ∨ pathSegment = lit ".." then b
  else if index.toInt < 0 ∨ b.encodedPathSegments.length ≤ index.toInt then b
  else { b with encodedPathSegments := b.encodedPathSegments.set index.toInt.toNat pathSegment }

/-- `HttpUrl::Builder::RemovePathSegment`. -/
def removePathSegment (index : Int32) (b : Builder) : Builder :=
  if index.toInt < 0 ∨ b.encodedPathSegments.length ≤ index.toInt then b
  else { b with encodedPathSegments := b.encodedPathSegments.eraseIdx index.toInt.toNat }

/-- `HttpUrl::Builder::RemoveEncodedQueryParameter` of one value. -/
def removeEncodedQueryValue (name value : Text) (b : Builder) : Builder :=
  if name.isEmpty then b
  else { b with encodedQueryNamesAndValues := b.encodedQueryNamesAndValues.removeValue name value }

/-- `HttpUrl::Builder::RemoveEncodedQueryParameter`. -/
def removeEncodedQueryParameter (name : Text) (b : Builder) : Builder :=
  if name.isEmpty then b
  else { b with encodedQueryNamesAndValues := b.encodedQueryNamesAndValues.erase name }

/-- `HttpUrl::Builder::Build`. -/
def build (b : Builder) : HttpUrl := init b

/-- What can be called on a builder to change it. -/
inductive Op where
  | scheme (scheme : Text)
  | host (host : Text)
  | port (port : Int32)
  | addEncodedPathSegment (pathSegment : Text)
  | addEncodedPathSegments (pathSegment : Text)
  | setEncodedPathSegment (index : Int32) (pathSegment : Text)
  | removePathSegment (index : Int32)
  | addEncodedQueryParameter (name value : Text)
  | removeEncodedQueryValue (name value : Text)
  | removeEncodedQueryParameter (name : Text)
  | addEncodedFragment (fragment : Text)
  | parse (url : Text)

def Op.apply : Op → Edit Unit
  | .scheme name => modify (setScheme name)
  | .host name => setHost name
  | .port number => modify (setPort number)
  | .addEncodedPathSegment pathSegment => modify (Builder.addEncodedPathSegment pathSegment)
  | .addEncodedPathSegments pathSegment => modify (Builder.addEncodedPathSegments pathSegment)
  | .setEncodedPathSegment index pathSegment => modify (Builder.setEncodedPathSegment index pathSegment)
  | .removePathSegment index => modify (Builder.removePathSegment index)
  | .addEncodedQueryParameter name value => modify (Builder.addEncodedQueryParameter name value)
  | .removeEncodedQueryValue name value => modify (Builder.removeEncodedQueryValue name value)
  | .removeEncodedQueryParameter name => modify (Builder.removeEncodedQueryParameter name)
  | .addEncodedFragment fragment => modify (Builder.addEncodedFragment fragment)
  | .parse url => do let _ ← Builder.parse url

/-- A builder after a sequence of operations that all return. -/
def Edited (b b' : Builder) : Prop := ∃ ops : List Op, (ops.forM Op.apply).run b = .ok () b'

/-! ### What every builder keeps -/

/-- The scheme is a known one or not set, no host holds a colon, so that none is
    printed in brackets, and no parameter is without values. -/
structure Kept (b : Builder) : Prop where
  scheme : b.scheme = [] ∨ b.scheme = lit "http" ∨ b.scheme = lit "https"
  host : ':' ∉ b.host
  query : b.encodedQueryNamesAndValues.Full

theorem kept_new : Kept {} := ⟨.inl rfl,by simp,Multimap.full_empty⟩

theorem schemeOf_known {s scheme : Text} (known : schemeOf s = some scheme) :
    scheme = lit "http" ∨ scheme = lit "https" := by
  unfold schemeOf at known
  split at known
  · exact .inl (Option.some.inj known).symm
  · split at known
    · exact .inr (Option.some.inj known).symm
    · cases known

theorem not_mem_hostOf (hostPath : Text) : ':' ∉ hostOf hostPath := by
  unfold hostOf
  split
  · exact not_mem_before ':' hostPath
  · next absent => exact fun member => absent (mem_of_mem_before member)

theorem full_foldl_addPiece (pieces : List Text) {query : Query} (full : query.Full) :
    (pieces.foldl addPiece query).Full := by
  induction pieces generalizing query with
  | nil => exact full
  | cons piece pieces ih =>
    refine ih ?_
    unfold addPiece
    split
    · exact full
    · exact Multimap.full_add full _ _

theorem full_paramsOf (query : Text) : (paramsOf query).Full := full_foldl_addPiece _ Multimap.full_empty

theorem kept_stored {s scheme : Text} (known : schemeOf s = some scheme) (url : Text) (port : Int32) :
    Kept (stored scheme url port) :=
  ⟨.inr (schemeOf_known known),not_mem_hostOf _,full_paramsOf _⟩

/-- The builders that `Parse` leaves behind. -/
theorem parse_cases {url : Text} {prior b : Builder} {accepted : Bool} (run : (parse url).run prior = .ok accepted b) :
    accepted = false ∧
        (b = prior ∨ b = {} ∨ ∃ scheme, schemeOf (before ':' (trim url)) = some scheme ∧ b = { scheme }) ∨
      ∃ scheme port, schemeOf (before ':' (trim url)) = some scheme ∧ b = stored scheme (trim url) port := by
  rw [run_parse,outcome] at run
  split at run
  · cases run
    exact .inl ⟨rfl,.inl rfl⟩
  · cases known : schemeOf (before ':' (trim url)) with
    | none =>
      rw [known] at run
      cases run
      exact .inl ⟨rfl,.inr (.inl rfl)⟩
    | some scheme =>
      rw [known,Option.elim_some,partsOutcome] at run
      split at run
      · cases run
      · split at run
        · cases run
          exact .inl ⟨rfl,.inr (.inr ⟨scheme,rfl,rfl⟩)⟩
        · split at run
          · cases run
            exact .inr ⟨scheme,_,rfl,rfl⟩
          · cases run

theorem kept_parse {url : Text} {prior b : Builder} {accepted : Bool} (kept : Kept prior)
    (run : (parse url).run prior = .ok accepted b) : Kept b := by
  rcases parse_cases run with ⟨-,rfl | rfl | ⟨scheme,known,rfl⟩⟩ | ⟨scheme,port,known,rfl⟩
  · exact kept
  · exact kept_new
  · exact ⟨.inr (schemeOf_known known),by simp,Multimap.full_empty⟩
  · exact kept_stored known _ port

theorem kept_push {b : Builder} (kept : Kept b) (segment : Text) : Kept (b.push segment) := by
  unfold push
  split
  · exact kept
  · split
    · exact kept
    · split <;> exact ⟨kept.scheme,kept.host,kept.query⟩

/-- The operations that return keep this. -/
theorem kept_apply {op : Op} {b b' : Builder} (kept : Kept b) (run : op.apply.run b = .ok () b') : Kept b' := by
  cases op with
  | scheme scheme =>
    cases run
    unfold setScheme
    split
    · exact ⟨.inr (.inl rfl),kept.host,kept.query⟩
    · split
      · exact ⟨.inr (.inr rfl),kept.host,kept.query⟩
      · exact ⟨.inr (.inl rfl),kept.host,kept.query⟩
  | host host =>
    simp only [Op.apply,setHost] at run
    split at run
    · cases run
      exact kept
    · cases run
  | port port =>
    cases run
    unfold setPort
    split <;> exact ⟨kept.scheme,kept.host,kept.query⟩
  | addEncodedPathSegment pathSegment =>
    cases run
    unfold Builder.addEncodedPathSegment
    split
    · exact kept
    · exact kept_push kept pathSegment
  | addEncodedPathSegments pathSegment =>
    cases run
    unfold Builder.addEncodedPathSegments
    split
    · exact kept
    · rw [foldl_push_eq]
      exact ⟨kept.scheme,kept.host,kept.query⟩
  | setEncodedPathSegment index pathSegment =>
    cases run
    unfold Builder.setEncodedPathSegment
    split
    · exact kept
    · split
      · exact kept
      · split <;> exact ⟨kept.scheme,kept.host,kept.query⟩
  | removePathSegment index =>
    cases run
    unfold Builder.removePathSegment
    split <;> exact ⟨kept.scheme,kept.host,kept.query⟩
  | addEncodedQueryParameter name value =>
    cases run
    unfold Builder.addEncodedQueryParameter
    split
    · exact kept
    · exact ⟨kept.scheme,kept.host,Multimap.full_add kept.query _ _⟩
  | removeEncodedQueryValue name value =>
    cases run
    unfold Builder.removeEncodedQueryValue
    split
    · exact kept
    · exact ⟨kept.scheme,kept.host,Multimap.full_removeValue kept.query _ _⟩
  | removeEncodedQueryParameter name =>
    cases run
    unfold Builder.removeEncodedQueryParameter
    split
    · exact kept
    · exact ⟨kept.scheme,kept.host,Multimap.full_erase kept.query _⟩
  | addEncodedFragment fragment =>
    cases run
    unfold Builder.addEncodedFragment
    split <;> exact ⟨kept.scheme,kept.host,kept.query⟩
  | parse url =>
    simp only [Op.apply,EStateM.run_bind] at run
    cases parsed : (Builder.parse url).run b with
    | ok accepted c =>
      rw [parsed] at run
      cases run
      exact kept_parse kept parsed
    | error fault c =>
      rw [parsed] at run
      cases run

theorem Edited.kept {b b' : Builder} (edited : Edited b b') (kept : Kept b) : Kept b' := by
  obtain ⟨ops,run⟩ := edited
  induction ops generalizing b with
  | nil => cases run; exact kept
  | cons op ops ih =>
    replace run : (op.apply >>= fun _ => ops.forM Op.apply).run b = .ok () b' := run
    rw [EStateM.run_bind] at run
    cases first : op.apply.run b with
    | ok _ c =>
      rw [first] at run
      exact ih (kept_apply kept first) run
    | error fault c =>
      rw [first] at run
      cases run

end Builder

/-! ### The printed url -/

/-- A host as `ToString` prints it. -/
def renderHost (host : Text) : Text := if ':' ∈ host then '[' :: host ++ [']'] else host

/-- A port as `ToString` prints it. -/
def renderPort (scheme : Text) (port : Int32) : Text :=
  Json.decimal (if port = -1 then defaultPort scheme else port).toInt

/-- Everything before the path. -/
def authority (h : HttpUrl) : Text :=
  h.scheme ++ lit "://" ++ (renderHost h.host ++ ':' :: renderPort h.scheme h.port)

/-- The path, the query and the fragment as they are printed. -/
def printed (h : HttpUrl) : Text :=
  h.pathSegments.flatMap (fun i => '/' :: i) ++ renderQuery h.queryNamesAndValues ++ renderFragment h.fragment

theorem url_init (b : Builder) : (init b).url = authority (init b) ++ printed (init b) := by
  show b.toString = _
  simp [Builder.toString,authority,printed,renderHost,renderPort,init]

/-- The urls that a text gives, or a builder that has parsed one and was edited
    since. -/
inductive Obtained : HttpUrl → Prop where
  | parsed {url : Text} {b : Builder} {h : HttpUrl} (accepted : (parse url).run {} = .ok true b)
      (made : ofText url = .ok h) : Obtained h
  | built {url : Text} {prior b b' : Builder} (accepted : (parse url).run prior = .ok true b) (edited : Edited b b') :
      Obtained b'.build

theorem ofText_accepted {url : Text} {b : Builder} {h : HttpUrl} (accepted : (parse url).run {} = .ok true b)
    (made : ofText url = .ok h) : h = init b := by
  rw [ofText,accepted] at made
  exact (Except.ok.inj made).symm

theorem kept_accepted {url : Text} {prior b : Builder} (accepted : (parse url).run prior = .ok true b) : Kept b := by
  rcases parse_cases accepted with ⟨rejected,-⟩ | ⟨scheme,port,known,rfl⟩
  · cases rejected
  · exact kept_stored known _ port

theorem Obtained.init {h : HttpUrl} (obtained : Obtained h) : ∃ b, Kept b ∧ h = HttpUrl.init b := by
  cases obtained with
  | parsed accepted made => exact ⟨_,kept_accepted accepted,ofText_accepted accepted made⟩
  | built accepted edited => exact ⟨_,edited.kept (kept_accepted accepted),rfl⟩

end HttpUrl

/-! ### The target of a request -/

/-- What `SetUrl` sets of an `HttpRequest`. -/
structure HttpRequest where
  url : HttpUrl := {}
  host : Text := []
  target : Text := []

namespace HttpRequest
open HttpUrl HttpUrl.Builder

/-- `HttpRequest::SetUrl`. -/
def setUrl (url : HttpUrl) : EStateM Fault HttpRequest Unit := do
  modify fun r => { r with url := url }
  let host := url.host ++ ':' :: Json.decimal url.port.toInt
  modify fun r => { r with host := url.host }
  let target ← ofExcept (substrOf url.url (url.scheme.length + 3 + host.length) none)
  modify fun r => { r with target := target }

/-- The target begins where the authority ends, with a slash. -/
def Sliced (r : HttpRequest) (h : HttpUrl) : Prop :=
  ∃ r', (setUrl h).run r = .ok () r' ∧ h.url = h.authority ++ r'.target ∧ r'.target.head? = some '/'

/-- The characters that `SetUrl` counts before the target. -/
def counted (h : HttpUrl) : Nat := h.scheme.length + 3 + (h.host ++ ':' :: Json.decimal h.port.toInt).length

theorem run_setUrl {h : HttpUrl} (within : counted h ≤ h.url.length) (r : HttpRequest) :
    (setUrl h).run r = .ok () { url := h, host := h.host, target := h.url.drop (counted h) } := by
  have slice : substrOf h.url (counted h) none = .ok (h.url.drop (counted h)) := by
    rw [substrOf,Positions.substr,if_pos within,Positions.front]
  unfold counted at slice
  rw [setUrl]
  simp only [EStateM.run_bind,EStateM.run_modify,slice]
  rfl

/-- The port is counted as long as it is printed, but for a missing one of `https`. -/
theorem length_renderPort (scheme : Text) (port : Int32) :
    (renderPort scheme port).length =
      (Json.decimal port.toInt).length + if port = -1 ∧ scheme = lit "https" then 1 else 0 := by
  unfold renderPort
  by_cases unset : port = -1
  · subst unset
    rw [if_pos rfl]
    by_cases https : scheme = lit "https"
    · subst https
      decide
    · rw [if_neg (fun both => https both.2),defaultPort]
      by_cases http : scheme = lit "http"
      · rw [if_pos http]
        decide
      · rw [if_neg http,if_neg https]
        rfl
  · rw [if_neg unset,if_neg (fun both => unset both.1)]
    rfl

theorem length_authority {h : HttpUrl} (plain : ':' ∉ h.host) :
    h.authority.length = counted h + if h.port = -1 ∧ h.scheme = lit "https" then 1 else 0 := by
  have slashes : (lit "://").length = 3 := by decide
  rw [authority,renderHost,if_neg plain,counted]
  simp only [List.length_append,List.length_cons,length_renderPort,slashes]
  omega

/-- What is printed behind the authority begins with a slash when there is a path. -/
theorem head_printed (h : HttpUrl) : h.printed.head? = some '/' ↔ h.pathSegments ≠ [] := by
  unfold printed
  cases h.pathSegments with
  | cons segment rest => simp
  | nil =>
    have other : (renderQuery h.queryNamesAndValues ++ renderFragment h.fragment).head? ≠ some '/' := by
      unfold Builder.renderQuery Builder.renderFragment
      split
      · split <;> simp
      · simp
    simpa using other

/-- The target is what follows the authority and begins with a slash, exactly for
    the urls that have a path, and a port when their scheme is `https`. -/
theorem sliced_iff {h : HttpUrl} (obtained : Obtained h) (r : HttpRequest) :
    r.Sliced h ↔ h.pathSegments ≠ [] ∧ ¬ (h.port = -1 ∧ h.scheme = lit "https") := by
  obtain ⟨b,kept,rfl⟩ := obtained.init
  have whole := url_init b
  have length := length_authority (h := init b) kept.host
  have within : counted (init b) ≤ (init b).url.length := by
    rw [whole,List.length_append,length]
    omega
  unfold Sliced
  rw [run_setUrl within]
  by_cases unset : (init b).port = -1 ∧ (init b).scheme = lit "https"
  · rw [if_pos unset] at length
    constructor
    · rintro ⟨r',run,parts,-⟩
      cases run
      have sizes := congrArg List.length parts
      simp only [List.length_append,List.length_drop] at sizes
      omega
    · rintro ⟨-,set⟩
      exact absurd unset set
  · rw [if_neg unset,Nat.add_zero] at length
    have target : (init b).url.drop (counted (init b)) = (init b).printed := by
      rw [whole,← length,List.drop_left]
    rw [target,← head_printed]
    constructor
    · rintro ⟨r',run,-,head⟩
      cases run
      exact ⟨head,unset⟩
    · rintro ⟨head,-⟩
      exact ⟨_,rfl,whole,head⟩

/-- The builder of `http://h:80/a`. -/
def plain : Builder := { scheme := lit "http", host := lit "h", port := 80, encodedPathSegments := [lit "a"] }

theorem sliced_plain : Obtained plain.build ∧ ({} : HttpRequest).Sliced plain.build := by
  have accepted : (parse (lit "http://h:80/a")).run {} = .ok true plain := rfl
  have obtained : Obtained plain.build := .built accepted ⟨[],rfl⟩
  have unset : ¬ ((80 : Int32) = -1 ∧ lit "http" = lit "https") := by decide
  exact ⟨obtained,(sliced_iff obtained {}).mpr ⟨List.cons_ne_nil _ _,unset⟩⟩

theorem not_sliced_of_run {r r' : HttpRequest} {h : HttpUrl} (run : (setUrl h).run r = .ok () r')
    (other : r'.target.head? ≠ some '/') : ¬ r.Sliced h := by
  rintro ⟨_,again,-,head⟩
  cases run.symm.trans again
  exact other head

/-- The target of `http://h/` is empty, and that of `https://h:-1/a` begins with a
    digit of the port. -/
theorem sliced_fails :
    (∃ h r, ofText (lit "http://h/") = .ok h ∧ (setUrl h).run {} = .ok () r ∧ h.url = lit "http://h:80" ∧
        r.target = [] ∧ ¬ ({} : HttpRequest).Sliced h) ∧
      ∃ h r, ofText (lit "https://h:-1/a") = .ok h ∧ (setUrl h).run {} = .ok () r ∧
        h.url = lit "https://h:443/a" ∧ r.target = lit "3/a" ∧ ¬ ({} : HttpRequest).Sliced h :=
  ⟨⟨_,_,rfl,rfl,by decide,by decide,not_sliced_of_run rfl (by decide)⟩,
    ⟨_,_,rfl,rfl,by decide,by decide,not_sliced_of_run rfl (by decide)⟩⟩

end HttpRequest
end LicodeClient
