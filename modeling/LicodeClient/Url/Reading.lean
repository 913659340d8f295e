import LicodeClient.Url.Components

/-!
What `Parse` makes of any text. Each part is given by a function of the text, in
terms of what stands before, behind and between the first marks, and one equation
(`run_parse`) says how `Parse` ends and what it leaves in the builder: false on a
text that is too short, false after the builder was cleared or the scheme stored,
an exception when the text ends before the slashes of its scheme should, undefined
behaviour on a port that is no `int`, and otherwise true with all parts stored.
-/
namespace LicodeClient.HttpUrl
open Positions (find next minus before behind between find_mem find_none front_find substr_next_find substr_between
  before_self behind_nil between_nil substr_behind before_behind)
open HttpUrl.Builder

/-- The scheme that a text names. -/
def schemeOf (s : Text) : Option Text :=
  if s.map Char.toLower = lit "http" then some (lit "http")
  else if s.map Char.toLower = lit "https" then some (lit "https")
  else none

/-- What stands before the query, or before the fragment when there is no query. -/
def leadOf (url : Text) : Text := if '?' ∈ url then before '?' url else before '#' url

/-- The host with the path: what stands there behind the scheme and three more
    characters, whatever they are; everything behind those when a mark is among
    the characters that are skipped. -/
def hostPathOf (scheme url : Text) : Text :=
  if scheme.length + 3 ≤ (leadOf url).length then (leadOf url).drop (scheme.length + 3)
  else url.drop (scheme.length + 3)

def hostOf (hostPath : Text) : Text := if ':' ∈ hostPath then before ':' hostPath else before '/' hostPath

/-- The port that a text stands for. -/
def portOf (scheme port : Text) : Except Fault Int32 := if port.isEmpty then .ok (defaultPort scheme) else atoi port

/-- The path, which is all of the text when it has no slash. -/
def pathOf (hostPath : Text) : Text := if '/' ∈ hostPath then behind '/' hostPath else hostPath

/-- What a piece of a path does to the segments before it. -/
def pushSegment (segments : List Text) (piece : Text) : List Text :=
  if piece = [] ∨ piece = lit "." then segments
  else if piece = lit ".." then segments.dropLast
  else segments ++ [piece]

/-- The segments of a path without its dots. -/
def normalized (path : Text) : List Text := (path.splitOn '/').foldl pushSegment []

/-- What a piece of a query adds to the parameters. -/
def addPiece (query : Query) (piece : Text) : Query :=
  if before '=' piece = [] then query else query.add (before '=' piece) (behind '=' piece)

/-- The parameters of a query. -/
def paramsOf (query : Text) : Query := (query.splitOn '&').foldl addPiece ∅

/-- The builder after all parts were stored. -/
def stored (scheme url : Text) (port : Int32) : Builder where
  scheme := scheme
  host := hostOf (hostPathOf scheme url)
  port := port
  encodedPathSegments := normalized (pathOf (hostPathOf scheme url))
  encodedQueryNamesAndValues := paramsOf (between '?' '#' url)
  encodedFragment := behind '#' url

/-- How the parts of a text with a known scheme are read. -/
def partsOutcome (scheme url : Text) : EStateM.Result Fault Builder Bool :=
  if url.length < scheme.length + 3 then .error .exception { scheme }
  else if hostPathOf scheme url = [] then .ok false { scheme }
  else
    match portOf scheme (between ':' '/' (hostPathOf scheme url)) with
    | .ok port => .ok true (stored scheme url port)
    | .error fault => .error fault { scheme, host := hostOf (hostPathOf scheme url) }

/-- How `Parse` ends. -/
def outcome (url : Text) (prior : Builder) : EStateM.Result Fault Builder Bool :=
  if url.length ≤ 7 then .ok false prior
  else (schemeOf (before ':' (trim url))).elim (.ok false {}) (fun scheme => partsOutcome scheme (trim url))

/-! ### The steps -/

theorem run_parseScheme_eq (url : Text) (b : Builder) :
    (parseScheme url).run b =
      (schemeOf (before ':' url)).elim (.ok false b) (fun scheme => .ok true { b with scheme }) := by
  have slice : Positions.substr url 0 (find ':' url) = some (before ':' url) := by
    rw [Positions.substr_zero,front_find]
  rw [parseScheme,EStateM.run_bind,run_substr slice]
  by_cases empty : before ':' url = []
  · have unknown : schemeOf [] = none := by decide
    simp [empty,unknown]
  · have named : (before ':' url).isEmpty = false := by simpa using empty
    simp only [named,Bool.false_eq_true,if_false]
    unfold schemeOf
    by_cases http : (before ':' url).map Char.toLower = lit "http"
    · rw [if_pos http,if_pos http]
      rfl
    · rw [if_neg http,if_neg http]
      by_cases https : (before ':' url).map Char.toLower = lit "https"
      · rw [if_pos https,if_pos https]
        rfl
      · rw [if_neg https,if_neg https]
        rfl

theorem getD_find (url : Text) : ((find '?' url).or (find '#' url)).getD url.length = (leadOf url).length := by
  unfold leadOf
  by_cases query : '?' ∈ url
  · rw [find_mem query,if_pos query]
    rfl
  · rw [find_none query,if_neg query,Option.none_or]
    by_cases fragment : '#' ∈ url
    · rw [find_mem fragment]
      rfl
    · rw [find_none fragment,before_self fragment]
      rfl

/-- The lead is the front of the text, and a mark follows it. -/
theorem leadOf_append (url : Text) : ∃ rest, url = leadOf url ++ rest ∧ ∀ c ∈ rest.head?, c = '?' ∨ c = '#' := by
  unfold leadOf
  by_cases query : '?' ∈ url
  · refine ⟨'?' :: behind '?' url,?_,by simp⟩
    rw [if_pos query,before_behind query]
  · rw [if_neg query]
    by_cases fragment : '#' ∈ url
    · exact ⟨'#' :: behind '#' url,(before_behind fragment).symm,by simp⟩
    · refine ⟨[],?_,by simp⟩
      rw [before_self fragment,List.append_nil]

theorem run_parseHostPath_eq {url : Text} {b : Builder} (long : b.scheme.length + 3 ≤ url.length) :
    (parseHostPath url).run b = .ok (hostPathOf b.scheme url) b := by
  have slice : Positions.substr url (b.scheme.length + 3) (minus (leadOf url).length (b.scheme.length + 3)) =
      some (hostPathOf b.scheme url) := by
    rw [Positions.substr,if_pos long,minus,hostPathOf]
    by_cases within : b.scheme.length + 3 ≤ (leadOf url).length
    · obtain ⟨rest,whole,-⟩ := leadOf_append url
      have cut : url.drop (b.scheme.length + 3) = (leadOf url).drop (b.scheme.length + 3) ++ rest := by
        nth_rewrite 1 [whole]
        rw [List.drop_append_of_le_length within]
      rw [if_pos within,if_pos within,Positions.front,cut,List.take_left' List.length_drop]
    · rw [if_neg within,if_neg within,Positions.front]
  have read := run_substr slice b
  rw [← getD_find] at read
  exact read

theorem run_parseHostPath_short {url : Text} {b : Builder} (short : url.length < b.scheme.length + 3) :
    (parseHostPath url).run b = .error .exception b := by
  have past : Positions.substr url (b.scheme.length + 3)
      (minus (((find '?' url).or (find '#' url)).getD url.length) (b.scheme.length + 3)) = none := by
    rw [Positions.substr,if_neg (by omega)]
  show (substr url _ _).run b = _
  rw [substr,past]
  rfl

/-- The part of `Parse` that reads the text of a port. -/
def readPort (portS : Text) : Edit Unit := do
  if portS.isEmpty then modify fun b => { b with port := defaultPort b.scheme }
  else
    let port ← MonadExcept.ofExcept (atoi portS)
    modify fun b => { b with port := port }

theorem run_parsePort_eq {hostPath : Text} (colon : ':' ∈ hostPath) (b : Builder) :
    (parsePort hostPath (before ':' hostPath).length).run b = (readPort (between ':' '/' hostPath)).run b := by
  have slice := substr_between (b := '/') (by decide) colon
  rw [parsePort]
  cases slash : find '/' hostPath with
  | none =>
    rw [slash,Option.bind_none] at slice
    simp only [EStateM.run_bind]
    rw [run_substr slice]
    rfl
  | some portEnd =>
    rw [slash,Option.bind_some] at slice
    simp only [EStateM.run_bind]
    rw [run_substr slice]
    rfl

theorem run_readPort_ok {portS : Text} {port : Int32} {b : Builder} (read : portOf b.scheme portS = .ok port) :
    (readPort portS).run b = .ok () { b with port } := by
  unfold portOf at read
  unfold readPort
  by_cases empty : portS.isEmpty
  · rw [if_pos empty] at read ⊢
    cases read
    rfl
  · rw [if_neg empty] at read ⊢
    rw [EStateM.run_bind,read]
    rfl

theorem run_readPort_error {portS : Text} {fault : Fault} {b : Builder} (read : portOf b.scheme portS = .error fault) :
    (readPort portS).run b = .error fault b := by
  unfold portOf at read
  unfold readPort
  by_cases empty : portS.isEmpty
  · rw [if_pos empty] at read
    cases read
  · rw [if_neg empty] at read ⊢
    rw [EStateM.run_bind,read]
    rfl

/-- The host is stored before the port is looked at. -/
theorem run_parseHost_colon {hostPath : Text} (colon : ':' ∈ hostPath) (b : Builder) :
    (parseHost hostPath).run b =
      (readPort (between ':' '/' hostPath)).run { b with host := hostOf hostPath } := by
  have slice : Positions.substr hostPath 0 (some (before ':' hostPath).length) = some (before ':' hostPath) := by
    rw [Positions.substr_zero,← find_mem colon,front_find]
  rw [parseHost,find_mem colon,hostOf,if_pos colon]
  simp only [EStateM.run_bind,run_substr slice,EStateM.run_modify,run_parsePort_eq colon]

theorem run_parseHost_ok {hostPath : Text} {port : Int32} {b : Builder}
    (read : portOf b.scheme (between ':' '/' hostPath) = .ok port) :
    (parseHost hostPath).run b = .ok () { b with host := hostOf hostPath, port } := by
  by_cases colon : ':' ∈ hostPath
  · rw [run_parseHost_colon colon]
    exact run_readPort_ok read
  · have slice : Positions.substr hostPath 0 (find '/' hostPath) = some (hostOf hostPath) := by
      rw [Positions.substr_zero,front_find,hostOf,if_neg colon]
    rw [between_nil colon] at read
    cases read
    rw [parseHost,find_none colon]
    simp only [EStateM.run_bind,EStateM.run_modify,run_substr slice]

theorem run_parseHost_error {hostPath : Text} {fault : Fault} {b : Builder}
    (read : portOf b.scheme (between ':' '/' hostPath) = .error fault) :
    (parseHost hostPath).run b = .error fault { b with host := hostOf hostPath } := by
  by_cases colon : ':' ∈ hostPath
  · rw [run_parseHost_colon colon]
    exact run_readPort_error read
  · rw [between_nil colon] at read
    cases read

theorem push_eq {piece : Text} (given : piece ≠ []) (b : Builder) :
    b.push piece = { b with encodedPathSegments := pushSegment b.encodedPathSegments piece } := by
  have named : piece.isEmpty = false := by simpa using given
  rw [push,named,if_neg Bool.false_ne_true,pushSegment]
  by_cases dot : piece = lit "."
  · rw [if_pos dot,if_pos (.inr dot)]
  · have kept : ¬ (piece = [] ∨ piece = lit ".") := fun either => either.elim given dot
    rw [if_neg dot,if_neg kept]
    by_cases dots : piece = lit ".."
    · rw [if_pos dots,if_pos dots]
      rfl
    · rw [if_neg dots,if_neg dots]

theorem foldl_push_eq (pieces : List Text) (b : Builder) :
    pieces.foldl (fun b it => if it.isEmpty then b else b.push it) b =
      { b with encodedPathSegments := pieces.foldl pushSegment b.encodedPathSegments } := by
  induction pieces generalizing b with
  | nil => rfl
  | cons piece pieces ih =>
    rw [List.foldl_cons,List.foldl_cons,ih]
    by_cases empty : piece = []
    · simp [empty,pushSegment]
    · have named : piece.isEmpty = false := by simpa using empty
      rw [named,if_neg Bool.false_ne_true,push_eq empty]

theorem run_parsePath_eq (hostPath : Text) {b : Builder} (blank : b.encodedPathSegments = []) :
    (parsePath hostPath).run b = .ok () { b with encodedPathSegments := normalized (pathOf hostPath) } := by
  have slice := substr_next_find '/' hostPath
  rw [← pathOf] at slice
  rw [parsePath,EStateM.run_bind,run_substr slice]
  by_cases empty : pathOf hostPath = []
  · have nothing : normalized [] = [] := by decide
    rw [empty,nothing,← blank]
    rfl
  · have named : (pathOf hostPath).isEmpty = false := by simpa using empty
    simp only [named,Bool.false_eq_true,if_false,EStateM.run_modify]
    rw [addEncodedPathSegments,named,if_neg Bool.false_ne_true,foldl_push_eq,blank,normalized]

theorem run_parseParameter_eq (piece : Text) (b : Builder) :
    (parseParameter piece).run b =
      .ok () { b with encodedQueryNamesAndValues := addPiece b.encodedQueryNamesAndValues piece } := by
  by_cases given : piece = []
  · subst given
    rfl
  · have named : piece.isEmpty = false := by simpa using given
    have added : ∀ name value, b.addEncodedQueryParameter name value =
        { b with encodedQueryNamesAndValues := if name = [] then b.encodedQueryNamesAndValues
                                               else b.encodedQueryNamesAndValues.add name value } := by
      intro name value
      rw [addEncodedQueryParameter]
      cases name <;> rfl
    rw [parseParameter,named,if_neg Bool.false_ne_true,addPiece]
    by_cases equals : '=' ∈ piece
    · have first : Positions.substr piece 0 (some (before '=' piece).length) = some (before '=' piece) := by
        rw [Positions.substr_zero,← find_mem equals,front_find]
      have second : Positions.substr piece ((before '=' piece).length + 1) none = some (behind '=' piece) := by
        rw [substr_behind equals,Positions.front]
      rw [find_mem equals]
      simp only [EStateM.run_bind,run_substr first,run_substr second,EStateM.run_modify,added]
    · rw [find_none equals,before_self equals,behind_nil equals]
      simp only [EStateM.run_modify,added]

theorem run_forM_parseParameter (pieces : List Text) (b : Builder) :
    (pieces.forM parseParameter).run b =
      .ok () { b with encodedQueryNamesAndValues := pieces.foldl addPiece b.encodedQueryNamesAndValues } := by
  induction pieces generalizing b with
  | nil => rfl
  | cons piece pieces ih =>
    show (parseParameter piece >>= fun _ => pieces.forM parseParameter).run b = _
    rw [EStateM.run_bind,run_parseParameter_eq]
    simp only
    rw [ih,List.foldl_cons]

theorem run_parseQuery_readQuery (url : Text) (b : Builder) :
    (parseQuery url).run b = (Components.readQuery (between '?' '#' url)).run b := by
  rw [parseQuery]
  by_cases query : '?' ∈ url
  · have slice := substr_between (b := '#') (by decide) query
    rw [find_mem query]
    cases fragment : find '#' url with
    | none =>
      rw [fragment,Option.bind_none] at slice
      simp only [EStateM.run_bind]
      rw [run_substr slice]
      rfl
    | some fragmentStart =>
      rw [fragment,Option.bind_some] at slice
      simp only [EStateM.run_bind]
      rw [run_substr slice]
      rfl
  · rw [find_none query,between_nil query]
    rfl

theorem run_parseQuery_eq (url : Text) {b : Builder} (blank : b.encodedQueryNamesAndValues = ∅) :
    (parseQuery url).run b = .ok () { b with encodedQueryNamesAndValues := paramsOf (between '?' '#' url) } := by
  rw [run_parseQuery_readQuery,Components.readQuery]
  by_cases empty : between '?' '#' url = []
  · have nothing : paramsOf [] = ∅ := rfl
    rw [empty,nothing,← blank]
    rfl
  · have named : (between '?' '#' url).isEmpty = false := by simpa using empty
    rw [named,if_neg Bool.false_ne_true,run_forM_parseParameter,blank,paramsOf]

theorem run_parseFragment_eq (url : Text) {b : Builder} (blank : b.encodedFragment = []) :
    (parseFragment url).run b = .ok () { b with encodedFragment := behind '#' url } := by
  by_cases fragment : '#' ∈ url
  · have slice : Positions.substr url ((before '#' url).length + 1) none = some (behind '#' url) := by
      rw [substr_behind fragment,Positions.front]
    rw [parseFragment,find_mem fragment]
    simp only [EStateM.run_bind,run_substr slice,EStateM.run_modify]
    rw [addEncodedFragment]
    by_cases empty : behind '#' url = []
    · rw [empty,List.isEmpty_nil,if_pos rfl,← blank]
    · have named : (behind '#' url).isEmpty = false := by simpa using empty
      rw [named,if_neg Bool.false_ne_true]
  · rw [parseFragment,find_none fragment,behind_nil fragment,← blank]
    rfl

/-! ### The whole -/

theorem run_parseParts (scheme url : Text) : (parseParts url).run { scheme } = partsOutcome scheme url := by
  unfold partsOutcome
  by_cases short : url.length < scheme.length + 3
  · rw [if_pos short,parseParts,EStateM.run_bind,run_parseHostPath_short short]
  · have long : scheme.length + 3 ≤ url.length := Nat.not_lt.mp short
    rw [if_neg short,parseParts,EStateM.run_bind,run_parseHostPath_eq long]
    by_cases empty : hostPathOf scheme url = []
    · simp only [empty]
      rfl
    · have named : (hostPathOf scheme url).isEmpty = false := by simpa using empty
      simp only [named,Bool.false_eq_true,if_false,if_neg empty,EStateM.run_bind]
      cases read : portOf scheme (between ':' '/' (hostPathOf scheme url)) with
      | error fault => rw [run_parseHost_error read]
      | ok port =>
        rw [run_parseHost_ok read]
        simp only
        rw [run_parsePath_eq _ rfl]
        simp only
        rw [run_parseQuery_eq url rfl]
        simp only
        rw [run_parseFragment_eq url rfl]
        rfl

theorem run_parse (url : Text) (prior : Builder) : (parse url).run prior = outcome url prior := by
  unfold outcome
  by_cases short : url.length ≤ 7
  · rw [if_pos short,parse,if_pos (.inr short)]
    rfl
  · have accepted : ¬ (url.isEmpty = true ∨ url.length ≤ 7) := by
      rintro (empty | few)
      · rw [List.isEmpty_iff.mp empty] at short
        exact short (by decide)
      · exact short few
    rw [if_neg short,parse,if_neg accepted]
    generalize trim url = cut
    simp only [EStateM.run_bind,EStateM.run_modify,clear,run_parseScheme_eq]
    cases schemeOf (before ':' cut) with
    | none => rfl
    | some scheme => exact run_parseParts scheme cut

/-! ### Paths and ports -/

theorem normalized_slash (path : Text) : normalized ('/' :: path) = normalized path := by
  have split : ('/' :: path).splitOn '/' = [] :: path.splitOn '/' := List.splitOn_append_cons_self [] path
  rw [normalized,split,List.foldl_cons,pushSegment,if_pos (.inl rfl),normalized]

theorem normalized_single {piece : Text} (free : '/' ∉ piece) : normalized piece = pushSegment [] piece := by
  rw [normalized,List.splitOn_eq_singleton free,List.foldl_cons,List.foldl_nil]

/-- A piece by itself leaves no segment when it is empty or a dot or two. -/
theorem pushSegment_nil_iff (piece : Text) :
    pushSegment [] piece = [] ↔ piece = [] ∨ piece = lit "." ∨ piece = lit ".." := by
  unfold pushSegment
  by_cases skipped : piece = [] ∨ piece = lit "."
  · rw [if_pos skipped]
    exact ⟨fun _ => skipped.imp_right .inl,fun _ => rfl⟩
  · rw [if_neg skipped]
    by_cases dots : piece = lit ".."
    · rw [if_pos dots]
      exact ⟨fun _ => .inr (.inr dots),fun _ => rfl⟩
    · rw [if_neg dots]
      constructor
      · intro nothing
        cases nothing
      · rintro (empty | dot | both)
        · exact absurd (.inl empty) skipped
        · exact absurd (.inr dot) skipped
        · exact absurd both dots

/-- What follows the digits is not looked at. -/
theorem atoi_append {digits rest : Text} (all : ∀ c ∈ digits, c.isDigit = true) (given : digits ≠ [])
    (stops : Scan.Stops Char.isDigit rest) : atoi (digits ++ rest) = atoi digits := by
  cases digits with
  | nil => exact absurd rfl given
  | cons c digits =>
    obtain ⟨word,sign⟩ := word_of_isDigit (all c List.mem_cons_self)
    have skip : ∀ s : Text, (c :: s).dropWhile isSpace = c :: s := fun s => by simp [word]
    have leads : leadingNumber (c :: digits ++ rest) = leadingNumber (c :: digits) := by
      rw [leadingNumber,leadingNumber,Scan.takeWhile_append all stops,List.takeWhile_eq_self_iff.mpr all]
    rw [List.cons_append] at leads ⊢
    rw [atoi,atoi,skip,skip,signedNumber_word sign,signedNumber_word sign,leads]

/-- A text that begins with no number is read as 0. -/
theorem atoi_mark {c : Char} (word : isSpace c = false) (sign : c ≠ '-' ∧ c ≠ '+') (other : c.isDigit = false)
    (rest : Text) : atoi (c :: rest) = .ok 0 := by
  have skip : (c :: rest).dropWhile isSpace = c :: rest := by simp [word]
  have number : leadingNumber (c :: rest) = 0 := by simp [leadingNumber,other]
  rw [atoi,skip,signedNumber_word sign,number]
  rfl

/-! ### Clean failures -/

/-- `Parse` returns, and a text that it rejects leaves the builder as it was. -/
def Clean (url : Text) (prior : Builder) : Prop :=
  ∃ accepted b, (parse url).run prior = .ok accepted b ∧ (accepted = false → b = prior)

/-- The texts and builders on which `Parse` is clean. -/
inductive Tidy (url : Text) (prior : Builder) : Prop where
  /-- Too short to be looked at. -/
  | short (few : url.length ≤ 7)
  /-- No known scheme, but nothing to lose either. -/
  | unknown (scheme : schemeOf (before ':' (trim url)) = none) (blank : prior = {})
  /-- Only the scheme, which the builder had and nothing else. -/
  | bare {scheme : Text} (known : schemeOf (before ':' (trim url)) = some scheme)
      (long : scheme.length + 3 ≤ (trim url).length) (empty : hostPathOf scheme (trim url) = [])
      (same : prior = { scheme })
  /-- Something behind the slashes of the scheme, with a port that is an `int`. -/
  | full {scheme : Text} {port : Int32} (known : schemeOf (before ':' (trim url)) = some scheme)
      (long : scheme.length + 3 ≤ (trim url).length) (given : hostPathOf scheme (trim url) ≠ [])
      (fits : portOf scheme (between ':' '/' (hostPathOf scheme (trim url))) = .ok port)

/-- `Parse` throws on a text that trimming makes too short for its scheme, and it
    has cleared the builder before it rejects a text. -/
theorem tidy_iff (url : Text) (prior : Builder) : Clean url prior ↔ Tidy url prior := by
  constructor
  · rintro ⟨accepted,b,run,same⟩
    rw [run_parse,outcome] at run
    by_cases few : url.length ≤ 7
    · exact .short few
    rw [if_neg few] at run
    cases known : schemeOf (before ':' (trim url)) with
    | none =>
      rw [known] at run
      cases run
      exact .unknown known (same rfl).symm
    | some scheme =>
      rw [known,Option.elim_some,partsOutcome] at run
      by_cases short : (trim url).length < scheme.length + 3
      · rw [if_pos short] at run
        cases run
      · rw [if_neg short] at run
        by_cases empty : hostPathOf scheme (trim url) = []
        · rw [if_pos empty] at run
          cases run
          exact .bare known (Nat.not_lt.mp short) empty (same rfl).symm
        · rw [if_neg empty] at run
          cases fits : portOf scheme (between ':' '/' (hostPathOf scheme (trim url))) with
          | ok port => exact .full known (Nat.not_lt.mp short) empty fits
          | error fault =>
            rw [fits] at run
            cases run
  · intro tidy
    unfold Clean
    rw [run_parse,outcome]
    cases tidy with
    | short few => exact ⟨false,prior,if_pos few,fun _ => rfl⟩
    | unknown unknown blank =>
      subst blank
      refine ⟨false,{},?_,fun _ => rfl⟩
      rw [unknown]
      exact ite_self _
    | bare known long empty same =>
      subst same
      refine ⟨false,_,?_,fun _ => rfl⟩
      rw [known,Option.elim_some,partsOutcome,if_neg (Nat.not_lt.mpr long),if_pos empty]
      exact ite_self _
    | full known long given fits =>
      rw [known,Option.elim_some,partsOutcome,if_neg (Nat.not_lt.mpr long),if_neg given,fits]
      by_cases few : url.length ≤ 7
      · exact ⟨false,prior,if_pos few,fun _ => rfl⟩
      · exact ⟨true,_,if_neg few,fun rejected => by cases rejected⟩

/-- Behind its scheme this text has only blanks. -/
theorem tidy_fails :
    (parse (lit "http    ")).run {} = .error .exception { scheme := lit "http" } ∧ ¬ Clean (lit "http    ") {} := by
  have throws : (parse (lit "http    ")).run {} = .error .exception { scheme := lit "http" } := rfl
  refine ⟨throws,?_⟩
  rintro ⟨accepted,b,run,-⟩
  rw [throws] at run
  cases run

end LicodeClient.HttpUrl
