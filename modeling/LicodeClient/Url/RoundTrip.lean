import LicodeClient.Url.Components

/-!
What `ToString` prints, `Parse` reads back. The separators that the printer counts
by hand come out as those of a join, the splits of the parser undo the joins, and
what the parser adds piece by piece builds up the same list and the same map.
-/
namespace LicodeClient.HttpUrl
open Positions (find next minus front find_append find_mark substr_mark minus_add)
open HttpUrl.Builder Components

/-- A pair of the query as it is printed. -/
def item (p : Text × Text) : Text := p.1 ++ '=' :: p.2

/-! ### The printer's separators -/

theorem renderValues_eq (param : Text) {size index : Nat} {values : List Text} (counts : index + values.length = size) :
    renderValues param size index values = ['&'].intercalate (values.map (fun value => item (param,value))) := by
  induction values generalizing index with
  | nil => rfl
  | cons value rest ih =>
    rw [List.length_cons] at counts
    rw [renderValues,ih (by omega),List.map_cons]
    cases rest with
    | nil =>
      have last : ¬ index + 1 < size := by
        rw [List.length_nil] at counts
        omega
      simp [last,item]
    | cons value' rest =>
      have more : index + 1 < size := by
        rw [List.length_cons] at counts
        omega
      rw [if_pos more,List.intercalate_cons_of_ne_nil (by simp)]
      rfl

/-- The parameters with each of their values. -/
def items (params : List (Text × Std.ExtTreeSet Text)) : List Text :=
  params.flatMap (fun p => p.2.toList.map (fun value => item (p.1,value)))

theorem items_ne_nil {p : Text × Std.ExtTreeSet Text} (full : p.2 ≠ ∅) (rest : List (Text × Std.ExtTreeSet Text)) :
    items (p :: rest) ≠ [] := by
  simp [items,full]

theorem renderParams_eq {size index : Nat} {params : List (Text × Std.ExtTreeSet Text)}
    (counts : index + params.length = size) (full : ∀ p ∈ params, p.2 ≠ ∅) :
    renderParams size index params = ['&'].intercalate (items params) := by
  induction params generalizing index with
  | nil => rfl
  | cons p rest ih =>
    obtain ⟨param,values⟩ := p
    rw [List.length_cons] at counts
    have here : values ≠ ∅ := full (param,values) List.mem_cons_self
    have given : values.isEmpty = false := by simpa using here
    have size_eq : 0 + values.toList.length = values.size := by rw [Nat.zero_add,Std.ExtTreeSet.length_toList]
    have own : values.toList.map (fun value => item (param,value)) ≠ [] := by simp [here]
    rw [renderParams,given,if_neg Bool.false_ne_true,renderValues_eq param size_eq,
      ih (by omega) (fun p member => full p (List.mem_cons_of_mem _ member))]
    show _ = ['&'].intercalate (values.toList.map (fun value => item (param,value)) ++ items rest)
    cases rest with
    | nil =>
      have last : ¬ index + 1 < size := by
        rw [List.length_nil] at counts
        omega
      simp [last,items]
    | cons p rest =>
      have more : index + 1 < size := by
        rw [List.length_cons] at counts
        omega
      have others := items_ne_nil (full p (by simp)) rest
      rw [if_pos more,Scan.intercalate_append ['&'] own others]

theorem items_toList (query : Query) : items query.toList = query.pairs.map item := by
  rw [items,Multimap.pairs,List.map_flatMap]
  simp only [List.map_map]
  rfl

theorem flatMap_slash {segments : List Text} (given : segments ≠ []) :
    segments.flatMap (fun i => '/' :: i) = '/' :: ['/'].intercalate segments := by
  induction segments with
  | nil => exact absurd rfl given
  | cons segment rest ih =>
    cases rest with
    | nil => simp
    | cons segment' rest =>
      rw [List.flatMap_cons,ih (by simp),List.intercalate_cons_of_ne_nil (List.cons_ne_nil segment' rest)]
      simp

/-! ### The parser's steps -/

theorem run_parseParameter {name : Text} (free : '=' ∉ name) (value : Text) (b : Builder) :
    (parseParameter (item (name,value))).run b = .ok () (b.addEncodedQueryParameter name value) := by
  have long : (item (name,value)).isEmpty = false := by simp [item]
  have found : find '=' (item (name,value)) = some name.length := find_mark free value
  have first : Positions.substr (item (name,value)) 0 (some name.length) = some name := by
    rw [Positions.substr_zero,item,Positions.front_append]
  have second : Positions.substr (item (name,value)) (name.length + 1) none = some value := by
    rw [item,substr_mark,front]
  rw [parseParameter,long,if_neg Bool.false_ne_true,found]
  simp only [EStateM.run_bind,run_substr first,run_substr second]
  rfl

/-- The loop over the pieces adds the pairs one after the other. -/
theorem run_parseParameters {ps : List (Text × Text)} (names : ∀ p ∈ ps, p.1 ≠ [] ∧ '=' ∉ p.1) (b : Builder) :
    ((ps.map item).forM parseParameter).run b =
      .ok () { b with encodedQueryNamesAndValues :=
                        ps.foldl (fun m p => m.add p.1 p.2) b.encodedQueryNamesAndValues } := by
  induction ps generalizing b with
  | nil => rfl
  | cons p ps ih =>
    obtain ⟨given,free⟩ := names p List.mem_cons_self
    have named : p.1.isEmpty = false := by simpa using given
    show (parseParameter (item p) >>= fun _ => (ps.map item).forM parseParameter).run b = _
    rw [EStateM.run_bind,run_parseParameter free]
    simp only
    rw [ih (fun p member => names p (List.mem_cons_of_mem _ member)),addEncodedQueryParameter,named,
      if_neg Bool.false_ne_true]
    rfl

theorem run_readQuery {ps : List (Text × Text)} (given : ps ≠ [])
    (names : ∀ p ∈ ps, p.1 ≠ [] ∧ '=' ∉ p.1) (free : ∀ p ∈ ps, '&' ∉ item p) (b : Builder) :
    (readQuery (['&'].intercalate (ps.map item))).run b =
      .ok () { b with encodedQueryNamesAndValues :=
                        ps.foldl (fun m p => m.add p.1 p.2) b.encodedQueryNamesAndValues } := by
  have split : (['&'].intercalate (ps.map item)).splitOn '&' = ps.map item := by
    refine List.splitOn_intercalate '&' (fun piece member => ?_) (by simpa using given)
    obtain ⟨p,listed,rfl⟩ := List.mem_map.mp member
    exact free p listed
  have long : (['&'].intercalate (ps.map item)).isEmpty = false := by
    rw [List.isEmpty_eq_false_iff]
    refine Scan.intercalate_ne_nil ['&'] (by simpa using given) (fun piece member => ?_)
    obtain ⟨p,_,rfl⟩ := List.mem_map.mp member
    simp [item]
  rw [readQuery,long,if_neg Bool.false_ne_true,split]
  exact run_parseParameters names b

theorem push_kept {segment : Text} (kept : segment ≠ [] ∧ segment ≠ lit "." ∧ segment ≠ lit "..") (b : Builder) :
    b.push segment = { b with encodedPathSegments := b.encodedPathSegments ++ [segment] } := by
  obtain ⟨given,dot,dots⟩ := kept
  have named : segment.isEmpty = false := by simpa using given
  rw [push,named,if_neg Bool.false_ne_true,if_neg dot,if_neg dots]

theorem foldl_push {segments : List Text} (kept : ∀ s ∈ segments, s ≠ [] ∧ s ≠ lit "." ∧ s ≠ lit "..") (b : Builder) :
    segments.foldl (fun b it => if it.isEmpty then b else b.push it) b =
      { b with encodedPathSegments := b.encodedPathSegments ++ segments } := by
  induction segments generalizing b with
  | nil => simp
  | cons segment rest ih =>
    have here := kept segment List.mem_cons_self
    have named : segment.isEmpty = false := by simpa using here.1
    rw [List.foldl_cons,named,if_neg Bool.false_ne_true,push_kept here,
      ih (fun s member => kept s (List.mem_cons_of_mem _ member))]
    simp

theorem addEncodedPathSegments_join {segments : List Text} (given : segments ≠ [])
    (kept : ∀ s ∈ segments, s ≠ [] ∧ s ≠ lit "." ∧ s ≠ lit "..") (free : ∀ s ∈ segments, '/' ∉ s) (b : Builder) :
    b.addEncodedPathSegments (['/'].intercalate segments) =
      { b with encodedPathSegments := b.encodedPathSegments ++ segments } := by
  have long : (['/'].intercalate segments).isEmpty = false := by
    rw [List.isEmpty_eq_false_iff]
    exact Scan.intercalate_ne_nil ['/'] given (fun s member => (kept s member).1)
  rw [addEncodedPathSegments,long,if_neg Bool.false_ne_true,List.splitOn_intercalate '/' free given,foldl_push kept]

/-! ### Host and port -/

theorem not_mem_decimal {port : Int32} (natural : 0 ≤ port.toInt) {mark : Char} (other : mark.isDigit = false) :
    mark ∉ Json.decimal port.toInt := by
  obtain ⟨n,value⟩ := Int.eq_ofNat_of_zero_le natural
  rw [value]
  intro member
  rw [Json.isDigit_of_mem_digits member] at other
  cases other

/-- The host and the port are read back, whatever path follows. -/
theorem run_parseHost {host : Text} {port : Int32} (free : ':' ∉ host ∧ '/' ∉ host) (natural : 0 ≤ port.toInt)
    (path : Text) (b : Builder) :
    (parseHost (host ++ ':' :: (Json.decimal port.toInt ++ '/' :: path))).run b =
      .ok () { b with host := host, port := port } := by
  have apart : '/' ∉ host ++ ':' :: Json.decimal port.toInt := by
    simp [free.2,not_mem_decimal natural]
  have shape : host ++ ':' :: (Json.decimal port.toInt ++ '/' :: path) =
      (host ++ ':' :: Json.decimal port.toInt) ++ '/' :: path := by simp
  have colon := find_mark free.1 (Json.decimal port.toInt ++ '/' :: path)
  have slash := find_mark apart path
  have stop : (host ++ ':' :: Json.decimal port.toInt).length = host.length + 1 + (Json.decimal port.toInt).length := by
    simp only [List.length_append,List.length_cons]
    omega
  rw [← shape,stop] at slash
  have first : Positions.substr (host ++ ':' :: (Json.decimal port.toInt ++ '/' :: path)) 0 (some host.length) =
      some host := by
    rw [Positions.substr_zero,Positions.front_append]
  have second : Positions.substr (host ++ ':' :: (Json.decimal port.toInt ++ '/' :: path)) (host.length + 1)
      (some (Json.decimal port.toInt).length) = some (Json.decimal port.toInt) := by
    rw [substr_mark,Positions.front_append]
  have given : (Json.decimal port.toInt).isEmpty = false := by
    obtain ⟨c,rest,whole,_⟩ := Json.head_decimal port.toInt
    rw [whole]
    rfl
  rw [parseHost,colon]
  simp only [EStateM.run_bind,run_substr first,EStateM.run_modify]
  rw [parsePort,slash]
  simp only [minus_add,EStateM.run_bind,run_substr second,given,Bool.false_eq_true,if_false,atoi_decimal port]
  rfl

theorem run_parsePath {front path : Text} (free : '/' ∉ front) (given : path ≠ []) (b : Builder) :
    (parsePath (front ++ '/' :: path)).run b = .ok () (b.addEncodedPathSegments path) := by
  have slice : Positions.substr (front ++ '/' :: path) (next (find '/' (front ++ '/' :: path))) none = some path := by
    rw [find_mark free,next,substr_mark,Positions.front]
  have named : path.isEmpty = false := by simpa using given
  rw [parsePath,EStateM.run_bind,run_substr slice]
  simp only [named,Bool.false_eq_true,if_false]
  rfl

/-! ### The round trip -/

/-- None of the marks stands in the text. -/
def Free (marks : List Char) (s : Text) : Prop := ∀ c ∈ marks, c ∉ s

instance (marks : List Char) (s : Text) : Decidable (Free marks s) := List.decidableBAll (fun c => c ∉ s) marks

/-- The builders whose text shows all of their parts: no part holds a delimiter
    that the parser would take for its own. -/
structure Readable (b : Builder) : Prop where
  scheme : b.scheme = lit "http" ∨ b.scheme = lit "https"
  host : b.host ≠ [] ∧ Free [':','/','?','#'] b.host
  port : 1 ≤ b.port.toInt ∧ b.port.toInt ≤ 65535
  path : b.encodedPathSegments ≠ []
  segments : ∀ s ∈ b.encodedPathSegments, s ≠ [] ∧ s ≠ lit "." ∧ s ≠ lit ".." ∧ Free ['/','?','#'] s
  names : ∀ p ∈ b.encodedQueryNamesAndValues.toList, p.1 ≠ [] ∧ Free ['=','&','#'] p.1
  values : ∀ p ∈ b.encodedQueryNamesAndValues.toList, p.2 ≠ ∅ ∧ ∀ v ∈ p.2.toList, Free ['&','#'] v
  fragment : b.encodedQueryNamesAndValues = ∅ → '?' ∉ b.encodedFragment
  ends : ∀ c ∈ b.toString.getLast?, c ∉ trimmed

/-- The text between the scheme and the query. -/
def authorityPath (b : Builder) : Text :=
  b.host ++ ':' :: (Json.decimal b.port.toInt ++ '/' :: ['/'].intercalate b.encodedPathSegments)

/-- The text of a query, if there is one. -/
def queryOf (query : Query) : Option Text :=
  if query.isEmpty then none else some (['&'].intercalate (query.pairs.map item))

/-- The text of a fragment, if there is one. -/
def fragmentOf (fragment : Text) : Option Text := if fragment.isEmpty then none else some fragment

/-- The parts of the text of a builder. -/
def componentsOf (b : Builder) : Components where
  scheme := b.scheme
  hostPath := authorityPath b
  query := queryOf b.encodedQueryNamesAndValues
  fragment := fragmentOf b.encodedFragment

theorem marked_queryOf {query : Query} (full : ∀ p ∈ query.toList, p.2 ≠ ∅) :
    marked '?' (queryOf query) = renderQuery query := by
  unfold queryOf renderQuery
  split
  · rfl
  · have counts : 0 + query.toList.length = query.size := by rw [Nat.zero_add,Std.ExtTreeMap.length_toList]
    rw [marked,renderParams_eq counts full,items_toList]

theorem addEncodedFragment_fragmentOf {a : Builder} (blank : a.encodedFragment = []) (fragment : Text) :
    a.addEncodedFragment ((fragmentOf fragment).getD []) = { a with encodedFragment := fragment } := by
  cases fragment with
  | nil =>
    obtain ⟨scheme,host,port,segments,query,fragment⟩ := a
    subst blank
    rfl
  | cons c rest => rfl

theorem marked_fragmentOf (fragment : Text) : marked '#' (fragmentOf fragment) = renderFragment fragment := by
  unfold fragmentOf renderFragment
  split <;> rfl

namespace Readable
variable {b : Builder}

theorem natural (readable : Readable b) : 0 ≤ b.port.toInt := by
  have least := readable.port.1
  omega

theorem full (readable : Readable b) : b.encodedQueryNamesAndValues.Full := by
  intro name values bound
  exact (readable.values (name,values) (Std.ExtTreeMap.mem_toList_iff_getElem?_eq_some.mpr bound)).1

/-- Every printed pair has a proper name and is free of the outer separators. -/
theorem pair (readable : Readable b) {p : Text × Text} (member : p ∈ b.encodedQueryNamesAndValues.pairs) :
    (p.1 ≠ [] ∧ '=' ∉ p.1) ∧ '&' ∉ item p ∧ '#' ∉ item p := by
  obtain ⟨name,value⟩ := p
  obtain ⟨values,bound,inside⟩ := Multimap.mem_pairs.mp member
  have listed := Std.ExtTreeMap.mem_toList_iff_getElem?_eq_some.mpr bound
  obtain ⟨given,free⟩ := readable.names _ listed
  have clean := (readable.values _ listed).2 value (Std.ExtTreeSet.mem_toList.mpr inside)
  refine ⟨⟨given,free '=' (by decide)⟩,?_,?_⟩
  · simp [item,free '&' (by decide),clean '&' (by decide)]
  · simp [item,free '#' (by decide),clean '#' (by decide)]

theorem text_componentsOf (readable : Readable b) : (componentsOf b).text = b.toString := by
  have plain : ':' ∉ b.host := readable.host.2 ':' (by decide)
  have chosen : b.port ≠ -1 := by
    intro same
    have least := readable.port.1
    rw [same] at least
    exact absurd least (by decide)
  have query := marked_queryOf (fun p member => (readable.values p member).1)
  rw [text,componentsOf,query,marked_fragmentOf,Builder.toString,if_neg plain,if_neg chosen,
    flatMap_slash readable.path,lead]
  simp [authorityPath]

theorem not_mem_authorityPath (readable : Readable b) {mark : Char} (marks : mark ∈ ['?','#']) :
    mark ∉ authorityPath b := by
  have others : ∀ mark ∈ ['?','#'], mark.isDigit = false ∧ mark ≠ ':' ∧ mark ≠ '/' := Scan.forall_of_all (by decide)
  have other := others mark marks
  have host : mark ∉ b.host := readable.host.2 mark (List.mem_cons_of_mem _ (List.mem_cons_of_mem _ marks))
  have port := not_mem_decimal readable.natural other.1
  have path : mark ∉ ['/'].intercalate b.encodedPathSegments :=
    Scan.not_mem_intercalate (by simpa using other.2.2)
      (fun s member => (readable.segments s member).2.2.2 mark (List.mem_cons_of_mem _ marks))
  simp [authorityPath,host,port,path,other.2.1,other.2.2]

theorem separate (readable : Readable b) : Separate (componentsOf b) where
  scheme := readable.scheme
  given := by simp [componentsOf,authorityPath]
  hostPath := ⟨readable.not_mem_authorityPath (by decide),readable.not_mem_authorityPath (by decide)⟩
  query := by
    intro query asked
    obtain ⟨_,same⟩ := Option.ite_none_left_eq_some.mp asked
    obtain rfl := Option.some.inj same
    refine Scan.not_mem_intercalate (by decide) (fun piece member => ?_)
    obtain ⟨p,listed,rfl⟩ := List.mem_map.mp member
    exact (readable.pair listed).2.2
  fragment := by
    intro unasked fragment named
    obtain ⟨_,same⟩ := Option.ite_none_left_eq_some.mp named
    obtain rfl := Option.some.inj same
    refine readable.fragment (Std.ExtTreeMap.isEmpty_iff.mp ?_)
    by_contra asked
    exact absurd unasked (by simp [componentsOf,queryOf,asked])

theorem run_readQuery_componentsOf (readable : Readable b) {a : Builder} (blank : a.encodedQueryNamesAndValues = ∅) :
    (readQuery ((componentsOf b).query.getD [])).run a =
      .ok () { a with encodedQueryNamesAndValues := b.encodedQueryNamesAndValues } := by
  by_cases empty : b.encodedQueryNamesAndValues.isEmpty
  · have none : b.encodedQueryNamesAndValues = ∅ := Std.ExtTreeMap.isEmpty_iff.mp empty
    obtain ⟨scheme,host,port,segments,query,fragment⟩ := a
    simp only at blank
    simp [componentsOf,queryOf,none,blank,readQuery]
  · have given : b.encodedQueryNamesAndValues.pairs ≠ [] := by
      intro nothing
      refine empty (Std.ExtTreeMap.isEmpty_iff.mpr ?_)
      have rebuilt := Multimap.foldl_add_pairs readable.full
      rw [nothing] at rebuilt
      exact rebuilt.symm
    have asked : (componentsOf b).query.getD [] = ['&'].intercalate (b.encodedQueryNamesAndValues.pairs.map item) := by
      simp [componentsOf,queryOf,empty]
    rw [asked,run_readQuery given (fun p member => (readable.pair member).1)
      (fun p member => (readable.pair member).2.1),blank,Multimap.foldl_add_pairs readable.full]

end Readable

/-- Parsing the text of a builder returns true and gives the builder back, whatever
    the parsing builder held before. -/
theorem parse_toString (b prior : Builder) (readable : Readable b) : (parse b.toString).run prior = .ok true b := by
  have ends := readable.ends
  rw [← readable.text_componentsOf] at ends ⊢
  have host := readable.host.2
  have apart : '/' ∉ b.host ++ ':' :: Json.decimal b.port.toInt := by
    simp [host '/' (by decide),not_mem_decimal readable.natural]
  have shape : authorityPath b =
      (b.host ++ ':' :: Json.decimal b.port.toInt) ++ '/' :: ['/'].intercalate b.encodedPathSegments := by
    simp [authorityPath]
  have path := Scan.intercalate_ne_nil ['/'] readable.path (fun s member => (readable.segments s member).1)
  have kept : ∀ s ∈ b.encodedPathSegments, s ≠ [] ∧ s ≠ lit "." ∧ s ≠ lit ".." := by
    intro s member
    obtain ⟨given,dot,dots,_⟩ := readable.segments s member
    exact ⟨given,dot,dots⟩
  have free : ∀ s ∈ b.encodedPathSegments, '/' ∉ s :=
    fun s member => (readable.segments s member).2.2.2 '/' (by decide)
  have read := run_parseHost ⟨host ':' (by decide),host '/' (by decide)⟩ readable.natural
    (['/'].intercalate b.encodedPathSegments) { scheme := b.scheme }
  have walked := run_parsePath apart path { scheme := b.scheme, host := b.host, port := b.port }
  rw [addEncodedPathSegments_join readable.path kept free,← shape] at walked
  rw [parse_text readable.separate ends]
  simp only [EStateM.run_bind]
  rw [show (componentsOf b).hostPath = authorityPath b from rfl,show (componentsOf b).scheme = b.scheme from rfl,
    authorityPath,read]
  simp only
  rw [← authorityPath,walked]
  simp only [List.nil_append]
  rw [readable.run_readQuery_componentsOf rfl]
  simp only [EStateM.run_modify]
  rw [show (componentsOf b).fragment = fragmentOf b.encodedFragment from rfl,addEncodedFragment_fragmentOf rfl]
  rfl

/-- A builder with a path, two values under one name, an empty value and a fragment. -/
def sample : Builder where
  scheme := lit "https"
  host := lit "example.org"
  port := 8443
  encodedPathSegments := [lit "over",lit "there"]
  encodedQueryNamesAndValues :=
    (((∅ : Query).add (lit "name") (lit "a=b")).add (lit "name") (lit "ferret")).add (lit "at?") []
  encodedFragment := lit "nose?#"

example : sample.toString = lit "https://example.org:8443/over/there?at?=&name=a=b&name=ferret#nose?#" := by
  decide +kernel

/-- Read into a builder that still holds parts of another url. -/
theorem parse_toString_sample :
    (parse sample.toString).run { host := lit "old", encodedPathSegments := [lit "left"] } = .ok true sample :=
  parse_toString sample _
    { scheme := by decide
      host := by decide
      port := by decide
      path := by decide
      segments := by decide
      names := by decide
      values := by decide
      fragment := by decide
      ends := by
        have last : sample.toString.getLast? = some '#' := by decide
        rw [last]
        intro c same
        obtain rfl := Option.some.inj same
        decide }

end LicodeClient.HttpUrl
