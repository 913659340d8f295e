import LicodeClient.Url.Request
import LicodeClient.Url.RoundTrip

/-!
`EncodedPath` and `EncodedQuery` search the printed url for the marks of its parts
instead of printing the stored ones. What they find is described on the text behind
the slashes of the scheme, given by its parts (`Shown`). The query is what stands
behind the first question mark (`asks_iff`), the path what stands from the first
slash on up to where the query or the fragment is found. Both are right when there
is a path, the host has no slash, and no part holds a mark of a later one
(`Legible.path`); the other kinds are those in which a wrong mark is found but the
text there happens to be the right one.
-/
namespace LicodeClient.HttpUrl
open Positions (find minus before behind between find_mem find_none before_self behind_nil between_nil before_append
  behind_append before_mark behind_mark before_here behind_here before_behind not_mem_before mem_of_mem_before
  mem_of_mem_behind before_append_mem behind_append_mem substr_between before_eq_nil_iff mark_inj)
open HttpUrl.Builder

/-- `std::string::find_first_of` from a position on. -/
def findFrom (c : Char) (start : Nat) (s : Text) : Option Nat := (find c (s.drop start)).map (fun pos => start + pos)

/-- `HttpUrl::EncodedPath`. A slash that is not found is a position past the end. -/
def encodedPath (h : HttpUrl) : Except Fault Text :=
  let pathEnd := ((find '?' h.url).or (find '#' h.url)).getD h.url.length
  match findFrom '/' (h.scheme.length + 3) h.url with
  | none => .error .exception
  | some pathStart => substrOf h.url pathStart (minus pathEnd pathStart)

/-- `HttpUrl::EncodedQuery`. -/
def encodedQuery (h : HttpUrl) : Except Fault Text :=
  match find '?' h.url with
  | none => .ok []
  | some queryStart =>
    match find '#' h.url with
    | some queryEnd => substrOf h.url (queryStart + 1) (minus queryEnd (queryStart + 1))
    | none => substrOf h.url (queryStart + 1) none

/-- The accessors return the stored parts. -/
def Agrees (h : HttpUrl) : Prop :=
  h.encodedPath = .ok ('/' :: ['/'].intercalate h.pathSegments) ∧
    h.encodedQuery = .ok (['&'].intercalate (h.queryNamesAndValues.pairs.map item))

/-- The printed url behind the slashes of its scheme. -/
structure Shown where
  host : Text
  port : Text
  path : Option Text
  query : Option Text
  fragment : Option Text

namespace Shown
variable {s : Shown}

/-- What stands before the query. -/
def front (s : Shown) : Text := s.host ++ ':' :: (s.port ++ marked '/' s.path)

/-- The query and the fragment. -/
def tail (s : Shown) : Text := marked '?' s.query ++ marked '#' s.fragment

def text (s : Shown) : Text := s.front ++ s.tail

/-- The query is found where it stands. -/
def Plain (s : Shown) : Prop :=
  '?' ∉ s.front ∧
    (∀ q, s.query = some q → ('#' ∈ s.front → s.fragment = none) ∧ ('#' ∉ s.front → '#' ∉ q)) ∧
    (s.query = none → '?' ∉ s.fragment.getD [])

/-- The texts in which the accessors find the path and the query. -/
inductive Legible (s : Shown) : Prop where
  /-- There is a path behind a host without a slash, and the query, or the fragment
      when there is none, is found where it stands. -/
  | path {path : Text} (given : s.path = some path) (slash : '/' ∉ s.host) (plain : s.Plain)
      (hash : s.query = none → '#' ∈ s.front → '#' ∈ s.host ∧ s.fragment = none)
  /-- There is only a path, and the host holds an empty query. -/
  | hidden {path a c : Text} (given : s.path = some path) (slash : '/' ∉ s.host) (bare : s.tail = [])
      (host : s.host = a ++ '?' :: '#' :: c) (free : '?' ∉ a ∧ '#' ∉ a)
  /-- The host holds the path and the query. -/
  | copied {a c : Text}
      (host : s.host = a ++ '/' :: (s.path.getD [] ++ '?' :: (s.query.getD [] ++ '#' :: c))) (slash : '/' ∉ a)
      (free : ('?' ∉ a ∧ '#' ∉ a) ∧ '?' ∉ s.path.getD [] ∧ '#' ∉ s.path.getD []) (query : '#' ∉ s.query.getD [])
  /-- The host holds the path, and there is no query. -/
  | copiedPath {a c : Text} (asks : s.query = none) (host : s.host = a ++ '/' :: (s.path.getD [] ++ '#' :: c))
      (slash : '/' ∉ a) (free : '#' ∉ a ∧ '#' ∉ s.path.getD []) (plain : s.Plain)
  /-- There is no path, but the text ends with its only slash. -/
  | trailing {rest : Text} (absent : s.path = none) (slash : '/' ∉ s.host) (plain : s.Plain)
      (ends : s.tail = rest ++ ['/']) (free : '/' ∉ rest)
  /-- The same with a question mark behind the slash. -/
  | trailingMark {rest : Text} (absent : s.path = none) (slash : '/' ∉ s.host) (asks : s.query = none)
      (host : '?' ∉ s.host) (ends : s.fragment = some (rest ++ ['/','?'])) (free : '/' ∉ rest ∧ '?' ∉ rest)
  /-- The same with the query in the host. -/
  | trailingCopied {a c rest : Text} (absent : s.path = none) (slash : '/' ∉ s.host)
      (host : s.host = a ++ '?' :: (s.query.getD [] ++ '#' :: c)) (marks : '?' ∉ a ∧ '#' ∉ a)
      (query : '#' ∉ s.query.getD []) (ends : s.tail = rest ++ ['/']) (free : '/' ∉ rest)

/-! ### The query -/

/-- How the right query can be found. -/
inductive Asks (s : Shown) : Prop where
  | plain (plain : s.Plain)
  | copied {a c : Text} (front : s.front = a ++ '?' :: (s.query.getD [] ++ '#' :: c)) (free : '?' ∉ a ∧ '#' ∉ a)
      (query : '#' ∉ s.query.getD [])
  | ends {a : Text} (asks : s.query = none) (front : s.front = a ++ ['?']) (free : '?' ∉ a)
      (fragment : '#' ∈ a → s.fragment = none)
  | late {g : Text} (asks : s.query = none) (free : '?' ∉ s.front) (fragment : s.fragment = some (g ++ ['?']))
      (first : '?' ∉ g)

theorem marked_eq_nil {mark : Char} {part : Option Text} : marked mark part = [] ↔ part = none := by
  cases part <;> simp [marked]

theorem before_marked (mark : Char) (part : Option Text) : before mark (marked mark part) = [] := by
  cases part with
  | none => rfl
  | some part => exact before_here mark part

/-- A text before a mark is not the longer text that it is cut from. -/
theorem before_eq_self_iff {c : Char} {s : Text} : before c s = s ↔ c ∉ s := by
  constructor
  · intro same member
    rw [← same] at member
    exact not_mem_before c s member
  · exact before_self

/-- What a question mark before the query has to be followed by. -/
theorem Asks.early (asks : s.Asks) {a c : Text} (front : s.front = a ++ '?' :: c) (free : '?' ∉ a) :
    ('#' ∉ a ∧ '#' ∉ s.query.getD [] ∧ ∃ rest, c = s.query.getD [] ++ '#' :: rest) ∨
      (s.query = none ∧ c = [] ∧ ('#' ∈ a → s.fragment = none)) := by
  have member : '?' ∈ s.front := by rw [front]; simp
  have cuts : ∀ {a' c' : Text}, s.front = a' ++ '?' :: c' → '?' ∉ a' → a' = a ∧ c' = c := by
    intro a' c' front' free'
    exact mark_inj free' free (front'.symm.trans front)
  cases asks with
  | plain plain => exact absurd member plain.1
  | @copied a' rest front' free' query =>
    obtain ⟨rfl,rfl⟩ := cuts front' free'.1
    exact .inl ⟨free'.2,query,rest,rfl⟩
  | @ends a' unasked front' free' fragment =>
    obtain ⟨rfl,rfl⟩ := cuts front' free'
    exact .inr ⟨unasked,rfl,fragment⟩
  | late unasked free' _ _ => exact absurd member free'

/-- Everything behind the question mark is taken for the query. -/
theorem asks_of_rest {a c : Text} (front : s.front = a ++ '?' :: c) (free : '?' ∉ a)
    (found : c ++ s.tail = s.query.getD []) : s.Asks := by
  cases asks : s.query with
  | some q =>
    have sizes := congrArg List.length found
    simp only [tail,asks,marked,Option.getD_some,List.length_append,List.length_cons] at sizes
    omega
  | none =>
    rw [asks] at found
    obtain ⟨rfl,bare⟩ := List.append_eq_nil_iff.mp found
    have fragment : s.fragment = none := marked_eq_nil.mp (List.append_eq_nil_iff.mp bare).2
    exact .ends asks front free (fun _ => fragment)

/-- What is behind the question mark is taken for the query up to a number sign. -/
theorem asks_of_before {a c : Text} (front : s.front = a ++ '?' :: c) (free : '?' ∉ a ∧ '#' ∉ a)
    (found : before '#' (c ++ s.tail) = s.query.getD []) : s.Asks := by
  by_cases inside : '#' ∈ c
  · rw [before_append_mem inside] at found
    have cut := before_behind inside
    rw [found] at cut
    refine .copied (c := behind '#' c) ?_ free ?_
    · rw [front,cut]
    · rw [← found]
      exact not_mem_before '#' c
  · rw [before_append inside] at found
    cases asks : s.query with
    | none =>
      rw [asks] at found
      obtain ⟨rfl,-⟩ := List.append_eq_nil_iff.mp found
      exact .ends asks front free.1 (fun hash => absurd hash free.2)
    | some q =>
      -- the query is longer than itself, or holds a number sign that was cut off
      have next : before '#' s.tail = '?' :: before '#' (q ++ marked '#' s.fragment) := by
        simp [tail,asks,marked,before]
      rw [asks,next,Option.getD_some] at found
      by_cases hash : '#' ∈ q
      · rw [before_append_mem hash] at found
        rw [← found] at hash
        simp [inside,not_mem_before] at hash
      · rw [before_append hash,before_marked,List.append_nil] at found
        have sizes := congrArg List.length found
        simp only [List.length_append,List.length_cons] at sizes
        omega

/-- What is found behind a question mark that stands before the query. -/
theorem asks_early {a c : Text} (front : s.front = a ++ '?' :: c) (free : '?' ∉ a) :
    between '?' '#' s.text = s.query.getD [] ↔ s.Asks := by
  have shape : s.text = a ++ '?' :: (c ++ s.tail) := by rw [text,front,List.append_assoc,List.cons_append]
  rw [between,shape,before_mark free,behind_mark free]
  by_cases early : '#' ∈ a
  · rw [if_pos early]
    refine ⟨asks_of_rest front free,fun asks => ?_⟩
    rcases asks.early front free with ⟨clear,-⟩ | ⟨unasked,rfl,fragment⟩
    · exact absurd early clear
    · simp [tail,unasked,fragment early,marked]
  · rw [if_neg early]
    refine ⟨asks_of_before front ⟨free,early⟩,fun asks => ?_⟩
    rcases asks.early front free with ⟨-,query,rest,rfl⟩ | ⟨unasked,rfl,-⟩
    · rw [List.append_assoc,List.cons_append,before_mark query]
    · rw [List.nil_append,tail,unasked]
      exact before_marked '#' s.fragment

/-- Without a question mark in front, the query has to be found where it stands,
    or what is taken for it has to be empty. -/
theorem Asks.behind_front (asks : s.Asks) (early : '?' ∉ s.front) :
    s.Plain ∨ ∃ g, s.query = none ∧ s.fragment = some (g ++ ['?']) ∧ '?' ∉ g := by
  cases asks with
  | plain plain => exact .inl plain
  | copied front _ _ => exact absurd (by rw [front]; simp) early
  | ends _ front _ _ => exact absurd (by rw [front]; simp) early
  | late asks _ fragment first => exact .inr ⟨_,asks,fragment,first⟩

/-- A query that is there. -/
theorem asks_given {q : Text} (asks : s.query = some q) (early : '?' ∉ s.front) :
    between '?' '#' s.text = q ↔ s.Plain := by
  have shape : s.text = s.front ++ '?' :: (q ++ marked '#' s.fragment) := by simp [text,tail,asks,marked]
  rw [between,shape,before_mark early,behind_mark early]
  by_cases hash : '#' ∈ s.front
  · rw [if_pos hash,List.append_right_eq_self,marked_eq_nil]
    simp [Plain,early,asks,hash]
  · rw [if_neg hash]
    have late : before '#' (q ++ marked '#' s.fragment) = q ↔ '#' ∉ q := by
      by_cases inside : '#' ∈ q
      · rw [before_append_mem inside]
        exact before_eq_self_iff
      · rw [before_append inside,before_marked,List.append_nil]
        exact ⟨fun _ => inside,fun _ => rfl⟩
    rw [late]
    simp [Plain,early,asks,hash]

/-- A fragment with a question mark is taken for a query. -/
theorem asks_late {f : Text} (asks : s.query = none) (early : '?' ∉ s.front) (named : s.fragment = some f)
    (inside : '?' ∈ f) : between '?' '#' s.text = [] ↔ s.Asks := by
  have shape : s.text = s.front ++ '#' :: f := by simp [text,tail,asks,named,marked]
  have hash : '#' ∈ before '?' s.text := by
    rw [shape,before_append early]
    simp [before]
  have rest : behind '?' s.text = behind '?' f := by
    rw [shape,behind_append early]
    simp [behind]
  rw [between,if_pos hash,rest]
  constructor
  · intro nothing
    have whole := before_behind inside
    rw [nothing] at whole
    exact .late asks early (by rw [named,whole]) (not_mem_before _ _)
  · intro found
    rcases found.behind_front early with plain | ⟨g,-,fragment,first⟩
    · exact absurd inside (by simpa [named] using plain.2.2 asks)
    · rw [named] at fragment
      rw [Option.some.inj fragment,behind_mark first]

theorem not_mem_text (asks : s.query = none) (front : '?' ∉ s.front) (fragment : '?' ∉ s.fragment.getD []) :
    '?' ∉ s.text := by
  have shape : s.text = s.front ++ marked '#' s.fragment := by simp [text,tail,asks,marked]
  have mark : '?' ∉ marked '#' s.fragment := by
    cases named : s.fragment with
    | none => simp [marked]
    | some f => simpa [named,marked] using fragment
  rw [shape,List.mem_append,not_or]
  exact ⟨front,mark⟩

/-- The query that `EncodedQuery` finds is the right one in these cases. -/
theorem asks_iff (s : Shown) : between '?' '#' s.text = s.query.getD [] ↔ s.Asks := by
  by_cases early : '?' ∈ s.front
  · exact asks_early (before_behind early).symm (not_mem_before _ _)
  cases asks : s.query with
  | some q =>
    rw [Option.getD_some,asks_given asks early]
    refine ⟨.plain,fun found => (found.behind_front early).resolve_right ?_⟩
    rintro ⟨g,unasked,-⟩
    cases asks.symm.trans unasked
  | none =>
    rw [Option.getD_none]
    have none_given : ∀ q, s.query = some q → False := by
      intro q given
      cases asks.symm.trans given
    by_cases inside : '?' ∈ s.fragment.getD []
    · cases named : s.fragment with
      | none => simp [named] at inside
      | some f =>
        rw [named] at inside
        exact asks_late asks early named inside
    · rw [between_nil (not_mem_text asks early inside)]
      exact ⟨fun _ => .plain ⟨early,fun q given => (none_given q given).elim,fun _ => inside⟩,fun _ => rfl⟩

/-! ### The path -/

/-- The path that `EncodedPath` finds is the right one: it begins at the first
    slash and ends at the lead, or at the end of the text when the slash comes
    later than that. -/
def Walks (s : Shown) : Prop :=
  '/' ∈ leadOf s.text ∧ behind '/' (leadOf s.text) = s.path.getD [] ∨
    '/' ∉ leadOf s.text ∧ '/' ∈ s.text ∧ behind '/' s.text = s.path.getD []

theorem leadOf_query {q : Text} (asks : s.query = some q) (free : '?' ∉ s.front) : leadOf s.text = s.front := by
  have shape : s.text = s.front ++ '?' :: (q ++ marked '#' s.fragment) := by simp [text,tail,asks,marked]
  rw [leadOf,shape,if_pos (by simp),before_mark free]

theorem leadOf_none (asks : s.query = none) (plain : s.Plain) : leadOf s.text = before '#' s.front := by
  have shape : s.text = s.front ++ marked '#' s.fragment := by simp [text,tail,asks,marked]
  rw [leadOf,if_neg (not_mem_text asks plain.1 (plain.2.2 asks)),shape]
  by_cases hash : '#' ∈ s.front
  · exact before_append_mem hash _
  · rw [before_append hash,before_marked,List.append_nil,before_self hash]

theorem leadOf_early {a c : Text} (front : s.front = a ++ '?' :: c) (free : '?' ∉ a) : leadOf s.text = a := by
  have shape : s.text = a ++ '?' :: (c ++ s.tail) := by rw [text,front,List.append_assoc,List.cons_append]
  rw [leadOf,shape,if_pos (by simp),before_mark free]

/-- A host without a slash has none before its mark. -/
theorem no_slash_lead {a more rest : Text} (slash : '/' ∉ s.host) (host : s.host = a ++ more)
    (shape : s.front = a ++ '?' :: rest) (free : '?' ∉ a) : '/' ∉ leadOf s.text := by
  rw [leadOf_early shape free]
  intro early
  exact slash (host ▸ List.mem_append_left _ early)

theorem leadOf_late {g : Text} (asks : s.query = none) (free : '?' ∉ s.front)
    (fragment : s.fragment = some (g ++ ['?']))
    (first : '?' ∉ g) : leadOf s.text = s.front ++ '#' :: g := by
  have shape : s.text = (s.front ++ '#' :: g) ++ ['?'] := by simp [text,tail,asks,fragment,marked]
  have absent : '?' ∉ s.front ++ '#' :: g := by simp [free,first]
  rw [leadOf,shape,if_pos (by simp),before_mark absent]

/-- A slash in the host makes the path too long. -/
theorem long_of_slash (slash : '/' ∈ s.host) (more : Text) : behind '/' (s.front ++ more) ≠ s.path.getD [] := by
  have shape : s.front ++ more = s.host ++ (':' :: (s.port ++ marked '/' s.path) ++ more) := by simp [front]
  intro same
  have sizes := congrArg List.length same
  rw [shape,behind_append_mem slash] at sizes
  cases given : s.path with
  | none => simp [given] at sizes
  | some path =>
    simp only [given,marked,Option.getD_some,List.length_append,List.length_cons] at sizes
    omega

theorem slash_front {path : Text} (given : s.path = some path) : '/' ∈ s.front := by simp [front,given,marked]

section
variable (port : Free ['/','?','#'] s.port)
include port

theorem mem_front {mark : Char} (member : mark ∈ ['?','#']) :
    mark ∈ s.front ↔ mark ∈ s.host ∨ mark ∈ s.path.getD [] := by
  have others : ∀ mark ∈ ['?','#'], mark ≠ ':' ∧ mark ≠ '/' := Scan.forall_of_all (by decide)
  obtain ⟨colon,slash⟩ := others mark member
  have free : mark ∉ s.port := port mark (List.mem_cons_of_mem _ member)
  cases given : s.path <;> simp [front,given,marked,colon,slash,free]

theorem not_mem_authority (slash : '/' ∉ s.host) : '/' ∉ s.host ++ ':' :: s.port := by
  simp [slash,port '/' (by decide)]

/-- The path stands behind the first slash. -/
theorem behind_front {path : Text} (given : s.path = some path) (slash : '/' ∉ s.host) (more : Text) :
    behind '/' (s.front ++ more) = path ++ more := by
  have shape : s.front ++ more = (s.host ++ ':' :: s.port) ++ '/' :: (path ++ more) := by simp [front,given,marked]
  rw [shape,behind_mark (not_mem_authority port slash)]

theorem no_slash_front (absent : s.path = none) (slash : '/' ∉ s.host) : '/' ∉ s.front := by
  have shape : s.front = s.host ++ ':' :: s.port := by simp [front,absent,marked]
  rw [shape]
  exact not_mem_authority port slash

/-- When the path is all that follows the first slash, nothing follows the path, or
    there is none and the only slash is the last character. -/
theorem tail_of_rest (member : '/' ∈ s.text) (rest : behind '/' s.text = s.path.getD []) :
    '/' ∉ s.host ∧ ((∃ path, s.path = some path ∧ s.tail = []) ∨
      (s.path = none ∧ ∃ rest, s.tail = rest ++ ['/'] ∧ '/' ∉ rest)) := by
  have slash : '/' ∉ s.host := fun slash => long_of_slash slash s.tail rest
  refine ⟨slash,?_⟩
  cases given : s.path with
  | some path =>
    rw [text,behind_front port given slash,given,Option.getD_some,List.append_right_eq_self] at rest
    exact .inl ⟨path,rfl,rest⟩
  | none =>
    have free := no_slash_front port given slash
    have inside : '/' ∈ s.tail := (List.mem_append.mp member).resolve_left free
    rw [text,behind_append free,given,Option.getD_none] at rest
    have whole := before_behind inside
    rw [rest] at whole
    exact .inr ⟨rfl,before '/' s.tail,whole.symm,not_mem_before _ _⟩

theorem walks_of_trailing (absent : s.path = none) (slash : '/' ∉ s.host) {rest : Text} (ends : s.tail = rest ++ ['/'])
    (free : '/' ∉ rest) : '/' ∈ s.text ∧ behind '/' s.text = s.path.getD [] := by
  rw [text,ends]
  refine ⟨by simp,?_⟩
  rw [behind_append (no_slash_front port absent slash),behind_mark free,absent,Option.getD_none]

/-- Where the lead is all of the front. -/
theorem legible_of_front (plain : s.Plain) (lead : leadOf s.text = s.front)
    (hash : s.query = none → '#' ∈ s.front → '#' ∈ s.host ∧ s.fragment = none) (walks : s.Walks) : s.Legible := by
  rw [Walks,lead] at walks
  rcases walks with ⟨early,path⟩ | ⟨-,member,rest⟩
  · have slash : '/' ∉ s.host := by
      rw [← List.append_nil s.front] at path
      exact fun slash => long_of_slash slash [] path
    cases given : s.path with
    | some path => exact .path given slash plain hash
    | none => exact absurd early (no_slash_front port given slash)
  · obtain ⟨slash,⟨path,given,-⟩ | ⟨absent,rest,ends,free⟩⟩ := tail_of_rest port member rest
    · exact .path given slash plain hash
    · exact .trailing absent slash plain ends free

/-- A lead that ends in the path leaves out what follows, so the mark that ends it
    stands in the host. -/
theorem mark_in_host {mark : Char} (marks : mark ∈ ['?','#']) (member : mark ∈ s.front)
    (lead : leadOf s.text = before mark s.front) (walks : s.Walks) : mark ∈ s.host := by
  by_contra outside
  have path := ((mem_front port marks).mp member).resolve_left outside
  obtain ⟨path',given⟩ : ∃ path', s.path = some path' := by
    cases given : s.path with
    | none => simp [given] at path
    | some path' => exact ⟨path',rfl⟩
  rcases walks with ⟨-,rest⟩ | ⟨late,-⟩
  · rw [lead] at rest
    rw [← rest] at path
    exact not_mem_before mark s.front (mem_of_mem_behind path)
  · have others : ∀ mark ∈ ['?','#'], mark ≠ ':' ∧ mark ≠ '/' := Scan.forall_of_all (by decide)
    obtain ⟨colon,slash⟩ := others mark marks
    have free : mark ∉ s.port := port mark (List.mem_cons_of_mem _ marks)
    have shape : s.front = (s.host ++ ':' :: s.port) ++ '/' :: path' := by simp [front,given,marked]
    have clear : mark ∉ s.host ++ ':' :: s.port := by simp [outside,free,colon]
    rw [lead,shape,before_append clear] at late
    simp [before,Ne.symm slash] at late

/-- The fragment is found in the host. -/
theorem legible_of_hash (asks : s.query = none) (plain : s.Plain) (inside : '#' ∈ s.host) (walks : s.Walks) :
    s.Legible := by
  have cut : leadOf s.text = before '#' s.host := by
    rw [leadOf_none asks plain,front,before_append_mem inside]
  rcases walks with ⟨early,path⟩ | ⟨-,member,rest⟩
  · rw [cut] at early path
    have whole := before_behind early
    rw [path] at whole
    have free : '#' ∉ before '/' (before '#' s.host) ++ '/' :: s.path.getD [] := by
      rw [whole]
      exact not_mem_before _ _
    refine .copiedPath (a := before '/' (before '#' s.host)) (c := behind '#' s.host) asks ?_ (not_mem_before _ _)
      ?_ plain
    · nth_rewrite 1 [← before_behind inside,← whole]
      simp
    · simpa [not_or] using free
  · obtain ⟨slash,⟨path,given,bare⟩ | ⟨absent,rest,ends,free⟩⟩ := tail_of_rest port member rest
    · have fragment : s.fragment = none := marked_eq_nil.mp (List.append_eq_nil_iff.mp bare).2
      exact .path given slash plain (fun _ _ => ⟨inside,fragment⟩)
    · exact .trailing absent slash plain ends free

theorem legible_of_plain (plain : s.Plain) (walks : s.Walks) : s.Legible := by
  cases asks : s.query with
  | some q =>
    refine legible_of_front port plain (leadOf_query asks plain.1) ?_ walks
    intro none
    rw [asks] at none
    cases none
  | none =>
    have lead := leadOf_none asks plain
    by_cases hash : '#' ∈ s.front
    · exact legible_of_hash port asks plain (mark_in_host port (by decide) hash lead walks) walks
    · rw [before_self hash] at lead
      exact legible_of_front port plain lead (fun _ there => absurd there hash) walks

/-- A query that is found behind the first question mark of the front stands in the
    host when the number sign that ends it is not in the path. -/
theorem copied_in_host {a c : Text} (front : s.front = a ++ '?' :: (s.query.getD [] ++ '#' :: c)) (free : '?' ∉ a)
    (query : '#' ∉ s.query.getD []) (inside : '?' ∈ s.host) (clear : '#' ∉ s.path.getD []) :
    ∃ c', s.host = a ++ '?' :: (s.query.getD [] ++ '#' :: c') := by
  have cuts : before '?' s.host ++ '?' :: (behind '?' s.host ++ ':' :: (s.port ++ marked '/' s.path)) =
      a ++ '?' :: (s.query.getD [] ++ '#' :: c) := by
    rw [← front,Shown.front,← List.cons_append,← List.append_assoc,before_behind inside]
  obtain ⟨first,second⟩ := mark_inj (not_mem_before '?' s.host) free cuts
  have absent : '#' ∉ ':' :: (s.port ++ marked '/' s.path) := by
    cases given : s.path with
    | none => simp [marked,port '#' (by decide)]
    | some path =>
      rw [given] at clear
      simpa [marked,port '#' (by decide)] using clear
  have there : '#' ∈ behind '?' s.host := by
    have member : '#' ∈ behind '?' s.host ++ ':' :: (s.port ++ marked '/' s.path) := by rw [second]; simp
    exact (List.mem_append.mp member).resolve_right absent
  have cut : before '#' (behind '?' s.host) = s.query.getD [] := by
    rw [← before_append_mem there (':' :: (s.port ++ marked '/' s.path)),second,before_mark query]
  refine ⟨behind '#' (behind '?' s.host),?_⟩
  rw [← cut,before_behind there,← first,before_behind inside]

theorem legible_of_copied {a c : Text} (front : s.front = a ++ '?' :: (s.query.getD [] ++ '#' :: c))
    (free : '?' ∉ a ∧ '#' ∉ a) (query : '#' ∉ s.query.getD []) (walks : s.Walks) : s.Legible := by
  have lead := leadOf_early front free.1
  have cut : a = before '?' s.front := by rw [front,before_mark free.1]
  have inside := mark_in_host port (by decide) (by rw [front]; simp) (lead.trans cut) walks
  have copied := copied_in_host port front free.1 query inside
  rcases walks with ⟨early,path⟩ | ⟨-,member,rest⟩
  · rw [lead] at early path
    have cut := before_behind early
    rw [path] at cut
    have clear : ∀ mark, mark ∉ a → mark ∉ s.path.getD [] ∧ mark ∉ before '/' a := by
      intro mark absent
      refine ⟨fun there => absent ?_,fun there => absent (mem_of_mem_before there)⟩
      rw [← path] at there
      exact mem_of_mem_behind there
    obtain ⟨c',host⟩ := copied (clear '#' free.2).1
    refine .copied (a := before '/' a) (c := c') ?_ (not_mem_before _ _)
      ⟨⟨(clear '?' free.1).2,(clear '#' free.2).2⟩,(clear '?' free.1).1,(clear '#' free.2).1⟩ query
    nth_rewrite 1 [host,← cut]
    simp
  · obtain ⟨slash,⟨path,given,bare⟩ | ⟨absent,rest,ends,free'⟩⟩ := tail_of_rest port member rest
    · -- the empty query ends in the host, since the colon is no mark
      have asks : s.query = none := marked_eq_nil.mp (List.append_eq_nil_iff.mp bare).1
      rw [asks,Option.getD_none,List.nil_append] at front
      have second := congrArg (behind '?') front
      rw [Shown.front,behind_append_mem inside,behind_mark free.1] at second
      have whole := before_behind inside
      rw [← before_append_mem inside (':' :: (s.port ++ marked '/' s.path)),← Shown.front,← cut] at whole
      cases found : behind '?' s.host with
      | nil =>
        rw [found,List.nil_append] at second
        exact absurd (List.cons.inj second).1 (by decide)
      | cons mark c' =>
        rw [found] at second whole
        obtain rfl : mark = '#' := (List.cons.inj second).1
        exact .hidden given slash bare whole.symm free
    · obtain ⟨c',host⟩ := copied (by simp [absent])
      exact .trailingCopied absent slash host free query ends free'

theorem not_walks_ends {a : Text} (front : s.front = a ++ ['?']) (free : '?' ∉ a) : ¬ s.Walks := by
  intro walks
  have cut : a = before '?' s.front := by rw [front,before_mark free]
  have inside := mark_in_host port (by decide) (by rw [front]; simp) ((leadOf_early front free).trans cut) walks
  have nothing : behind '?' s.front = [] := by rw [front,behind_mark free]
  rw [Shown.front,behind_append_mem inside] at nothing
  exact absurd (List.append_eq_nil_iff.mp nothing).2 (List.cons_ne_nil _ _)

theorem legible_of_late {g : Text} (asks : s.query = none) (free : '?' ∉ s.front)
    (fragment : s.fragment = some (g ++ ['?'])) (first : '?' ∉ g) (walks : s.Walks) : s.Legible := by
  have lead := leadOf_late asks free fragment first
  have host : '?' ∉ s.host := fun there => free (List.mem_append_left _ there)
  rw [Walks,lead] at walks
  by_cases slash : '/' ∈ s.host
  · rcases walks with ⟨-,rest⟩ | ⟨late,-⟩
    · exact absurd rest (long_of_slash slash _)
    · exact absurd (List.mem_append_left _ (List.mem_append_left _ slash)) late
  · cases given : s.path with
    | some path =>
      rcases walks with ⟨-,rest⟩ | ⟨late,-⟩
      · rw [behind_front port given slash,given,Option.getD_some,List.append_right_eq_self] at rest
        cases rest
      · exact absurd (List.mem_append_left _ (slash_front given)) late
    | none =>
      have clear := no_slash_front port given slash
      rcases walks with ⟨early,rest⟩ | ⟨late,member,-⟩
      · have inside : '/' ∈ g := by simpa [clear] using early
        have skip : behind '/' ('#' :: g) = behind '/' g := by simp [behind]
        rw [behind_append clear,skip,given,Option.getD_none] at rest
        have whole := before_behind inside
        rw [rest] at whole
        have ends : s.fragment = some (before '/' g ++ ['/','?']) := by
          rw [fragment]
          nth_rewrite 1 [← whole]
          simp
        have late : '?' ∉ before '/' g := fun there => first (mem_of_mem_before there)
        exact .trailingMark given slash asks host ends ⟨not_mem_before _ _,late⟩
      · have shape : s.text = (s.front ++ '#' :: g) ++ ['?'] := by simp [text,tail,asks,fragment,marked]
        rw [shape] at member
        have other : '/' ∉ (s.front ++ '#' :: g) ++ ['?'] := by
          rw [List.mem_append]
          exact fun either => either.elim late (by decide)
        exact absurd member other

/-- The path is all that follows the host. -/
theorem walks_of_bare {path : Text} (given : s.path = some path) (slash : '/' ∉ s.host) (bare : s.tail = [])
    (late : '/' ∉ leadOf s.text) : s.Walks := by
  refine .inr ⟨late,List.mem_append_left _ (slash_front given),?_⟩
  rw [text,behind_front port given slash,bare,given,List.append_nil,Option.getD_some]

/-- What is legible is found. -/
theorem found_of_legible (legible : s.Legible) : s.Asks ∧ s.Walks := by
  cases legible with
  | @path path given slash plain hash =>
    refine ⟨.plain plain,?_⟩
    have whole : leadOf s.text = s.front → s.Walks := by
      intro lead
      refine .inl ⟨lead ▸ slash_front given,?_⟩
      rw [lead,← List.append_nil s.front,behind_front port given slash,given,List.append_nil,Option.getD_some]
    cases asks : s.query with
    | some q => exact whole (leadOf_query asks plain.1)
    | none =>
      have lead := leadOf_none asks plain
      by_cases there : '#' ∈ s.front
      · obtain ⟨inside,fragment⟩ := hash asks there
        refine walks_of_bare port given slash (by simp [tail,asks,fragment,marked]) ?_
        rw [lead,front,before_append_mem inside]
        exact fun early => slash (mem_of_mem_before early)
      · exact whole (lead.trans (before_self there))
  | @hidden path a c given slash bare host free =>
    have asks : s.query = none := marked_eq_nil.mp (List.append_eq_nil_iff.mp bare).1
    have shape : s.front = a ++ '?' :: (s.query.getD [] ++ '#' :: (c ++ ':' :: (s.port ++ marked '/' s.path))) := by
      simp [front,host,asks]
    exact ⟨.copied shape free (by simp [asks]),
      walks_of_bare port given slash bare (no_slash_lead slash host shape free.1)⟩
  | @copied a c host slash free query =>
    have shape : s.front = (a ++ '/' :: s.path.getD []) ++ '?' :: (s.query.getD [] ++
        '#' :: (c ++ ':' :: (s.port ++ marked '/' s.path))) := by
      rw [front,host]
      simp
    have clear : '?' ∉ a ++ '/' :: s.path.getD [] ∧ '#' ∉ a ++ '/' :: s.path.getD [] := by
      constructor
      · simp [free.1.1,free.2.1]
      · simp [free.1.2,free.2.2]
    refine ⟨.copied shape clear query,.inl ?_⟩
    rw [leadOf_early shape clear.1]
    exact ⟨by simp,behind_mark slash _⟩
  | @copiedPath a c asks host slash free plain =>
    have inside : '#' ∈ s.host := by
      rw [host]
      simp
    have clear : '#' ∉ a ++ '/' :: s.path.getD [] := by simp [free.1,free.2]
    have lead : leadOf s.text = a ++ '/' :: s.path.getD [] := by
      have shape : s.host = (a ++ '/' :: s.path.getD []) ++ '#' :: c := by rw [host]; simp
      rw [leadOf_none asks plain,front,before_append_mem inside,shape,before_mark clear]
    refine ⟨.plain plain,.inl ?_⟩
    rw [lead]
    exact ⟨by simp,behind_mark slash _⟩
  | @trailing rest absent slash plain ends free =>
    obtain ⟨member,rest'⟩ := walks_of_trailing port absent slash ends free
    refine ⟨.plain plain,.inr ⟨?_,member,rest'⟩⟩
    have clear := no_slash_front port absent slash
    cases asks : s.query with
    | some q => rwa [leadOf_query asks plain.1]
    | none =>
      rw [leadOf_none asks plain]
      exact fun early => clear (mem_of_mem_before early)
  | @trailingMark rest absent slash asks host ends free =>
    have clear := no_slash_front port absent slash
    have query : '?' ∉ s.front := by
      rw [mem_front port (by decide),absent]
      exact fun either => either.elim host (by simp)
    have fragment : s.fragment = some ((rest ++ ['/']) ++ ['?']) := by simp [ends]
    have first : '?' ∉ rest ++ ['/'] := by simp [free.2]
    refine ⟨.late asks query fragment first,.inl ?_⟩
    rw [leadOf_late asks query fragment first,behind_append clear,absent]
    refine ⟨by simp,?_⟩
    have skip : behind '/' ('#' :: (rest ++ ['/'])) = behind '/' (rest ++ ['/']) := by simp [behind]
    rw [skip,behind_mark free.1,Option.getD_none]
  | @trailingCopied a c rest absent slash host marks query ends free =>
    have shape : s.front = a ++ '?' :: (s.query.getD [] ++ '#' :: (c ++ ':' :: (s.port ++ marked '/' s.path))) := by
      rw [front,host]
      simp
    obtain ⟨member,rest'⟩ := walks_of_trailing port absent slash ends free
    exact ⟨.copied shape marks query,.inr ⟨no_slash_lead slash host shape marks.1,member,rest'⟩⟩

/-- The path and the query are found in the legible texts and in no others. -/
theorem legible_iff : s.Asks ∧ s.Walks ↔ s.Legible := by
  constructor
  · rintro ⟨asks,walks⟩
    cases asks with
    | plain plain => exact legible_of_plain port plain walks
    | copied front free query => exact legible_of_copied port front free query walks
    | ends asks front free _ => exact absurd walks (not_walks_ends port front free)
    | late asks free fragment first => exact legible_of_late port asks free fragment first walks
  · exact found_of_legible port

end

end Shown

/-! ### The accessors -/

/-- The printed url of a builder behind the slashes of its scheme. -/
def shown (h : HttpUrl) : Shown where
  host := h.host
  port := renderPort h.scheme h.port
  path := if h.pathSegments = [] then none else some (['/'].intercalate h.pathSegments)
  query := queryOf h.queryNamesAndValues
  fragment := fragmentOf h.fragment

theorem url_shown {b : Builder} (kept : Kept b) :
    (init b).url = (b.scheme ++ lit "://") ++ (shown (init b)).text := by
  have query : marked '?' (queryOf b.encodedQueryNamesAndValues) = renderQuery b.encodedQueryNamesAndValues := by
    refine marked_queryOf (fun p member => ?_)
    exact kept.query p.1 p.2 (Std.ExtTreeMap.mem_toList_iff_getElem?_eq_some.mp member)
  have path : marked '/' (shown (init b)).path = b.encodedPathSegments.flatMap (fun i => '/' :: i) := by
    show marked '/' (if b.encodedPathSegments = [] then none else _) = _
    by_cases empty : b.encodedPathSegments = []
    · rw [if_pos empty,empty]
      rfl
    · rw [if_neg empty,flatMap_slash empty]
      rfl
  rw [url_init,authority,printed,renderHost,if_neg (show ':' ∉ (init b).host from kept.host),Shown.text,Shown.front,
    path,Shown.tail]
  simp only [shown,init,query,marked_fragmentOf]
  simp

theorem not_mem_slashes {scheme : Text} (known : scheme = [] ∨ scheme = lit "http" ∨ scheme = lit "https")
    {mark : Char} (member : mark ∈ ['?','#']) : mark ∉ scheme ++ lit "://" := by
  have empty : ∀ mark ∈ ['?','#'], mark ∉ ([] : Text) ++ lit "://" := Scan.forall_of_all (by decide)
  have http : ∀ mark ∈ ['?','#'], mark ∉ lit "http" ++ lit "://" := Scan.forall_of_all (by decide)
  have https : ∀ mark ∈ ['?','#'], mark ∉ lit "https" ++ lit "://" := Scan.forall_of_all (by decide)
  rcases known with rfl | rfl | rfl
  · exact empty mark member
  · exact http mark member
  · exact https mark member

theorem encodedQuery_eq (h : HttpUrl) : h.encodedQuery = .ok (between '?' '#' h.url) := by
  unfold encodedQuery
  by_cases query : '?' ∈ h.url
  · have slice := substr_between (b := '#') (by decide) query
    rw [find_mem query]
    cases fragment : find '#' h.url with
    | none =>
      rw [fragment,Option.bind_none] at slice
      simp only [substrOf,slice]
    | some queryEnd =>
      rw [fragment,Option.bind_some] at slice
      simp only [substrOf,slice]
  · rw [find_none query,between_nil query]

theorem leadOf_lead {lead : Text} (free : '?' ∉ lead ∧ '#' ∉ lead) (s : Text) :
    leadOf (lead ++ s) = lead ++ leadOf s := by
  unfold leadOf
  by_cases query : '?' ∈ s
  · rw [if_pos query,if_pos (List.mem_append_right _ query),before_append free.1]
  · have absent : '?' ∉ lead ++ s := by simp [free.1,query]
    rw [if_neg query,if_neg absent,before_append free.2]

theorem between_lead {lead : Text} (free : '?' ∉ lead ∧ '#' ∉ lead) (s : Text) :
    between '?' '#' (lead ++ s) = between '?' '#' s := by
  have early : '#' ∈ before '?' (lead ++ s) ↔ '#' ∈ before '?' s := by
    rw [before_append free.1,List.mem_append,or_iff_right free.2]
  by_cases there : '#' ∈ before '?' s
  · rw [between,if_pos (early.mpr there),between,if_pos there,behind_append free.1]
  · rw [between,if_neg (fun here => there (early.mp here)),between,if_neg there,behind_append free.1]

theorem minus_lead (n stop start : Nat) : minus (n + stop) (n + start) = minus stop start := by
  unfold minus
  by_cases within : start ≤ stop
  · rw [if_pos within,if_pos (by omega)]
    congr 1
    omega
  · rw [if_neg within,if_neg (by omega)]

theorem drop_before {c : Char} {s : Text} (member : c ∈ s) : s.drop (before c s).length = c :: behind c s := by
  nth_rewrite 2 [← before_behind member]
  rw [List.drop_left]

/-- The slice of `EncodedPath`: up to the lead, or to the end of the text when the
    slash stands behind it. -/
theorem front_slash {s : Text} (member : '/' ∈ s) :
    Positions.front (s.drop (before '/' s).length) (minus (leadOf s).length (before '/' s).length) =
      '/' :: behind '/' (if '/' ∈ leadOf s then leadOf s else s) := by
  obtain ⟨rest,whole,marks⟩ := leadOf_append s
  generalize leadOf s = lead at whole ⊢
  subst whole
  by_cases early : '/' ∈ lead
  · have within : (before '/' lead).length ≤ lead.length := (List.takeWhile_prefix _).length_le
    have cut : (lead ++ rest).drop (before '/' lead).length = ('/' :: behind '/' lead) ++ rest := by
      rw [List.drop_append_of_le_length within,drop_before early]
    have size := congrArg List.length (before_behind early)
    simp only [List.length_append,List.length_cons] at size
    rw [before_append_mem early,minus,if_pos within,Positions.front,cut,if_pos early,List.take_left']
    simp only [List.length_cons]
    omega
  · have inside : '/' ∈ rest := (List.mem_append.mp member).resolve_left early
    have given : before '/' rest ≠ [] := by
      intro nothing
      have heads := before_eq_nil_iff.mp nothing
      obtain ⟨c,more,shape⟩ := List.exists_cons_of_ne_nil (List.ne_nil_of_mem inside)
      have slash : c = '/' := heads c (by simp [shape])
      rcases marks c (by simp [shape]) with query | fragment
      · exact absurd (slash.symm.trans query) (by decide)
      · exact absurd (slash.symm.trans fragment) (by decide)
    have short : ¬ (before '/' (lead ++ rest)).length ≤ lead.length := by
      have long := List.length_pos_of_ne_nil given
      rw [before_append early,List.length_append]
      omega
    rw [minus,if_neg short,Positions.front,drop_before member,if_neg early]

theorem encodedPath_iff {h : HttpUrl} {lead s path : Text} (url : h.url = lead ++ s)
    (start : lead.length = h.scheme.length + 3) (free : '?' ∉ lead ∧ '#' ∉ lead) :
    h.encodedPath = .ok ('/' :: path) ↔
      '/' ∈ leadOf s ∧ behind '/' (leadOf s) = path ∨ '/' ∉ leadOf s ∧ '/' ∈ s ∧ behind '/' s = path := by
  have ends : ((find '?' h.url).or (find '#' h.url)).getD h.url.length = lead.length + (leadOf s).length := by
    rw [getD_find,url,leadOf_lead free,List.length_append]
  have starts : findFrom '/' (h.scheme.length + 3) h.url = (find '/' s).map (fun pos => lead.length + pos) := by
    rw [findFrom,url,← start,List.drop_left]
  unfold encodedPath
  rw [starts,ends]
  by_cases member : '/' ∈ s
  · have within : lead.length + (before '/' s).length ≤ (lead ++ s).length := by
      have size : (before '/' s).length ≤ s.length := (List.takeWhile_prefix _).length_le
      rw [List.length_append]
      omega
    have slice : substrOf h.url (lead.length + (before '/' s).length)
        (minus (lead.length + (leadOf s).length) (lead.length + (before '/' s).length)) =
        .ok ('/' :: behind '/' (if '/' ∈ leadOf s then leadOf s else s)) := by
      rw [substrOf,url,Positions.substr,if_pos within,minus_lead,List.drop_append,List.drop_of_length_le (by omega),
        Nat.add_sub_cancel_left,List.nil_append,front_slash member]
    simp only [find_mem member,Option.map_some,slice,Except.ok.injEq,List.cons.injEq,true_and]
    by_cases early : '/' ∈ leadOf s
    · simp [early]
    · simp [early,member]
  · have absent : '/' ∉ leadOf s := by
      obtain ⟨rest,whole,-⟩ := leadOf_append s
      intro early
      exact member (whole ▸ List.mem_append_left _ early)
    simp [find_none member,absent,member]

/-- The urls that a text gives, or any builder. -/
inductive Made : HttpUrl → Prop where
  | parsed {url : Text} {b : Builder} {h : HttpUrl} (accepted : (parse url).run {} = .ok true b)
      (made : ofText url = .ok h) : Made h
  | built {b : Builder} (edited : Edited {} b) : Made b.build

theorem Made.init {h : HttpUrl} (made : Made h) : ∃ b, Kept b ∧ h = HttpUrl.init b := by
  cases made with
  | parsed accepted made => exact ⟨_,kept_accepted accepted,ofText_accepted accepted made⟩
  | built edited => exact ⟨_,edited.kept kept_new,rfl⟩

theorem word_renderPort {scheme : Text} {port : Int32} {c : Char} (member : c ∈ renderPort scheme port) :
    c.isDigit = true ∨ c = '-' := by
  unfold renderPort at member
  cases value : (if port = -1 then defaultPort scheme else port).toInt with
  | ofNat n =>
    rw [value] at member
    exact .inl (Json.isDigit_of_mem_digits member)
  | negSucc n =>
    rw [value] at member
    rcases List.mem_cons.mp member with minus | member
    · exact .inr minus
    · exact .inl (Json.isDigit_of_mem_digits member)

theorem free_renderPort (scheme : Text) (port : Int32) : Free ['/','?','#'] (renderPort scheme port) := by
  have others : ∀ mark ∈ ['/','?','#'], mark.isDigit = false ∧ mark ≠ '-' := Scan.forall_of_all (by decide)
  intro mark member there
  obtain ⟨digit,sign⟩ := others mark member
  rcases word_renderPort there with number | minus
  · rw [number] at digit
    cases digit
  · exact sign minus

/-- The accessors return the stored path and query exactly when the printed url is
    legible. -/
theorem accessors_iff {h : HttpUrl} (made : Made h) : h.Agrees ↔ (shown h).Legible := by
  obtain ⟨b,kept,rfl⟩ := made.init
  have url := url_shown kept
  have free : '?' ∉ b.scheme ++ lit "://" ∧ '#' ∉ b.scheme ++ lit "://" :=
    ⟨not_mem_slashes kept.scheme (by decide),not_mem_slashes kept.scheme (by decide)⟩
  have start : (b.scheme ++ lit "://").length = (init b).scheme.length + 3 := by
    simp [Components.slashes_eq,init]
  have path : (shown (init b)).path.getD [] = ['/'].intercalate (init b).pathSegments := by
    show (if b.encodedPathSegments = [] then none else some _).getD [] = _
    by_cases empty : b.encodedPathSegments = []
    · rw [if_pos empty]
      show [] = ['/'].intercalate b.encodedPathSegments
      rw [empty]
      rfl
    · rw [if_neg empty]
      rfl
  have query : (shown (init b)).query.getD [] = ['&'].intercalate ((init b).queryNamesAndValues.pairs.map item) := by
    show (if b.encodedQueryNamesAndValues.isEmpty then none else some _).getD [] = _
    by_cases empty : b.encodedQueryNamesAndValues.isEmpty
    · have none : b.encodedQueryNamesAndValues = ∅ := Std.ExtTreeMap.isEmpty_iff.mp empty
      rw [if_pos empty]
      show [] = ['&'].intercalate (b.encodedQueryNamesAndValues.pairs.map item)
      rw [none]
      rfl
    · rw [if_neg empty]
      rfl
  rw [Agrees,encodedPath_iff url start free,encodedQuery_eq,url,between_lead free,Except.ok.injEq,← path,← query,
    Shown.asks_iff,and_comm]
  exact Shown.legible_iff (free_renderPort _ _)

/-- The builder of `http://h:80/a#f`. -/
def simple : Builder :=
  { scheme := lit "http", host := lit "h", port := 80, encodedPathSegments := [lit "a"], encodedFragment := lit "f" }

theorem accessors_simple : Made simple.build ∧ simple.build.Agrees := by
  have made : Made simple.build := .built ⟨[.parse (lit "http://h:80/a#f")],rfl⟩
  have path : (shown simple.build).path = some (lit "a") := rfl
  have query : (shown simple.build).query = none := rfl
  have fragment : (shown simple.build).fragment = some (lit "f") := rfl
  have front : (shown simple.build).front = lit "h:80/a" := by decide
  have slash : '/' ∉ (shown simple.build).host := by decide
  have plain : (shown simple.build).Plain := by
    refine ⟨front ▸ by decide,?_,fun _ => fragment ▸ by decide⟩
    intro q asks
    rw [query] at asks
    cases asks
  have hash : '#' ∉ (shown simple.build).front := front ▸ by decide
  exact ⟨made,(accessors_iff made).mpr (.path path slash plain (fun _ there => absurd there hash))⟩

/-- `http://h/` is printed without the slash that `EncodedPath` looks for. -/
theorem accessors_fails :
    ∃ h, ofText (lit "http://h/") = .ok h ∧ h.url = lit "http://h:80" ∧ h.encodedPath = .error .exception ∧
      ¬ h.Agrees := by
  refine ⟨_,rfl,by decide,rfl,?_⟩
  rintro ⟨path,-⟩
  cases path

end LicodeClient.HttpUrl
