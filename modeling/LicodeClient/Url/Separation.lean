import LicodeClient.Url.Pieces

/-!
A url written down from its parts, and whether `Parse` takes it apart again. It
does when there is a path, no question mark stands in the fragment of a url
without a query, and no colon stands in the path of a url without a port. Without
a path the text has no slash for the parser to find, and the whole authority
becomes the path; a question mark in the fragment ends the path too late, so that
the mark of the fragment is read as part of the path and what follows as a query;
a colon in the path is taken for that of a port. `separated_iff` says so for all
texts, those included that come out right by accident.
-/
namespace LicodeClient.HttpUrl
open Positions (before behind between before_eq_nil_iff before_self behind_nil before_append behind_append before_mark
  behind_mark between_nil before_here behind_here not_mem_before before_behind)
open HttpUrl.Builder

/-- The parts of a url as it is written. -/
structure Raw where
  scheme : Text
  host : Text
  port : Option Text
  path : Text
  query : Option Text
  fragment : Option Text

namespace Raw
variable {r : Raw}

/-- What stands before the query. -/
def lead (r : Raw) : Text := r.scheme ++ lit "://" ++ (r.host ++ marked ':' r.port ++ r.path)

def text (r : Raw) : Text := r.lead ++ marked '?' r.query ++ marked '#' r.fragment

/-- The parts are of the kind that a url has. -/
structure Shaped (r : Raw) : Prop where
  scheme : r.scheme = lit "http" ∨ r.scheme = lit "https"
  host : r.host ≠ [] ∧ Free [':','/','?','#'] r.host
  port : ∀ p ∈ r.port, ∀ c ∈ p, c.isDigit = true
  path : ∀ c ∈ r.path.head?, c = '/'
  free : Free ['?','#'] r.path
  query : ∀ q ∈ r.query, '#' ∉ q
  ends : ∀ c ∈ r.text.getLast?, isSpace c = false

/-- `Parse` accepts the text and stores each part. -/
def Separated (r : Raw) (prior : Builder) : Prop :=
  ∃ b, (parse r.text).run prior = .ok true b ∧ b.host = r.host ∧
    portOf r.scheme (r.port.getD []) = .ok b.port ∧ b.encodedPathSegments = normalized r.path ∧
    b.encodedQueryNamesAndValues = paramsOf (r.query.getD []) ∧ b.encodedFragment = r.fragment.getD []

/-- The front of a fragment that the parser takes for the end of the path: what
    stands before the question mark of a fragment when there is no query. -/
def stray (r : Raw) : Text :=
  if r.query = none ∧ '?' ∈ r.fragment.getD [] then '#' :: before '?' (r.fragment.getD []) else []

/-- What the parser takes for the query. -/
def asked (r : Raw) : Text := r.query.getD (behind '?' (r.fragment.getD []))

/-- The urls that `Parse` takes apart into their parts. -/
inductive Separable (r : Raw) : Prop where
  /-- There is a path, the port is an `int`, and no mark stands where a search
      meets it too early. -/
  | path {port : Int32} (fits : portOf r.scheme (r.port.getD []) = .ok port) (clear : r.stray = [])
      (given : r.path ≠ []) (colon : r.port = none → ':' ∉ r.path)
  /-- There is no path, but the host disappears from the path that it is taken for. -/
  | dots (clear : r.stray = []) (empty : r.path = []) (absent : r.port = none)
      (host : r.host = lit "." ∨ r.host = lit "..")
  /-- Dots take back the front of the fragment, so that the pieces behind the first
      slash leave what those of the path leave, and the rest of it has no parameters. -/
  | lucky {port : Int32} {segments : List Text} (fits : portOf r.scheme (r.port.getD []) = .ok port)
      (shown : r.stray ≠ [])
      (nameless : ∀ piece ∈ (behind '?' (r.fragment.getD [])).splitOn '&', before '=' piece = [])
      (colon : r.port = none → r.path ≠ [] ∧ ':' ∉ r.path ++ r.stray) (port : r.port = some [] → r.path ≠ [])
      (slash : '/' ∈ r.path ++ r.stray) (own : NormalForm (r.path.splitOn '/') segments)
      (read : NormalForm ((behind '/' (r.path ++ r.stray)).splitOn '/') segments)

/-! ### Where the marks stand -/

theorem Shaped.not_mem_scheme (shaped : Shaped r) {mark : Char} (member : mark ∈ [':','/','?','#']) :
    mark ∉ r.scheme := Components.not_mem_scheme shaped.scheme member

/-- A mark is no digit. -/
theorem Shaped.not_mem_port (shaped : Shaped r) {p : Text} (given : r.port = some p) {mark : Char}
    (other : mark.isDigit = false) : mark ∉ p := by
  intro member
  have digit := shaped.port p given mark member
  rw [other] at digit
  cases digit

theorem Shaped.not_mem_marked (shaped : Shaped r) {mark : Char} (colon : mark ≠ ':') (other : mark.isDigit = false) :
    mark ∉ marked ':' r.port := by
  cases given : r.port with
  | none => simp [marked]
  | some p => simp [marked,colon,shaped.not_mem_port given other]

theorem Shaped.not_mem_lead (shaped : Shaped r) : '?' ∉ r.lead ∧ '#' ∉ r.lead := by
  have others : ∀ mark ∈ ['?','#'], mark ∈ [':','/','?','#'] ∧ mark ≠ ':' ∧ mark ≠ '/' ∧ mark.isDigit = false :=
    Scan.forall_of_all (by decide)
  have free : ∀ mark ∈ ['?','#'], mark ∉ r.lead := by
    intro mark member
    obtain ⟨inside,colon,slash,digit⟩ := others mark member
    have scheme : mark ∉ r.scheme := shaped.not_mem_scheme inside
    have host : mark ∉ r.host := shaped.host.2 mark inside
    have port : mark ∉ marked ':' r.port := shaped.not_mem_marked colon digit
    have path : mark ∉ r.path := shaped.free mark member
    simp [lead,Components.slashes_eq,scheme,host,port,path,colon,slash]
  exact ⟨free '?' (by decide),free '#' (by decide)⟩

/-! ### What the searches cut out of the text -/

theorem leadOf_text (shaped : Shaped r) : leadOf r.text = r.lead ++ r.stray := by
  obtain ⟨query,fragment⟩ := shaped.not_mem_lead
  cases asks : r.query with
  | some q =>
    have shape : r.text = r.lead ++ '?' :: (q ++ marked '#' r.fragment) := by simp [text,asks,marked]
    have nothing : r.stray = [] := by simp [stray,asks]
    rw [leadOf,shape,if_pos (by simp),before_mark query,nothing,List.append_nil]
  | none =>
    cases named : r.fragment with
    | none =>
      have shape : r.text = r.lead := by simp [text,asks,named,marked]
      have nothing : r.stray = [] := by simp [stray,asks,named]
      rw [leadOf,shape,if_neg query,before_self fragment,nothing,List.append_nil]
    | some f =>
      have shape : r.text = r.lead ++ '#' :: f := by simp [text,asks,named,marked]
      by_cases there : '?' ∈ f
      · have shown : r.stray = '#' :: before '?' f := by simp [stray,asks,named,there]
        rw [leadOf,shape,if_pos (by simp [there]),before_append query,shown]
        simp [before]
      · have nothing : r.stray = [] := by simp [stray,asks,named,there]
        rw [leadOf,shape,if_neg (by simp [query,there]),before_mark fragment,nothing,List.append_nil]

theorem between_text (shaped : Shaped r) : between '?' '#' r.text = r.asked := by
  obtain ⟨query,fragment⟩ := shaped.not_mem_lead
  cases asks : r.query with
  | some q =>
    have shape : r.text = r.lead ++ '?' :: (q ++ marked '#' r.fragment) := by simp [text,asks,marked]
    have clean : '#' ∉ q := shaped.query q asks
    rw [between,shape,before_mark query,if_neg fragment,behind_mark query,before_append clean,asked,asks]
    cases r.fragment <;> simp [marked,before]
  | none =>
    cases named : r.fragment with
    | none =>
      have shape : r.text = r.lead := by simp [text,asks,named,marked]
      rw [shape,between_nil query,asked,asks,named]
      rfl
    | some f =>
      have shape : r.text = r.lead ++ '#' :: f := by simp [text,asks,named,marked]
      by_cases there : '?' ∈ f
      · have early : '#' ∈ before '?' (r.lead ++ '#' :: f) := by
          rw [before_append query]
          simp [before]
        have skip : behind '?' ('#' :: f) = behind '?' f := by simp [behind]
        rw [between,shape,if_pos early,behind_append query,skip,asked,asks,named]
        rfl
      · rw [shape,between_nil (by simp [query,there]),asked,asks,named]
        exact (behind_nil there).symm

theorem behind_text (shaped : Shaped r) : behind '#' r.text = r.fragment.getD [] := by
  obtain ⟨-,fragment⟩ := shaped.not_mem_lead
  have absent : '#' ∉ r.lead ++ marked '?' r.query := by
    cases asks : r.query with
    | none => simp [marked,fragment]
    | some q => simp [marked,fragment,shaped.query q asks]
  rw [text,behind_append absent]
  cases r.fragment <;> simp [marked,behind]

/-- The host with the path, as the parser finds it. -/
def found (r : Raw) : Text := r.host ++ (marked ':' r.port ++ (r.path ++ r.stray))

theorem hostPathOf_text (shaped : Shaped r) : hostPathOf r.scheme r.text = r.found := by
  have start : (r.scheme ++ lit "://").length = r.scheme.length + 3 := by simp [Components.slashes_eq]
  have shape : leadOf r.text = (r.scheme ++ lit "://") ++ r.found := by
    rw [leadOf_text shaped,lead,found]
    simp
  rw [hostPathOf,shape,← start,if_pos (by simp),List.drop_left]

theorem text_eq (r : Raw) : r.text = r.scheme ++ lit "://" ++
    (r.host ++ marked ':' r.port ++ r.path ++ marked '?' r.query ++ marked '#' r.fragment) := by
  simp [text,lead]

theorem trim_text (shaped : Shaped r) : trim r.text = r.text := by
  have ends : ∀ a ∈ r.text.getLast?, a ∉ trimmed := by
    intro a last blank
    have spaces : ∀ a ∈ trimmed, isSpace a = true := Scan.forall_of_all (by decide)
    have word := shaped.ends a last
    rw [spaces a blank] at word
    cases word
  rw [text_eq] at ends ⊢
  rw [trim_lead shaped.scheme,cut_self ends]

theorem schemeOf_text (shaped : Shaped r) : schemeOf (before ':' r.text) = some r.scheme := by
  have shape : r.text = r.scheme ++ ':' :: ('/' :: '/' :: (r.host ++ marked ':' r.port ++ r.path ++
      marked '?' r.query ++ marked '#' r.fragment)) := by
    simp [text,lead,Components.slashes_eq]
  rw [shape,before_mark (shaped.not_mem_scheme (by decide))]
  rcases shaped.scheme with known | known
  · rw [known]
    rfl
  · rw [known]
    rfl

theorem length_text (shaped : Shaped r) : 7 < r.text.length ∧ r.scheme.length + 3 ≤ r.text.length := by
  have given := List.length_pos_of_ne_nil shaped.host.1
  obtain ⟨scheme,long⟩ := length_lead shaped.scheme
    (r.host ++ marked ':' r.port ++ r.path ++ marked '?' r.query ++ marked '#' r.fragment)
  rw [text_eq]
  simp only [List.length_append] at scheme long ⊢
  constructor <;> omega

/-- What is read from the text between the scheme and what is taken for the query
    is what was written. -/
structure Taken (r : Raw) (port : Int32) : Prop where
  read : portOf r.scheme (between ':' '/' r.found) = .ok port
  fits : portOf r.scheme (r.port.getD []) = .ok port
  host : hostOf r.found = r.host
  segments : normalized (pathOf r.found) = normalized r.path
  query : paramsOf r.asked = paramsOf (r.query.getD [])

theorem separated_iff_taken (shaped : Shaped r) (prior : Builder) : r.Separated prior ↔ ∃ port, r.Taken port := by
  obtain ⟨long,scheme⟩ := length_text shaped
  have given : hostPathOf r.scheme r.text ≠ [] := by
    rw [hostPathOf_text shaped,found]
    simp [shaped.host.1]
  have runs : (parse r.text).run prior = partsOutcome r.scheme r.text := by
    rw [run_parse,outcome,if_neg (Nat.not_le.mpr long),trim_text shaped,schemeOf_text shaped,Option.elim_some]
  rw [Separated,runs,partsOutcome,if_neg (Nat.not_lt.mpr scheme),if_neg given,hostPathOf_text shaped]
  cases read : portOf r.scheme (between ':' '/' r.found) with
  | error fault =>
    constructor
    · rintro ⟨b,run,-⟩
      cases run
    · rintro ⟨port,taken⟩
      cases read.symm.trans taken.read
  | ok port =>
    constructor
    · rintro ⟨b,run,host,fits,segments,query,-⟩
      cases run
      simp only [stored,hostPathOf_text shaped,between_text shaped] at host fits segments query
      exact ⟨port,read,fits,host,segments,query⟩
    · rintro ⟨port',same,fits,host,segments,query⟩
      cases read.symm.trans same
      refine ⟨_,rfl,?_,fits,?_,?_,?_⟩
      · simpa only [stored,hostPathOf_text shaped] using host
      · simpa only [stored,hostPathOf_text shaped] using segments
      · simpa only [stored,between_text shaped] using query
      · exact behind_text shaped

/-! ### Host, port and path -/

theorem Shaped.head_middle (shaped : Shaped r) : ∀ c ∈ (r.path ++ r.stray).head?, c = '/' ∨ c = '#' := by
  intro c head
  cases given : r.path with
  | nil =>
    rw [given,List.nil_append,stray] at head
    split at head
    · exact .inr (Option.some.inj head).symm
    · cases head
  | cons c' path =>
    rw [given] at head
    exact .inl (shaped.path c (by simpa [given] using head))

/-- Without a slash behind the authority there is no path. -/
theorem Shaped.path_nil (shaped : Shaped r) (free : '/' ∉ r.path ++ r.stray) : r.path = [] := by
  cases given : r.path with
  | nil => rfl
  | cons c path =>
    have slash : c = '/' := shaped.path c (by simp [given])
    exact absurd (by simp [given,slash]) free

theorem stray_cons (shown : r.stray ≠ []) : r.query = none ∧ ∃ front, r.stray = '#' :: front := by
  unfold stray at shown ⊢
  split at shown
  · next both => exact ⟨both.1,_,if_pos both⟩
  · exact absurd rfl shown

theorem asked_clear (clear : r.stray = []) : r.asked = r.query.getD [] := by
  unfold asked
  cases asks : r.query with
  | some q => rfl
  | none =>
    have absent : '?' ∉ r.fragment.getD [] := by
      intro there
      rw [stray,if_pos ⟨asks,there⟩] at clear
      cases clear
    exact behind_nil absent

theorem hostOf_found_port (shaped : Shaped r) {p : Text} (given : r.port = some p) : hostOf r.found = r.host := by
  have shape : r.found = r.host ++ ':' :: (p ++ (r.path ++ r.stray)) := by simp [found,given,marked]
  rw [hostOf,shape,if_pos (by simp),before_mark (shaped.host.2 ':' (by decide))]

theorem between_found_port (shaped : Shaped r) {p : Text} (given : r.port = some p) :
    between ':' '/' r.found = p ++ before '/' (r.path ++ r.stray) := by
  have shape : r.found = r.host ++ ':' :: (p ++ (r.path ++ r.stray)) := by simp [found,given,marked]
  have colon : ':' ∉ r.host := shaped.host.2 ':' (by decide)
  have slash : '/' ∉ r.host := shaped.host.2 '/' (by decide)
  have digits : '/' ∉ p := shaped.not_mem_port given (by decide)
  rw [between,shape,before_mark colon,if_neg slash,behind_mark colon,before_append digits]

theorem found_bare (absent : r.port = none) : r.found = r.host ++ (r.path ++ r.stray) := by
  simp [found,absent,marked]

/-- Without a port, the host ends at the first colon or slash. -/
theorem hostOf_found_bare (shaped : Shaped r) (absent : r.port = none) :
    hostOf r.found = r.host ↔ ':' ∉ r.path ++ r.stray ∧ ∀ c ∈ (r.path ++ r.stray).head?, c = '/' := by
  have noColon : ':' ∉ r.host := shaped.host.2 ':' (by decide)
  have noSlash : '/' ∉ r.host := shaped.host.2 '/' (by decide)
  rw [found_bare absent]
  by_cases colon : ':' ∈ r.path ++ r.stray
  · have early : ':' ∈ r.host ++ (r.path ++ r.stray) := List.mem_append_right _ colon
    rw [hostOf,if_pos early,before_append noColon,List.append_right_eq_self,before_eq_nil_iff]
    constructor
    · intro begins
      obtain ⟨c,rest,whole⟩ := List.exists_cons_of_ne_nil (List.ne_nil_of_mem colon)
      have first : c = ':' := begins c (by simp [whole])
      rcases shaped.head_middle c (by simp [whole]) with slash | hash
      · exact absurd (first.symm.trans slash) (by decide)
      · exact absurd (first.symm.trans hash) (by decide)
    · rintro ⟨free,-⟩
      exact absurd colon free
  · have none : ':' ∉ r.host ++ (r.path ++ r.stray) := by
      rw [List.mem_append]
      exact fun either => either.elim noColon colon
    rw [hostOf,if_neg none,before_append noSlash,List.append_right_eq_self,before_eq_nil_iff]
    exact ⟨fun begins => ⟨colon,begins⟩,fun both => both.2⟩

theorem between_found_bare (shaped : Shaped r) (absent : r.port = none) (free : ':' ∉ r.path ++ r.stray) :
    between ':' '/' r.found = [] := by
  rw [found_bare absent]
  refine between_nil ?_ '/'
  rw [List.mem_append]
  exact fun either => either.elim (shaped.host.2 ':' (by decide)) free

theorem Shaped.not_mem_authority (shaped : Shaped r) : '/' ∉ r.host ++ marked ':' r.port := by
  rw [List.mem_append]
  exact fun either => either.elim (shaped.host.2 '/' (by decide)) (shaped.not_mem_marked (by decide) (by decide))

theorem pathOf_found (shaped : Shaped r) (slash : '/' ∈ r.path ++ r.stray) :
    pathOf r.found = behind '/' (r.path ++ r.stray) := by
  have shape : r.found = r.host ++ marked ':' r.port ++ (r.path ++ r.stray) := by simp [found]
  rw [pathOf,shape,if_pos (List.mem_append_right _ slash),behind_append shaped.not_mem_authority]

/-- Without a slash the authority is the path, and only dots disappear from it. -/
theorem normalized_found (shaped : Shaped r) (free : '/' ∉ r.path ++ r.stray) :
    normalized (pathOf r.found) = [] ↔ r.found = lit "." ∨ r.found = lit ".." := by
  have absent : '/' ∉ r.found := by
    rw [found,← List.append_assoc,List.mem_append]
    exact fun either => either.elim shaped.not_mem_authority free
  have given : r.found ≠ [] := by simp [found,shaped.host.1]
  rw [pathOf,if_neg absent,normalized_single absent,pushSegment_nil_iff,or_iff_right given]

/-- A port hides the dots of a host. -/
theorem found_ne_dots (given : r.port ≠ none) : ¬ (r.found = lit "." ∨ r.found = lit "..") := by
  obtain ⟨p,port⟩ := Option.ne_none_iff_exists'.mp given
  have colon : ':' ∈ r.found := by simp [found,port,marked]
  rintro (dot | dots)
  · rw [dot] at colon
    revert colon
    decide
  · rw [dots] at colon
    revert colon
    decide

/-! ### The urls that are taken apart -/

theorem portOf_default (scheme : Text) : portOf scheme [] = .ok (defaultPort scheme) := rfl

/-- The text that is read as the port gives the port that was written. -/
theorem portOf_before (shaped : Shaped r) {p : Text} (given : r.port = some p)
    (begins : p = [] → ∀ c ∈ (r.path ++ r.stray).head?, c = '/') :
    portOf r.scheme (p ++ before '/' (r.path ++ r.stray)) = portOf r.scheme p := by
  by_cases empty : p = []
  · rw [before_eq_nil_iff.mpr (begins empty),List.append_nil]
  · have all := shaped.port p given
    have stops : Scan.Stops Char.isDigit (before '/' (r.path ++ r.stray)) := by
      intro c head
      have first : c ∈ (r.path ++ r.stray).head? := by
        cases whole : r.path ++ r.stray with
        | nil => simp [whole,before] at head
        | cons c' rest =>
          rw [whole] at head
          by_cases slash : c' = '/'
          · simp [slash] at head
          · simpa [before,slash] using head
      rcases shaped.head_middle c first with slash | hash
      · rw [slash]
        decide
      · rw [hash]
        decide
    have long : p ++ before '/' (r.path ++ r.stray) ≠ [] := by simp [empty]
    simp only [portOf,List.isEmpty_eq_false_iff.mpr long,List.isEmpty_eq_false_iff.mpr empty,Bool.false_eq_true,
      if_false]
    exact atoi_append all empty stops

/-- An empty port is not read as such when the mark of the fragment follows it. -/
theorem portOf_hash {rest : Text} (shaped : Shaped r) : portOf r.scheme ('#' :: rest) ≠ portOf r.scheme [] := by
  have read : atoi ('#' :: rest) = .ok 0 := atoi_mark (by decide) (by decide) (by decide) rest
  rw [portOf_default,portOf,List.isEmpty_cons,if_neg Bool.false_ne_true,read]
  intro same
  have other : defaultPort r.scheme = 0 := (Except.ok.inj same).symm
  rcases shaped.scheme with known | known
  · have http : defaultPort (lit "http") = 80 := rfl
    rw [known,http] at other
    exact absurd other (by decide)
  · have https : defaultPort (lit "https") = 443 := rfl
    rw [known,https] at other
    exact absurd other (by decide)

/-- Host and port are found when a slash follows a host without a port and an empty
    port. -/
theorem authority_found (shaped : Shaped r) {port : Int32} (fits : portOf r.scheme (r.port.getD []) = .ok port)
    (bare : r.port = none → ':' ∉ r.path ++ r.stray ∧ ∀ c ∈ (r.path ++ r.stray).head?, c = '/')
    (empty : r.port = some [] → ∀ c ∈ (r.path ++ r.stray).head?, c = '/') :
    portOf r.scheme (between ':' '/' r.found) = .ok port ∧ hostOf r.found = r.host := by
  cases given : r.port with
  | none =>
    rw [given] at fits
    obtain ⟨free,begins⟩ := bare given
    rw [between_found_bare shaped given free]
    exact ⟨fits,(hostOf_found_bare shaped given).mpr ⟨free,begins⟩⟩
  | some p =>
    rw [given] at fits
    rw [between_found_port shaped given,portOf_before shaped given]
    · exact ⟨fits,hostOf_found_port shaped given⟩
    · rintro rfl
      exact empty given

theorem Shaped.begins (shaped : Shaped r) (given : r.path ≠ []) : ∀ c ∈ (r.path ++ r.stray).head?, c = '/' := by
  intro c head
  refine shaped.path c ?_
  obtain ⟨c',rest,whole⟩ := List.exists_cons_of_ne_nil given
  simpa [whole] using head

namespace Taken
variable {port : Int32}

theorem bare (taken : r.Taken port) (shaped : Shaped r) (absent : r.port = none) :
    ':' ∉ r.path ++ r.stray ∧ ∀ c ∈ (r.path ++ r.stray).head?, c = '/' :=
  (hostOf_found_bare shaped absent).mp taken.host

/-- Without a slash behind the authority the host must be dots. -/
theorem slashless (taken : r.Taken port) (shaped : Shaped r) (free : '/' ∉ r.path ++ r.stray) :
    r.path = [] ∧ r.port = none ∧ (r.found = lit "." ∨ r.found = lit "..") := by
  have empty := shaped.path_nil free
  have segments := taken.segments
  rw [empty] at segments
  have dots := (normalized_found shaped free).mp segments
  refine ⟨empty,?_,dots⟩
  by_contra given
  exact found_ne_dots given dots

theorem separable_of_clear (taken : r.Taken port) (shaped : Shaped r) (clear : r.stray = []) : r.Separable := by
  by_cases empty : r.path = []
  · obtain ⟨-,absent,dots⟩ := taken.slashless shaped (by simp [empty,clear])
    rw [found_bare absent,empty,clear,List.append_nil,List.append_nil] at dots
    exact .dots clear empty absent dots
  · refine .path taken.fits clear empty (fun absent => ?_)
    have free := (taken.bare shaped absent).1
    rwa [clear,List.append_nil] at free

theorem separable_of_stray (taken : r.Taken port) (shaped : Shaped r) (shown : r.stray ≠ []) : r.Separable := by
  obtain ⟨none,front,shape⟩ := stray_cons shown
  have headed : r.path = [] → ¬ ∀ c ∈ (r.path ++ r.stray).head?, c = '/' := by
    intro empty begins
    have hash : '#' = '/' := begins '#' (by simp [empty,shape])
    exact absurd hash (by decide)
  have slash : '/' ∈ r.path ++ r.stray := by
    by_contra free
    obtain ⟨empty,absent,-⟩ := taken.slashless shaped free
    exact headed empty (taken.bare shaped absent).2
  have nothing : paramsOf (behind '?' (r.fragment.getD [])) = ∅ := by
    have query := taken.query
    rw [asked,none] at query
    exact query
  have segments : normalized (behind '/' (r.path ++ r.stray)) = normalized r.path := by
    rw [← pathOf_found shaped slash]
    exact taken.segments
  refine .lucky taken.fits shown ((paramsOf_eq_empty_iff _).mp nothing) ?_ ?_ slash (normalized_eq_iff.mp rfl)
    (normalized_eq_iff.mp segments)
  · intro absent
    obtain ⟨free,begins⟩ := taken.bare shaped absent
    exact ⟨fun empty => headed empty begins,free⟩
  · intro given empty
    have read := taken.read
    have fits := taken.fits
    rw [between_found_port shaped given,List.nil_append,empty,shape,List.nil_append] at read
    have marked : before '/' ('#' :: front) = '#' :: before '/' front := by simp [before]
    rw [marked] at read
    rw [given] at fits
    exact portOf_hash shaped (read.trans fits.symm)

end Taken

theorem Separable.taken (separable : r.Separable) (shaped : Shaped r) : ∃ port, r.Taken port := by
  cases separable with
  | @path port fits clear given colon =>
    have begins := shaped.begins given
    have free : r.port = none → ':' ∉ r.path ++ r.stray := by
      rw [clear,List.append_nil]
      exact colon
    obtain ⟨read,host⟩ := authority_found shaped fits (fun absent => ⟨free absent,begins⟩) (fun _ => begins)
    obtain ⟨c,rest,whole⟩ := List.exists_cons_of_ne_nil given
    obtain rfl : c = '/' := shaped.path c (by simp [whole])
    have middle : r.path ++ r.stray = '/' :: rest := by rw [clear,whole,List.append_nil]
    refine ⟨port,read,fits,host,?_,by rw [asked_clear clear]⟩
    rw [pathOf_found shaped (by simp [middle]),middle,behind_here,whole,normalized_slash]
  | dots clear empty absent host =>
    have middle : r.path ++ r.stray = [] := by rw [clear,empty,List.append_nil]
    have free : ∀ c : Char, c ∉ r.path ++ r.stray := by simp [middle]
    have fits : portOf r.scheme (r.port.getD []) = .ok (defaultPort r.scheme) := by
      rw [absent]
      exact portOf_default _
    have found : r.found = r.host := by rw [found_bare absent,middle,List.append_nil]
    obtain ⟨read,own⟩ := authority_found shaped fits (fun _ => ⟨free ':',by simp [middle]⟩) (by simp [middle])
    refine ⟨_,read,fits,own,?_,by rw [asked_clear clear]⟩
    rw [(normalized_found shaped (free '/')).mpr (by rw [found]; exact host),empty]
    rfl
  | @lucky port segments fits shown nameless colon filled slash own read =>
    obtain ⟨unasked,-⟩ := stray_cons shown
    have bare : r.port = none → ':' ∉ r.path ++ r.stray ∧ ∀ c ∈ (r.path ++ r.stray).head?, c = '/' :=
      fun absent => ⟨(colon absent).2,shaped.begins (colon absent).1⟩
    obtain ⟨found,host⟩ := authority_found shaped fits bare (fun given => shaped.begins (filled given))
    refine ⟨port,found,fits,host,?_,?_⟩
    · rw [pathOf_found shaped slash,normalized_eq_iff.mpr own,normalized_eq_iff.mpr read]
    · rw [asked,unasked]
      exact (paramsOf_eq_empty_iff _).mpr nameless

/-- `Parse` takes a url apart into its parts exactly when it is separable. -/
theorem separated_iff (shaped : Shaped r) (prior : Builder) : r.Separated prior ↔ r.Separable := by
  rw [separated_iff_taken shaped]
  constructor
  · rintro ⟨port,taken⟩
    by_cases clear : r.stray = []
    · exact taken.separable_of_clear shaped clear
    · exact taken.separable_of_stray shaped clear
  · intro separable
    exact separable.taken shaped

/-- `http://h:80/a?b=c#d`. -/
def ordinary : Raw := ⟨lit "http",lit "h",some (lit "80"),lit "/a",some (lit "b=c"),some (lit "d")⟩

theorem shaped_ordinary : Shaped ordinary where
  scheme := .inl rfl
  host := by decide
  port := by
    rintro p ⟨⟩
    exact Scan.forall_of_all (by decide)
  path := by
    rintro c ⟨⟩
    rfl
  free := by decide
  query := by
    rintro q ⟨⟩
    decide
  ends := by
    rintro c ⟨⟩
    decide

theorem separated_ordinary : Shaped ordinary ∧ ordinary.Separated {} := by
  have fits : portOf ordinary.scheme (ordinary.port.getD []) = .ok 80 := rfl
  refine ⟨shaped_ordinary,(separated_iff shaped_ordinary {}).mpr (.path fits rfl (by decide) ?_)⟩
  intro absent
  cases absent

/-- `http://h:80`, whose authority is read as its path. -/
theorem separated_fails :
    (parse (lit "http://h:80")).run {} = .ok true { scheme := lit "http", host := lit "h", port := 80,
                                                    encodedPathSegments := [lit "h:80"] } ∧
      ¬ (⟨lit "http",lit "h",some (lit "80"),[],none,none⟩ : Raw).Separated {} := by
  have read : (parse (lit "http://h:80")).run {} = .ok true { scheme := lit "http", host := lit "h", port := 80,
                                                              encodedPathSegments := [lit "h:80"] } := rfl
  refine ⟨read,?_⟩
  rintro ⟨b,run,-,-,segments,-⟩
  have same : EStateM.Result.ok true _ = EStateM.Result.ok true b := read.symm.trans run
  cases same
  exact List.cons_ne_nil _ _ segments

end Raw
end LicodeClient.HttpUrl
