import LicodeClient.Lib.Run
import LicodeClient.Url.Pieces

/-!
What a builder stores. Its path is the normal form of the pieces that were added
to it, so a path can be added at once or in two parts (`segments_compose`). Its
query is a set of pairs, which is all that its text depends on (`pairs_store`).
And what its operations keep: the path holds proper segments, the query proper
names with values, and the port is a port or not set, except that `Parse` stores
whatever number it finds in the place of the port (`sound_iff`).
-/
namespace LicodeClient.HttpUrl
open Positions (before between)
open HttpUrl.Builder Components

/-! ### The path as a normal form -/

theorem addEncodedPathSegments_eq (path : Text) (b : Builder) :
    b.addEncodedPathSegments path =
      { b with encodedPathSegments := (path.splitOn '/').foldl pushSegment b.encodedPathSegments } := by
  unfold addEncodedPathSegments
  by_cases given : path = []
  · subst given
    rfl
  · have named : path.isEmpty = false := by simpa using given
    rw [named,if_neg Bool.false_ne_true,foldl_push_eq]

theorem splitOn_slash (p q : Text) : (p ++ '/' :: q).splitOn '/' = p.splitOn '/' ++ q.splitOn '/' :=
  List.splitOn_append_cons_self p q

/-- A path can be added in two parts. On a builder without a path it gives the
    normal form of its pieces, and that form joined by slashes gives itself. -/
theorem segments_compose (p q : Text) (b : Builder) :
    b.addEncodedPathSegments (p ++ '/' :: q) = (b.addEncodedPathSegments p).addEncodedPathSegments q ∧
      ∃ segments, ({ b with encodedPathSegments := [] } : Builder).addEncodedPathSegments p =
          { b with encodedPathSegments := segments } ∧
        (∀ other, NormalForm (p.splitOn '/') other ↔ other = segments) ∧
        ({ b with encodedPathSegments := [] } : Builder).addEncodedPathSegments (['/'].intercalate segments) =
          { b with encodedPathSegments := segments } := by
  refine ⟨?_,normalized p,addEncodedPathSegments_eq p _,normalForm_iff _,?_⟩
  · simp only [addEncodedPathSegments_eq,splitOn_slash,List.foldl_append]
  · by_cases given : normalized p = []
    · rw [given]
      rfl
    · have stay : ∀ s ∈ normalized p, Stays s := fun s member => (mem_normalized member).2
      have free : ∀ s ∈ normalized p, '/' ∉ s := fun s member => (Scan.mem_splitOn (mem_normalized member).1).1
      exact addEncodedPathSegments_join given stay free _

example : ({} : Builder).addEncodedPathSegments (lit "a/./b//../../../c") = { encodedPathSegments := [lit "c"] } := by
  decide

/-! ### The query as a set of pairs -/

/-- The edits of a query. -/
inductive QueryEdit where
  | add (name value : Text)
  | removeValue (name value : Text)
  | remove (name : Text)

namespace QueryEdit

/-- What an edit does to a builder. -/
def apply : QueryEdit → Builder → Builder
  | .add name value, b => b.addEncodedQueryParameter name value
  | .removeValue name value, b => b.removeEncodedQueryValue name value
  | .remove name, b => b.removeEncodedQueryParameter name

/-- What an edit means for a set of pairs: empty names are ignored. -/
def meaning : QueryEdit → Set (Text × Text) → Set (Text × Text)
  | .add name value, pairs => if name = [] then pairs else insert (name,value) pairs
  | .removeValue name value, pairs => if name = [] then pairs else pairs \ {(name,value)}
  | .remove name, pairs => if name = [] then pairs else {p ∈ pairs | p.1 ≠ name}

end QueryEdit

/-- The pairs that a builder stores. -/
def storedPairs (b : Builder) : Set (Text × Text) := b.encodedQueryNamesAndValues.relation

theorem storedPairs_apply (edit : QueryEdit) (b : Builder) :
    storedPairs (edit.apply b) = edit.meaning (storedPairs b) := by
  cases edit with
  | add name value =>
    cases name with
    | nil => rfl
    | cons c name => exact Multimap.relation_add _ _ _
  | removeValue name value =>
    cases name with
    | nil => rfl
    | cons c name => exact Multimap.relation_removeValue _ _ _
  | remove name =>
    cases name with
    | nil => rfl
    | cons c name => exact Multimap.relation_erase _ _

theorem storedPairs_foldl (edits : List QueryEdit) (b : Builder) :
    storedPairs (edits.foldl (fun b edit => edit.apply b) b) =
      edits.foldl (fun pairs edit => edit.meaning pairs) (storedPairs b) := by
  induction edits generalizing b with
  | nil => rfl
  | cons edit edits ih => rw [List.foldl_cons,List.foldl_cons,ih,storedPairs_apply]

/-- No edit leaves a name without values. -/
theorem full_apply (edit : QueryEdit) {b : Builder} (full : b.encodedQueryNamesAndValues.Full) :
    (edit.apply b).encodedQueryNamesAndValues.Full := by
  cases edit with
  | add name value =>
    cases name with
    | nil => exact full
    | cons c name => exact Multimap.full_add full _ _
  | removeValue name value =>
    cases name with
    | nil => exact full
    | cons c name => exact Multimap.full_removeValue full _ _
  | remove name =>
    cases name with
    | nil => exact full
    | cons c name => exact Multimap.full_erase full _

theorem full_foldl (edits : List QueryEdit) {b : Builder} (full : b.encodedQueryNamesAndValues.Full) :
    (edits.foldl (fun b edit => edit.apply b) b).encodedQueryNamesAndValues.Full := by
  induction edits generalizing b with
  | nil => exact full
  | cons edit edits ih => exact ih (full_apply edit full)

/-- The text of a query whose names all have values. -/
theorem renderQuery_eq {query : Query} (full : query.Full) :
    renderQuery query =
      if query.pairs = [] then [] else '?' :: ['&'].intercalate (query.pairs.map item) := by
  have bound : ∀ p ∈ query.toList, p.2 ≠ ∅ := fun p member =>
    full p.1 p.2 (Std.ExtTreeMap.mem_toList_iff_getElem?_eq_some.mp member)
  have none : query.isEmpty = true ↔ query.pairs = [] := by
    rw [Std.ExtTreeMap.isEmpty_iff]
    constructor
    · rintro rfl
      rfl
    · intro empty
      rw [← Multimap.foldl_add_pairs full,empty,List.foldl_nil]
  rw [← marked_queryOf bound,queryOf]
  by_cases empty : query.pairs = []
  · rw [if_pos (none.mpr empty),if_pos empty]
    rfl
  · rw [if_neg (fun gone => empty (none.mp gone)),if_neg empty]
    rfl

/-- A text lists a set of pairs: each of them once. -/
def Lists (text : Text) (pairs : Set (Text × Text)) : Prop :=
  ∃ listed : List (Text × Text), listed.Nodup ∧ (∀ p, p ∈ listed ↔ p ∈ pairs) ∧
    text = if listed = [] then [] else '?' :: ['&'].intercalate (listed.map item)

theorem lists_renderQuery {b : Builder} (full : b.encodedQueryNamesAndValues.Full) :
    Lists (renderQuery b.encodedQueryNamesAndValues) (storedPairs b) := by
  refine ⟨b.encodedQueryNamesAndValues.pairs,Multimap.nodup_of_ordered (Multimap.ordered_pairs _),?_,?_⟩
  · rintro ⟨name,value⟩
    exact Multimap.mem_pairs
  · exact renderQuery_eq full

/-- The query is printed behind all that does not depend on it, and before the
    fragment. -/
theorem toString_query (b : Builder) :
    b.toString = ({ b with encodedQueryNamesAndValues := ∅, encodedFragment := [] } : Builder).toString ++
      renderQuery b.encodedQueryNamesAndValues ++ renderFragment b.encodedFragment := by
  simp only [Builder.toString,renderQuery_empty,show renderFragment [] = [] from rfl,List.append_nil]

/-- Edits of the query do to the pairs of a builder what they mean, no name is left
    without values, and the text of the query, which `ToString` prints behind the path,
    lists the pairs, each once; it is the same for any builder with these pairs. -/
theorem pairs_store (b : Builder) (edited : Edited {} b) (edits : List QueryEdit) :
    let b' := edits.foldl (fun b edit => edit.apply b) b
    let pairs := edits.foldl (fun pairs edit => edit.meaning pairs) (storedPairs b)
    storedPairs b' = pairs ∧ b'.encodedQueryNamesAndValues.Full ∧
      Lists (renderQuery b'.encodedQueryNamesAndValues) pairs ∧
      b'.toString = ({ b' with encodedQueryNamesAndValues := ∅, encodedFragment := [] } : Builder).toString ++
        renderQuery b'.encodedQueryNamesAndValues ++ renderFragment b'.encodedFragment ∧
      ∀ other, Edited {} other → storedPairs other = pairs →
        renderQuery other.encodedQueryNamesAndValues = renderQuery b'.encodedQueryNamesAndValues := by
  have full := full_foldl edits (edited.kept kept_new).query
  have same := storedPairs_foldl edits b
  refine ⟨same,full,?_,toString_query _,?_⟩
  · rw [← same]
    exact lists_renderQuery full
  · intro other edited' same'
    rw [Multimap.eq_of_relation (edited'.kept kept_new).query full (same'.trans same.symm)]

/-- A value that is added twice and one that is removed again, on a new builder. -/
theorem pairs_store_new :
    Edited {} {} ∧
      storedPairs ([.add (lit "a") (lit "1"),.add (lit "a") (lit "2"),.add (lit "a") (lit "1"),
          .removeValue (lit "a") (lit "2")].foldl (fun b edit => QueryEdit.apply edit b) {}) =
        [.add (lit "a") (lit "1"),.add (lit "a") (lit "2"),.add (lit "a") (lit "1"),
          .removeValue (lit "a") (lit "2")].foldl (fun pairs edit => QueryEdit.meaning edit pairs) (storedPairs {}) :=
  ⟨⟨[],rfl⟩,(pairs_store {} ⟨[],rfl⟩ _).1⟩

/-! ### What the operations keep -/

/-- The representation of a builder: the port is not set or a port, the path holds
    segments, and every parameter has a name and a value. -/
structure Sound (b : Builder) : Prop where
  port : b.port = -1 ∨ 1 ≤ b.port.toInt ∧ b.port.toInt ≤ 65535
  segments : ∀ segment ∈ b.encodedPathSegments, Stays segment
  names : ∀ (name : Text) (values : Std.ExtTreeSet Text),
    b.encodedQueryNamesAndValues[name]? = some values → name ≠ [] ∧ values ≠ ∅

theorem sound_new : Sound {} := by
  refine ⟨.inl rfl,by simp,?_⟩
  intro name values bound
  simp at bound

/-- The names of a query are those of its pairs, when it is full. -/
theorem names_iff {query : Query} :
    (∀ (name : Text) (values : Std.ExtTreeSet Text), query[name]? = some values → name ≠ [] ∧ values ≠ ∅) ↔
      query.Full ∧ ∀ p ∈ query.relation, p.1 ≠ [] := by
  constructor
  · intro names
    refine ⟨fun name values bound => (names name values bound).2,?_⟩
    rintro ⟨name,value⟩ ⟨values,bound,-⟩
    exact (names name values bound).1
  · rintro ⟨full,named⟩ name values bound
    obtain ⟨value,inside⟩ := full.exists_mem bound
    exact ⟨named (name,value) ⟨values,bound,inside⟩,full name values bound⟩

/-- An edit of the query brings in no empty name. -/
theorem named_apply (edit : QueryEdit) {b : Builder} (named : ∀ p ∈ storedPairs b, p.1 ≠ []) :
    ∀ p ∈ storedPairs (edit.apply b), p.1 ≠ [] := by
  intro p member
  rw [storedPairs_apply] at member
  cases edit with
  | add name value =>
    by_cases given : name = []
    · rw [QueryEdit.meaning,if_pos given] at member
      exact named p member
    · rw [QueryEdit.meaning,if_neg given] at member
      rcases member with rfl | member
      · exact given
      · exact named p member
  | removeValue name value =>
    rw [QueryEdit.meaning] at member
    split at member
    · exact named p member
    · exact named p member.1
  | remove name =>
    rw [QueryEdit.meaning] at member
    split at member
    · exact named p member
    · exact named p member.1

/-- An edit of the query touches nothing else. -/
theorem apply_eq (edit : QueryEdit) (b : Builder) :
    edit.apply b = { b with encodedQueryNamesAndValues := (edit.apply b).encodedQueryNamesAndValues } := by
  cases edit with
  | add name value => cases name <;> rfl
  | removeValue name value => cases name <;> rfl
  | remove name => cases name <;> rfl

theorem sound_edit {b : Builder} (sound : Sound b) (edit : QueryEdit) : Sound (edit.apply b) := by
  obtain ⟨full,named⟩ := names_iff.mp sound.names
  have names := names_iff.mpr ⟨full_apply edit full,named_apply edit named⟩
  rw [apply_eq]
  exact ⟨sound.port,sound.segments,names⟩

theorem sound_segments {b : Builder} (sound : Sound b) {segments : List Text} (stay : ∀ s ∈ segments, Stays s) :
    Sound { b with encodedPathSegments := segments } := ⟨sound.port,stay,sound.names⟩

theorem sound_foldl {b : Builder} (sound : Sound b) (pieces : List Text) :
    Sound { b with encodedPathSegments := pieces.foldl pushSegment b.encodedPathSegments } := by
  refine sound_segments sound (fun s member => ?_)
  rcases mem_foldl_pushSegment member with old | ⟨-,stays⟩
  · exact sound.segments s old
  · exact stays

theorem sound_setPort {b : Builder} (sound : Sound b) (port : Int32) : Sound (setPort port b) := by
  unfold setPort
  split
  · exact ⟨.inl rfl,sound.segments,sound.names⟩
  · next range =>
    obtain ⟨low,high⟩ := not_or.mp range
    rw [Int32.le_iff_toInt_le] at low
    rw [Int32.lt_iff_toInt_lt] at high
    have zero : (0 : Int32).toInt = 0 := rfl
    have top : (65535 : Int32).toInt = 65535 := rfl
    have fits : 1 ≤ port.toInt ∧ port.toInt ≤ 65535 := by omega
    exact ⟨.inr fits,sound.segments,sound.names⟩

theorem sound_addEncodedPathSegment {b : Builder} (sound : Sound b) (pathSegment : Text) :
    Sound (b.addEncodedPathSegment pathSegment) := by
  unfold Builder.addEncodedPathSegment
  by_cases given : pathSegment = []
  · rw [if_pos (List.isEmpty_iff.mpr given)]
    exact sound
  · rw [if_neg (fun empty => given (List.isEmpty_iff.mp empty)),push_eq given]
    exact sound_foldl sound [pathSegment]

theorem sound_setEncodedPathSegment {b : Builder} (sound : Sound b) (index : Int32) (pathSegment : Text) :
    Sound (b.setEncodedPathSegment index pathSegment) := by
  unfold Builder.setEncodedPathSegment
  split
  · exact sound
  · next given =>
    split
    · exact sound
    · next dots =>
      split
      · exact sound
      · refine sound_segments sound (fun s member => ?_)
        rcases List.mem_or_eq_of_mem_set member with old | rfl
        · exact sound.segments s old
        · obtain ⟨dot,two⟩ := not_or.mp dots
          exact ⟨fun empty => given (List.isEmpty_iff.mpr empty),dot,two⟩

/-- Every operation but `Parse` keeps this. -/
theorem sound_apply {op : Op} {b b' : Builder} (other : ∀ url, op ≠ .parse url) (sound : Sound b)
    (run : op.apply.run b = .ok () b') : Sound b' := by
  cases op with
  | scheme scheme =>
    cases run
    unfold setScheme
    split
    · exact ⟨sound.port,sound.segments,sound.names⟩
    · split <;> exact ⟨sound.port,sound.segments,sound.names⟩
  | host host =>
    simp only [Op.apply,setHost] at run
    split at run
    · cases run
      exact sound
    · cases run
  | port port =>
    cases run
    exact sound_setPort sound port
  | addEncodedPathSegment pathSegment =>
    cases run
    exact sound_addEncodedPathSegment sound pathSegment
  | addEncodedPathSegments pathSegment =>
    cases run
    rw [addEncodedPathSegments_eq]
    exact sound_foldl sound _
  | setEncodedPathSegment index pathSegment =>
    cases run
    exact sound_setEncodedPathSegment sound index pathSegment
  | removePathSegment index =>
    cases run
    unfold Builder.removePathSegment
    split
    · exact sound
    · exact sound_segments sound (fun s member => sound.segments s (List.mem_of_mem_eraseIdx member))
  | addEncodedQueryParameter name value =>
    cases run
    exact sound_edit sound (.add name value)
  | removeEncodedQueryValue name value =>
    cases run
    exact sound_edit sound (.removeValue name value)
  | removeEncodedQueryParameter name =>
    cases run
    exact sound_edit sound (.remove name)
  | addEncodedFragment fragment =>
    cases run
    unfold Builder.addEncodedFragment
    split <;> exact ⟨sound.port,sound.segments,sound.names⟩
  | parse url => exact absurd rfl (other url)

/-- The text in the place of the port, when `Parse` gets that far and finds one. -/
def portText (url : Text) : Option Text :=
  if url.length ≤ 7 then none
  else
    (schemeOf (before ':' (trim url))).bind (fun scheme =>
      let hostPath := hostPathOf scheme (trim url)
      if (trim url).length < scheme.length + 3 ∨ hostPath = [] ∨ between ':' '/' hostPath = [] then none
      else some (between ':' '/' hostPath))

/-- A number that may be stored as a port: one, or the mark that none is set. -/
def IsPort (number : Int) : Prop := number = -1 ∨ 1 ≤ number ∧ number ≤ 65535

instance (number : Int) : Decidable (IsPort number) := inferInstanceAs (Decidable (_ ∨ _))

/-- The number in the place of the port, as `atoi` reads it, may be stored. -/
def PortFits (url : Text) : Prop := ∀ port ∈ portText url, IsPort (signedNumber (port.dropWhile isSpace))

theorem toInt_port (port : Int32) : port = -1 ∨ 1 ≤ port.toInt ∧ port.toInt ≤ 65535 ↔ IsPort port.toInt := by
  have minus : port = -1 ↔ port.toInt = -1 := Int32.toInt_inj.symm
  rw [minus,IsPort]

/-- `atoi` gives such a number exactly when one stands there. -/
theorem atoi_isPort (s : Text) :
    (∃ port, atoi s = .ok port ∧ IsPort port.toInt) ↔ IsPort (signedNumber (s.dropWhile isSpace)) := by
  unfold atoi
  simp only
  generalize signedNumber (s.dropWhile isSpace) = number
  by_cases fits : -2 ^ 31 ≤ number ∧ number < 2 ^ 31
  · have value : (Int32.ofInt number).toInt = number := Int32.toInt_ofInt_of_le fits.1 fits.2
    rw [if_pos fits]
    constructor
    · rintro ⟨port,read,stored⟩
      cases read
      rwa [value] at stored
    · intro stored
      exact ⟨_,rfl,by rwa [value]⟩
  · rw [if_neg fits]
    constructor
    · rintro ⟨port,read,-⟩
      cases read
    · intro stored
      unfold IsPort at stored
      omega

theorem isPort_defaultPort {s scheme : Text} (known : schemeOf s = some scheme) :
    IsPort (defaultPort scheme).toInt := by
  rcases schemeOf_known known with rfl | rfl <;> decide

/-- What `Parse` stores of an accepted text is sound up to its port. -/
theorem sound_stored_iff (scheme url : Text) (port : Int32) :
    Sound (stored scheme url port) ↔ IsPort port.toInt := by
  rw [← toInt_port]
  constructor
  · exact Sound.port
  · intro fits
    refine ⟨fits,fun segment member => (mem_normalized member).2,names_iff.mpr ⟨full_paramsOf _,?_⟩⟩
    rintro ⟨name,value⟩ held
    exact (mem_pairs_paramsOf.mp (Multimap.mem_pairs.mpr held)).1

/-! ### Runs -/

/-- The steps of a builder: any operation but `Host` that does not throw. After
    undefined behaviour there is no builder. -/
def step : Option Builder → Op → Option (Option Builder)
  | none, _ => none
  | some _, .host _ => none
  | some b, op =>
    match op.apply.run b with
    | .ok _ b' => some (some b')
    | .error .undefined _ => some none
    | .error .exception _ => none

/-- There is a builder, and it is sound. -/
def SoundState (s : Option Builder) : Prop := ∃ b, s = some b ∧ Sound b

theorem soundState_some (b : Builder) : SoundState (some b) ↔ Sound b := by
  constructor
  · rintro ⟨_,same,sound⟩
    cases same
    exact sound
  · exact fun sound => ⟨b,rfl,sound⟩

theorem not_soundState_none : ¬ SoundState none := by
  rintro ⟨b,same,-⟩
  cases same

theorem step_parse_ok {url : Text} {b b' : Builder} {accepted : Bool} (run : (parse url).run b = .ok accepted b') :
    step (some b) (.parse url) = some (some b') := by
  simp only [step,Op.apply,EStateM.run_bind,run]
  rfl

theorem step_parse_error {url : Text} {b b' : Builder} {fault : Fault} (run : (parse url).run b = .error fault b') :
    step (some b) (.parse url) = if fault = .undefined then some none else none := by
  simp only [step,Op.apply,EStateM.run_bind,run]
  cases fault <;> rfl

/-- The operations besides `Host` and `Parse` return. -/
theorem apply_returns {op : Op} (host : ∀ name, op ≠ .host name) (parse : ∀ url, op ≠ .parse url) (b : Builder) :
    ∃ b', op.apply.run b = .ok () b' := by
  cases op with
  | host name => exact absurd rfl (host name)
  | parse url => exact absurd rfl (parse url)
  | _ => exact ⟨_,rfl⟩

theorem portFits_of_none {url : Text} (none : portText url = none) : PortFits url := by
  intro port found
  rw [none] at found
  cases found

/-- A text that is read up to its port. -/
theorem soundState_parts_iff {url scheme : Text} {b : Builder} {t : Option Builder} (long : ¬ url.length ≤ 7)
    (known : schemeOf (before ':' (trim url)) = some scheme) (fits : ¬ (trim url).length < scheme.length + 3)
    (given : hostPathOf scheme (trim url) ≠ []) (taken : step (some b) (.parse url) = some t) :
    SoundState t ↔ PortFits url := by
  have run := run_parse url b
  rw [outcome,if_neg long,known,Option.elim_some,partsOutcome,if_neg fits,if_neg given] at run
  by_cases named : between ':' '/' (hostPathOf scheme (trim url)) = []
  · -- Without a text in its place the port is that of the scheme.
    have standard : portOf scheme (between ':' '/' (hostPathOf scheme (trim url))) = .ok (defaultPort scheme) := by
      rw [named]
      rfl
    have nothing : portText url = none := by
      rw [portText,if_neg long,known,Option.bind_some,if_pos (.inr (.inr named))]
    rw [standard] at run
    rw [step_parse_ok run] at taken
    cases taken
    rw [soundState_some,sound_stored_iff]
    exact iff_of_true (isPort_defaultPort known) (portFits_of_none nothing)
  · have number : portOf scheme (between ':' '/' (hostPathOf scheme (trim url))) =
        atoi (between ':' '/' (hostPathOf scheme (trim url))) :=
      if_neg (fun empty => named (List.isEmpty_iff.mp empty))
    have found : portText url = some (between ':' '/' (hostPathOf scheme (trim url))) := by
      rw [portText,if_neg long,known,Option.bind_some,if_neg (by simp [fits,given,named])]
    have fitting : PortFits url ↔
        ∃ port, atoi (between ':' '/' (hostPathOf scheme (trim url))) = .ok port ∧ IsPort port.toInt := by
      rw [PortFits,found,atoi_isPort]
      simp
    rw [number] at run
    rw [fitting]
    cases read : atoi (between ':' '/' (hostPathOf scheme (trim url))) with
    | ok port =>
      rw [read] at run
      rw [step_parse_ok run] at taken
      cases taken
      rw [soundState_some,sound_stored_iff]
      simp
    | error fault =>
      rw [read] at run
      rw [step_parse_error run] at taken
      split at taken
      · cases taken
        exact iff_of_false not_soundState_none (by simp)
      · cases taken

/-- What `Parse` makes of a sound builder. -/
theorem soundState_parse_iff {url : Text} {b : Builder} {t : Option Builder} (sound : Sound b)
    (taken : step (some b) (.parse url) = some t) : SoundState t ↔ PortFits url := by
  have run := run_parse url b
  by_cases short : url.length ≤ 7
  · rw [outcome,if_pos short] at run
    rw [step_parse_ok run] at taken
    cases taken
    rw [soundState_some]
    exact iff_of_true sound (portFits_of_none (if_pos short))
  cases known : schemeOf (before ':' (trim url)) with
  | none =>
    have nothing : portText url = none := by rw [portText,if_neg short,known,Option.bind_none]
    rw [outcome,if_neg short,known,Option.elim_none] at run
    rw [step_parse_ok run] at taken
    cases taken
    rw [soundState_some]
    exact iff_of_true sound_new (portFits_of_none nothing)
  | some scheme =>
    by_cases cut : (trim url).length < scheme.length + 3
    · -- A text that ends within the slashes makes `substr` throw.
      rw [outcome,if_neg short,known,Option.elim_some,partsOutcome,if_pos cut] at run
      rw [step_parse_error run] at taken
      cases taken
    · by_cases bare : hostPathOf scheme (trim url) = []
      · have nothing : portText url = none := by
          rw [portText,if_neg short,known,Option.bind_some,if_pos (.inr (.inl bare))]
        rw [outcome,if_neg short,known,Option.elim_some,partsOutcome,if_neg cut,if_pos bare] at run
        rw [step_parse_ok run] at taken
        cases taken
        rw [soundState_some]
        exact iff_of_true ⟨.inl rfl,sound_new.segments,sound_new.names⟩ (portFits_of_none nothing)
      · exact soundState_parts_iff short known cut bare taken

theorem soundState_step_iff {s t : Option Builder} {op : Op} (sound : SoundState s) (taken : step s op = some t) :
    SoundState t ↔ ∀ url, op = .parse url → PortFits url := by
  obtain ⟨b,rfl,sound⟩ := sound
  by_cases parsing : ∃ url, op = .parse url
  · obtain ⟨url,rfl⟩ := parsing
    rw [soundState_parse_iff sound taken]
    constructor
    · rintro fits _ ⟨⟩
      exact fits
    · exact fun fits => fits url rfl
  · have other : ∀ url, op ≠ .parse url := fun url same => parsing ⟨url,same⟩
    refine iff_of_true ?_ (fun url same => absurd same (other url))
    have host : ∀ name, op ≠ .host name := by
      rintro name rfl
      cases taken
    obtain ⟨b',run⟩ := apply_returns host other b
    have next : step (some b) op = some (some b') := by
      cases op with
      | host name => exact absurd rfl (host name)
      | _ => simp only [step,run]
    rw [next] at taken
    cases taken
    exact (soundState_some b').mpr (sound_apply other sound run)

/-- In a run of operations the builder stays sound exactly when no text that is
    parsed has another number in the place of its port. -/
theorem sound_iff (ops : List Op) :
    Run.Always step SoundState (some {}) ops ↔
      Run.Guarded step (fun _ op => ∀ url, op = .parse url → PortFits url) (some {}) ops :=
  Run.always_iff_guarded (Q := fun _ => True) (fun _ _ _ _ _ _ _ => trivial)
    (fun _ _ _ _ sound taken => soundState_step_iff sound taken) trivial ⟨{},rfl,sound_new⟩ ops

/-- The port of this text is stored as it stands. -/
theorem sound_fails :
    (parse (lit "http://a:0")).run {} = .ok true (stored (lit "http") (lit "http://a:0") 0) ∧
      ¬ Run.Always step SoundState (some {}) [.parse (lit "http://a:0")] := by
  have run : (parse (lit "http://a:0")).run {} = .ok true (stored (lit "http") (lit "http://a:0") 0) := rfl
  refine ⟨run,fun always => ?_⟩
  have last := (always.2 _ (step_parse_ok run)).first
  rw [soundState_some,sound_stored_iff] at last
  revert last
  decide

end LicodeClient.HttpUrl
