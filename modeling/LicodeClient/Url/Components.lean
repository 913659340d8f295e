import LicodeClient.Url

/-!
A url cut at its marks into scheme, host with path, query and fragment. When the
marks are where they should be, the searches of `Parse` find them, whatever the
later parts hold: `parse_text` says what is left to do then, each step on its own
part.
-/
namespace LicodeClient.HttpUrl
open Positions (find next minus front find_append find_none find_here find_mark substr_append substr_mark minus_add)
open HttpUrl.Builder

/-- The parts of a url between the marks. -/
structure Components where
  scheme : Text
  hostPath : Text
  query : Option Text
  fragment : Option Text

/-- A part with its mark, nothing when the part is absent. -/
def marked (mark : Char) : Option Text → Text
  | none => []
  | some part => mark :: part

/-! ### Any text of a url -/

theorem run_substr {s t : Text} {pos : Nat} {count : Option Nat} (slice : Positions.substr s pos count = some t)
    (b : Builder) : (substr s pos count).run b = .ok t b := by
  rw [substr,slice]
  rfl

/-- The end of a text as `Parse` trims it. -/
def cut (tail : Text) : Text := trimmed.foldl (fun url c => url.rdropWhile (fun a => a = c)) tail

theorem foldl_dropWhile {s : Text} {cs : List Char} (begins : ∀ a ∈ s.head?, a ∉ cs) :
    cs.foldl (fun url c => url.dropWhile (fun a => a = c)) s = s := by
  induction cs with
  | nil => rfl
  | cons c cs ih =>
    have same : s.dropWhile (fun a => a = c) = s := by
      cases s with
      | nil => rfl
      | cons a s =>
        have other : a ≠ c := fun same => begins a rfl (same ▸ List.mem_cons_self)
        simp [other]
    rw [List.foldl_cons,same]
    exact ih (fun a head member => begins a head (List.mem_cons_of_mem _ member))

theorem foldl_rdropWhile_append {cs : List Char} {front : Text} (ends : ∀ a ∈ front.getLast?, a ∉ cs) (tail : Text) :
    cs.foldl (fun url c => url.rdropWhile (fun a => a = c)) (front ++ tail) =
      front ++ cs.foldl (fun url c => url.rdropWhile (fun a => a = c)) tail := by
  induction cs generalizing tail with
  | nil => rfl
  | cons c cs ih =>
    have here : ∀ a ∈ front.getLast?, decide (a = c) = false := by
      intro a last
      exact decide_eq_false (fun same => ends a last (same ▸ List.mem_cons_self))
    rw [List.foldl_cons,List.foldl_cons,Scan.rdropWhile_append here]
    exact ih (fun a last member => ends a last (List.mem_cons_of_mem _ member)) _

theorem cut_front {front : Text} (ends : ∀ a ∈ front.getLast?, a ∉ trimmed) (tail : Text) :
    cut (front ++ tail) = front ++ cut tail := foldl_rdropWhile_append ends tail

theorem cut_self {s : Text} (ends : ∀ a ∈ s.getLast?, a ∉ trimmed) : cut s = s := by
  have whole := cut_front ends []
  rwa [List.append_nil,show cut [] = [] from rfl,List.append_nil] at whole

/-- A url begins with a letter, so that only its end is trimmed. -/
theorem trim_lead {scheme : Text} (known : scheme = lit "http" ∨ scheme = lit "https") (rest : Text) :
    trim (scheme ++ lit "://" ++ rest) = cut (scheme ++ lit "://" ++ rest) := by
  have begins : ∀ a ∈ (scheme ++ lit "://" ++ rest).head?, a ∉ trimmed := by
    intro a head
    have letter : a = 'h' := by
      rcases known with rfl | rfl
      · exact (Option.some.inj head).symm
      · exact (Option.some.inj head).symm
    rw [letter]
    decide
  rw [trim,foldl_dropWhile begins]
  rfl

theorem length_lead {scheme : Text} (known : scheme = lit "http" ∨ scheme = lit "https") (rest : Text) :
    scheme.length + 3 ≤ (scheme ++ lit "://" ++ rest).length ∧
      7 + rest.length ≤ (scheme ++ lit "://" ++ rest).length := by
  have slashes : (lit "://").length = 3 := by decide
  have size : 4 ≤ scheme.length := by
    rcases known with rfl | rfl <;> decide
  simp only [List.length_append,slashes]
  omega

namespace Components
variable {c : Components}

/-- What stands before the query. -/
def lead (c : Components) : Text := c.scheme ++ lit "://" ++ c.hostPath

def text (c : Components) : Text := c.lead ++ marked '?' c.query ++ marked '#' c.fragment

/-- The marks can be found: no part holds a mark that a search meets too early. -/
structure Separate (c : Components) : Prop where
  scheme : c.scheme = lit "http" ∨ c.scheme = lit "https"
  given : c.hostPath ≠ []
  hostPath : '?' ∉ c.hostPath ∧ '#' ∉ c.hostPath
  query : ∀ query, c.query = some query → '#' ∉ query
  fragment : c.query = none → ∀ fragment, c.fragment = some fragment → '?' ∉ fragment

theorem slashes_eq : lit "://" = [':','/','/'] := by decide

theorem not_mem_scheme {scheme : Text} (known : scheme = lit "http" ∨ scheme = lit "https") {mark : Char}
    (member : mark ∈ [':','/','?','#']) : mark ∉ scheme := by
  have http : ∀ mark ∈ [':','/','?','#'], mark ∉ lit "http" := Scan.forall_of_all (by decide)
  have https : ∀ mark ∈ [':','/','?','#'], mark ∉ lit "https" := Scan.forall_of_all (by decide)
  rcases known with rfl | rfl
  · exact http mark member
  · exact https mark member

theorem Separate.not_mem_scheme (separate : Separate c) {mark : Char} (member : mark ∈ [':','/','?','#']) :
    mark ∉ c.scheme := Components.not_mem_scheme separate.scheme member

theorem Separate.not_mem_lead (separate : Separate c) : '?' ∉ c.lead ∧ '#' ∉ c.lead := by
  have query : '?' ∉ c.scheme := separate.not_mem_scheme (by decide)
  have fragment : '#' ∉ c.scheme := separate.not_mem_scheme (by decide)
  simp [lead,slashes_eq,query,fragment,separate.hostPath.1,separate.hostPath.2]

/-! ### Where the searches end -/

theorem find_colon (separate : Separate c) : find ':' c.text = some c.scheme.length := by
  have shape : c.text = c.scheme ++ ':' :: ('/' :: '/' ::
    (c.hostPath ++ marked '?' c.query ++ marked '#' c.fragment)) := by
    simp [text,lead,slashes_eq]
  rw [shape]
  exact find_mark (separate.not_mem_scheme (by decide)) _

theorem find_query (separate : Separate c) : find '?' c.text = c.query.map (fun _ => c.lead.length) := by
  rw [text,List.append_assoc,find_append separate.not_mem_lead.1]
  cases asked : c.query with
  | some query => simp [marked,find_here]
  | none =>
    have absent : '?' ∉ marked '#' c.fragment := by
      cases named : c.fragment with
      | none => simp [marked]
      | some fragment => simp [marked,separate.fragment asked fragment named]
    rw [marked,List.nil_append,find_none absent]
    rfl

theorem find_fragment (separate : Separate c) :
    find '#' c.text = c.fragment.map (fun _ => (c.lead ++ marked '?' c.query).length) := by
  have absent : '#' ∉ c.lead ++ marked '?' c.query := by
    cases asked : c.query with
    | none => simp [marked,separate.not_mem_lead.2]
    | some query => simp [marked,separate.not_mem_lead.2,separate.query query asked]
  rw [text,find_append absent]
  cases c.fragment with
  | none => simp [marked,find]
  | some fragment => simp [marked,find_here]

/-- The end of the host with the path is the first mark, or the end of the text. -/
theorem pathEnd_text (separate : Separate c) :
    ((find '?' c.text).or (find '#' c.text)).getD c.text.length = c.lead.length := by
  rw [find_query separate,find_fragment separate]
  cases asked : c.query with
  | some query => simp
  | none =>
    cases named : c.fragment with
    | some fragment => simp [marked]
    | none => simp [text,asked,named,marked]

/-! ### What the steps read -/

theorem run_parseScheme (separate : Separate c) (b : Builder) :
    (parseScheme c.text).run b = .ok true { b with scheme := c.scheme } := by
  have slice : Positions.substr c.text 0 (find ':' c.text) = some c.scheme := by
    rw [Positions.substr_zero,find_colon separate,text,lead]
    simp only [List.append_assoc]
    rw [Positions.front_append]
  rw [parseScheme,EStateM.run_bind,run_substr slice]
  rcases separate.scheme with known | known
  · rw [known]
    rfl
  · rw [known]
    rfl

theorem run_parseHostPath (separate : Separate c) {b : Builder} (known : b.scheme = c.scheme) :
    (parseHostPath c.text).run b = .ok c.hostPath b := by
  have start : (c.scheme ++ lit "://").length = c.scheme.length + 3 := by simp [slashes_eq]
  have stop : c.lead.length = c.scheme.length + 3 + c.hostPath.length := by rw [lead,List.length_append,start]
  have slice : Positions.substr c.text (c.scheme.length + 3) (minus c.lead.length (c.scheme.length + 3)) =
      some c.hostPath := by
    rw [stop,minus_add,text,lead,List.append_assoc,List.append_assoc,← start,substr_append,Positions.front_append]
  have read := run_substr slice b
  rw [← pathEnd_text separate,← known] at read
  exact read

/-- The part of `Parse` that reads the text of a query. -/
def readQuery (query : Text) : Edit Unit := if query.isEmpty then pure () else (query.splitOn '&').forM parseParameter

theorem run_parseQuery (separate : Separate c) (b : Builder) :
    (parseQuery c.text).run b = (readQuery (c.query.getD [])).run b := by
  rw [parseQuery,find_query separate,find_fragment separate]
  cases asked : c.query with
  | none => rfl
  | some query =>
    cases named : c.fragment with
    | none =>
      have slice : Positions.substr c.text (c.lead.length + 1) none = some query := by
        rw [text,asked,named,marked,marked,List.append_nil,substr_mark,front]
      simp only [Option.map_some,Option.map_none,EStateM.run_bind]
      rw [run_substr slice]
      rfl
    | some fragment =>
      have stop : (c.lead ++ marked '?' (some query)).length = c.lead.length + 1 + query.length := by
        simp only [marked,List.length_append,List.length_cons]
        omega
      have slice : Positions.substr c.text (c.lead.length + 1)
          (minus (c.lead ++ marked '?' (some query)).length (c.lead.length + 1)) = some query := by
        rw [stop,minus_add,text,asked,marked,List.append_assoc,List.cons_append,substr_mark,Positions.front_append]
      simp only [Option.map_some,EStateM.run_bind]
      rw [run_substr slice]
      rfl

theorem run_parseFragment (separate : Separate c) (b : Builder) :
    (parseFragment c.text).run b = .ok () (b.addEncodedFragment (c.fragment.getD [])) := by
  rw [parseFragment,find_fragment separate]
  cases named : c.fragment with
  | none => rfl
  | some fragment =>
    have slice : Positions.substr c.text ((c.lead ++ marked '?' c.query).length + 1) none = some fragment := by
      rw [text,named,marked,substr_mark,front]
    simp only [Option.map_some,EStateM.run_bind]
    rw [run_substr slice]
    rfl

/-! ### The whole text -/

theorem text_eq (c : Components) :
    c.text = c.scheme ++ lit "://" ++ (c.hostPath ++ marked '?' c.query ++ marked '#' c.fragment) := by
  simp [text,lead]

theorem trim_text (separate : Separate c) (ends : ∀ a ∈ c.text.getLast?, a ∉ trimmed) : trim c.text = c.text := by
  rw [text_eq] at ends ⊢
  rw [trim_lead separate.scheme,cut_self ends]

theorem length_text (separate : Separate c) : 7 < c.text.length := by
  have given := List.length_pos_of_ne_nil separate.given
  have long := (length_lead separate.scheme (c.hostPath ++ marked '?' c.query ++ marked '#' c.fragment)).2
  rw [text_eq]
  simp only [List.length_append] at long ⊢
  omega

/-- `Parse` on a text whose marks can be found: every step reads its own part. -/
theorem parse_text (separate : Separate c) (ends : ∀ a ∈ c.text.getLast?, a ∉ trimmed) (prior : Builder) :
    (parse c.text).run prior =
      (do
        parseHost c.hostPath
        parsePath c.hostPath
        readQuery (c.query.getD [])
        modify (addEncodedFragment (c.fragment.getD []))
        pure true : Edit Bool).run { scheme := c.scheme } := by
  have long := length_text separate
  have given : c.hostPath.isEmpty = false := by simpa using separate.given
  have accepted : ¬ (c.text.isEmpty = true ∨ c.text.length ≤ 7) := by
    rintro (empty | short)
    · rw [List.isEmpty_iff.mp empty] at long
      simp at long
    · omega
  rw [parse,if_neg accepted,trim_text separate ends]
  simp only [EStateM.run_bind,EStateM.run_modify,clear,run_parseScheme separate,if_pos]
  rw [parseParts,EStateM.run_bind,run_parseHostPath separate rfl]
  simp only [given,Bool.false_eq_true,if_false,EStateM.run_bind,run_parseQuery separate,run_parseFragment separate]

end Components
/-! ### Numbers -/

/-- A digit is neither a blank nor a sign. -/
theorem word_of_isDigit {c : Char} (digit : c.isDigit = true) : isSpace c = false ∧ c ≠ '-' ∧ c ≠ '+' := by
  have other : ∀ a : Char, a.isDigit = false → c ≠ a := by
    rintro a no rfl
    rw [digit] at no
    cases no
  refine ⟨?_,other '-' (by decide),other '+' (by decide)⟩
  simp only [isSpace,decide_eq_false_iff_not,List.mem_cons,List.not_mem_nil,or_false,not_or]
  exact ⟨other _ (by decide),other _ (by decide),other _ (by decide),other _ (by decide),other _ (by decide),
    other _ (by decide)⟩

theorem signedNumber_word {c : Char} (sign : c ≠ '-' ∧ c ≠ '+') (s : Text) :
    signedNumber (c :: s) = leadingNumber (c :: s) := by
  unfold signedNumber
  split
  · next same => exact absurd (List.cons.inj same).1 sign.1
  · next same => exact absurd (List.cons.inj same).1 sign.2
  · rfl

/-- A printed number is read back, whatever follows that is no digit. -/
theorem atoi_decimal_append (port : Int32) {rest : Text} (stops : Scan.Stops Char.isDigit rest) :
    atoi (Json.decimal port.toInt ++ rest) = .ok port := by
  have range : -2 ^ 31 ≤ port.toInt ∧ port.toInt < 2 ^ 31 := ⟨port.le_toInt,port.toInt_lt⟩
  have digits : ∀ n, leadingNumber (Json.digits n ++ rest) = n := by
    intro n
    rw [leadingNumber,Scan.takeWhile_append (fun _ => Json.isDigit_of_mem_digits) stops]
    exact congrArg Int.ofNat Nat.ofDigitChars_ten_toDigits
  have number : signedNumber ((Json.decimal port.toInt ++ rest).dropWhile isSpace) = port.toInt := by
    cases value : port.toInt with
    | ofNat n =>
      obtain ⟨c,more,whole,digit⟩ := Json.head_digits n
      obtain ⟨word,sign⟩ := word_of_isDigit digit
      have skip : (Json.digits n ++ rest).dropWhile isSpace = Json.digits n ++ rest := by simp [whole,word]
      show signedNumber ((Json.digits n ++ rest).dropWhile isSpace) = n
      rw [skip,← digits n,whole,List.cons_append,signedNumber_word sign]
    | negSucc n =>
      show signedNumber ((('-' :: Json.digits (n + 1)) ++ rest).dropWhile isSpace) = _
      have skip : (('-' :: Json.digits (n + 1)) ++ rest).dropWhile isSpace = '-' :: (Json.digits (n + 1) ++ rest) := rfl
      rw [skip,signedNumber,digits]
      rfl
  rw [atoi,number,if_pos range,Int32.ofInt_toInt]

theorem atoi_decimal (port : Int32) : atoi (Json.decimal port.toInt) = .ok port := by
  have read := atoi_decimal_append port (show Scan.Stops Char.isDigit [] by simp [Scan.Stops])
  rwa [List.append_nil] at read

end LicodeClient.HttpUrl
