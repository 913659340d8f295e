import LicodeClient.Lib.Scan
import LicodeClient.Json

/-!
A printer for JSON values, compact as `json::dump` prints them. The printer of
the library is a parameter of the model; what results about texts ask of it is
`Nlohmann.Prints`, and `Json.print` shows that a printer can do this.
-/
namespace LicodeClient
namespace Json

/-! ### Values as the library compares them -/

mutual

/-- The value with each integer by its value: `operator==` of the library does
    not tell the two representations of an integer apart. -/
def normal : Json → Json
  | .unsigned n => .float n.toNat 0
  | .integer i => .float i.toInt 0
  | .array xs => .array (normalElements xs)
  | .object members => .object (normalMembers members)
  | json => json

def normalElements : List Json → List Json
  | [] => []
  | x :: rest => normal x :: normalElements rest

def normalMembers : List (Text × Json) → List (Text × Json)
  | [] => []
  | (key,x) :: rest => (key,normal x) :: normalMembers rest

end

/-- Keys in the order of a map. -/
def increasing : List Text → Bool
  | first :: second :: rest => decide (first < second) && increasing (second :: rest)
  | _ => true

mutual

/-- The value has no floating-point number in it, and its objects are maps. -/
def plain : Json → Bool
  | .float _ _ => false
  | .array xs => plainElements xs
  | .object members => increasing (members.map Prod.fst) && plainMembers members
  | _ => true

def plainElements : List Json → Bool
  | [] => true
  | x :: rest => plain x && plainElements rest

def plainMembers : List (Text × Json) → Bool
  | [] => true
  | (_,x) :: rest => plain x && plainMembers rest

end

end Json

/-- What the texts of frames rest on: two values without floating-point numbers
    that print alike are equal to the library, and the text of an array begins
    with its bracket. -/
structure Nlohmann.Prints (nl : Nlohmann) : Prop where
  normal_eq : ∀ a b : Json, a.plain = true → b.plain = true → nl.dump a = nl.dump b → a.normal = b.normal
  array : ∀ xs, ∃ rest, nl.dump (.array xs) = '[' :: rest

namespace Json

/-! ### Strings -/

def hexDigit (n : Nat) : Char := (lit "0123456789abcdef").getD n '0'
def hexValue (c : Char) : Nat := (lit "0123456789abcdef").idxOf c

/-- A character as it stands in a string. -/
def escape (c : Char) : Text :=
  if c = '"' then ['\\','"']
  else if c = '\\' then ['\\','\\']
  else if c = '\x08' then ['\\','b']
  else if c = '\t' then ['\\','t']
  else if c = '\n' then ['\\','n']
  else if c = '\x0c' then ['\\','f']
  else if c = '\r' then ['\\','r']
  else if c.toNat < 32 then ['\\','u','0','0',hexDigit (c.toNat / 16),hexDigit (c.toNat % 16)]
  else [c]

/-- The character that a letter after a backslash stands for. -/
def named : Char → Char
  | 'b' => '\x08'
  | 't' => '\t'
  | 'n' => '\n'
  | 'f' => '\x0c'
  | 'r' => '\r'
  | c => c

/-- The first character of a string's text, and what follows it. -/
def unescape : Text → Option (Char × Text)
  | '\\' :: 'u' :: '0' :: '0' :: high :: low :: rest => some (Char.ofNat (hexValue high * 16 + hexValue low),rest)
  | '\\' :: c :: rest => some (named c,rest)
  | c :: rest => some (c,rest)
  | [] => none

theorem hexValue_hexDigit : ∀ n < 16, hexValue (hexDigit n) = n := by decide

theorem unescape_escape (c : Char) (s : Text) : unescape (escape c ++ s) = some (c,s) := by
  by_cases special : c ∈ ['"','\\','\x08','\t','\n','\x0c','\r']
  · simp only [List.mem_cons,List.not_mem_nil,or_false] at special
    rcases special with rfl | rfl | rfl | rfl | rfl | rfl | rfl <;> rfl
  · simp only [List.mem_cons,List.not_mem_nil,or_false,not_or] at special
    obtain ⟨quote,backslash,b,t,n,f,r⟩ := special
    by_cases control : c.toNat < 32
    · have high := hexValue_hexDigit (c.toNat / 16) (by omega)
      have low := hexValue_hexDigit (c.toNat % 16) (by omega)
      have whole : c.toNat / 16 * 16 + c.toNat % 16 = c.toNat := by omega
      simp [escape,quote,backslash,b,t,n,f,r,control,unescape,high,low,whole]
    · simp [escape,quote,backslash,b,t,n,f,r,control,unescape]

/-- A string between its quotes. -/
def quoted (s : Text) : Text := '"' :: (s.flatMap escape ++ ['"'])

theorem escape_ne_quote {c : Char} {s t : Text} : escape c ++ s ≠ '"' :: t := by
  intro same
  have read := unescape_escape c s
  rw [same] at read
  obtain ⟨rfl,-⟩ := Prod.mk.inj (Option.some.inj read)
  cases same

theorem escapes_inj {a b s t : Text} (same : a.flatMap escape ++ '"' :: s = b.flatMap escape ++ '"' :: t) :
    a = b ∧ s = t := by
  induction a generalizing b with
  | nil =>
    cases b with
    | nil => exact ⟨rfl,(List.cons.inj same).2⟩
    | cons d b =>
      rw [List.flatMap_cons,List.append_assoc] at same
      exact absurd same.symm escape_ne_quote
  | cons c a ih =>
    cases b with
    | nil =>
      rw [List.flatMap_cons,List.append_assoc] at same
      exact absurd same escape_ne_quote
    | cons d b =>
      rw [List.flatMap_cons,List.append_assoc,List.flatMap_cons,List.append_assoc] at same
      have read := unescape_escape c (a.flatMap escape ++ '"' :: s)
      rw [same,unescape_escape] at read
      obtain ⟨rfl,rest⟩ := Prod.mk.inj (Option.some.inj read)
      obtain ⟨rfl,rfl⟩ := ih rest.symm
      exact ⟨rfl,rfl⟩

theorem quoted_inj {a b s t : Text} (same : quoted a ++ s = quoted b ++ t) : a = b ∧ s = t := by
  simp only [quoted,List.cons_append,List.append_assoc,List.nil_append,List.cons.injEq,true_and] at same
  exact escapes_inj same

/-! ### Numbers -/

/-- What follows a number does not begin with a digit. -/
abbrev Ends (s : Text) : Prop := Scan.Stops Char.isDigit s

abbrev digits (n : Nat) : Text := Nat.toDigits 10 n

def decimal : Int → Text
  | .ofNat n => digits n
  | .negSucc n => '-' :: digits (n + 1)

theorem isDigit_of_mem_digits {n : Nat} {c : Char} (member : c ∈ digits n) : c.isDigit = true :=
  Nat.isDigit_of_mem_toDigits (by omega) (by omega) member

theorem digits_inj {m n : Nat} {s t : Text} (ends : Ends s) (ends' : Ends t) (same : digits m ++ s = digits n ++ t) :
    m = n ∧ s = t := by
  obtain ⟨cut,rest⟩ := Scan.append_inj (fun _ => isDigit_of_mem_digits) (fun _ => isDigit_of_mem_digits) ends ends' same
  refine ⟨?_,rest⟩
  calc
    m = Nat.ofDigitChars 10 (digits m) 0 := Nat.ofDigitChars_ten_toDigits.symm
    _ = Nat.ofDigitChars 10 (digits n) 0 := by rw [cut]
    _ = n := Nat.ofDigitChars_ten_toDigits

theorem head_digits (n : Nat) : ∃ c rest, digits n = c :: rest ∧ c.isDigit = true := by
  obtain ⟨c,rest,whole⟩ := List.exists_cons_of_ne_nil (Nat.toDigits_ne_nil (b := 10) (n := n))
  refine ⟨c,rest,whole,isDigit_of_mem_digits (n := n) ?_⟩
  rw [digits,whole]
  exact List.mem_cons_self

theorem digits_ne_minus {n : Nat} {s t : Text} : digits n ++ s ≠ '-' :: t := by
  intro same
  obtain ⟨c,rest,whole,digit⟩ := head_digits n
  rw [whole] at same
  obtain ⟨rfl,-⟩ := List.cons.inj same
  cases digit

theorem decimal_inj {m n : Int} {s t : Text} (ends : Ends s) (ends' : Ends t)
    (same : decimal m ++ s = decimal n ++ t) : m = n ∧ s = t := by
  cases m with
  | ofNat m =>
    cases n with
    | ofNat n =>
      obtain ⟨rfl,rest⟩ := digits_inj ends ends' same
      exact ⟨rfl,rest⟩
    | negSucc n => exact absurd same digits_ne_minus
  | negSucc m =>
    cases n with
    | ofNat n => exact absurd same.symm digits_ne_minus
    | negSucc n =>
      obtain ⟨next,rest⟩ := digits_inj ends ends' (List.cons.inj same).2
      obtain rfl := Nat.succ.inj next
      exact ⟨rfl,rest⟩

/-! ### Values -/

mutual

/-- The compact text of a value. The client prints no floating-point number and
    none is printed here. -/
def print : Json → Text
  | .null => lit "null"
  | .boolean b => if b then lit "true" else lit "false"
  | .unsigned n => decimal n.toNat
  | .integer i => decimal i.toInt
  | .float _ _ => []
  | .string s => quoted s
  | .array [] => ['[',']']
  | .array (x :: rest) => '[' :: (print x ++ printElements rest)
  | .object [] => ['{','}']
  | .object ((key,x) :: rest) => '{' :: (quoted key ++ ':' :: (print x ++ printMembers rest))

/-- The further elements of an array and its closing bracket. -/
def printElements : List Json → Text
  | [] => [']']
  | x :: rest => ',' :: (print x ++ printElements rest)

/-- The further members of an object and its closing brace. -/
def printMembers : List (Text × Json) → Text
  | [] => ['}']
  | (key,x) :: rest => ',' :: (quoted key ++ ':' :: (print x ++ printMembers rest))

end

/-- The kinds of values that their first character tells apart. -/
inductive Kind where
  | word
  | number
  | string
  | array
  | object
  deriving DecidableEq

def kind : Json → Kind
  | .null | .boolean _ => .word
  | .unsigned _ | .integer _ | .float _ _ => .number
  | .string _ => .string
  | .array _ => .array
  | .object _ => .object

/-- The kind of value that begins with a character. -/
def begins (c : Char) : Option Kind :=
  if c.isDigit ∨ c = '-' then some .number
  else if c ∈ ['n','t','f'] then some .word
  else if c = '"' then some .string
  else if c = '[' then some .array
  else if c = '{' then some .object
  else none

theorem head_decimal (n : Int) : ∃ c rest, decimal n = c :: rest ∧ begins c = some .number := by
  cases n with
  | ofNat n =>
    obtain ⟨c,rest,whole,digit⟩ := head_digits n
    exact ⟨c,rest,whole,by simp [begins,digit]⟩
  | negSucc n => exact ⟨'-',_,rfl,rfl⟩

theorem head_print {a : Json} (plain : a.plain = true) : ∃ c rest, a.print = c :: rest ∧ begins c = some a.kind := by
  cases a with
  | null => exact ⟨'n',_,rfl,by decide⟩
  | boolean b => cases b <;> exact ⟨_,_,rfl,by decide⟩
  | unsigned n => exact head_decimal n.toNat
  | integer i => exact head_decimal i.toInt
  | float m e => cases plain
  | string s => exact ⟨'"',_,rfl,rfl⟩
  | array xs => cases xs <;> exact ⟨'[',_,rfl,rfl⟩
  | object members => rcases members with _ | ⟨⟨key,x⟩,rest⟩ <;> exact ⟨'{',_,rfl,rfl⟩

/-- Values that print alike are of one kind. -/
theorem kind_eq {a b : Json} {s t : Text} (plain : a.plain = true) (plain' : b.plain = true)
    (same : a.print ++ s = b.print ++ t) : a.kind = b.kind := by
  obtain ⟨c,rest,whole,begin⟩ := head_print plain
  obtain ⟨d,rest',whole',begin'⟩ := head_print plain'
  rw [whole,whole'] at same
  obtain ⟨rfl,-⟩ := List.cons.inj same
  exact Option.some.inj (begin.symm.trans begin')

/-- A value does not begin with a character that no value begins with. -/
theorem print_ne_cons {a : Json} {c : Char} {s t : Text} (plain : a.plain = true) (none : begins c = none) :
    a.print ++ s ≠ c :: t := by
  intro same
  obtain ⟨d,rest,whole,begin⟩ := head_print plain
  rw [whole] at same
  obtain ⟨rfl,-⟩ := List.cons.inj same
  rw [none] at begin
  cases begin

theorem number_of_kind {a : Json} (plain : a.plain = true) (kind : a.kind = .number) :
    ∃ n, a.print = decimal n ∧ a.normal = .float n 0 := by
  cases a with
  | unsigned n => exact ⟨n.toNat,rfl,rfl⟩
  | integer i => exact ⟨i.toInt,rfl,rfl⟩
  | float m e => cases plain
  | _ => cases kind

theorem number_inj {a b : Json} {s t : Text} (plain : a.plain = true) (plain' : b.plain = true)
    (kind : a.kind = .number) (kind' : b.kind = .number) (ends : Ends s) (ends' : Ends t)
    (same : a.print ++ s = b.print ++ t) : a.normal = b.normal ∧ s = t := by
  obtain ⟨m,print,normal⟩ := number_of_kind plain kind
  obtain ⟨n,print',normal'⟩ := number_of_kind plain' kind'
  rw [print,print'] at same
  obtain ⟨rfl,rest⟩ := decimal_inj ends ends' same
  exact ⟨normal.trans normal'.symm,rest⟩

theorem word_inj {a b : Json} {s t : Text} (kind : a.kind = .word) (kind' : b.kind = .word)
    (same : a.print ++ s = b.print ++ t) : a.normal = b.normal ∧ s = t := by
  have words : ∀ {c : Json}, c.kind = .word → c = .null ∨ c = .boolean true ∨ c = .boolean false := by
    intro c kind
    cases c with
    | null => exact .inl rfl
    | boolean b => cases b <;> simp
    | _ => cases kind
  rcases words kind with rfl | rfl | rfl <;> rcases words kind' with rfl | rfl | rfl <;>
    simp_all [print,lit]

theorem ends_elements (xs : List Json) (s : Text) : Ends (printElements xs ++ s) := by
  cases xs <;> exact Scan.stops_cons rfl _

theorem ends_members (xs : List (Text × Json)) (s : Text) : Ends (printMembers xs ++ s) := by
  rcases xs with _ | ⟨⟨key,x⟩,rest⟩ <;> exact Scan.stops_cons rfl _

/-- Behind its bracket an array is either closed or goes on as after a comma. -/
theorem print_array {xs ys : List Json} {s t : Text} (plain : plainElements xs = true)
    (plain' : plainElements ys = true) (same : print (.array xs) ++ s = print (.array ys) ++ t) :
    printElements xs ++ s = printElements ys ++ t := by
  cases xs with
  | nil =>
    cases ys with
    | nil => exact (List.cons.inj same).2
    | cons y ys =>
      have first := (Bool.and_eq_true_iff.mp plain').1
      simp only [print,List.cons_append,List.append_assoc,List.cons.injEq,true_and] at same
      exact absurd same.symm (print_ne_cons first rfl)
  | cons x xs =>
    cases ys with
    | nil =>
      have first := (Bool.and_eq_true_iff.mp plain).1
      simp only [print,List.cons_append,List.append_assoc,List.cons.injEq,true_and] at same
      exact absurd same (print_ne_cons first rfl)
    | cons y ys => exact congrArg (',' :: ·) (List.cons.inj same).2

theorem print_object {xs ys : List (Text × Json)} {s t : Text}
    (same : print (.object xs) ++ s = print (.object ys) ++ t) : printMembers xs ++ s = printMembers ys ++ t := by
  rcases xs with _ | ⟨⟨key,x⟩,xs⟩
  · rcases ys with _ | ⟨⟨key',y⟩,ys⟩
    · exact (List.cons.inj same).2
    · cases (List.cons.inj same).2
  · rcases ys with _ | ⟨⟨key',y⟩,ys⟩
    · cases (List.cons.inj same).2
    · exact congrArg (',' :: ·) (List.cons.inj same).2

mutual

/-- The text of a value can be read off the front of a longer text, up to the
    representation of integers. -/
theorem print_inj {a b : Json} {s t : Text} (plain : a.plain = true) (plain' : b.plain = true) (ends : Ends s)
    (ends' : Ends t) (same : a.print ++ s = b.print ++ t) : a.normal = b.normal ∧ s = t := by
  have kinds := kind_eq plain plain' same
  cases a with
  | null => exact word_inj rfl kinds.symm same
  | boolean x => exact word_inj rfl kinds.symm same
  | unsigned m => exact number_inj plain plain' rfl kinds.symm ends ends' same
  | integer i => exact number_inj plain plain' rfl kinds.symm ends ends' same
  | float m e => cases plain
  | string x =>
    cases b with
    | string y =>
      obtain ⟨rfl,rest⟩ := quoted_inj same
      exact ⟨rfl,rest⟩
    | _ => cases kinds
  | array xs =>
    cases b with
    | array ys =>
      obtain ⟨elements,rest⟩ := printElements_inj plain plain' (print_array plain plain' same)
      exact ⟨by rw [normal,normal,elements],rest⟩
    | _ => cases kinds
  | object xs =>
    cases b with
    | object ys =>
      obtain ⟨members,rest⟩ := printMembers_inj (Bool.and_eq_true_iff.mp plain).2 (Bool.and_eq_true_iff.mp plain').2
        (print_object same)
      exact ⟨by rw [normal,normal,members],rest⟩
    | _ => cases kinds

theorem printElements_inj {xs ys : List Json} {s t : Text} (plain : plainElements xs = true)
    (plain' : plainElements ys = true) (same : printElements xs ++ s = printElements ys ++ t) :
    normalElements xs = normalElements ys ∧ s = t := by
  cases xs with
  | nil =>
    cases ys with
    | nil => exact ⟨rfl,(List.cons.inj same).2⟩
    | cons y ys => cases same
  | cons x xs =>
    cases ys with
    | nil => cases same
    | cons y ys =>
      obtain ⟨first,others⟩ := Bool.and_eq_true_iff.mp plain
      obtain ⟨first',others'⟩ := Bool.and_eq_true_iff.mp plain'
      simp only [printElements,List.cons_append,List.append_assoc,List.cons.injEq,true_and] at same
      obtain ⟨head,rest⟩ := print_inj first first' (ends_elements xs s) (ends_elements ys t) same
      obtain ⟨tail,behind⟩ := printElements_inj others others' rest
      exact ⟨by rw [normalElements,normalElements,head,tail],behind⟩

theorem printMembers_inj {xs ys : List (Text × Json)} {s t : Text} (plain : plainMembers xs = true)
    (plain' : plainMembers ys = true) (same : printMembers xs ++ s = printMembers ys ++ t) :
    normalMembers xs = normalMembers ys ∧ s = t := by
  rcases xs with _ | ⟨⟨key,x⟩,xs⟩
  · rcases ys with _ | ⟨⟨key',y⟩,ys⟩
    · exact ⟨rfl,(List.cons.inj same).2⟩
    · cases same
  · rcases ys with _ | ⟨⟨key',y⟩,ys⟩
    · cases same
    · obtain ⟨first,others⟩ := Bool.and_eq_true_iff.mp plain
      obtain ⟨first',others'⟩ := Bool.and_eq_true_iff.mp plain'
      simp only [printMembers,List.cons_append,List.append_assoc,List.cons.injEq,true_and] at same
      obtain ⟨rfl,behind⟩ := quoted_inj same
      obtain ⟨head,rest⟩ := print_inj first first' (ends_members xs s) (ends_members ys t) (List.cons.inj behind).2
      obtain ⟨tail,after⟩ := printMembers_inj others others' rest
      exact ⟨by rw [normalMembers,normalMembers,head,tail],after⟩

end

end Json

/-- A printer with a parser that knows some texts. -/
def printing (known : List (Text × Json)) : Nlohmann :=
  ⟨fun text => (known.find? (fun entry => entry.1 = text)).map Prod.snd,Json.print⟩

/-- The library on a few values and their texts. -/
def library (values : List Json) : Nlohmann := printing (values.map (fun json => (json.print,json)))

theorem parse_library (json : Json) : (library [json]).parse json.print = some json := by
  simp [library,printing]

theorem prints_printing (known : List (Text × Json)) : (printing known).Prints where
  normal_eq := by
    intro a b plain plain' same
    have whole : a.print ++ [] = b.print ++ [] := by rw [List.append_nil,List.append_nil]; exact same
    exact (Json.print_inj plain plain' (by intro c head; cases head) (by intro c head; cases head) whole).1
  array := by
    intro xs
    cases xs <;> exact ⟨_,rfl⟩

end LicodeClient
