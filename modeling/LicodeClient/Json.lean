import LicodeClient.Lib.Decode
import Mathlib.Algebra.Ring.Int.Defs

/-!
The values of `nlohmann::json` as the client uses them: what `operator[]`,
`value`, the implicit conversions and a loop over a value do, each with the
faults it can end in. The library itself is not part of the sources: its parser
and printer are parameters (`Nlohmann`), and the accessors follow its
documentation.
-/
namespace LicodeClient

/-- Texts of messages, names and identifiers. -/
abbrev Text := List Char

/-- The characters of a literal. -/
abbrev lit (s : String) : Text := s.toList

/-- How a C++ statement can fail to complete: it throws a `std::exception`, or
    its behaviour is undefined (a null pointer or an empty queue is used, a
    precondition of a library call is broken). -/
inductive Fault where
  | exception
  | undefined
  deriving DecidableEq, Repr

/-- JSON values. Numbers keep the three representations of the library; a
    floating-point number is `mantissa * 2 ^ exponent`. The members of an object
    stand in the order of their keys, as its map iterates them. -/
inductive Json where
  | null
  | boolean (b : Bool)
  | unsigned (n : UInt64)
  | integer (i : Int64)
  | float (mantissa exponent : Int)
  | string (s : Text)
  | array (xs : List Json)
  | object (members : List (Text × Json))

/-- The parser and the printer of the library. The parser throws on a text that
    is no JSON. -/
structure Nlohmann where
  parse : Text → Option Json
  dump : Json → Text

/-- `nlohmann::json::parse`. -/
def Nlohmann.parseOrThrow (nl : Nlohmann) (text : Text) : Except Fault Json :=
  match nl.parse text with
  | some json => .ok json
  | none => .error .exception

namespace Json

/-- The member of an object under a key. -/
def find (members : List (Text × Json)) (key : Text) : Option Json :=
  (members.find? (fun member => member.1 = key)).map Prod.snd

theorem find_cons (name key : Text) (json : Json) (rest : List (Text × Json)) :
    find ((name,json) :: rest) key = if name = key then some json else find rest key := by
  by_cases here : name = key <;> simp [find,here]

/-- `json[i]` on a value that may be changed: null becomes an array and an array
    grows to hold the index, with null elements. -/
def index (json : Json) (i : Nat) : Except Fault Json :=
  match json with
  | .null => .ok .null
  | .array xs => .ok (xs.getD i .null)
  | _ => .error .exception

/-- `json[i]` on a constant: reading past the end of an array is undefined. -/
def indexConst (json : Json) (i : Nat) : Except Fault Json :=
  match json with
  | .array xs =>
    match xs[i]? with
    | some x => .ok x
    | none => .error .undefined
  | _ => .error .exception

/-- `json["key"]` on a value that may be changed: null becomes an object and a
    missing member is added as null. -/
def member (json : Json) (key : String) : Except Fault Json :=
  match json with
  | .null => .ok .null
  | .object members => .ok ((find members (lit key)).getD .null)
  | _ => .error .exception

/-- `json["key"]` on a constant: a missing member breaks the precondition. -/
def memberConst (json : Json) (key : String) : Except Fault Json :=
  match json with
  | .object members =>
    match find members (lit key) with
    | some x => .ok x
    | none => .error .undefined
  | _ => .error .exception

/-- `json.contains("key")`. -/
def contains (json : Json) (key : String) : Bool :=
  match json with
  | .object members => (find members (lit key)).isSome
  | _ => false

/-- `json == "text"`. -/
def isText (json : Json) (text : String) : Bool :=
  match json with
  | .string s => s = lit text
  | _ => false

/-- Conversion to `std::string`. -/
def toText : Json → Except Fault Text
  | .string s => .ok s
  | _ => .error .exception

theorem toText_eq_ok_iff {json : Json} {s : Text} : json.toText = .ok s ↔ json = .string s := by
  cases json <;> simp [toText]

/-- Conversion to `bool`. -/
def toBool : Json → Except Fault Bool
  | .boolean b => .ok b
  | _ => .error .exception

theorem toBool_eq_ok_iff {json : Json} {b : Bool} : json.toBool = .ok b ↔ json = .boolean b := by
  cases json <;> simp [toBool]

/-- A floating-point number cut off to an integer. -/
def truncate (mantissa exponent : Int) : Int :=
  if 0 ≤ exponent then mantissa * 2 ^ exponent.toNat else mantissa.tdiv (2 ^ (-exponent).toNat)

/-- The cast of a truncated number to `uint64_t`. The language leaves the result
    open where the number does not fit; this is what the conversion of x86-64
    gives. It returns in every case. -/
def castUInt64 (x : Int) : UInt64 :=
  if -2 ^ 63 ≤ x ∧ x < 2 ^ 64 then UInt64.ofInt x else if x < 0 then 0x8000000000000000 else 0

/-- The cast of a truncated number to `int`, in the same way. -/
def castInt32 (x : Int) : Int32 :=
  if -2 ^ 31 ≤ x ∧ x < 2 ^ 31 then Int32.ofInt x else Int32.minValue

/-- Conversion to `uint64_t`, which is the library's own unsigned type: any
    number is cast to it, a boolean is not a number. -/
def toUInt64 : Json → Except Fault UInt64
  | .unsigned n => .ok n
  | .integer i => .ok i.toUInt64
  | .float m e => .ok (castUInt64 (truncate m e))
  | _ => .error .exception

/-- Conversion to `int` or `int32_t`: any number or boolean is cast to it. -/
def toInt32 : Json → Except Fault Int32
  | .unsigned n => .ok n.toUInt32.toInt32
  | .integer i => .ok i.toInt32
  | .float m e => .ok (castInt32 (truncate m e))
  | .boolean b => .ok (if b then 1 else 0)
  | _ => .error .exception

/-- `json.value<T>("key", default)`, with the conversion to `T`. -/
def value {α : Type} (convert : Json → Except Fault α) (json : Json) (key : String) (default : α) : Except Fault α :=
  match json with
  | .object members =>
    match find members (lit key) with
    | some x => convert x
    | none => .ok default
  | _ => .error .exception

/-- What `for (const auto& x : json)` meets: the elements of an array, the
    members of an object, nothing in null and any other value itself. -/
def elements : Json → List Json
  | .null => []
  | .array xs => xs
  | .object members => members.map Prod.snd
  | other => [other]

/-! ### Readings that throw at most -/

open Decode

theorem avoids_parseOrThrow (nl : Nlohmann) (text : Text) : Avoids .undefined (nl.parseOrThrow text) := by
  unfold Nlohmann.parseOrThrow
  split
  · exact avoids_ok _
  · exact avoids_error (by decide)

theorem avoids_toText (json : Json) : Avoids .undefined json.toText := by
  cases json with
  | string s => exact avoids_ok s
  | _ => exact avoids_error (by decide)

theorem avoids_toBool (json : Json) : Avoids .undefined json.toBool := by
  cases json with
  | boolean b => exact avoids_ok b
  | _ => exact avoids_error (by decide)

theorem avoids_toUInt64 (json : Json) : Avoids .undefined json.toUInt64 := by
  cases json with
  | unsigned n => exact avoids_ok n
  | integer i => exact avoids_ok _
  | float m e => exact avoids_ok _
  | _ => exact avoids_error (by decide)

theorem avoids_toInt32 (json : Json) : Avoids .undefined json.toInt32 := by
  cases json with
  | unsigned n => exact avoids_ok _
  | integer i => exact avoids_ok _
  | float m e => exact avoids_ok _
  | boolean b => exact avoids_ok _
  | _ => exact avoids_error (by decide)

theorem avoids_index (json : Json) (i : Nat) : Avoids .undefined (json.index i) := by
  cases json with
  | null => exact avoids_ok _
  | array xs => exact avoids_ok _
  | _ => exact avoids_error (by decide)

theorem avoids_member (json : Json) (key : String) : Avoids .undefined (json.member key) := by
  cases json with
  | null => exact avoids_ok _
  | object members => exact avoids_ok _
  | _ => exact avoids_error (by decide)

theorem avoids_value {α : Type} {convert : Json → Except Fault α} (converts : ∀ x, Avoids .undefined (convert x))
    (json : Json) (key : String) (default : α) : Avoids .undefined (json.value convert key default) := by
  cases json with
  | object members =>
    simp only [value]
    cases find members (lit key) with
    | some x => exact converts x
    | none => exact avoids_ok default
  | _ => exact avoids_error (by decide)

end Json
end LicodeClient
