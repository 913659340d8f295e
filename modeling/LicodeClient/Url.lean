import LicodeClient.Lib.Multimap
import LicodeClient.Lib.Positions
import LicodeClient.Printer
import Mathlib.Data.List.DropRight

/-!
`HttpUrl::Builder`: a url as its parts, printed by `ToString` and read back by
`Parse`. A character stands for one `char` of the source. The parser finds each
delimiter by a search of its own over a text that still holds the other parts,
and cuts with `substr`, which throws when it starts past the end; the parts that
it has stored by then stay stored.
-/
namespace LicodeClient

/-- `std::string::substr` outside of a builder. -/
def substrOf (s : Text) (pos : Nat) (count : Option Nat) : Except Fault Text :=
  match Positions.substr s pos count with
  | some t => .ok t
  | none => .error .exception

end LicodeClient

namespace LicodeClient.HttpUrl
open MonadExcept (ofExcept)
open Positions (find next minus)

/-- `std::map<std::string, std::set<std::string>>`. -/
abbrev Query := Multimap Text Text

structure Builder where
  scheme : Text := []
  host : Text := []
  port : Int32 := -1
  encodedPathSegments : List Text := []
  encodedQueryNamesAndValues : Query := ∅
  encodedFragment : Text := []
  deriving DecidableEq

/-- `HttpUrl::DefaultPort`. -/
def defaultPort (scheme : Text) : Int32 :=
  if scheme = lit "http" then 80
  else if scheme = lit "https" then 443
  else -1

namespace Builder

/-- `HttpUrl::Builder::Clear`. -/
def clear (_ : Builder) : Builder := {}

/-- `HttpUrl::Builder::Pop`. -/
def pop (b : Builder) : Builder := { b with encodedPathSegments := b.encodedPathSegments.dropLast }

/-- `HttpUrl::Builder::Push`. -/
def push (segment : Text) (b : Builder) : Builder :=
  if segment.isEmpty then b
  else if segment = lit "." then b
  else if segment = lit ".." then b.pop
  else { b with encodedPathSegments := b.encodedPathSegments ++ [segment] }

/-- `HttpUrl::Builder::AddEncodedPathSegments`. The token iterator leaves out an
    empty last piece; the loop skips every empty piece. -/
def addEncodedPathSegments (pathSegment : Text) (b : Builder) : Builder :=
  if pathSegment.isEmpty then b
  else (pathSegment.splitOn '/').foldl (fun b it => if it.isEmpty then b else b.push it) b

/-- `HttpUrl::Builder::AddEncodedQueryParameter`. -/
def addEncodedQueryParameter (name value : Text) (b : Builder) : Builder :=
  if name.isEmpty then b
  else { b with encodedQueryNamesAndValues := b.encodedQueryNamesAndValues.add name value }

/-- `HttpUrl::Builder::AddEncodedFragment`. -/
def addEncodedFragment (fragment : Text) (b : Builder) : Builder :=
  if fragment.isEmpty then b else { b with encodedFragment := fragment }

/-! ### Printing -/

/-- The values of one parameter. The loop counts them to leave out the last
    separator. -/
def renderValues (param : Text) (size : Nat) : Nat → List Text → Text
  | _, [] => []
  | valuesIndex, value :: rest =>
    param ++ '=' :: value ++ (if valuesIndex + 1 < size then ['&'] else []) ++
      renderValues param size (valuesIndex + 1) rest

/-- The parameters. A parameter without values is neither counted nor followed by
    a separator. -/
def renderParams (size : Nat) : Nat → List (Text × Std.ExtTreeSet Text) → Text
  | _, [] => []
  | paramIndex, (param,values) :: rest =>
    if values.isEmpty then param ++ renderParams size paramIndex rest
    else
      renderValues param values.size 0 values.toList ++ (if paramIndex + 1 < size then ['&'] else []) ++
        renderParams size (paramIndex + 1) rest

/-- The query with its mark, nothing when there are no parameters. -/
def renderQuery (query : Query) : Text :=
  if query.isEmpty then [] else '?' :: renderParams query.size 0 query.toList

/-- The fragment with its mark, nothing when it is empty. -/
def renderFragment (fragment : Text) : Text := if fragment.isEmpty then [] else '#' :: fragment

/-- `HttpUrl::Builder::ToString`. -/
def toString (b : Builder) : Text :=
  let host := if ':' ∈ b.host then '[' :: b.host ++ [']'] else b.host
  let port := if b.port = -1 then defaultPort b.scheme else b.port
  b.scheme ++ lit "://" ++ host ++ ':' :: Json.decimal port.toInt ++
    b.encodedPathSegments.flatMap (fun i => '/' :: i) ++ renderQuery b.encodedQueryNamesAndValues ++
    renderFragment b.encodedFragment

/-! ### Parsing -/

/-- Programs on a builder. -/
abbrev Edit := EStateM Fault Builder

/-- `std::string::substr`. -/
def substr (s : Text) (pos : Nat) (count : Option Nat) : Edit Text :=
  match Positions.substr s pos count with
  | some t => pure t
  | none => throw .exception

/-- `isspace`. -/
def isSpace (c : Char) : Bool := c ∈ [' ','\t','\n','\x0b','\x0c','\r']

/-- The number that the digits at the front give. -/
def leadingNumber (s : Text) : Int := Nat.ofDigitChars 10 (s.takeWhile Char.isDigit) 0

/-- The number after an optional sign. -/
def signedNumber : Text → Int
  | '-' :: rest => -leadingNumber rest
  | '+' :: rest => leadingNumber rest
  | s => leadingNumber s

/-- `std::atoi`, which skips blanks and stops at the first character that does not
    belong to the number. A number that is no `int` is undefined behaviour. -/
def atoi (s : Text) : Except Fault Int32 :=
  let i := signedNumber (s.dropWhile isSpace)
  if -2 ^ 31 ≤ i ∧ i < 2 ^ 31 then .ok (Int32.ofInt i) else .error .undefined

/-- The characters that `Parse` trims, in the order of its calls. -/
def trimmed : List Char := [' ','\t','\n','\x0c','\r']

/-- Each of the characters is erased once at the front, then each once at the back. -/
def trim (url : Text) : Text :=
  trimmed.foldl (fun url c => url.rdropWhile (fun a => a = c))
    (trimmed.foldl (fun url c => url.dropWhile (fun a => a = c)) url)

/-- `scheme` in `Parse`; the answer says whether it goes on. -/
def parseScheme (url : Text) : Edit Bool := do
  let scheme ← substr url 0 (find ':' url)
  if scheme.isEmpty then pure false
  else if scheme.map Char.toLower = lit "http" then
    modify fun b => { b with scheme := lit "http" }
    pure true
  else if scheme.map Char.toLower = lit "https" then
    modify fun b => { b with scheme := lit "https" }
    pure true
  else pure false

/-- `host+path` in `Parse`. -/
def parseHostPath (url : Text) : Edit Text := do
  let pathStart := (← get).scheme.length + 3
  let pathEnd := ((find '?' url).or (find '#' url)).getD url.length
  substr url pathStart (minus pathEnd pathStart)

/-- The port of a host that is followed by a colon. -/
def parsePort (hostPath : Text) (portStart : Nat) : Edit Unit := do
  let portS ←
    match find '/' hostPath with
    | none => substr hostPath (portStart + 1) none
    | some portEnd => substr hostPath (portStart + 1) (minus portEnd (portStart + 1))
  if portS.isEmpty then modify fun b => { b with port := defaultPort b.scheme }
  else
    let port ← ofExcept (atoi portS)
    modify fun b => { b with port := port }

/-- `host` in `Parse`. -/
def parseHost (hostPath : Text) : Edit Unit := do
  match find ':' hostPath with
  | none =>
    modify fun b => { b with port := defaultPort b.scheme }
    let host ← substr hostPath 0 (find '/' hostPath)
    modify fun b => { b with host := host }
  | some portStart =>
    let host ← substr hostPath 0 (some portStart)
    modify fun b => { b with host := host }
    parsePort hostPath portStart

/-- `path` in `Parse`. Without a slash the position after `npos` is 0, and the
    path is all of the text. -/
def parsePath (hostPath : Text) : Edit Unit := do
  let path ← substr hostPath (next (find '/' hostPath)) none
  if path.isEmpty then pure () else modify (addEncodedPathSegments path)

/-- One piece of the query. -/
def parseParameter (s : Text) : Edit Unit := do
  if s.isEmpty then pure ()
  else
    match find '=' s with
    | some p =>
      let param ← substr s 0 (some p)
      let value ← substr s (p + 1) none
      modify (addEncodedQueryParameter param value)
    | none => modify (addEncodedQueryParameter s [])

/-- `query` in `Parse`. -/
def parseQuery (url : Text) : Edit Unit := do
  let query ←
    match find '?' url with
    | none => pure []
    | some queryStart =>
      match find '#' url with
      | none => substr url (queryStart + 1) none
      | some fragmentStart => substr url (queryStart + 1) (minus fragmentStart (queryStart + 1))
  if query.isEmpty then pure () else (query.splitOn '&').forM parseParameter

/-- `fragment` in `Parse`. -/
def parseFragment (url : Text) : Edit Unit := do
  match find '#' url with
  | none => pure ()
  | some fragmentStart =>
    let fragment ← substr url (fragmentStart + 1) none
    modify (addEncodedFragment fragment)

/-- The parts of a url whose scheme is known. -/
def parseParts (url : Text) : Edit Bool := do
  let hostPath ← parseHostPath url
  if hostPath.isEmpty then pure false
  else
    parseHost hostPath
    parsePath hostPath
    parseQuery url
    parseFragment url
    pure true

/-- `HttpUrl::Builder::Parse`. -/
def parse (url : Text) : Edit Bool := do
  if url.isEmpty ∨ url.length ≤ 7 then pure false
  else
    modify clear
    if ← parseScheme (trim url) then parseParts (trim url) else pure false

end Builder
end LicodeClient.HttpUrl
