import SnapshotDeque.Text.JsonToken

/-!
JSON values, as far as the readers of this library look at them: of a number, whether it is a plain
natural one. A text is accepted if its tokens form one value and nothing follows.
-/

namespace SnapshotDeque.Text

inductive Json
  | null
  | bool (b : Bool)
  | number (n : Option Nat)
  | string (s : Option (List Char))
  | array (elements : List Json)
  | object (members : List (Option (List Char) × Json))

namespace Json

/-- An array or object that is not closed yet; what it holds so far is kept newest first. -/
inductive Frame
  | array (done : List Json)
  | object (done : List (Option (List Char) × Json))
  | member (done : List (Option (List Char) × Json)) (key : Option (List Char))

inductive Expected
  | value
  | valueOrClose
  | key
  | keyOrClose
  | colon
  | commaOrClose
  | nothing (v : Json)

abbrev Progress := Expected × List Frame

/-- Puts a finished value where it belongs. -/
def place (v : Json) : List Frame → Option Progress
  | [] => some (.nothing v, [])
  | .array done :: s => some (.commaOrClose, .array (v :: done) :: s)
  | .member done key :: s => some (.commaOrClose, .object ((key, v) :: done) :: s)
  | .object _ :: _ => none

def openValue (t : JsonToken) (s : List Frame) : Option Progress :=
  match t with
  | .null => place .null s
  | .bool b => place (.bool b) s
  | .number n => place (.number n) s
  | .string cs => place (.string cs) s
  | .openArray => some (.valueOrClose, .array [] :: s)
  | .openObject => some (.keyOrClose, .object [] :: s)
  | _ => none

def step : Progress → JsonToken → Option Progress
  | (.valueOrClose, .array [] :: s), .closeArray => place (.array []) s
  | (.valueOrClose, s), t => openValue t s
  | (.value, s), t => openValue t s
  | (.keyOrClose, .object [] :: s), .closeObject => place (.object []) s
  | (.keyOrClose, .object done :: s), .string key => some (.colon, .member done key :: s)
  | (.key, .object done :: s), .string key => some (.colon, .member done key :: s)
  | (.colon, s), .colon => some (.value, s)
  | (.commaOrClose, .array done :: s), .comma => some (.value, .array done :: s)
  | (.commaOrClose, .object done :: s), .comma => some (.key, .object done :: s)
  | (.commaOrClose, .array done :: s), .closeArray => place (.array done.reverse) s
  | (.commaOrClose, .object done :: s), .closeObject => place (.object done.reverse) s
  | _, _ => none

def ofTokens? (ts : List JsonToken) : Option Json :=
  match ts.foldlM step (.value, []) with
  | some (.nothing v, _) => some v
  | _ => none

def parse? (s : String) : Option Json := (JsonToken.scan s).bind ofTokens?

/-- A record with the named fields: either an array that gives them in order and may stop early,
or an object that gives each at most once, in any order and among others. -/
def fields? (names : List String) : Json → Option (List (Option Json))
  | .array vs =>
    if vs.length ≤ names.length then some (names.zipIdx.map fun (_, i) => vs[i]?) else none
  | .object members =>
    if members.all (·.1.isSome) then
      names.mapM fun name =>
        match members.filter (·.1 == some name.toList) with
        | [] => some none
        | [(_, v)] => some (some v)
        | _ => none
    else none
  | _ => none

/-- A natural number up to `limit`. -/
def nat? (limit : Nat) : Json → Option Nat
  | .number (some n) => if n ≤ limit then some n else none
  | _ => none

def bool? : Json → Option Bool
  | .bool b => some b
  | _ => none

def string? : Json → Option String
  | .string (some cs) => some (String.ofList cs)
  | _ => none

end Json

end SnapshotDeque.Text
