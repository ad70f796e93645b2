/-!
The tokens of a JSON text. `scan` reads one character at a time and refuses a text with a piece
that is no token; which sequences of tokens make a value is not its concern.
-/

namespace SnapshotDeque.Text

inductive JsonToken
  | openObject
  | closeObject
  | openArray
  | closeArray
  | comma
  | colon
  | null
  | bool (b : Bool)
  /-- Carries its value if it is written with digits alone. -/
  | number (n : Option Nat)
  /-- Carries its characters unless it holds half a surrogate pair, which no character stands
  for. -/
  | string (s : Option (List Char))
deriving DecidableEq

namespace JsonToken

def isBlank (c : Char) : Bool := c = ' ' || c = '\t' || c = '\n' || c = '\r'

def ofPunctuation? (c : Char) : Option JsonToken :=
  match c with
  | '\x7b' => some openObject
  | '\x7d' => some closeObject
  | '[' => some openArray
  | ']' => some closeArray
  | ',' => some comma
  | ':' => some colon
  | _ => none

def digitsValue (cs : List Char) : Nat :=
  cs.foldl (fun n c => 10 * n + (c.toNat - '0'.toNat)) 0

def allDigits (cs : List Char) : Bool := !cs.isEmpty && cs.all Char.isDigit

/-- An exponent, or nothing. -/
def isExponent (cs : List Char) : Bool :=
  match cs with
  | [] => true
  | e :: '+' :: ds => (e = 'e' || e = 'E') && allDigits ds
  | e :: '-' :: ds => (e = 'e' || e = 'E') && allDigits ds
  | e :: ds => (e = 'e' || e = 'E') && allDigits ds

/-- What may follow the whole part of a number. -/
def isFraction (cs : List Char) : Bool :=
  match cs with
  | '.' :: r => !(r.takeWhile Char.isDigit).isEmpty && isExponent (r.dropWhile Char.isDigit)
  | r => isExponent r

/-- The whole part has no leading zero; a sign, a fraction or an exponent keeps the number from
being written with digits alone. -/
def ofNumber? (word : List Char) : Option JsonToken :=
  let body := if word.head? = some '-' then word.tail else word
  let whole := body.takeWhile Char.isDigit
  let rest := body.dropWhile Char.isDigit
  if whole.isEmpty || (whole.head? = some '0' && whole.length ≠ 1) || !isFraction rest then none
  else if word = whole then some (number (some (digitsValue whole)))
  else some (number none)

def ofWord? (word : List Char) : Option JsonToken :=
  if word = ['n', 'u', 'l', 'l'] then some null
  else if word = ['t', 'r', 'u', 'e'] then some (bool true)
  else if word = ['f', 'a', 'l', 's', 'e'] then some (bool false)
  else ofNumber? word

/-- A piece of a string: a character, or a 16-bit unit given by its number. -/
inductive Piece
  | char (c : Char)
  | unit (n : Nat)

/-- Two units that form a surrogate pair are one character. -/
def Piece.join : List Piece → Option (List Char)
  | [] => some []
  | .char c :: r => (join r).map (c :: ·)
  | .unit n :: .unit m :: r =>
    if 0xD800 ≤ n ∧ n < 0xDC00 then
      if 0xDC00 ≤ m ∧ m < 0xE000 then
        (join r).map (Char.ofNat (0x10000 + (n - 0xD800) * 0x400 + (m - 0xDC00)) :: ·)
      else none
    else if 0xDC00 ≤ n ∧ n < 0xE000 then none
    else (join (.unit m :: r)).map (Char.ofNat n :: ·)
  | .unit n :: r => if 0xD800 ≤ n ∧ n < 0xE000 then none else (join r).map (Char.ofNat n :: ·)

/-- The character that a backslash and `c` stand for. -/
def escaped? (c : Char) : Option Char :=
  match c with
  | '"' => some '"'
  | '\\' => some '\\'
  | '/' => some '/'
  | 'b' => some '\x08'
  | 'f' => some '\x0c'
  | 'n' => some '\n'
  | 'r' => some '\r'
  | 't' => some '\t'
  | _ => none

def hexValue? (c : Char) : Option Nat :=
  if c.isDigit then some (c.toNat - '0'.toNat)
  else if 'a' ≤ c ∧ c ≤ 'f' then some (c.toNat - 'a'.toNat + 10)
  else if 'A' ≤ c ∧ c ≤ 'F' then some (c.toNat - 'A'.toNat + 10)
  else none

/-- Where the scanner stands; what it has read of an unfinished token is kept newest first. -/
inductive Scan
  | between
  | word (read : List Char)
  | string (read : List Piece)
  | escape (read : List Piece)
  | hex (read : List Piece) (left value : Nat)

def scanFrom : Scan → List Char → Option (List JsonToken)
  | .between, [] => some []
  | .word w, [] => (ofWord? w.reverse).map ([·])
  | _, [] => none
  | .between, c :: cs =>
    if isBlank c then scanFrom .between cs
    else if c = '"' then scanFrom (.string []) cs
    else match ofPunctuation? c with
      | some t => (scanFrom .between cs).map (t :: ·)
      | none => scanFrom (.word [c]) cs
  | .word w, c :: cs =>
    if isBlank c then do
      let t ← ofWord? w.reverse
      return t :: (← scanFrom .between cs)
    else match ofPunctuation? c with
      | some p => do
        let t ← ofWord? w.reverse
        return t :: p :: (← scanFrom .between cs)
      | none => scanFrom (.word (c :: w)) cs
  | .string read, c :: cs =>
    if c = '"' then (scanFrom .between cs).map (.string (Piece.join read.reverse) :: ·)
    else if c = '\\' then scanFrom (.escape read) cs
    else if c.toNat < 32 then none
    else scanFrom (.string (.char c :: read)) cs
  | .escape read, c :: cs =>
    if c = 'u' then scanFrom (.hex read 3 0) cs
    else match escaped? c with
      | some d => scanFrom (.string (.char d :: read)) cs
      | none => none
  | .hex read left value, c :: cs =>
    match hexValue? c with
    | none => none
    | some d =>
      match left with
      | 0 => scanFrom (.string (.unit (16 * value + d) :: read)) cs
      | left + 1 => scanFrom (.hex read left (16 * value + d)) cs

def scan (s : String) : Option (List JsonToken) := scanFrom .between s.toList

end JsonToken

end SnapshotDeque.Text
