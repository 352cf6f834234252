import Cookpit.Lib.Bytes

/-!
# json11

The JSON library the core parses every answer with: `Json::parse` with the
standard strategy, and the accessors, which never fail: a missing key or a
value of another type reads as null, zero, an empty string or an empty array.

The parser of the source walks an index over the input; here it is handed the
input from that index on. Its error text is only ever tested for being empty,
and it is empty exactly when the parse succeeds, so a failed parse is `none`.
-/

namespace Json11

open ByteString

/-- `double` and what the code does with it. Rounding, `errno` on underflow
and the cast of a number outside `int` differ between the platforms the core is
built for; every statement holds for all of them. -/
class Floats where
  Double : Type
  strtod : Bytes → Double
  toInt : Double → Int32
  stod : Bytes → Except Thrown Double

/-- Doubles cut to their integer part: a platform on which numbers without a
fraction are exact. -/
@[reducible] def integerFloats : Floats where
  Double := Int
  strtod literal := ((stoi literal).toOption).getD 0
  toInt := Int32.ofInt
  stod := stoi

inductive Json
  | null
  | int (value : Int)
  /-- A number kept as the text `strtod` is given. -/
  | double (literal : Bytes)
  | bool (value : Bool)
  | string (value : Bytes)
  | array (values : List Json)
  | object (values : List (Bytes × Json))

-- ---------------------------------------------------------------------------
-- Accessors
-- ---------------------------------------------------------------------------

def Json.intValue [Floats] : Json → Int
  | .int value => value
  | .double literal => (Floats.toInt (Floats.strtod literal)).toInt
  | _ => 0

def Json.stringValue : Json → Bytes
  | .string value => value
  | _ => []

def Json.arrayItems : Json → List Json
  | .array values => values
  | _ => []

def Json.get (json : Json) (key : String) : Json :=
  match json with
  | .object values => ((values.find? (·.1 = lit key)).map Prod.snd).getD .null
  | _ => .null

/-- `data[key] = value`: the last of two equal keys wins. -/
def assign (data : List (Bytes × Json)) (key : Bytes) (value : Json) : List (Bytes × Json) :=
  data.filter (·.1 ≠ key) ++ [(key, value)]

-- ---------------------------------------------------------------------------
-- Tokens
-- ---------------------------------------------------------------------------

/-- `str[i]`: the byte at the current position, NUL at the end. -/
def peek (str : Bytes) : UInt8 := str.headD 0

def consumeWhitespace : Bytes → Bytes
  | [] => []
  | c :: rest =>
    if c = 32 ∨ c = 13 ∨ c = 10 ∨ c = 9 then consumeWhitespace rest else c :: rest

def getNextToken (str : Bytes) : Option (UInt8 × Bytes) :=
  match consumeWhitespace str with
  | [] => none
  | c :: rest => some (c, rest)

/-- `expect`: the byte already read, then the rest of the literal. -/
def expect (expected : String) (res : Json) (str : Bytes) : Option (Json × Bytes) :=
  if lit expected <+: str then some (res, str.drop (lit expected).length) else none

-- ---------------------------------------------------------------------------
-- Strings
-- ---------------------------------------------------------------------------

/-- `encode_utf8`; `none` is the code point `-1` that stands for no escape. -/
def encodeUtf8 : Option Nat → Bytes
  | none => []
  | some pt =>
    if pt < 0x80 then [pt.toUInt8]
    else if pt < 0x800 then [(pt / 0x40 + 0xC0).toUInt8, (pt % 0x40 + 0x80).toUInt8]
    else if pt < 0x10000 then
      [(pt / 0x1000 + 0xE0).toUInt8, (pt / 0x40 % 0x40 + 0x80).toUInt8, (pt % 0x40 + 0x80).toUInt8]
    else
      [(pt / 0x40000 + 0xF0).toUInt8, (pt / 0x1000 % 0x40 + 0x80).toUInt8,
        (pt / 0x40 % 0x40 + 0x80).toUInt8, (pt % 0x40 + 0x80).toUInt8]

def hexValue (c : UInt8) : Option Nat :=
  if chr 'a' ≤ c ∧ c ≤ chr 'f' then some (c.toNat - (chr 'a').toNat + 10)
  else if chr 'A' ≤ c ∧ c ≤ chr 'F' then some (c.toNat - (chr 'A').toNat + 10)
  else if isDigit c then some (c.toNat - (chr '0').toNat)
  else none

def hexCode (a b c d : UInt8) : Option Nat := do
  return (((← hexValue a) * 16 + (← hexValue b)) * 16 + (← hexValue c)) * 16 + (← hexValue d)

def unescape (c : UInt8) : Option UInt8 :=
  if c = chr 'b' then some 8
  else if c = chr 'f' then some 12
  else if c = chr 'n' then some 10
  else if c = chr 'r' then some 13
  else if c = chr 't' then some 9
  else if c = chr '"' ∨ c = chr '\\' ∨ c = chr '/' then some c
  else none

/-- The text a `\u` escape adds and the escape left pending: a trailing surrogate
completes a leading one, anything else flushes what was pending. -/
def escaped (last : Option Nat) (codepoint : Nat) : Bytes × Option Nat :=
  match last with
  | some high =>
    if (0xD800 ≤ high ∧ high ≤ 0xDBFF) ∧ (0xDC00 ≤ codepoint ∧ codepoint ≤ 0xDFFF) then
      (encodeUtf8 (some ((high - 0xD800) * 0x400 + (codepoint - 0xDC00) + 0x10000)), none)
    else (encodeUtf8 last, some codepoint)
  | none => ([], some codepoint)

/-- `parse_string`, behind the opening quote, with the text read so far. -/
def parseString (last : Option Nat) (out : Bytes) : Bytes → Option (Bytes × Bytes)
  | [] => none
  | ch :: rest =>
    if ch = chr '"' then some (out ++ encodeUtf8 last, rest)
    else if ch ≤ 0x1f then none
    else if ch ≠ chr '\\' then parseString none (out ++ encodeUtf8 last ++ [ch]) rest
    else match rest with
      | [] => none
      | esc :: rest =>
        if esc = chr 'u' then
          match rest with
          | a :: b :: c :: d :: rest =>
            match hexCode a b c d with
            | none => none
            | some codepoint =>
              parseString (escaped last codepoint).2 (out ++ (escaped last codepoint).1) rest
          | _ => none
        else match unescape esc with
          | none => none
          | some c => parseString none (out ++ encodeUtf8 last ++ [c]) rest

-- ---------------------------------------------------------------------------
-- Numbers
-- ---------------------------------------------------------------------------

def digits (str : Bytes) : Option Bytes :=
  if isDigit (peek str) then some (str.dropWhile isDigit) else none

/-- The integer part: a single zero, or digits that do not start with one. -/
def integerPart (str : Bytes) : Option Bytes :=
  if peek str = chr '0' then
    if isDigit (peek (str.drop 1)) then none else some (str.drop 1)
  else digits str

def decimalPart (str : Bytes) : Option Bytes :=
  if peek str = chr '.' then digits (str.drop 1) else some str

def exponentPart (str : Bytes) : Option Bytes :=
  if peek str = chr 'e' ∨ peek str = chr 'E' then
    let str := str.drop 1
    digits (if peek str = chr '+' ∨ peek str = chr '-' then str.drop 1 else str)
  else some str

def atoi (literal : Bytes) : Int :=
  if peek literal = chr '-' then -(digitsValue (literal.drop 1)) else digitsValue literal

def parseNumber (str : Bytes) : Option (Json × Bytes) := do
  let rest ← integerPart (if peek str = chr '-' then str.drop 1 else str)
  let read := str.take (str.length - rest.length)
  -- Nine characters, sign included, always fit an `int`.
  if peek rest ≠ chr '.' ∧ peek rest ≠ chr 'e' ∧ peek rest ≠ chr 'E' ∧ read.length ≤ 9 then
    return (.int (atoi read), rest)
  let rest ← exponentPart (← decimalPart rest)
  return (.double (str.take (str.length - rest.length)), rest)

-- ---------------------------------------------------------------------------
-- Values
-- ---------------------------------------------------------------------------

section Loops
variable (parseJson : Bytes → Option (Json × Bytes))

/-- The loop over the members of an object, at a member's opening quote. Each
round consumes input, so the length of the input bounds the rounds. -/
def parseMembers : Nat → List (Bytes × Json) → Bytes → Option (Json × Bytes)
  | 0, _, _ => none
  | rounds + 1, data, str => do
    let (ch, str) ← getNextToken str
    if ch ≠ chr '"' then none
    else do
      let (key, str) ← parseString none [] str
      let (ch, str) ← getNextToken str
      if ch ≠ chr ':' then none
      else do
        let (value, str) ← parseJson str
        let data := assign data key value
        let (ch, str) ← getNextToken str
        if ch = chr '}' then return (.object data, str)
        else if ch ≠ chr ',' then none
        else parseMembers rounds data str

/-- The loop over the elements of an array, at an element's first byte. -/
def parseElements : Nat → List Json → Bytes → Option (Json × Bytes)
  | 0, _, _ => none
  | rounds + 1, data, str => do
    let (value, str) ← parseJson str
    let data := data ++ [value]
    let (ch, str) ← getNextToken str
    if ch = chr ']' then return (.array data, str)
    else if ch ≠ chr ',' then none
    else parseElements rounds data str

end Loops

def maxDepth : Nat := 200

/-- `parse_json`, with the number of levels `max_depth` still allows. -/
def parseJson : Nat → Bytes → Option (Json × Bytes)
  | 0, _ => none
  | levels + 1, str => do
    let (ch, rest) ← getNextToken str
    if ch = chr '-' ∨ isDigit ch then parseNumber (ch :: rest)
    else if ch = chr 't' then expect "true" (.bool true) (ch :: rest)
    else if ch = chr 'f' then expect "false" (.bool false) (ch :: rest)
    else if ch = chr 'n' then expect "null" .null (ch :: rest)
    else if ch = chr '"' then do
      let (value, rest) ← parseString none [] rest
      return (.string value, rest)
    else if ch = chr '{' then do
      let (ch, after) ← getNextToken rest
      if ch = chr '}' then return (.object [], after)
      else parseMembers (parseJson levels) rest.length [] rest
    else if ch = chr '[' then do
      let (ch, after) ← getNextToken rest
      if ch = chr ']' then return (.array [], after)
      else parseElements (parseJson levels) rest.length [] rest
    else none

/-- `Json::parse`: a value and nothing but whitespace behind it. -/
def parse (input : Bytes) : Option Json := do
  let (result, rest) ← parseJson (maxDepth + 1) input
  if consumeWhitespace rest = [] then return result else none

def parsed (input : Bytes) : Json := (parse input).getD .null

end Json11
