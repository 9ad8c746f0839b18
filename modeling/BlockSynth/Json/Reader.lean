import BlockSynth.Json.Value

/-! # Reading documents

The reader takes characters from the front of a text and answers with a value and the rest. It
accepts exactly the JSON grammar; how deep values nest, how large their numbers are and whether
their strings are well-formed is for the one who looks at them. Reading a piece of text fails with a
breach; reading a value does not fail, but leaves no rest if there is a breach in the value.
-/
namespace BlockSynth.Json.Grammar

-- Sums of numbers start from the zero of the core library, whatever else is imported.
attribute [local instance (high)] Zero.ofOfNat0

def isSpace (c : Char) : Bool :=
  c == ' ' || c == '\n' || c == '\t' || c == '\r'

def skipSpace (text : List Char) : List Char :=
  text.dropWhile isSpace

/-- The defect of a text that should go on differently. -/
def defectAt : List Char → Defect
  | [] => .cutShort
  | _ => .malformed

def breachAt (text : List Char) : Breach :=
  .always (defectAt text)

/-- The rest of a text after the given characters. -/
def expect : List Char → List Char → Except Breach (List Char)
  | [], rest => .ok rest
  | c :: word, d :: rest => if c = d then expect word rest else .error (.always .malformed)
  | _, [] => .error (.always .cutShort)

def hexValue (c : Char) : Option Nat :=
  if c.isDigit then some (c.toNat - '0'.toNat)
  else if 'a' ≤ c ∧ c ≤ 'f' then some (c.toNat - 'a'.toNat + 10)
  else if 'A' ≤ c ∧ c ≤ 'F' then some (c.toNat - 'A'.toNat + 10)
  else none

/-- The value of hexadecimal digits. -/
def hexNumber (chars : List Char) : Option Nat :=
  chars.foldlM (fun value c => (hexValue c).map (16 * value + ·)) 0

def byteCount (chars : List Char) : Nat :=
  (chars.map Char.utf8Size).sum

/-- The code unit after `\u`. Its four digits are taken together: a text with fewer than four bytes
left is cut short, whatever they are. -/
def codeUnit (text : List Char) : Except Defect (Nat × List Char) :=
  let digits := text.take 4
  if byteCount digits < 4 then .error .cutShort
  else match hexNumber digits with
    | some unit => .ok (unit, text.drop 4)
    | none => .error .malformed

def isLeading (unit : Nat) : Bool :=
  0xd800 ≤ unit && unit < 0xdc00

def isTrailing (unit : Nat) : Bool :=
  0xdc00 ≤ unit && unit < 0xe000

/-- The character after `\u`: one unit, or two that make up a pair. A unit that is half of a pair
stands for no character. -/
def unicodeEscape (text : List Char) : Except Defect ((Option Char) × List Char) := do
  let (unit, rest) ← codeUnit text
  if isLeading unit then
    match rest with
    | '\\' :: 'u' :: more =>
      let (second, after) ← codeUnit more
      if isTrailing second then
        return (some (Char.ofNat (0x10000 + (unit - 0xd800) * 0x400 + (second - 0xdc00))), after)
      else return (none, rest)
    | [] => throw .cutShort
    | ['\\'] => throw .cutShort
    | _ => return (none, rest)
  else if isTrailing unit then return (none, rest)
  else return (some (Char.ofNat unit), rest)

/-- The character after a backslash. -/
def escaped : List Char → Except Defect ((Option Char) × List Char)
  | [] => .error .cutShort
  | '"' :: rest => .ok (some '"', rest)
  | '\\' :: rest => .ok (some '\\', rest)
  | '/' :: rest => .ok (some '/', rest)
  | 'b' :: rest => .ok (some '\x08', rest)
  | 'f' :: rest => .ok (some '\x0c', rest)
  | 'n' :: rest => .ok (some '\n', rest)
  | 'r' :: rest => .ok (some '\r', rest)
  | 't' :: rest => .ok (some '\t', rest)
  | 'u' :: rest => unicodeEscape rest
  | _ => .error .malformed

/-- The breach in a string: to one who looks at it, an unpaired surrogate before is as bad. -/
def stringBreach (done : Option (List Char)) (defect : Defect) : Breach :=
  { looking := if done.isNone then .malformed else defect, passing := defect }

/-- The characters of a string up to its closing quote, last one first in `done`. -/
def stringBody (done : Option (List Char)) : Nat → List Char → Except Breach (JsonText × List Char)
  | 0, _ => .error (stringBreach done .cutShort)
  | _, [] => .error (stringBreach done .cutShort)
  | fuel + 1, c :: rest =>
    if c = '"' then .ok (done.map fun chars => String.ofList chars.reverse, rest)
    else if c = '\\' then
      match escaped rest with
      | .ok (char?, rest) => stringBody (do return (← char?) :: (← done)) fuel rest
      | .error defect => .error (stringBreach done defect)
    else if c.toNat < 0x20 then .error (stringBreach done .malformed)
    else stringBody (done.map (c :: ·)) fuel rest

/-- The contents of a string whose opening quote has been read. -/
def string (text : List Char) : Except Breach (JsonText × List Char) :=
  stringBody (some []) (text.length + 1) text

/-- The breach where a digit is missing. One who passes over a number does not notice
that the text may end there. -/
def digitBreach (text : List Char) : Breach :=
  { looking := defectAt text, passing := .malformed }

/-- At least one digit. -/
def digits (text : List Char) : Except Breach ((List Char) × List Char) :=
  match Chars.spanDigits text with
  | ([], rest) => .error (digitBreach rest)
  | found => .ok found

def exponent : List Char → Except Breach ((Option Int) × List Char)
  | mark :: rest =>
    if mark = 'e' ∨ mark = 'E' then do
      let (negative, rest) := Chars.splitAnySign rest
      let (found, rest) ← digits rest
      let value : Int := Chars.natOfDigits found
      return (some (if negative then -value else value), rest)
    else .ok (none, mark :: rest)
  | [] => .ok (none, [])

def fraction : List Char → Except Breach ((Option (List Char)) × List Char)
  | '.' :: rest => do
    let (found, rest) ← digits rest
    return (some found, rest)
  | rest => .ok (none, rest)

/-- A number without its sign. Its whole part has no superfluous zero in front. -/
def number (negative : Bool) (text : List Char) : Except Breach (Json × List Char) := do
  let (whole, rest) ← digits text
  if whole.length > 1 && whole.head? == some '0' then throw (.always .malformed)
  let (fraction?, rest) ← fraction rest
  let (exponent?, rest) ← exponent rest
  let value := Decimal.ofParts negative whole (fraction?.getD []) (exponent?.getD 0)
  return (.number value (fraction?.isNone && exponent?.isNone), rest)

/-- A value that is no container. -/
def scalar : List Char → Except Breach (Json × List Char)
  | 'n' :: rest => do return (.null, ← expect "ull".toList rest)
  | 't' :: rest => do return (.bool true, ← expect "rue".toList rest)
  | 'f' :: rest => do return (.bool false, ← expect "alse".toList rest)
  | '"' :: rest => do
    let (contents, rest) ← string rest
    return (.text contents, rest)
  | '-' :: rest => number true rest
  | c :: rest => if c.isDigit then number false (c :: rest) else .error (.always .malformed)
  | [] => .error (.always .cutShort)

/-- The name of a member. -/
def memberName : List Char → Except Breach (JsonText × List Char)
  | '"' :: rest => string rest
  | rest => .error (breachAt rest)

mutual

def value : Nat → List Char → Json × Option (List Char)
  | 0, _ => (.broken (.always .cutShort), none)
  | fuel + 1, chars =>
    match skipSpace chars with
    | '[' :: rest =>
      match skipSpace rest with
      | ']' :: rest => (.array [] none, some rest)
      | [] => (.array [] (some (.always .cutShort)), none)
      | rest =>
        match itemsFrom fuel rest with
        | (items, .ok rest) => (.array items none, some rest)
        | (items, .error breach) => (.array items (some breach), none)
    | '\x7b' :: rest =>
      match skipSpace rest with
      | '\x7d' :: rest => (.object [] none, some rest)
      | rest =>
        match membersFrom fuel rest with
        | (members, .ok rest) => (.object members none, some rest)
        | (members, .error breach) => (.object members (some breach), none)
    | rest =>
      match scalar rest with
      | .ok (found, rest) => (found, some rest)
      | .error breach => (.broken breach, none)

/-- The items of an array from one of them on, and its closing bracket. -/
def itemsFrom : Nat → List Char → List Json × Except Breach (List Char)
  | 0, _ => ([], .error (.always .cutShort))
  | fuel + 1, chars =>
    match value fuel chars with
    | (item, none) => ([item], .error (.always .cutShort))
    | (item, some rest) =>
      match skipSpace rest with
      | ']' :: rest => ([item], .ok rest)
      | ',' :: rest =>
        let (items, rest?) := itemsFrom fuel rest
        (item :: items, rest?)
      | rest => ([item], .error (breachAt rest))

/-- The members of an object from one of them on, and its closing brace. A member
without a colon has a breach for its value. -/
def membersFrom : Nat → List Char → List (JsonText × Json) × Except Breach (List Char)
  | 0, _ => ([], .error (.always .cutShort))
  | fuel + 1, chars =>
    match memberName (skipSpace chars) with
    | .error breach => ([], .error breach)
    | .ok (name, rest) =>
      match expect [':'] (skipSpace rest) with
      | .error breach => ([(name, .broken breach)], .error breach)
      | .ok rest =>
        match value fuel rest with
        | (item, none) => ([(name, item)], .error (.always .cutShort))
        | (item, some rest) =>
          match skipSpace rest with
          | '\x7d' :: rest => ([(name, item)], .ok rest)
          | ',' :: rest =>
            let (members, rest?) := membersFrom fuel rest
            ((name, item) :: members, rest?)
          | rest => ([(name, item)], .error (breachAt rest))

end

end Grammar

/-- Read a whole text. Each step of the reader takes a character or goes one level down in front of
one, so twice the length of the text is steps enough. -/
def read (text : String) : Document :=
  let chars := text.toList
  match Grammar.value (2 * chars.length + 2) chars with
  | (value, some rest) => { value, trailing := !(Grammar.skipSpace rest).isEmpty }
  | (value, none) => { value }

end BlockSynth.Json
