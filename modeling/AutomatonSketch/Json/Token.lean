import AutomatonSketch.Json.Number

/-! JSON text as a row of tokens. A machine reads one character at a time; a token that only its
successor ends is handed out with that successor. -/

namespace AutomatonSketch.Json

inductive Token where
  | openObject
  | closeObject
  | openArray
  | closeArray
  | colon
  | comma
  | null
  | bool (b : Bool)
  | number (n : Number)
  | text (s : String)
deriving DecidableEq

namespace Token

/-- Where the machine stands. What has been read of an unfinished token is kept last character
first. -/
inductive State where
  | between
  | word (read : List Char)
  | text (read : List Char)
  | escape (read : List Char)
  | unicode (read : List Char) (high : Option Nat) (digits value : Nat)
  | afterHigh (read : List Char) (high : Nat)
  | escapeAfterHigh (read : List Char) (high : Nat)

/-- The token a word stands for, if it is one. -/
def ofWord? (cs : List Char) : Option Token :=
  if cs = ['n', 'u', 'l', 'l'] then some .null
  else if cs = ['t', 'r', 'u', 'e'] then some (.bool true)
  else if cs = ['f', 'a', 'l', 's', 'e'] then some (.bool false)
  else (Number.ofChars? cs).map .number

/-- The characters that numbers and words are made of. -/
def isWordChar (c : Char) : Bool := c.isAlphanum || c = '+' || c = '-' || c = '.'

/-- A character between tokens. -/
def begin? (c : Char) : Option (List Token × State) :=
  if c = ' ' ∨ c = '\t' ∨ c = '\n' ∨ c = '\r' then some ([], .between)
  else if c = '"' then some ([], .text [])
  else if c = '{' then some ([.openObject], .between)
  else if c = '}' then some ([.closeObject], .between)
  else if c = '[' then some ([.openArray], .between)
  else if c = ']' then some ([.closeArray], .between)
  else if c = ':' then some ([.colon], .between)
  else if c = ',' then some ([.comma], .between)
  else if isWordChar c then some ([], .word [c])
  else none

def escaped? (c : Char) : Option Char :=
  if c = '"' ∨ c = '\\' ∨ c = '/' then some c
  else if c = 'b' then some '\x08'
  else if c = 'f' then some '\x0c'
  else if c = 'n' then some '\n'
  else if c = 'r' then some '\r'
  else if c = 't' then some '\t'
  else none

def hexValue? (c : Char) : Option Nat :=
  if '0' ≤ c ∧ c ≤ '9' then some (c.toNat - 48)
  else if 'a' ≤ c ∧ c ≤ 'f' then some (c.toNat - 87)
  else if 'A' ≤ c ∧ c ≤ 'F' then some (c.toNat - 55)
  else none

/-- Four hexadecimal digits: a character of its own, or half of a surrogate pair. -/
def ofUnit? (read : List Char) (high : Option Nat) (unit : Nat) : Option State :=
  match high with
  | some h =>
    if 0xDC00 ≤ unit ∧ unit ≤ 0xDFFF then
      some (.text (Char.ofNat (0x10000 + (h - 0xD800) * 0x400 + (unit - 0xDC00)) :: read))
    else none
  | none =>
    if 0xD800 ≤ unit ∧ unit ≤ 0xDBFF then some (.afterHigh read unit)
    else if 0xDC00 ≤ unit ∧ unit ≤ 0xDFFF then none
    else some (.text (Char.ofNat unit :: read))

/-- The tokens that a character completes, and where it leaves the machine. -/
def step? : State → Char → Option (List Token × State)
  | .between, c => begin? c
  | .word read, c =>
    if isWordChar c then some ([], .word (c :: read))
    else do
      let word ← ofWord? read.reverse
      let (tokens, state) ← begin? c
      return (word :: tokens, state)
  | .text read, c =>
    if c = '"' then some ([.text (String.ofList read.reverse)], .between)
    else if c = '\\' then some ([], .escape read)
    else if c.toNat < 0x20 then none
    else some ([], .text (c :: read))
  | .escape read, c =>
    if c = 'u' then some ([], .unicode read none 0 0)
    else (escaped? c).map fun c => ([], .text (c :: read))
  | .unicode read high digits value, c => do
    let value := value * 16 + (← hexValue? c)
    if digits = 3 then return ([], ← ofUnit? read high value)
    else return ([], .unicode read high (digits + 1) value)
  | .afterHigh read high, c => if c = '\\' then some ([], .escapeAfterHigh read high) else none
  | .escapeAfterHigh read high, c =>
    if c = 'u' then some ([], .unicode read (some high) 0 0) else none

/-- What is left when the text ends. -/
def finish? : State → Option (List Token)
  | .between => some []
  | .word read => (ofWord? read.reverse).map ([·])
  | _ => none

def run? : State → List Char → Option (List Token)
  | state, [] => finish? state
  | state, c :: cs => do
    let (tokens, state) ← step? state c
    let rest ← run? state cs
    return tokens ++ rest

def ofChars? (cs : List Char) : Option (List Token) := run? .between cs

end Token

end AutomatonSketch.Json
