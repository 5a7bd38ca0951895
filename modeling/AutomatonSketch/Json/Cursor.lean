import AutomatonSketch.Json.Fault
import AutomatonSketch.Json.Token

/-! Going through a JSON text, with the place of whatever is wrong with its words, texts and
numbers. -/

namespace AutomatonSketch.Json

namespace Place

def after (p : Place) (c : Char) : Place :=
  if c = '\n' then ⟨p.line + 1, 0⟩ else ⟨p.line, p.column + c.utf8Size⟩

/-- The place that many bytes on, or the end of the text. -/
def ahead (p : Place) : Nat → List Char → Place
  | 0, _ => p
  | _ + 1, [] => p
  | n + 1, c :: cs =>
    if c = '\n' ∨ c.utf8Size ≤ n + 1 then (p.after c).ahead (n + 1 - c.utf8Size) cs
    else ⟨p.line, p.column + (n + 1)⟩

end Place

/-- What is left of a text, and where it begins. -/
structure Cursor where
  rest : List Char
  place : Place
deriving DecidableEq

/-- Why reading stops: a fault at a place, or one whose place the value around it decides. -/
inductive Stop where
  | placed (fault : Fault) (place : Place)
  | unplaced (fault : Fault) (cursor : Cursor)
deriving DecidableEq

/-- Reading that ends at another cursor. -/
abbrev Scan := Except Stop Cursor

namespace Stop

def problem : Stop → Problem
  | placed fault place => ⟨fault, some place⟩
  | unplaced fault _ => ⟨fault, none⟩

end Stop

namespace Cursor

def ofText (s : String) : Cursor := ⟨s.toList, 1, 0⟩

def tail (c : Cursor) : Cursor :=
  match c.rest with
  | [] => c
  | x :: rest => ⟨rest, c.place.after x⟩

def peek? (c : Cursor) : Option Char := c.rest.head?

def stop (c : Cursor) (fault : Fault) : Except Stop α := .error (.placed fault c.place)

/-- Stops behind the next bytes. -/
def stopAhead (c : Cursor) (fault : Fault) (bytes : Nat) : Except Stop α :=
  .error (.placed fault (c.place.ahead bytes c.rest))

def stopNext (c : Cursor) (fault : Fault) : Except Stop α := c.stopAhead fault 1

/-- Stops for want of a place. -/
def halt (c : Cursor) (fault : Fault) : Except Stop α := .error (.unplaced fault c)

def drop (c : Cursor) : Nat → Cursor
  | 0 => c
  | n + 1 => c.tail.drop n

def dropWhile (c : Cursor) (p : Char → Bool) : Cursor := c.drop (c.rest.takeWhile p).length

def skipBlanks (c : Cursor) : Cursor :=
  c.dropWhile fun x => x = ' ' || x = '\t' || x = '\n' || x = '\r'

def upTo (c later : Cursor) : List Char := c.rest.take (c.rest.length - later.rest.length)

def word (c : Cursor) : List Char → Scan
  | [] => .ok c
  | x :: xs =>
    match c.peek? with
    | none => c.stop (.endOfText .value)
    | some y => if y = x then c.tail.word xs else c.stopNext .noWord

def hexDigits (c : Cursor) : Except Stop (Nat × Cursor) :=
  match c.rest with
  | w :: x :: y :: z :: _ =>
    match hex w, hex x, hex y, hex z with
    | some a, some b, some d, some e => .ok (((a * 16 + b) * 16 + d) * 16 + e, c.drop 4)
    | _, _, _, _ => c.stopAhead .badEscape 4
  | rest =>
    if rest.foldl (fun n x => n + x.utf8Size) 0 < 4 then c.stopAhead (.endOfText .string) 4
    else c.stopAhead .badEscape 4
where
  hex (x : Char) : Option Nat := Token.hexValue? x

/-- The character after four hexadecimal digits have been read: that of this number, or of the
surrogate pair that it begins. -/
def afterUnit (c : Cursor) (unit : Nat) : Except Stop (Char × Cursor) :=
  if 0xDC00 ≤ unit ∧ unit ≤ 0xDFFF then c.stop .loneSurrogate
  else if 0xD800 ≤ unit ∧ unit ≤ 0xDBFF then
    match c.rest with
    | '\\' :: 'u' :: _ => do
      let (low, c) ← (c.drop 2).hexDigits
      if 0xDC00 ≤ low ∧ low ≤ 0xDFFF then
        return (Char.ofNat (0x10000 + (unit - 0xD800) * 0x400 + (low - 0xDC00)), c)
      else c.stop .loneSurrogate
    | [] => c.stop (.endOfText .string)
    | ['\\'] => c.tail.stop (.endOfText .string)
    | '\\' :: _ => c.tail.stopNext .unfinishedSurrogate
    | _ => c.stopNext .unfinishedSurrogate
  else .ok (Char.ofNat unit, c)

/-- What follows a backslash. -/
def escape (c : Cursor) : Except Stop (Char × Cursor) :=
  match c.peek? with
  | none => c.stop (.endOfText .string)
  | some 'u' => do
    let (unit, c) ← c.tail.hexDigits
    c.afterUnit unit
  | some x =>
    match Token.escaped? x with
    | some y => .ok (y, c.tail)
    | none => c.stopNext .badEscape

/-- Reads a text after its first quote; `fuel` bounds its length. -/
def text (c : Cursor) : Nat → List Char → Except Stop (String × Cursor)
  | 0, _ => c.stop (.endOfText .string)
  | fuel + 1, read =>
    match c.peek? with
    | none => c.stop (.endOfText .string)
    | some x =>
      if x = '"' then .ok (String.ofList read.reverse, c.tail)
      else if x = '\\' then do
        let (y, c) ← c.tail.escape
        c.text fuel (y :: read)
      else if x.toNat < 0x20 then c.stopNext .controlCharacter
      else c.tail.text fuel (x :: read)

def quoted (c : Cursor) : Except Stop (String × Cursor) := c.tail.text c.rest.length []

/-- Reads digits, at least one. `atEnd` tells what is wrong with a text that ends where the first
should be. -/
def digits (c : Cursor) (atEnd : Fault) : Scan :=
  match c.peek? with
  | none => c.stop atEnd
  | some x => if x.isDigit then .ok (c.dropWhile Char.isDigit) else c.stopNext .badNumber

def exponent (c : Cursor) (atEnd : Fault) : Scan :=
  match c.rest with
  | 'e' :: '+' :: _ | 'e' :: '-' :: _ | 'E' :: '+' :: _ | 'E' :: '-' :: _ => (c.drop 2).digits atEnd
  | 'e' :: _ | 'E' :: _ => c.tail.digits atEnd
  | _ => .ok c

/-- Reads what follows the sign of a number. -/
def unsigned (c : Cursor) (atEnd : Fault) : Scan := do
  let integral ← match c.rest with
    | '0' :: x :: _ => if x.isDigit then c.tail.stopNext .badNumber else pure c.tail
    | _ => c.digits atEnd
  match integral.peek? with
  | some '.' => (← integral.tail.digits atEnd).exponent atEnd
  | _ => integral.exponent atEnd

/-- Reads a number. One that is kept has to be finite. -/
def number (c : Cursor) (kept : Bool) : Except Stop (Number × Cursor) := do
  let atEnd := if kept then .endOfText .value else .badNumber
  let unsigned := if c.peek? = some '-' then c.tail else c
  let last ← unsigned.unsigned atEnd
  match Number.ofChars? (c.upTo last) with
  | none => c.stop .badNumber
  | some n => if kept && !n.isFinite then last.stop .numberTooLarge else return (n, last)

/-- Reads a value where another kind of value should be, up to what tells it apart. -/
def found (c : Cursor) : Except Stop (Found × Cursor) :=
  match c.peek? with
  | none => c.stop .noValue
  | some x =>
    if x = 'n' then do return (.null, ← c.tail.word ['u', 'l', 'l'])
    else if x = 't' then do return (.bool true, ← c.tail.word ['r', 'u', 'e'])
    else if x = 'f' then do return (.bool false, ← c.tail.word ['a', 'l', 's', 'e'])
    else if x = '-' ∨ x.isDigit then do
      let (n, c) ← c.number true
      return (.ofNumber n, c)
    else if x = '"' then do
      let (s, c) ← c.quoted
      return (.text s, c)
    else if x = '[' then .ok (.list, c)
    else if x = '{' then .ok (.object, c)
    else c.stopNext .noValue

/-- Stops at a value of the wrong kind. -/
def refuse (c : Cursor) (expected : String) : Except Stop α := do
  let (found, c) ← c.found
  c.stop (.wrongType found expected)

end Cursor

end AutomatonSketch.Json
