import ChaosLab.Foundation.Radix
import Mathlib.Data.Rat.Defs

/-! JSON texts in UTF-8 and what they denote. A string is decoded to the bytes of its
characters, and an object keeps its members in the order of the text. -/

set_option autoImplicit false

namespace Foundation.Json

inductive Value where
  | null
  | boolean (truth : Bool)
  | number (amount : ℚ)
  | string (text : List UInt8)
  | array (items : List Value)
  | object (members : List (List UInt8 × Value))

def quote : UInt8 := 0x22
def comma : UInt8 := 0x2c
def colon : UInt8 := 0x3a
def openBracket : UInt8 := 0x5b
def backslash : UInt8 := 0x5c
def closeBracket : UInt8 := 0x5d
def letterU : UInt8 := 0x75
def openBrace : UInt8 := 0x7b
def closeBrace : UInt8 := 0x7d

/-- Space, tab, line feed and carriage return. -/
def isSpace (byte : UInt8) : Bool := byte == 0x20 || byte == 0x09 || byte == 0x0a || byte == 0x0d

def skipSpace (text : List UInt8) : List UInt8 := text.dropWhile isSpace

def expect (byte : UInt8) : List UInt8 → Option (List UInt8)
  | [] => none
  | first :: rest => if first = byte then some rest else none

section Numbers

def isDigit (byte : UInt8) : Bool := 0x30 ≤ byte && byte ≤ 0x39

def digitsValue (digits : List UInt8) : Nat :=
  ofDigitsBE 10 (digits.map fun digit => digit.toNat - 0x30)

/-- One digit or more. -/
def digits (text : List UInt8) : Option (List UInt8 × List UInt8) :=
  if text.takeWhile isDigit = [] then none
  else some (text.takeWhile isDigit, text.dropWhile isDigit)

/-- A zero stands before other digits in no number. -/
def integer (text : List UInt8) : Option (ℚ × List UInt8) :=
  match digits text with
  | none => none
  | some (run, rest) =>
      if run.head? = some 0x30 ∧ run ≠ [0x30] then none else some (digitsValue run, rest)

def fraction : List UInt8 → Option (ℚ × List UInt8)
  | [] => some (0, [])
  | byte :: rest =>
      if byte = 0x2e then
        (digits rest).map fun read => (digitsValue read.1 / 10 ^ read.1.length, read.2)
      else some (0, byte :: rest)

/-- The factor that an exponent stands for. -/
def exponent : List UInt8 → Option (ℚ × List UInt8)
  | [] => some (1, [])
  | byte :: rest =>
      if byte = 0x65 ∨ byte = 0x45 then
        match expect 0x2d rest with
        | some rest => (digits rest).map fun read => ((10 ^ digitsValue read.1)⁻¹, read.2)
        | none =>
            (digits ((expect 0x2b rest).getD rest)).map fun read =>
              (10 ^ digitsValue read.1, read.2)
      else some (1, byte :: rest)

def unsignedNumber (text : List UInt8) : Option (ℚ × List UInt8) := do
  let (whole, rest) ← integer text
  let (part, rest) ← fraction rest
  let (factor, rest) ← exponent rest
  return ((whole + part) * factor, rest)

def number (text : List UInt8) : Option (ℚ × List UInt8) :=
  match expect 0x2d text with
  | some rest => (unsignedNumber rest).map fun read => (-read.1, read.2)
  | none => unsignedNumber text

end Numbers

section Strings

def hexDigit (byte : UInt8) : Option Nat :=
  if 0x30 ≤ byte ∧ byte ≤ 0x39 then some (byte.toNat - 0x30)
  else if 0x61 ≤ byte ∧ byte ≤ 0x66 then some (byte.toNat - 0x57)
  else if 0x41 ≤ byte ∧ byte ≤ 0x46 then some (byte.toNat - 0x37)
  else none

def hex4 : List UInt8 → Option (Nat × List UInt8)
  | first :: second :: third :: fourth :: rest => do
      let first ← hexDigit first
      let second ← hexDigit second
      let third ← hexDigit third
      let fourth ← hexDigit fourth
      return (ofDigitsBE 16 [first, second, third, fourth], rest)
  | _ => none

def utf8 (code : Nat) : List UInt8 := String.utf8EncodeChar (Char.ofNat code)

/-- The second half of a surrogate pair, with its own backslash. -/
def lowSurrogate : List UInt8 → Option (Nat × List UInt8)
  | first :: second :: rest =>
      if first = backslash ∧ second = letterU then
        match hex4 rest with
        | some (low, rest) => if 0xdc00 ≤ low ∧ low < 0xe000 then some (low, rest) else none
        | none => none
      else none
  | _ => none

/-- What follows the letter of a numeric escape. A surrogate needs its other half. -/
def unicodeEscape (text : List UInt8) : Option (List UInt8 × List UInt8) :=
  match hex4 text with
  | none => none
  | some (code, rest) =>
      if code < 0xd800 ∨ 0xe000 ≤ code then some (utf8 code, rest)
      else if code < 0xdc00 then
        (lowSurrogate rest).map fun read =>
          (utf8 (0x10000 + (code - 0xd800) * 0x400 + (read.1 - 0xdc00)), read.2)
      else none

def letterEscape (letter : UInt8) : Option UInt8 :=
  if letter = quote then some quote
  else if letter = backslash then some backslash
  else if letter = 0x2f then some 0x2f
  else if letter = 0x62 then some 0x08
  else if letter = 0x66 then some 0x0c
  else if letter = 0x6e then some 0x0a
  else if letter = 0x72 then some 0x0d
  else if letter = 0x74 then some 0x09
  else none

/-- What follows the backslash of an escape. -/
def escape : List UInt8 → Option (List UInt8 × List UInt8)
  | [] => none
  | letter :: rest =>
      match letterEscape letter with
      | some byte => some ([byte], rest)
      | none => if letter = letterU then unicodeEscape rest else none

/-- What follows the opening quotation mark of a string. -/
def string : Nat → List UInt8 → Option (List UInt8 × List UInt8)
  | 0, _ => none
  | _ + 1, [] => none
  | fuel + 1, byte :: rest =>
      if byte = quote then some ([], rest)
      else if byte = backslash then
        match escape rest with
        | none => none
        | some (decoded, rest) =>
            (string fuel rest).map fun read => (decoded ++ read.1, read.2)
      else if byte < 0x20 then none
      else (string fuel rest).map fun read => (byte :: read.1, read.2)

end Strings

section Values

/-- What `item` reads once or more, with commas between, up to the closing byte. -/
def sequence {Item : Type} (item : List UInt8 → Option (Item × List UInt8)) (close : UInt8) :
    Nat → List UInt8 → Option (List Item × List UInt8)
  | 0, _ => none
  | fuel + 1, text =>
      match item text with
      | none => none
      | some (first, rest) =>
          match expect close (skipSpace rest) with
          | some rest => some ([first], rest)
          | none => do
              let rest ← expect comma (skipSpace rest)
              let (others, rest) ← sequence item close fuel rest
              return (first :: others, rest)

/-- What follows an opening bracket. -/
def bracketed {Item : Type} (item : List UInt8 → Option (Item × List UInt8)) (close : UInt8)
    (text : List UInt8) : Option (List Item × List UInt8) :=
  match expect close (skipSpace text) with
  | some rest => some ([], rest)
  | none => sequence item close text.length text

def element (value : List UInt8 → Option (Value × List UInt8)) (text : List UInt8) :
    Option (Value × List UInt8) := value (skipSpace text)

/-- A name, a colon and a value. -/
def member (value : List UInt8 → Option (Value × List UInt8)) (text : List UInt8) :
    Option ((List UInt8 × Value) × List UInt8) := do
  let rest ← expect quote (skipSpace text)
  let (name, rest) ← string rest.length rest
  let rest ← expect colon (skipSpace rest)
  let (item, rest) ← value (skipSpace rest)
  return ((name, item), rest)

/-- One of the three names of values. -/
def keyword (text : List UInt8) : Option (Value × List UInt8) :=
  if [0x6e, 0x75, 0x6c, 0x6c] <+: text then some (.null, text.drop 4)
  else if [0x74, 0x72, 0x75, 0x65] <+: text then some (.boolean true, text.drop 4)
  else if [0x66, 0x61, 0x6c, 0x73, 0x65] <+: text then some (.boolean false, text.drop 5)
  else none

/-- A value that goes no deeper than `depth`, at the start of a text. -/
def value : Nat → List UInt8 → Option (Value × List UInt8)
  | 0, _ => none
  | _ + 1, [] => none
  | depth + 1, byte :: rest =>
      if byte = quote then
        (string rest.length rest).map fun read => (.string read.1, read.2)
      else if byte = openBrace then
        (bracketed (member (value depth)) closeBrace rest).map fun read =>
          (.object read.1, read.2)
      else if byte = openBracket then
        (bracketed (element (value depth)) closeBracket rest).map fun read =>
          (.array read.1, read.2)
      else
        match keyword (byte :: rest) with
        | some read => some read
        | none => (number (byte :: rest)).map fun read => (.number read.1, read.2)

/-- A whole text. It cannot nest deeper than it is long. -/
def parse (text : List UInt8) : Option Value :=
  match value text.length (skipSpace text) with
  | some (result, rest) => if skipSpace rest = [] then some result else none
  | none => none

end Values

def Utf8 (text : List UInt8) : Prop :=
  ∃ characters : List Char, text = characters.flatMap String.utf8EncodeChar

/-- The text is a JSON text and its value is this one. -/
def Denotes (text : List UInt8) (result : Value) : Prop :=
  Utf8 text ∧ parse text = some result

end Foundation.Json
