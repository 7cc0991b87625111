set_option autoImplicit false

namespace ChainSync.Json

/-- A part of a string as it is written: what it means depends on what is read from it. -/
inductive Unit16 where
  | char (c : Char)
  /-- A control character that is not escaped. -/
  | control (c : Char)
  /-- Four hex digits, one UTF-16 unit. -/
  | escape (n : Nat)
  deriving DecidableEq, Repr

abbrev Text := List Unit16

inductive Number where
  /-- Digits alone. -/
  | natural (n : Nat)
  /-- Digits behind a minus sign. -/
  | negative (n : Nat)
  /-- With a fraction or an exponent; perhaps beyond every double. -/
  | other (huge : Bool)
  deriving DecidableEq, Repr

/-- A text in the grammar of JSON, with all fields of its objects in order. -/
inductive Value where
  | null
  | bool (b : Bool)
  | number (n : Number)
  | string (s : Text)
  | array (items : List Value)
  | object (fields : List (Text × Value))
  deriving Repr

/-- Doubles end here: from halfway to the next power on, a number rounds to infinity. -/
def doubleLimit : Nat := 1 <<< 1024 - 1 <<< 970

namespace Text

def ofString (s : String) : Text := s.toList.map .char

/-- The characters meant, if surrogates come in pairs and control characters are escaped. -/
def chars? : Text → Option (List Char)
  | [] => some []
  | .char c :: rest => (c :: ·) <$> chars? rest
  | .control _ :: _ => none
  | [.escape n] => if n < 0xD800 ∨ 0xDFFF < n then some [Char.ofNat n] else none
  | .escape n :: .escape m :: rest =>
    if n < 0xD800 ∨ 0xDFFF < n then (Char.ofNat n :: ·) <$> chars? (.escape m :: rest)
    else if n ≤ 0xDBFF ∧ 0xDC00 ≤ m ∧ m ≤ 0xDFFF then
      (Char.ofNat (0x10000 + (n - 0xD800) * 0x400 + (m - 0xDC00)) :: ·) <$> chars? rest
    else none
  | .escape n :: rest =>
    if n < 0xD800 ∨ 0xDFFF < n then (Char.ofNat n :: ·) <$> chars? rest else none

def string? (t : Text) : Option String := t.chars?.map String.ofList

/-- UTF-8, carried over to units that are no characters by themselves. -/
def unitBytes (n : Nat) : List UInt8 :=
  if n < 0x80 then [UInt8.ofNat n]
  else if n < 0x800 then [UInt8.ofNat (0xC0 + n / 0x40), UInt8.ofNat (0x80 + n % 0x40)]
  else if n < 0x10000 then
    [UInt8.ofNat (0xE0 + n / 0x1000), UInt8.ofNat (0x80 + n / 0x40 % 0x40),
     UInt8.ofNat (0x80 + n % 0x40)]
  else
    [UInt8.ofNat (0xF0 + n / 0x40000), UInt8.ofNat (0x80 + n / 0x1000 % 0x40),
     UInt8.ofNat (0x80 + n / 0x40 % 0x40), UInt8.ofNat (0x80 + n % 0x40)]

/-- The bytes meant; any text has some. -/
def bytes : Text → List UInt8
  | [] => []
  | .char c :: rest => unitBytes c.toNat ++ bytes rest
  | .control c :: rest => unitBytes c.toNat ++ bytes rest
  | [.escape n] => unitBytes n
  | .escape n :: .escape m :: rest =>
    if 0xD800 ≤ n ∧ n ≤ 0xDBFF ∧ 0xDC00 ≤ m ∧ m ≤ 0xDFFF then
      unitBytes (0x10000 + (n - 0xD800) * 0x400 + (m - 0xDC00)) ++ bytes rest
    else unitBytes n ++ bytes (.escape m :: rest)
  | .escape n :: rest => unitBytes n ++ bytes rest

def isControl : Unit16 → Bool
  | .control _ => true
  | _ => false

end Text

mutual

/-- Whether the value may stand where nobody looks at it. -/
def Value.ignorable : Value → Bool
  | .string s => !s.any Text.isControl
  | .array items => ignorableItems items
  | .object fields => ignorableFields fields
  | _ => true

def ignorableItems : List Value → Bool
  | [] => true
  | v :: rest => v.ignorable && ignorableItems rest

def ignorableFields : List (Text × Value) → Bool
  | [] => true
  | (k, v) :: rest => !k.any Text.isControl && v.ignorable && ignorableFields rest

end

mutual

/-- Whether the value can be kept for later: every text means something, every number is within
the doubles, and nothing is nested deeper than `depth`. -/
def Value.storable (depth : Nat) : Value → Bool
  | .string s => s.chars?.isSome
  | .number (.natural n) | .number (.negative n) => n < doubleLimit
  | .number (.other huge) => !huge
  | .array items => depth > 0 && storableItems (depth - 1) items
  | .object fields => depth > 0 && storableFields (depth - 1) fields
  | _ => true

def storableItems (depth : Nat) : List Value → Bool
  | [] => true
  | v :: rest => v.storable depth && storableItems depth rest

def storableFields (depth : Nat) : List (Text × Value) → Bool
  | [] => true
  | (k, v) :: rest => k.chars?.isSome && v.storable depth && storableFields depth rest

end

end ChainSync.Json
