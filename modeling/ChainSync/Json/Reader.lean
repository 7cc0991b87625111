import ChainSync.Decimal
import ChainSync.Hex
import ChainSync.Json.Value
set_option autoImplicit false

namespace ChainSync.Json

def isBlank (c : Char) : Bool := c == ' ' || c == '\n' || c == '\t' || c == '\r'

def skipBlank (cs : List Char) : List Char := cs.dropWhile isBlank

def isDigit (c : Char) : Bool := '0' ≤ c && c ≤ '9'

def digitsValue (cs : List Char) : Nat :=
  cs.foldl (fun n c => n * 10 + (c.toNat - '0'.toNat)) 0

/-- The rest behind the literal, if the text starts with it. -/
def literal? : List Char → List Char → Option (List Char)
  | [], cs => some cs
  | _, [] => none
  | l :: ls, c :: cs => if l = c then literal? ls cs else none

/-- One or more digits. -/
def digits? (cs : List Char) : Option (List Char × List Char) :=
  match cs.span isDigit with
  | ([], _) => none
  | (ds, rest) => some (ds, rest)

/-- The exponent of a number: its sign, its digits, and the rest. Without one it is zero. -/
def exponent? (cs : List Char) : Option (Option (Bool × List Char) × List Char) :=
  match cs with
  | c :: rest =>
    if c = 'e' ∨ c = 'E' then
      let (negative, rest) :=
        match rest with
        | '+' :: rest => (false, rest)
        | '-' :: rest => (true, rest)
        | rest => (false, rest)
      (digits? rest).map fun (ds, rest) => (some (negative, ds), rest)
    else some (none, cs)
  | [] => some (none, [])

/-- Whether digits behind a point, times a power of ten, are beyond the doubles. Exponents so long
that they decide alone are not worked out. -/
def isHuge (whole fraction : List Char) (exponent : Option (Bool × List Char)) : Bool :=
  let m := digitsValue (whole ++ fraction)
  if m = 0 then false
  else
    let (negative, e) :=
      match exponent with
      | some (negative, ds) => (negative, digitsValue ds)
      | none => (false, 0)
    if negative then
      if e > whole.length then false else m ≥ doubleLimit * Decimal.tenTo (fraction.length + e)
    else if e > fraction.length + 400 then true
    else m * Decimal.tenTo e ≥ doubleLimit * Decimal.tenTo fraction.length

/-- A leading zero stands alone. -/
def number? (cs : List Char) : Option (Number × List Char) := do
  let (negative, cs) :=
    match cs with
    | '-' :: rest => (true, rest)
    | cs => (false, cs)
  let (whole, rest) ← digits? cs
  if whole.length > 1 ∧ whole.head? = some '0' then none
  else
    let (fraction, rest) ←
      match rest with
      | '.' :: rest => digits? rest
      | rest => some ([], rest)
    let (exponent, rest) ← exponent? rest
    if fraction.isEmpty && exponent.isNone then
      some (if negative then .negative (digitsValue whole) else .natural (digitsValue whole), rest)
    else some (.other (isHuge whole fraction exponent), rest)

def shortEscape? : Char → Option Char
  | '"' => some '"'
  | '\\' => some '\\'
  | '/' => some '/'
  | 'b' => some '\x08'
  | 'f' => some '\x0c'
  | 'n' => some '\n'
  | 'r' => some '\r'
  | 't' => some '\t'
  | _ => none

/-- The text up to the closing quote. -/
def text? : List Char → Option (Text × List Char)
  | [] => none
  | '"' :: rest => some ([], rest)
  | '\\' :: 'u' :: a :: b :: c :: d :: rest => do
    let n ← Hex.toNat? [a, b, c, d]
    let (t, rest) ← text? rest
    some (.escape n :: t, rest)
  | '\\' :: e :: rest => do
    let c ← shortEscape? e
    let (t, rest) ← text? rest
    some (.char c :: t, rest)
  | c :: rest =>
    if c = '\\' then none
    else do
      let (t, rest) ← text? rest
      some ((if c.toNat < 0x20 then .control c else .char c) :: t, rest)

mutual

/-- One value and what stands behind it. The fuel is a bound on the nested calls: each of them
follows a character of its own. -/
def value? (fuel : Nat) (cs : List Char) : Option (Value × List Char) :=
  match fuel with
  | 0 => none
  | fuel + 1 =>
    match skipBlank cs with
    | 'n' :: rest => (literal? ['u', 'l', 'l'] rest).map fun rest => (.null, rest)
    | 't' :: rest => (literal? ['r', 'u', 'e'] rest).map fun rest => (.bool true, rest)
    | 'f' :: rest => (literal? ['a', 'l', 's', 'e'] rest).map fun rest => (.bool false, rest)
    | '"' :: rest => (text? rest).map fun (t, rest) => (.string t, rest)
    | '[' :: rest =>
      match skipBlank rest with
      | ']' :: rest => some (.array [], rest)
      | rest => (items? fuel rest).map fun (vs, rest) => (.array vs, rest)
    | '\x7b' :: rest =>
      match skipBlank rest with
      | '\x7d' :: rest => some (.object [], rest)
      | rest => (members? fuel rest).map fun (fs, rest) => (.object fs, rest)
    | cs => (number? cs).map fun (n, rest) => (.number n, rest)

/-- One or more values up to the closing bracket. -/
def items? (fuel : Nat) (cs : List Char) : Option (List Value × List Char) :=
  match fuel with
  | 0 => none
  | fuel + 1 =>
    match value? fuel cs with
    | none => none
    | some (v, rest) =>
      match skipBlank rest with
      | ']' :: rest => some ([v], rest)
      | ',' :: rest => (items? fuel rest).map fun (vs, rest) => (v :: vs, rest)
      | _ => none

/-- One or more fields up to the closing brace. -/
def members? (fuel : Nat) (cs : List Char) : Option (List (Text × Value) × List Char) :=
  match fuel with
  | 0 => none
  | fuel + 1 =>
    match skipBlank cs with
    | '"' :: rest =>
      match text? rest with
      | none => none
      | some (k, rest) =>
        match skipBlank rest with
        | ':' :: rest =>
          match value? fuel rest with
          | none => none
          | some (v, rest) =>
            match skipBlank rest with
            | '\x7d' :: rest => some ([(k, v)], rest)
            | ',' :: rest => (members? fuel rest).map fun (fs, rest) => ((k, v) :: fs, rest)
            | _ => none
        | _ => none
    | _ => none

end

/-- Reads a text that is one value and blanks around it. -/
def read? (s : String) : Option Value :=
  match value? (2 * s.length + 2) s.toList with
  | some (v, rest) => if (skipBlank rest).isEmpty then some v else none
  | none => none

end ChainSync.Json
