import ChainSync.Hex
set_option autoImplicit false

namespace ChainSync.Discovery

/-- An address of one of the two families of the internet protocol. -/
inductive Host where
  | v4 (octets : BitVec 32)
  /-- A scope other than zero names the local link it is valid on. -/
  | v6 (groups : BitVec 128) (scope : UInt32)
  deriving DecidableEq, Repr

/-- Where a node listens: its host, and the number of the service there. -/
structure Endpoint where
  host : Host
  service : UInt16
  deriving DecidableEq, Repr

namespace Host

/-- The four bytes, most significant first. -/
def octets (a : BitVec 32) : List Nat := (List.range 4).map fun i => a.toNat >>> (8 * (3 - i)) % 256

/-- The eight groups of sixteen bits, most significant first. -/
def groups (a : BitVec 128) : List Nat :=
  (List.range 8).map fun i => a.toNat >>> (16 * (7 - i)) % 65536

def dotted (a : BitVec 32) : String := ".".intercalate ((octets a).map toString)

def colons (gs : List Nat) : String := ":".intercalate (gs.map fun g => String.ofList (Hex.ofNat g))

/-- How many groups from a position on are zero. -/
def zerosAt (gs : List Nat) (i : Nat) : Nat := ((gs.drop i).takeWhile (· == 0)).length

/-- The first of the longest runs of zero groups, by its start and length. -/
def longestZeros (gs : List Nat) : Nat × Nat :=
  (List.range gs.length).foldl
    (fun best i => if zerosAt gs i > best.2 then (i, zerosAt gs i) else best) (0, 0)

/-- Two zero groups or more shrink to a double colon, once. -/
def compressed (gs : List Nat) : String :=
  let (start, length) := longestZeros gs
  if length > 1 then colons (gs.take start) ++ "::" ++ colons (gs.drop (start + length))
  else colons gs

/-- The older address that a newer one stands for. -/
def mapped? (a : BitVec 128) : Option (BitVec 32) :=
  if a.toNat >>> 32 = 0xffff then some (BitVec.ofNat 32 a.toNat) else none

def groupsText (a : BitVec 128) : String :=
  match mapped? a with
  | some inner => "::ffff:" ++ dotted inner
  | none => compressed (groups a)

def text : Host → String
  | .v4 a => dotted a
  | .v6 a 0 => "[" ++ groupsText a ++ "]"
  | .v6 a scope => "[" ++ groupsText a ++ "%" ++ toString scope ++ "]"

end Host

def Endpoint.text (e : Endpoint) : String := e.host.text ++ ":" ++ toString e.service

namespace Endpoint

/-- What a reader leaves of its input, or nothing where the input does not fit. -/
abbrev Reader (α : Type) := List Char → Option (α × List Char)

def char (c : Char) : Reader Unit
  | d :: rest => if c = d then some ((), rest) else none
  | [] => none

/-- A run of decimal digits below a bound. -/
def decimal (bound : Nat) : Reader Nat := fun cs =>
  let digits := cs.takeWhile Char.isDigit
  let n := digits.foldl (fun n c => n * 10 + (c.toNat - '0'.toNat)) 0
  if digits.isEmpty ∨ bound ≤ n then none else some (n, cs.drop digits.length)

/-- A byte without leading zeros. -/
def octet : Reader Nat := fun cs =>
  match cs with
  | '0' :: d :: _ => if d.isDigit then none else decimal 256 cs
  | _ => decimal 256 cs

def dotted : Reader (BitVec 32) := fun cs => do
  let (a, cs) ← octet cs
  let ((), cs) ← char '.' cs
  let (b, cs) ← octet cs
  let ((), cs) ← char '.' cs
  let (c, cs) ← octet cs
  let ((), cs) ← char '.' cs
  let (d, cs) ← octet cs
  return (BitVec.ofNat 32 (((a * 256 + b) * 256 + c) * 256 + d), cs)

/-- One to four hexadecimal digits. -/
def group : Reader Nat := fun cs => do
  let digits := cs.takeWhile fun c => (Hex.value? c).isSome
  if digits.isEmpty ∨ digits.length > 4 then none
  return (← Hex.toNat? digits, cs.drop digits.length)

/-- The separator stands before every element but the first. -/
def separated {α : Type} (isFirst : Bool) (r : Reader α) : Reader α := fun cs =>
  if isFirst then r cs else do
    let ((), cs) ← char ':' cs
    r cs

/-- Groups for at most `limit` places, as many as are there; an address in dotted form fills the
last two and ends the run. -/
def run : (limit : Nat) → (isFirst : Bool) → List Char → (List Nat × Bool) × List Char
  | 0, _, cs => (([], false), cs)
  | limit + 1, isFirst, cs =>
    match (if limit = 0 then none else separated isFirst dotted cs) with
    | some (a, rest) => (([a.toNat / 65536, a.toNat % 65536], true), rest)
    | none =>
      match separated isFirst group cs with
      | none => (([], false), cs)
      | some (g, rest) =>
        let ((gs, isDotted), rest) := run limit false rest
        ((g :: gs, isDotted), rest)

def ofGroups (gs : List Nat) : BitVec 128 := BitVec.ofNat 128 (gs.foldl (fun n g => n * 65536 + g) 0)

/-- Eight groups, or fewer around one double colon that stands for at least one zero. -/
def colons : Reader (BitVec 128) := fun cs => do
  let ((head, isDotted), cs) := run 8 true cs
  if head.length = 8 then return (ofGroups head, cs)
  if isDotted then none
  let ((), cs) ← char ':' cs
  let ((), cs) ← char ':' cs
  let ((tail, _), cs) := run (7 - head.length) true cs
  let zeros := List.replicate (8 - head.length - tail.length) 0
  return (ofGroups (head ++ zeros ++ tail), cs)

def scope : Reader Nat := fun cs => do
  let ((), cs) ← char '%' cs
  decimal UInt32.size cs

def bracketed : Reader Host := fun cs => do
  let ((), cs) ← char '[' cs
  let (a, cs) ← colons cs
  let (scope, cs) := (scope cs).getD (0, cs)
  let ((), cs) ← char ']' cs
  return (.v6 a (UInt32.ofNat scope), cs)

def eitherHost : Reader Host := fun cs =>
  match dotted cs with
  | some (a, rest) => some (.v4 a, rest)
  | none => bracketed cs

def read? (s : String) : Option Endpoint := do
  let (host, cs) ← eitherHost s.toList
  let ((), cs) ← char ':' cs
  let (service, cs) ← decimal UInt16.size cs
  if cs.isEmpty then return ⟨host, UInt16.ofNat service⟩ else none

end Endpoint
end ChainSync.Discovery
