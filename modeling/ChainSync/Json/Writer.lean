import ChainSync.Hex
import ChainSync.Json.Value
set_option autoImplicit false

namespace ChainSync.Json

/-- A character within quotes. -/
def writeChar (c : Char) : List Char :=
  if c = '"' then ['\\', '"']
  else if c = '\\' then ['\\', '\\']
  else if c.toNat < 0x20 then '\\' :: 'u' :: '0' :: '0' :: Hex.encodeByte (UInt8.ofNat c.toNat)
  else [c]

def writeUnit : Unit16 → List Char
  | .char c | .control c => writeChar c
  | .escape n => '\\' :: 'u' :: Hex.encode [UInt8.ofNat (n / 256), UInt8.ofNat (n % 256)]

def writeText (t : Text) : List Char := '"' :: (t.flatMap writeUnit ++ ['"'])

mutual

/-- Without blanks. Numbers that are not whole are never written here. -/
def write : Value → List Char
  | .null => ['n', 'u', 'l', 'l']
  | .bool true => ['t', 'r', 'u', 'e']
  | .bool false => ['f', 'a', 'l', 's', 'e']
  | .number (.natural n) => (toString n).toList
  | .number (.negative n) => '-' :: (toString n).toList
  | .number (.other _) => ['0']
  | .string t => writeText t
  | .array items => '[' :: (writeItems items ++ [']'])
  | .object fields => '\x7b' :: (writeFields fields ++ ['\x7d'])

def writeItems : List Value → List Char
  | [] => []
  | [v] => write v
  | v :: rest => write v ++ ',' :: writeItems rest

def writeFields : List (Text × Value) → List Char
  | [] => []
  | [(k, v)] => writeText k ++ ':' :: write v
  | (k, v) :: rest => writeText k ++ ':' :: (write v ++ ',' :: writeFields rest)

end

def text (v : Value) : String := String.ofList (write v)

end ChainSync.Json
