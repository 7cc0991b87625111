import ChainSync.Chain
set_option autoImplicit false

namespace ChainSync.Simulation

/-- Trie nodes with their hashes, children before those that refer to them. -/
abbrev Trie := Array (Hash × Bytes)

/-- A node: the count of its children, their hashes, and whatever else it holds. -/
def encodeNode (children : List Hash) (payload : Bytes) : Bytes :=
  UInt8.ofNat children.length :: (children.flatMap Hash.bytes ++ payload)

def splitHashes : Nat → Bytes → List Hash
  | 0, _ => []
  | n + 1, b => Hash.ofBytes (b.take 32) :: splitHashes n (b.drop 32)

/-- The children that a node names, if it is long enough for all of them. -/
def decodeChildren? : Bytes → Option (List Hash)
  | [] => none
  | n :: rest => if rest.length < 32 * n.toNat then none else some (splitHashes n.toNat rest)

namespace Trie

def add (t : Trie) (data : Bytes) : Trie := t.push (keccak data, data)

def root (t : Trie) : Hash := (t.back?.map (·.1)).getD emptyTrieHash

def index? (t : Trie) (hash : Hash) : Option Nat := t.findIdx? (·.1 == hash)

def data? (t : Trie) (hash : Hash) : Option Bytes := (t.find? (·.1 == hash)).map (·.2)

/-- The trie in which every node above the given depth has as many children as the fanout says,
each told apart by the way that leads to it. -/
def complete (fanout : Nat) : Nat → Bytes → Trie → Trie
  | 0, path, t => t.add (encodeNode [] path)
  | depth + 1, path, t =>
    let (t, children) := (List.range fanout).foldl
      (fun (t, children) i =>
        let t := complete fanout depth (path ++ [UInt8.ofNat i]) t
        (t, children ++ [t.root]))
      (t, [])
    t.add (encodeNode children path)

end Trie

/-- A database of trie nodes that can be made to fail. -/
structure NodeDatabase where
  nodes : List Hash := []
  failHas : Bool := false
  failCommit : Bool := false
  /-- What was committed since last asked, oldest first. -/
  commits : List (List Hash) := []

instance : NodeStore NodeDatabase where
  hasNode d hash :=
    if d.failHas then .error (.store "read failed") else .ok (d.nodes.contains hash)
  childHashes _ hash data :=
    match decodeChildren? data with
    | some children => .ok children
    | none => .error (.malformedNode hash)
  commitNodes d nodes :=
    if d.failCommit then (d, .error (.store "disk full"))
    else
      ({ d with
        nodes := d.nodes ++ nodes.map (·.1), commits := d.commits ++ [nodes.map (·.1)] }, .ok ())

end ChainSync.Simulation
