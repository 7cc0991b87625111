import ChainSync.Fork.Id
set_option autoImplicit false

namespace ChainSync.Discovery

/-- A value that nodes publish about themselves, already encoded. -/
structure Entry where
  key : String
  value : Bytes
  deriving DecidableEq, Repr

namespace Entry

/-- The fork a node is on, as a list of one fork id. -/
def eth (id : Fork.Id) : Entry := ⟨"eth", Rlp.record [id.encode]⟩

def ofBytes (key : String) (data : Bytes) : Entry := ⟨key, Rlp.bytes data⟩

end Entry

/-- What the local node publishes, one value for each key, with a number that grows at each
change. -/
structure NodeRecord where
  seq : Nat
  entries : List Entry
  deriving DecidableEq, Repr

namespace NodeRecord

def empty : NodeRecord := ⟨0, []⟩

def get? (r : NodeRecord) (key : String) : Option Bytes :=
  (r.entries.find? (·.key == key)).map (·.value)

/-- Writing the value that is already there changes nothing. -/
def set (r : NodeRecord) (e : Entry) : NodeRecord :=
  if r.get? e.key = some e.value then r
  else ⟨r.seq + 1, e :: r.entries.filter (·.key != e.key)⟩

@[simp] theorem get?_set_self (r : NodeRecord) (e : Entry) : (r.set e).get? e.key = some e.value := by
  unfold set
  split
  · assumption
  · simp [get?]

theorem get?_set_of_ne (r : NodeRecord) (e : Entry) {key : String} (h : key ≠ e.key) :
    (r.set e).get? key = r.get? key := by
  unfold set
  split
  · rfl
  · have other : (e.key == key) = false := by simpa using fun h' => h h'.symm
    simp only [get?, List.find?_cons, other, List.find?_filter]
    congr 1
    congr 1
    funext x
    by_cases hx : x.key = key
    · simp [hx, h]
    · simp [hx]

theorem seq_set (r : NodeRecord) (e : Entry) :
    (r.set e).seq = if r.get? e.key = some e.value then r.seq else r.seq + 1 := by
  unfold set
  split <;> rfl

end NodeRecord
end ChainSync.Discovery
