import ChainSync.Discovery.Endpoint
import ChainSync.Fork.Filter
set_option autoImplicit false

namespace ChainSync.Discovery

/-- A node that a connection could be made to. -/
structure Candidate where
  id : PeerId
  endpoint : Endpoint
  /-- The fork it says it is on, if it says so. -/
  forkId : Option Fork.Id
  deriving DecidableEq, Repr

/-- A fixed list of nodes, handed out from the front. -/
structure StaticNodes where
  nodes : List Candidate
  deriving DecidableEq, Repr

/-- Takes the elements out one by one; each draw picks the next among those left. -/
def shuffle {α : Type} : List Nat → List α → List α
  | [], xs => xs
  | draw :: draws, xs =>
    let place := draw % xs.length
    match xs[place]? with
    | none => []
    | some x => x :: shuffle draws (xs.eraseIdx place)

theorem shuffle_nil {α : Type} (draws : List Nat) : shuffle draws ([] : List α) = [] := by
  cases draws <;> simp [shuffle]

/-- Whatever the draws, every element stays, as often as it was there. -/
theorem count_shuffle {α : Type} [BEq α] [LawfulBEq α] (a : α) (draws : List Nat) (xs : List α) :
    (shuffle draws xs).count a = xs.count a := by
  induction draws generalizing xs with
  | nil => rfl
  | cons draw draws ih =>
    rcases xs with _ | ⟨y, ys⟩
    · simp [shuffle]
    · have inside : draw % (y :: ys).length < (y :: ys).length := Nat.mod_lt _ (by simp)
      have taken := List.take_append_drop (draw % (y :: ys).length) (y :: ys)
      simp only [shuffle, List.getElem?_eq_getElem inside, List.count_cons, ih,
        List.eraseIdx_eq_take_drop_succ, List.count_append]
      conv => rhs; rw [← List.count_cons, ← taken, List.count_append, List.drop_eq_getElem_cons inside,
        List.count_cons]
      omega

namespace StaticNodes

def ofList (nodes : List Candidate) : StaticNodes := ⟨nodes⟩

/-- In an order that does not depend on the list given, so that restarts do not always try the
same node first. -/
def shuffled (draws : List Nat) (nodes : List Candidate) : StaticNodes := ⟨shuffle draws nodes⟩

def size (s : StaticNodes) : Nat := s.nodes.length

def isEmpty (s : StaticNodes) : Bool := s.nodes.isEmpty

def next? (s : StaticNodes) : Option Candidate × StaticNodes := (s.nodes.head?, ⟨s.nodes.tail⟩)

end StaticNodes

/-- Leaves out nodes that do not advertise a fork compatible with ours. -/
structure FilteredSource where
  source : StaticNodes
  filter : Fork.Filter
  deriving Repr

namespace FilteredSource

/-- A node that does not say which fork it is on is not worth an attempt. -/
def accepts (filter : Fork.Filter) (c : Candidate) : Bool :=
  match c.forkId with
  | none => false
  | some id => (filter.validate id).isOk

/-- Nodes passed over are gone: moving the head later does not bring them back. -/
def next? (s : FilteredSource) : Option Candidate × FilteredSource :=
  let rest := s.source.nodes.dropWhile (!accepts s.filter ·)
  (rest.head?, { s with source := ⟨rest.tail⟩ })

def setHead (s : FilteredSource) (head : UInt64) : FilteredSource :=
  { s with filter := s.filter.setHead head }

end FilteredSource
end ChainSync.Discovery
