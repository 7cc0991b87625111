set_option autoImplicit false

namespace ChainSync

/-- The four kinds of data that peers are asked for. -/
inductive Category where
  | headers
  | bodies
  | receipts
  | stateNodes
  deriving DecidableEq, Repr

namespace Category

def all : List Category := [.headers, .bodies, .receipts, .stateNodes]

def shortName : Category → String
  | .headers => "headers"
  | .bodies => "bodies"
  | .receipts => "receipts"
  | .stateNodes => "states"

theorem mem_all (c : Category) : c ∈ all := by cases c <;> decide

end Category

/-- One value for each category. -/
structure PerCategory (α : Type) where
  headers : α
  bodies : α
  receipts : α
  stateNodes : α
  deriving DecidableEq, Repr

namespace PerCategory

variable {α β : Type}

def const (a : α) : PerCategory α := ⟨a, a, a, a⟩

def ofFn (f : Category → α) : PerCategory α := ⟨f .headers, f .bodies, f .receipts, f .stateNodes⟩

def get (p : PerCategory α) : Category → α
  | .headers => p.headers
  | .bodies => p.bodies
  | .receipts => p.receipts
  | .stateNodes => p.stateNodes

def modify (p : PerCategory α) (c : Category) (f : α → α) : PerCategory α :=
  match c with
  | .headers => { p with headers := f p.headers }
  | .bodies => { p with bodies := f p.bodies }
  | .receipts => { p with receipts := f p.receipts }
  | .stateNodes => { p with stateNodes := f p.stateNodes }

/-- In category order. -/
def toList (p : PerCategory α) : List α := [p.headers, p.bodies, p.receipts, p.stateNodes]

@[simp] theorem get_ofFn (f : Category → α) (c : Category) : (ofFn f).get c = f c := by
  cases c <;> rfl

@[simp] theorem get_modify_self (p : PerCategory α) (c : Category) (f : α → α) :
    (p.modify c f).get c = f (p.get c) := by
  cases c <;> rfl

theorem get_modify_of_ne (p : PerCategory α) {c d : Category} (f : α → α) (h : d ≠ c) :
    (p.modify c f).get d = p.get d := by
  cases c <;> cases d <;> first | rfl | exact absurd rfl h

end PerCategory
end ChainSync
