set_option autoImplicit false

namespace ChainSync

/-- Byte strings are lists, so that every codec is a recursion on its input. -/
abbrev Bytes := List UInt8

namespace Bytes

/-- The low `width` bytes of `n`, most significant first. -/
def ofNat (width n : Nat) : Bytes :=
  go width n []
where
  go : Nat → Nat → Bytes → Bytes
    | 0, _, acc => acc
    | w + 1, n, acc => go w (n / 256) (UInt8.ofNat (n % 256) :: acc)

/-- The number whose big-endian digits in base 256 are the given bytes. -/
def toNat (b : Bytes) : Nat :=
  b.foldl (fun n x => n * 256 + x.toNat) 0

/-- Leading zero bytes carry no value and are left out of minimal encodings. -/
def trim (b : Bytes) : Bytes :=
  b.dropWhile (· == 0)

/-- The bytes of `n` without leading zeros; none at all for zero. -/
def minimal (n : Nat) : Bytes :=
  if _h : n = 0 then [] else minimal (n / 256) ++ [UInt8.ofNat (n % 256)]
termination_by n
decreasing_by omega

theorem ofNat_go_eq (width n : Nat) (acc : Bytes) :
    ofNat.go width n acc = ofNat.go width n [] ++ acc := by
  induction width generalizing n acc with
  | zero => rfl
  | succ w ih =>
    simp only [ofNat.go]
    rw [ih, ih (n / 256) [_]]
    simp

theorem ofNat_succ (width n : Nat) :
    ofNat (width + 1) n = ofNat width (n / 256) ++ [UInt8.ofNat (n % 256)] := by
  rw [ofNat, ofNat.go, ofNat_go_eq]; rfl

@[simp] theorem length_ofNat (width n : Nat) : (ofNat width n).length = width := by
  induction width generalizing n with
  | zero => rfl
  | succ w ih => rw [ofNat_succ]; simp [ih]

@[simp] theorem toNat_concat (b : Bytes) (x : UInt8) :
    toNat (b ++ [x]) = toNat b * 256 + x.toNat := by
  simp [toNat, List.foldl_append]

theorem toNat_ofNat (width n : Nat) : toNat (ofNat width n) = n % Nat.pow 256 width := by
  induction width generalizing n with
  | zero => simp [ofNat, ofNat.go, toNat, Nat.mod_one]
  | succ w ih =>
    rw [ofNat_succ, toNat_concat, ih, Nat.pow_eq, Nat.pow_eq, Nat.pow_succ, Nat.mul_comm (256 ^ w) 256,
      Nat.mod_mul, UInt8.toNat_ofNat_of_lt' (by simp [UInt8.size]; omega)]
    omega

/-- The bytes of a text in UTF-8. -/
def ofString (s : String) : Bytes := s.toUTF8.toList

end Bytes

end ChainSync
