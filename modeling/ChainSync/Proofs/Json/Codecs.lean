import Mathlib.Algebra.Group.Nat.Defs
import ChainSync.Proofs.Json.Reading
set_option autoImplicit false

/-!
The forms that fields are written in: integers, flags, lists, byte strings, hex digits of a fixed
width, hex numbers without leading zeros, and records of named fields.
-/

namespace ChainSync.Json

/-- Written in plain text, and read back from it. -/
structure Codec.Faithful {α : Type} [Codec α] (a : α) : Prop where
  plain : (Codec.encode a).Plain
  decodes : Codec.decode? (Codec.encode a) = some a

class LawfulCodec (α : Type) [Codec α] : Prop where
  faithful (a : α) : Codec.Faithful a

section Lawful

variable {α : Type} [Codec α] [LawfulCodec α]

theorem encode_plain (a : α) : (Codec.encode a).Plain := (LawfulCodec.faithful a).plain

@[simp] theorem decode?_encode (a : α) : Codec.decode? (Codec.encode a) = some a :=
  (LawfulCodec.faithful a).decodes

end Lawful

/-- What is read back as it was written comes back from its text. -/
theorem Codec.Faithful.parse?_render {α : Type} [Codec α] {a : α} (faithful : Codec.Faithful a) :
    parse? α (render a) = some a := by
  rw [parse?, render, read?_text faithful.plain, Option.bind_some]
  exact faithful.decodes

section Integers

theorem natural?_ofNat {limit n : Nat} (small : n < limit) : natural? limit (ofNat n) = some n :=
  if_pos small

theorem natural?_lt {limit n : Nat} {v : Value} (read : natural? limit v = some n) : n < limit := by
  unfold natural? at read
  split at read
  · obtain ⟨small, same⟩ := Option.ite_none_right_eq_some.mp read
    exact Option.some.inj same ▸ small
  · cases read

instance : LawfulCodec UInt64 where
  faithful n := by
    refine ⟨trivial, ?_⟩
    have read : natural? UInt64.size (ofNat n.toNat) = some n.toNat := natural?_ofNat n.toNat_lt
    simp only [Codec.decode?, Codec.encode, read, Option.map_some, UInt64.ofNat_toNat]

instance : LawfulCodec UInt32 where
  faithful n := by
    refine ⟨trivial, ?_⟩
    have read : natural? UInt32.size (ofNat n.toNat) = some n.toNat := natural?_ofNat n.toNat_lt
    simp only [Codec.decode?, Codec.encode, read, Option.map_some, UInt32.ofNat_toNat]

instance : LawfulCodec UInt8 where
  faithful n := by
    refine ⟨trivial, ?_⟩
    have read : natural? UInt8.size (ofNat n.toNat) = some n.toNat := natural?_ofNat n.toNat_lt
    simp only [Codec.decode?, Codec.encode, read, Option.map_some, UInt8.ofNat_toNat]

instance : LawfulCodec Bool where
  faithful _ := ⟨trivial, rfl⟩

end Integers

section Lists

theorem plainItems_iff {items : List Value} : PlainItems items ↔ ∀ v ∈ items, v.Plain := by
  induction items with
  | nil => simp [PlainItems]
  | cons v items ih => rw [PlainItems, ih, List.forall_mem_cons]

theorem decodeAll?_encode {α : Type} [Codec α] [LawfulCodec α] (as : List α) :
    decodeAll? (as.map Codec.encode) = some as := by
  induction as with
  | nil => rfl
  | cons a as ih =>
    simp only [List.map_cons, decodeAll?, decode?_encode, ih, Option.map_some]

instance {α : Type} [Codec α] [LawfulCodec α] : LawfulCodec (List α) where
  faithful as := by
    refine ⟨plainItems_iff.mpr ?_, decodeAll?_encode as⟩
    rintro v hv
    obtain ⟨a, -, rfl⟩ := List.mem_map.mp hv
    exact encode_plain a

theorem encodeBytes_plain (b : Bytes) : (encodeBytes b).Plain := encode_plain (α := List UInt8) b

@[simp] theorem decodeBytes?_encodeBytes (b : Bytes) : decodeBytes? (encodeBytes b) = some b :=
  decodeAll?_encode b

end Lists

section Texts

theorem chars?_map (cs : List Char) : Text.chars? (cs.map .char) = some cs := by
  induction cs with
  | nil => rfl
  | cons c cs ih =>
    rw [List.map_cons, Text.chars?, ih]
    rfl

theorem string?_ofString (s : String) : (Text.ofString s).string? = some s := by
  rw [Text.string?, Text.ofString, chars?_map, Option.map_some, String.ofList_toList]

/-- No character of the string has to be written as an escape for being a control character. -/
def Ordinary (s : String) : Prop := ∀ c ∈ s.toList, 0x20 ≤ c.toNat

/-- Character by character of the string, and not of all there are. -/
instance (s : String) : Decidable (Ordinary s) :=
  decidable_of_iff (s.toList.all fun c => decide (0x20 ≤ c.toNat)) (by
    simp only [List.all_eq_true, decide_eq_true_eq, Ordinary])

theorem plain_ofString {s : String} (ordinary : Ordinary s) : (Text.ofString s).Plain := by
  intro u hu
  obtain ⟨c, hc, rfl⟩ := List.mem_map.mp hu
  exact ⟨c, rfl, ordinary c hc⟩

end Texts

section Hex

theorem isBlank_digit {d : Nat} (small : d < 16) : isBlank (Hex.digit d) = false := by
  revert d
  decide

theorem digit_ordinary {d : Nat} (small : d < 16) : 0x20 ≤ (Hex.digit d).toNat := by
  revert d
  decide

theorem hexText?_marked (cs : List Char) :
    hexText? (.string (.ofString (String.ofList ('0' :: 'x' :: cs)))) = some cs := by
  rw [hexText?, Text.ofString, String.toList_ofList, chars?_map]
  rfl

theorem marked_plain {cs : List Char} (ordinary : ∀ c ∈ cs, 0x20 ≤ c.toNat) :
    (Value.string (.ofString (String.ofList ('0' :: 'x' :: cs)))).Plain := by
  refine plain_ofString ?_
  rw [Ordinary, String.toList_ofList, List.forall_mem_cons, List.forall_mem_cons]
  exact ⟨by decide, by decide, ordinary⟩

/-- Digits in pairs are the bytes that they write. -/
theorem pairs?_digits (ds : List Nat) (small : ∀ d ∈ ds, d < 16) (even : ds.length % 2 = 0) :
    ∃ b, pairs? none (ds.map Hex.digit) = some b ∧ b.length * 2 = ds.length ∧
      ∀ init, b.foldl (fun n x => n * 256 + x.toNat) init =
        ds.foldl (fun n d => n * 16 + d) init := by
  match ds with
  | [] => exact ⟨[], rfl, rfl, fun _ => rfl⟩
  | [_] => cases even
  | d :: e :: ds =>
    have hd := small d (by simp)
    have he := small e (by simp)
    obtain ⟨b, read, length, value⟩ := pairs?_digits ds (fun x hx => small x (by simp [hx]))
      (by rw [List.length_cons, List.length_cons] at even; omega)
    refine ⟨UInt8.ofNat (16 * d + e) :: b, ?_, by simp only [List.length_cons]; omega, fun init => ?_⟩
    · simp [pairs?, isBlank_digit hd, isBlank_digit he, Hex.value?_digit d hd, Hex.value?_digit e he,
        read]
    · have byte : (UInt8.ofNat (16 * d + e)).toNat = 16 * d + e :=
        UInt8.toNat_ofNat_of_lt' (by simp only [UInt8.size]; omega)
      rw [List.foldl_cons, List.foldl_cons, List.foldl_cons, value, byte]
      congr 1
      omega

theorem encode_eq_digits (b : Bytes) : ∃ ds : List Nat, Hex.encode b = ds.map Hex.digit ∧
    (∀ d ∈ ds, d < 16) ∧ ds.length = 2 * b.length ∧
      ∀ init, ds.foldl (fun n d => n * 16 + d) init = b.foldl (fun n x => n * 256 + x.toNat) init := by
  induction b with
  | nil => exact ⟨[], rfl, by simp, rfl, fun _ => rfl⟩
  | cons x b ih =>
    obtain ⟨ds, heq, small, length, value⟩ := ih
    have byte := x.toNat_lt
    refine ⟨x.toNat / 16 :: x.toNat % 16 :: ds, ?_, ?_, by simp [length]; omega, fun init => ?_⟩
    · rw [Hex.encode, List.flatMap_cons, ← Hex.encode, heq]
      rfl
    · rw [List.forall_mem_cons, List.forall_mem_cons]
      exact ⟨by omega, by omega, small⟩
    · rw [List.foldl_cons, List.foldl_cons, List.foldl_cons, value]
      congr 1
      omega

theorem toDigits_eq_digits (n : Nat) : ∃ ds : List Nat, Nat.toDigits 16 n = ds.map Hex.digit ∧
    (∀ d ∈ ds, d < 16) ∧ ds.foldl (fun n d => n * 16 + d) 0 = n := by
  have digit : ∀ d < 16, d.digitChar = Hex.digit d := by decide
  induction n using Nat.strongRecOn with
  | ind n ih =>
    rw [Nat.toDigits_eq_if (by decide)]
    split
    · rename_i small
      exact ⟨[n], by rw [digit n small]; rfl, by simpa using small, by simp⟩
    · rename_i large
      obtain ⟨ds, heq, small, value⟩ := ih (n / 16) (by omega)
      have last : n % 16 < 16 := by omega
      refine ⟨ds ++ [n % 16], by rw [heq, digit _ last, List.map_append]; rfl, ?_, ?_⟩
      · simpa [or_imp, forall_and, last] using small
      · rw [List.foldl_append, value]
        simp only [List.foldl_cons, List.foldl_nil]
        omega

theorem fixed?_ofFixed {bits width n : Nat} (whole : bits = 8 * width) (fits : n < 2 ^ bits) :
    fixed? width (ofFixed width n) = some n := by
  obtain ⟨ds, digits, small, length, value⟩ := encode_eq_digits (Bytes.ofNat width n)
  rw [Bytes.length_ofNat] at length
  obtain ⟨b, read, count, same⟩ := pairs?_digits ds small (by omega)
  have back : Bytes.toNat b = n := by
    rw [whole, Nat.pow_mul] at fits
    rw [Bytes.toNat, same, value, ← Bytes.toNat, Bytes.toNat_ofNat]
    exact Nat.mod_eq_of_lt fits
  have full : width - b.length = 0 := by omega
  rw [fixed?, ofFixed, Hex.fixed, Hex.text, hexText?_marked, digits]
  simp [length, read, full, back]

theorem ofFixed_plain (width n : Nat) : (ofFixed width n).Plain := by
  obtain ⟨ds, digits, small, -⟩ := encode_eq_digits (Bytes.ofNat width n)
  refine marked_plain fun c hc => ?_
  rw [digits] at hc
  obtain ⟨d, hd, rfl⟩ := List.mem_map.mp hc
  exact digit_ordinary (small d hd)

instance : LawfulCodec Hash where
  faithful h := by
    refine ⟨ofFixed_plain 32 h.toNat, ?_⟩
    have read : fixed? 32 (ofFixed 32 h.toNat) = some h.toNat :=
      fixed?_ofFixed rfl h.isLt
    simp only [Codec.decode?, Codec.encode, read, Option.map_some, BitVec.ofNat_toNat,
      BitVec.setWidth_eq]

instance : LawfulCodec Address where
  faithful a := by
    refine ⟨ofFixed_plain 20 a.toNat, ?_⟩
    have read : fixed? 20 (ofFixed 20 a.toNat) = some a.toNat :=
      fixed?_ofFixed rfl a.isLt
    simp only [Codec.decode?, Codec.encode, read, Option.map_some, BitVec.ofNat_toNat,
      BitVec.setWidth_eq]

instance : LawfulCodec Bloom where
  faithful b := by
    refine ⟨ofFixed_plain 256 b.toNat, ?_⟩
    have read : fixed? 256 (ofFixed 256 b.toNat) = some b.toNat :=
      fixed?_ofFixed (show 2048 = 8 * 256 from rfl) b.isLt
    simp only [Codec.decode?, Codec.encode, read, Option.map_some, BitVec.ofNat_toNat,
      BitVec.setWidth_eq]

instance : LawfulCodec U256 where
  faithful x := by
    obtain ⟨ds, digits, small, value⟩ := toDigits_eq_digits x.toNat
    have nonempty : ¬ ((ds.map Hex.digit).isEmpty ∨ (ds.map Hex.digit).length > 64) := by
      rw [← digits, List.isEmpty_iff, not_or]
      exact ⟨Nat.toDigits_ne_nil, Nat.not_lt.mpr
        ((Nat.length_toDigits_le_iff (by decide) (by decide)).mpr x.toNat_lt)⟩
    refine ⟨?_, ?_⟩
    · refine marked_plain fun c hc => ?_
      rw [Hex.ofNat, digits] at hc
      obtain ⟨d, hd, rfl⟩ := List.mem_map.mp hc
      exact digit_ordinary (small d hd)
    · obtain ⟨b, read, whole⟩ : ∃ b, pairs? (if (ds.map Hex.digit).length % 2 = 1 then some 0
          else none) (ds.map Hex.digit) = some b ∧ Bytes.toNat b = x.toNat := by
        rw [List.length_map]
        split
        · rename_i odd
          obtain ⟨b, read, -, same⟩ := pairs?_digits (0 :: ds)
            (List.forall_mem_cons.mpr ⟨by decide, small⟩) (by rw [List.length_cons]; omega)
          exact ⟨b, read, (same 0).trans value⟩
        · obtain ⟨b, read, -, same⟩ := pairs?_digits ds small (by omega)
          exact ⟨b, read, (same 0).trans value⟩
      simp only [Codec.decode?, Codec.encode, Hex.ofNat, digits, hexText?_marked,
        Option.bind_eq_bind, Option.bind_some, nonempty, if_false, read, whole]
      exact congrArg some (U256.toNat_inj (by simp [U256.toNat, U256.ofNat]))

end Hex
end ChainSync.Json
