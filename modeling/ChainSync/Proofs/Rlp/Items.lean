import Mathlib.Data.List.Induction
import ChainSync.Proofs.Rlp.Lists
import ChainSync.Rlp.Item
set_option autoImplicit false

/-!
Nested items. In front of any other bytes an encoded item tells what it is and where it ends, and it
does not matter in which way its lists were written.
-/

namespace ChainSync

namespace Bytes

theorem eq_minimal_toNat {b : Bytes} (h : b.head? ≠ some 0) : b = minimal (toNat b) := by
  induction b using List.reverseRecOn with
  | nil => rw [toNat_nil, minimal_zero]
  | append_singleton b x ih =>
    have small := x.toNat_lt
    have front : b = minimal (toNat b) := by
      cases b with
      | nil => rw [toNat_nil, minimal_zero]
      | cons y b => exact ih (by simpa using h)
    have ne : toNat (b ++ [x]) ≠ 0 := by
      intro hz
      rw [toNat_concat] at hz
      rw [show toNat b = 0 by omega, minimal_zero] at front
      subst front
      exact h (by simpa [← UInt8.toNat_inj] using hz)
    have digits : (toNat b * 256 + x.toNat) / 256 = toNat b ∧
        (toNat b * 256 + x.toNat) % 256 = x.toNat := by omega
    rw [minimal_of_ne ne, toNat_concat, digits.1, digits.2, ← front, UInt8.ofNat_toNat]

theorem head?_trim (b : Bytes) : b.trim.head? ≠ some 0 := by
  intro h
  have := List.head?_dropWhile_not (· == (0 : UInt8)) b
  rw [show b.dropWhile (· == (0 : UInt8)) = b.trim from rfl, h] at this
  simp at this

theorem trim_ofNat {w n : Nat} (h : n < 256 ^ w) : (ofNat w n).trim = minimal n := by
  rw [eq_minimal_toNat (head?_trim _), toNat_trim, toNat_ofNat, Nat.pow_eq, Nat.mod_eq_of_lt h]

end Bytes

namespace Rlp

theorem u64_eq_bytes (n : UInt64) : u64 n = bytes (Bytes.minimal n.toNat) := by
  rw [u64, word_eq_bytes (by omega), Bytes.trim_ofNat n.toNat_lt]

/-- Below 192 an item starts as a byte string, from there on as a list. -/
theorem bytes_head_lt {b : Bytes} (hb : b.length < 2 ^ 64) :
    ∃ head tail, bytes b = head :: tail ∧ head.toNat < 192 := by
  obtain ⟨head, tail, eq, form⟩ := bytes_head hb
  have hmax : (Bytes.minimal b.length).length ≤ 8 := Bytes.length_minimal_le (by simpa using hb)
  exact ⟨head, tail, eq, by omega⟩

theorem le_listHead_head {n : Nat} (hn : n < 2 ^ 64) :
    ∃ head tail, listHead n = head :: tail ∧ 192 ≤ head.toNat := by
  obtain ⟨head, tail, eq, form⟩ := listHead_form hn
  exact ⟨head, tail, eq, by omega⟩

theorem bytes_ne_list {b payload s t : Bytes} (hb : b.length < 2 ^ 64)
    (hp : payload.length < 2 ^ 64) :
    bytes b ++ s ≠ (listHead payload.length ++ payload) ++ t := by
  obtain ⟨x, tail, ex, below⟩ := bytes_head_lt hb
  obtain ⟨y, tail', ey, above⟩ := le_listHead_head hp
  intro h
  rw [ex, ey, List.cons_append, List.cons_append, List.cons_append] at h
  obtain ⟨rfl, -⟩ := List.cons.inj h
  omega

namespace Item

/-- What stands behind the head of an item. -/
def payload : Item → Bytes
  | .bytes b => b
  | .list items => encodeAll items

theorem encodeAll_eq_flatten (items : List Item) : encodeAll items = (items.map encode).flatten := by
  induction items with
  | nil => rfl
  | cons x items ih => rw [encodeAll, ih, List.map_cons, List.flatten_cons]

theorem encode_list (items : List Item) : (Item.list items).encode = record (items.map encode) := by
  rw [encode, record_eq, encodeAll_eq_flatten]

theorem length_payload_le (x : Item) : x.payload.length ≤ x.encode.length := by
  cases x with
  | bytes b => exact length_le_bytes b
  | list items =>
    rw [payload, encode, List.length_append]
    omega

theorem encode_ne_nil (x : Item) : x.encode ≠ [] := by
  cases x with
  | bytes b => exact delimited_bytes.nonempty b
  | list items =>
    rw [encode_list]
    exact List.ne_nil_of_length_pos (Nat.zero_lt_of_lt (length_flatten_lt_record _))

mutual

theorem encode_append_inj : ∀ {x y : Item} {s t : Bytes}, x.payload.length < 2 ^ 64 →
    y.payload.length < 2 ^ 64 → x.encode ++ s = y.encode ++ t → x = y ∧ s = t
  | .bytes b, .bytes c, s, t, hx, hy, h => by
    obtain ⟨rfl, rest⟩ := bytes_append_inj hx hy h
    exact ⟨rfl, rest⟩
  | .bytes b, .list items, s, t, hx, hy, h => absurd h (bytes_ne_list hx hy)
  | .list items, .bytes c, s, t, hx, hy, h => absurd h.symm (bytes_ne_list hy hx)
  | .list items, .list others, s, t, hx, hy, h => by
    rw [encode, encode, List.append_assoc, List.append_assoc] at h
    obtain ⟨hlen, hrest⟩ := listHead_append_inj hx hy h
    obtain ⟨same, rest⟩ := List.append_inj hrest hlen
    exact ⟨congrArg Item.list (encodeAll_inj hx same), rest⟩

/-- The payload of a list is cut where its items end. -/
theorem encodeAll_inj : ∀ {xs ys : List Item}, (encodeAll xs).length < 2 ^ 64 →
    encodeAll xs = encodeAll ys → xs = ys
  | [], [], _, _ => rfl
  | [], y :: ys, _, h => absurd (List.append_eq_nil_iff.mp h.symm).1 y.encode_ne_nil
  | x :: xs, [], _, h => absurd (List.append_eq_nil_iff.mp h).1 x.encode_ne_nil
  | x :: xs, y :: ys, hlen, h => by
    have hlen' := hlen
    rw [h] at hlen'
    rw [encodeAll, List.length_append] at hlen hlen'
    have hx := x.length_payload_le
    have hy := y.length_payload_le
    obtain ⟨rfl, rest⟩ := encode_append_inj (by omega) (by omega) h
    rw [encodeAll_inj (by omega) rest]

end

end Item

mutual

/-- A value is written as the item it stands for. -/
theorem Layout.encode_item : ∀ l : Layout, l.encode = l.item.encode
  | .bytes b => rfl
  | .word n => u64_eq_bytes n
  | .list parts => by
    rw [encode, item, Item.encode_list, list_eq_record, encodeEach_items parts]
  | .record parts => by rw [encode, item, Item.encode_list, encodeEach_items parts]

theorem Layout.encodeEach_items : ∀ parts : List Layout,
    encodeEach parts = (items parts).map Item.encode
  | [] => rfl
  | x :: rest => by rw [encodeEach, items, List.map_cons, encode_item x, encodeEach_items rest]

end

/-- Encoded items can be told apart, whatever follows them, as long as every length fits eight
bytes. Fields gathered one by one are written like a list of them, at every depth. -/
theorem items_uniquely_decodable :
    (∀ (x y : Item) (s t : Bytes), x.payload.length < 2 ^ 64 → y.payload.length < 2 ^ 64 →
      x.encode ++ s = y.encode ++ t → x = y ∧ s = t) ∧
    (∀ fields : List Bytes, record fields = list fields) ∧
    (∀ items : List Item, (Item.list items).encode = list (items.map Item.encode)) ∧
    ∀ value : Layout, value.encode = value.item.encode :=
  ⟨fun _ _ _ _ => Item.encode_append_inj, fun fields => (list_eq_record fields).symm,
    fun items => (Item.encode_list items).trans (list_eq_record _).symm, Layout.encode_item⟩

/-- The shortest string that needs a length of its own is not taken for the longest list that needs
none, whatever follows either. -/
theorem items_uniquely_decodable_at_the_border :
    let string : Item := .bytes (List.replicate 56 0)
    let items : Item := .list [.bytes (List.replicate 54 0)]
    string.encode.take 2 = [0xb8, 56] ∧ items.encode.take 2 = [0xf7, 0xb6] ∧
      ¬ ∃ s t : Bytes, string.encode ++ s = items.encode ++ t := by
  intro string items
  have eight : Bytes.minimal 56 = [56] := by
    rw [Bytes.minimal_of_ne (by decide), Bytes.minimal_zero]
    rfl
  refine ⟨?_, rfl, ?_⟩
  · simp [string, Item.encode, bytes, bytesHead, eight]
  · rintro ⟨s, t, h⟩
    obtain ⟨same, -⟩ := items_uniquely_decodable.1 string items s t (by decide) (by decide) h
    simp [string, items] at same

end Rlp
end ChainSync
