import Mathlib.Data.List.Basic
import Mathlib.Data.List.TakeDrop
import ChainSync.Json.Codec
set_option autoImplicit false

/-!
What is written is read back, as far as its text says all of it: numbers are natural, and texts are
made of characters that stand for themselves.
-/

namespace ChainSync.Json

/-- Characters that are no control characters, and no escapes. -/
def Text.Plain (t : Text) : Prop := ∀ u ∈ t, ∃ c : Char, u = .char c ∧ 0x20 ≤ c.toNat

mutual

def Value.Plain : Value → Prop
  | .null => True
  | .bool _ => True
  | .number (.natural _) => True
  | .number _ => False
  | .string t => t.Plain
  | .array items => PlainItems items
  | .object fields => PlainFields fields

def PlainItems : List Value → Prop
  | [] => True
  | v :: rest => v.Plain ∧ PlainItems rest

def PlainFields : List (Text × Value) → Prop
  | [] => True
  | (k, v) :: rest => k.Plain ∧ v.Plain ∧ PlainFields rest

end

/-- Nothing that goes on with a number stands at the start. -/
def Ends (rest : List Char) : Prop :=
  ∀ c tail, rest = c :: tail → isDigit c = false ∧ c ≠ '.' ∧ c ≠ 'e' ∧ c ≠ 'E'

theorem ends_nil : Ends [] := nofun

theorem ends_cons (c : Char) (tail : List Char)
    (h : isDigit c = false ∧ c ≠ '.' ∧ c ≠ 'e' ∧ c ≠ 'E') : Ends (c :: tail) := by
  rintro _ _ ⟨⟩
  exact h

section Texts

theorem text?_shortEscape {e c : Char} (escape : shortEscape? e = some c) (notUnicode : e ≠ 'u')
    (rest : List Char) :
    text? ('\\' :: e :: rest) = (text? rest).map fun (t, rest) => (.char c :: t, rest) := by
  rw [text?.eq_def]
  split
  · cases ‹_›
  · rename_i heq
    cases heq
  · rename_i heq
    exact absurd (List.cons.inj (List.cons.inj heq).2).1 notUnicode
  · rename_i heq
    obtain ⟨rfl, rfl⟩ := List.cons.inj (List.cons.inj heq).2
    rw [escape]
    cases text? rest <;> rfl
  · rename_i others heq
    obtain ⟨rfl, rfl⟩ := List.cons.inj heq
    exact absurd rfl (others e rest rfl)

theorem text?_char {c : Char} (ordinary : ¬ c.toNat < 0x20) (noQuote : c ≠ '"')
    (noBackslash : c ≠ '\\') (rest : List Char) :
    text? (c :: rest) = (text? rest).map fun (t, rest) => (.char c :: t, rest) := by
  rw [text?.eq_def]
  split
  · cases ‹_›
  · rename_i heq
    exact absurd (List.cons.inj heq).1 noQuote
  · rename_i heq
    exact absurd (List.cons.inj heq).1 noBackslash
  · rename_i heq
    exact absurd (List.cons.inj heq).1 noBackslash
  · rename_i heq
    obtain ⟨rfl, rfl⟩ := List.cons.inj heq
    rw [if_neg noBackslash]
    simp only [ordinary, if_false]
    cases text? rest <;> rfl

theorem text?_writeChar {c : Char} (ordinary : 0x20 ≤ c.toNat) (rest : List Char) :
    text? (writeChar c ++ rest) = (text? rest).map fun (t, rest) => (.char c :: t, rest) := by
  have shown : ¬ c.toNat < 0x20 := Nat.not_lt.mpr ordinary
  unfold writeChar
  split
  · rename_i quote
    rw [quote]
    exact text?_shortEscape rfl (by decide) rest
  · split
    · rename_i backslash
      rw [backslash]
      exact text?_shortEscape rfl (by decide) rest
    · exact text?_char shown ‹_› ‹_› rest

theorem text?_writeUnits {t : Text} (plain : t.Plain) (rest : List Char) :
    text? (t.flatMap writeUnit ++ '"' :: rest) = some (t, rest) := by
  induction t with
  | nil => rfl
  | cons u t ih =>
    obtain ⟨c, rfl, ordinary⟩ := plain u (List.mem_cons_self ..)
    rw [List.flatMap_cons, List.append_assoc]
    refine (text?_writeChar ordinary _).trans ?_
    rw [ih fun u hu => plain u (List.mem_cons_of_mem _ hu)]
    rfl

end Texts

section Numbers

theorem digits?_append {ds rest : List Char} (digits : ∀ c ∈ ds, isDigit c = true)
    (nonempty : ds ≠ []) (ends : Ends rest) : digits? (ds ++ rest) = some (ds, rest) := by
  have stop : rest.takeWhile isDigit = [] ∧ rest.dropWhile isDigit = rest := by
    cases rest with
    | nil => exact ⟨rfl, rfl⟩
    | cons c tail => simp [(ends c tail rfl).1]
  have split : (ds ++ rest).span isDigit = (ds, rest) := by
    rw [List.span_eq_takeWhile_dropWhile, List.takeWhile_append_of_pos digits,
      List.dropWhile_append_of_pos digits, stop.1, stop.2, List.append_nil]
  cases ds with
  | nil => exact absurd rfl nonempty
  | cons d ds => rw [digits?, split]

theorem exponent?_ends {rest : List Char} (ends : Ends rest) :
    exponent? rest = some (none, rest) := by
  cases rest with
  | nil => rfl
  | cons c tail =>
    obtain ⟨-, -, small, large⟩ := ends c tail rfl
    simp [exponent?, small, large]

theorem head_toDigits {n : Nat} (zero : (Nat.toDigits 10 n).head? = some '0') : n = 0 := by
  induction n using Nat.strongRecOn with
  | ind n ih =>
    rw [Nat.toDigits_eq_if (by decide)] at zero
    split at zero
    · simpa using zero
    · rename_i large
      rw [List.head?_append_of_ne_nil _ Nat.toDigits_ne_nil] at zero
      have quotient := ih (n / 10) (by omega) zero
      omega

theorem digitsValue_toDigits (n : Nat) : digitsValue (Nat.toDigits 10 n) = n := by
  have same := Nat.ofDigitChars_ten_toDigits (n := n)
  simpa only [Nat.ofDigitChars_eq_foldl, digitsValue, Nat.mul_comm] using same

theorem number?_natural (n : Nat) {rest : List Char} (ends : Ends rest) :
    number? ((toString n).toList ++ rest) = some (.natural n, rest) := by
  have digits : ∀ c ∈ Nat.toDigits 10 n, isDigit c = true := fun c hc =>
    Nat.isDigit_of_mem_toDigits (by decide) (by decide) hc
  have whole := digits?_append digits Nat.toDigits_ne_nil ends
  have lone : ¬ ((Nat.toDigits 10 n).length > 1 ∧ (Nat.toDigits 10 n).head? = some '0') := by
    rintro ⟨long, zero⟩
    rw [head_toDigits zero] at long
    exact absurd long (by decide)
  rw [Nat.toString_eq_repr, Nat.toList_repr]
  have value := digitsValue_toDigits n
  have nonempty : Nat.toDigits 10 n ≠ [] := Nat.toDigits_ne_nil
  generalize Nat.toDigits 10 n = ds at *
  unfold number?
  simp only [Option.bind_eq_bind]
  split
  · rename_i negative
    cases ds with
    | nil => exact absurd rfl nonempty
    | cons d ds =>
      obtain ⟨rfl, -⟩ := List.cons.inj negative
      exact absurd (digits '-' (List.mem_cons_self ..)) (by decide)
  · rw [whole, Option.bind_some, if_neg lone]
    split
    · rename_i tail point
      exact absurd rfl (ends '.' tail point).2.1
    · simp only [Option.bind_some, exponent?_ends ends, value]
      rfl

end Numbers

section Values

theorem skipBlank_cons {c : Char} (ink : isBlank c = false) (rest : List Char) :
    skipBlank (c :: rest) = c :: rest := by
  simp [skipBlank, ink]

theorem toString_cons (n : Nat) : ∃ c tail, (toString n).toList = c :: tail ∧ c.isDigit = true := by
  rw [Nat.toString_eq_repr, Nat.toList_repr]
  cases digits : Nat.toDigits 10 n with
  | nil => exact absurd digits Nat.toDigits_ne_nil
  | cons c tail =>
    exact ⟨c, tail, rfl, Nat.isDigit_of_mem_toDigits (by decide) (by decide)
      (digits ▸ List.mem_cons_self ..)⟩

/-- What starts a number starts nothing else. -/
theorem ne_of_isDigit {c d : Char} (digit : c.isDigit = true) (other : d.isDigit = false) : c ≠ d := by
  rintro rfl
  rw [digit] at other
  cases other

theorem isBlank_of_isDigit {c : Char} (digit : c.isDigit = true) : isBlank c = false := by
  simp only [isBlank, Bool.or_eq_false_iff, beq_eq_false_iff_ne]
  exact ⟨⟨⟨ne_of_isDigit digit rfl, ne_of_isDigit digit rfl⟩, ne_of_isDigit digit rfl⟩,
    ne_of_isDigit digit rfl⟩

/-- A value starts with a character that is no blank and closes nothing. -/
theorem write_cons (v : Value) : ∃ c tail, write v = c :: tail ∧ isBlank c = false ∧ c ≠ ']' := by
  cases v with
  | null => exact ⟨_, _, rfl, rfl, by decide⟩
  | bool b => cases b <;> exact ⟨_, _, rfl, rfl, by decide⟩
  | number n =>
    cases n with
    | natural n =>
      obtain ⟨c, tail, heq, digit⟩ := toString_cons n
      exact ⟨c, tail, heq, isBlank_of_isDigit digit, ne_of_isDigit digit rfl⟩
    | negative n => exact ⟨_, _, rfl, rfl, by decide⟩
    | other huge => exact ⟨_, _, rfl, rfl, by decide⟩
  | string t => exact ⟨_, _, rfl, rfl, by decide⟩
  | array items => exact ⟨_, _, rfl, rfl, by decide⟩
  | object fields => exact ⟨_, _, rfl, rfl, by decide⟩

theorem value?_number (n : Nat) (fuel : Nat) {rest : List Char} (ends : Ends rest) :
    value? (fuel + 1) ((toString n).toList ++ rest) = some (.number (.natural n), rest) := by
  obtain ⟨c, tail, heq, digit⟩ := toString_cons n
  have read := number?_natural n ends
  rw [heq, List.cons_append] at read ⊢
  rw [value?, skipBlank_cons (isBlank_of_isDigit digit)]
  split
  case h_7 => rw [read]; rfl
  all_goals
    rename_i other
    exact absurd (List.cons.inj other).1 (ne_of_isDigit digit rfl)

theorem writeItems_cons (v : Value) (items : List Value) :
    ∃ c tail, writeItems (v :: items) = c :: tail ∧ isBlank c = false ∧ c ≠ ']' := by
  obtain ⟨c, tail, heq, h⟩ := write_cons v
  cases items with
  | nil => exact ⟨c, tail, heq, h⟩
  | cons w items => exact ⟨c, tail ++ ',' :: writeItems (w :: items), congrArg (· ++ _) heq, h⟩

theorem writeFields_cons (k : Text) (v : Value) (fields : List (Text × Value)) :
    ∃ tail, writeFields ((k, v) :: fields) = '"' :: tail := by
  cases fields with
  | nil => exact ⟨_, rfl⟩
  | cons field fields => exact ⟨_, rfl⟩

mutual

theorem value?_write {v : Value} (plain : v.Plain) {fuel : Nat}
    (enough : 2 * (write v).length ≤ fuel) {rest : List Char} (ends : Ends rest) :
    value? fuel (write v ++ rest) = some (v, rest) := by
  obtain ⟨c, tail, heq, -⟩ := write_cons v
  obtain ⟨fuel, rfl⟩ : ∃ n, fuel = n + 1 := ⟨fuel - 1, by rw [heq, List.length_cons] at enough; omega⟩
  match v, plain with
  | .null, _ => rfl
  | .bool true, _ => rfl
  | .bool false, _ => rfl
  | .number (.natural n), _ => exact value?_number n fuel ends
  | .string t, plain =>
    rw [write, writeText, List.cons_append, List.append_assoc, List.singleton_append, value?,
      skipBlank_cons rfl]
    simp only [text?_writeUnits plain rest, Option.map_some]
  | .array [], _ => rfl
  | .array (v :: items), plain =>
    have within : 2 * (writeItems (v :: items)).length + 1 ≤ fuel := by
      simp only [write, List.length_cons, List.length_append] at enough
      omega
    have read := items?_write plain within rest
    obtain ⟨c, tail, heq, ink, opened⟩ := writeItems_cons v items
    rw [write, List.cons_append, List.append_assoc, List.singleton_append, value?,
      skipBlank_cons rfl]
    rw [heq, List.cons_append] at read ⊢
    simp only [skipBlank_cons ink]
    split
    · rename_i closed
      exact absurd (List.cons.inj closed).1 opened
    · rw [read]
      rfl
  | .object [], _ => rfl
  | .object ((k, v) :: fields), plain =>
    have within : 2 * (writeFields ((k, v) :: fields)).length + 1 ≤ fuel := by
      simp only [write, List.length_cons, List.length_append] at enough
      omega
    have read := members?_write plain within rest
    obtain ⟨tail, heq⟩ := writeFields_cons k v fields
    rw [write, List.cons_append, List.append_assoc, List.singleton_append, value?,
      skipBlank_cons rfl]
    rw [heq, List.cons_append] at read ⊢
    simp only [skipBlank_cons (show isBlank '"' = false from rfl)]
    split
    · rename_i closed
      exact absurd (List.cons.inj closed).1 (by decide)
    · rw [read]
      rfl
termination_by fuel

theorem items?_write {v : Value} {items : List Value} (plain : PlainItems (v :: items)) {fuel : Nat}
    (enough : 2 * (writeItems (v :: items)).length + 1 ≤ fuel) (rest : List Char) :
    items? fuel (writeItems (v :: items) ++ ']' :: rest) = some (v :: items, rest) := by
  obtain ⟨fuel, rfl⟩ : ∃ n, fuel = n + 1 := ⟨fuel - 1, by omega⟩
  match items, plain with
  | [], ⟨plain, _⟩ =>
    have within : 2 * (write v).length ≤ fuel := by
      simp only [writeItems] at enough
      omega
    have read := value?_write plain within (ends_cons ']' rest (by decide))
    rw [writeItems, items?, read]
    simp only [skipBlank_cons (show isBlank ']' = false from rfl)]
  | w :: items, ⟨plain, others⟩ =>
    obtain ⟨within, less⟩ : 2 * (write v).length ≤ fuel ∧
        2 * (writeItems (w :: items)).length + 1 ≤ fuel := by
      rw [writeItems, List.length_append, List.length_cons] at enough
      · exact ⟨by omega, by omega⟩
      · exact nofun
    have read := value?_write plain within
      (ends_cons ',' (writeItems (w :: items) ++ ']' :: rest) (by decide))
    have later := items?_write others less rest
    rw [writeItems, List.append_assoc, List.cons_append, items?, read]
    · simp only [skipBlank_cons (show isBlank ',' = false from rfl), later, Option.map_some]
    · exact nofun
termination_by fuel

theorem members?_write {k : Text} {v : Value} {fields : List (Text × Value)}
    (plain : PlainFields ((k, v) :: fields)) {fuel : Nat}
    (enough : 2 * (writeFields ((k, v) :: fields)).length + 1 ≤ fuel) (rest : List Char) :
    members? fuel (writeFields ((k, v) :: fields) ++ '\x7d' :: rest) =
      some ((k, v) :: fields, rest) := by
  obtain ⟨fuel, rfl⟩ : ∃ n, fuel = n + 1 := ⟨fuel - 1, by omega⟩
  match fields, plain with
  | [], ⟨key, plain, _⟩ =>
    have within : 2 * (write v).length ≤ fuel := by
      simp only [writeFields, List.length_append, List.length_cons] at enough
      omega
    have read := value?_write plain within (ends_cons '\x7d' rest (by decide))
    rw [writeFields, writeText]
    simp only [List.cons_append, List.append_assoc, List.nil_append, members?,
      skipBlank_cons (show isBlank '"' = false from rfl), text?_writeUnits key,
      skipBlank_cons (show isBlank ':' = false from rfl), read,
      skipBlank_cons (show isBlank '\x7d' = false from rfl)]
  | (l, w) :: fields, ⟨key, plain, others⟩ =>
    obtain ⟨within, less⟩ : 2 * (write v).length ≤ fuel ∧
        2 * (writeFields ((l, w) :: fields)).length + 1 ≤ fuel := by
      rw [writeFields] at enough
      · simp only [List.length_append, List.length_cons] at enough
        exact ⟨by omega, by omega⟩
      · exact nofun
    have read := value?_write plain within
      (ends_cons ',' (writeFields ((l, w) :: fields) ++ '\x7d' :: rest) (by decide))
    have later := members?_write others less rest
    rw [writeFields, writeText]
    · simp only [List.cons_append, List.append_assoc, List.nil_append, members?,
        skipBlank_cons (show isBlank '"' = false from rfl), text?_writeUnits key,
        skipBlank_cons (show isBlank ':' = false from rfl), read,
        skipBlank_cons (show isBlank ',' = false from rfl), later, Option.map_some]
    · exact nofun
termination_by fuel

end

theorem read?_text {v : Value} (plain : v.Plain) : read? (text v) = some v := by
  have enough : 2 * (write v).length ≤ 2 * (text v).length + 2 := by
    rw [text, String.length_ofList]
    omega
  have read := value?_write plain enough ends_nil
  rw [List.append_nil] at read
  rw [read?, text, String.toList_ofList]
  rw [text] at read
  rw [read]
  rfl

end Values
end ChainSync.Json
