import Mathlib.Data.List.Nodup
import ChainSync.Json.Block
import ChainSync.Json.Fork
import ChainSync.Json.Sync
import ChainSync.Proofs.Json.Codecs
set_option autoImplicit false

/-!
What is written in JSON is read back as it was.
-/

namespace ChainSync

open Json

namespace Json

section Records

variable {names known : List String} {values : List Value}

/-- Names that tell fields apart and stand for themselves in a text. -/
def FieldNames (names : List String) : Prop :=
  names.Nodup ∧ ∀ name ∈ names, Ordinary name

instance (names : List String) : Decidable (FieldNames names) :=
  inferInstanceAs (Decidable (_ ∧ _))

theorem lookup_zip_of_notMem {name : String} (fresh : name ∉ names) :
    (names.zip values).lookup name = none := by
  refine List.lookup_eq_none_iff.mpr fun p hp => ?_
  rw [bne_iff_ne]
  rintro rfl
  exact fresh (List.of_mem_zip hp).1

theorem collect?_zip (unique : names.Nodup) (within : ∀ name ∈ names, name ∈ known) :
    collect? known ((names.map Text.ofString).zip values) = some (names.zip values) := by
  induction names generalizing values with
  | nil => rfl
  | cons name names ih =>
    cases values with
    | nil => rfl
    | cons v values =>
      obtain ⟨fresh, unique⟩ := List.nodup_cons.mp unique
      obtain ⟨here, within⟩ := List.forall_mem_cons.mp within
      simp [collect?, string?_ofString, ih unique within, lookup_zip_of_notMem fresh, here]

theorem lookup_zip (unique : names.Nodup) (length : names.length = values.length) :
    names.map (fun name => (names.zip values).lookup name) = values.map some := by
  induction names generalizing values with
  | nil => rw [List.length_eq_zero_iff.mp length.symm]; rfl
  | cons name names ih =>
    cases values with
    | nil => cases length
    | cons v values =>
      obtain ⟨fresh, unique⟩ := List.nodup_cons.mp unique
      rw [List.map_cons, List.map_cons, ← ih unique (Nat.succ.inj length), List.zip_cons_cons,
        List.lookup_cons_self]
      refine congrArg _ (List.map_congr_left fun n hn => ?_)
      have other : (n == name) = false := beq_eq_false_iff_ne.mpr (ne_of_mem_of_not_mem hn fresh)
      rw [List.lookup_cons, other]

theorem record?_ofRecord (named : FieldNames names) (length : names.length = values.length) :
    record? names (ofRecord names values) = some (values.map some) := by
  change (collect? names ((names.map Text.ofString).zip values)).map _ = _
  rw [collect?_zip named.1 fun _ h => h]
  exact congrArg some (lookup_zip named.1 length)

theorem plainFields_iff {fields : List (Text × Value)} :
    PlainFields fields ↔ ∀ f ∈ fields, f.1.Plain ∧ f.2.Plain := by
  induction fields with
  | nil => simp [PlainFields]
  | cons f fields ih => rw [PlainFields, ih, List.forall_mem_cons, and_assoc]

theorem ofRecord_plain (named : FieldNames names) (plain : ∀ v ∈ values, v.Plain) :
    (ofRecord names values).Plain := by
  refine plainFields_iff.mpr fun f hf => ?_
  obtain ⟨hkey, hvalue⟩ := List.of_mem_zip hf
  obtain ⟨name, hname, heq⟩ := List.mem_map.mp hkey
  exact ⟨heq ▸ plain_ofString (named.2 name hname), plain f.2 hvalue⟩

end Records
end Json

section Blocks

theorem decodeTransactions?_encode (transactions : List Bytes) :
    decodeTransactions? (transactions.map encodeBytes) = some transactions := by
  induction transactions with
  | nil => rfl
  | cons b transactions ih =>
    simp only [List.map_cons, decodeTransactions?, decodeBytes?_encodeBytes, ih, Option.map_some]

instance : LawfulCodec Header where
  faithful h := by
    have named : FieldNames Header.fieldNames := by decide +kernel
    refine ⟨ofRecord_plain named ?_, ?_⟩
    · simp [encode_plain, encodeBytes_plain]
    · unfold Codec.decode? Codec.encode Header.instCodec
      dsimp only
      rw [record?_ofRecord named rfl]
      simp only [List.map_cons, List.map_nil, decode?_encode, decodeBytes?_encodeBytes,
        Option.bind_eq_bind, Option.bind_some, Option.pure_def]

instance : LawfulCodec Body where
  faithful b := by
    have named : FieldNames ["transactions", "uncles"] := by decide
    have transactions : (Value.array (b.transactions.map encodeBytes)).Plain :=
      plainItems_iff.mpr (by simp [encodeBytes_plain])
    refine ⟨ofRecord_plain named ?_, ?_⟩
    · simp [transactions, encode_plain]
    · unfold Codec.decode? Codec.encode instCodecBody
      dsimp only
      rw [record?_ofRecord named rfl]
      simp [decodeTransactions?_encode]

instance : LawfulCodec Block where
  faithful b := by
    have named : FieldNames ["header", "body"] := by decide
    refine ⟨ofRecord_plain named ?_, ?_⟩
    · simp [encode_plain]
    · unfold Codec.decode? Codec.encode instCodecBlock
      dsimp only
      rw [record?_ofRecord named rfl]
      simp

instance : LawfulCodec Log where
  faithful l := by
    have named : FieldNames ["address", "topics", "data"] := by decide
    refine ⟨ofRecord_plain named ?_, ?_⟩
    · simp [encode_plain, encodeBytes_plain]
    · unfold Codec.decode? Codec.encode instCodecLog
      dsimp only
      rw [record?_ofRecord named rfl]
      simp

instance : LawfulCodec Receipt where
  faithful r := by
    have named : FieldNames ["succeeded", "cumulativeGasUsed", "bloom", "logs"] := by
      decide +kernel
    refine ⟨ofRecord_plain named ?_, ?_⟩
    · simp [encode_plain]
    · unfold Codec.decode? Codec.encode instCodecReceipt
      dsimp only
      rw [record?_ofRecord named rfl]
      simp

end Blocks

section Chains

instance : LawfulCodec Fork.Id where
  faithful id := by
    have named : FieldNames ["fork_hash", "fork_next"] := by decide
    have checksum : fixed? 4 (ofFixed 4 id.checksum.toNat) = some id.checksum.toNat :=
      fixed?_ofFixed (show 32 = 8 * 4 from rfl) id.checksum.toNat_lt
    refine ⟨ofRecord_plain named ?_, ?_⟩
    · simp [ofFixed_plain, encode_plain]
    · unfold Codec.decode? Codec.encode Fork.instCodecId
      dsimp only
      rw [record?_ofRecord named rfl]
      simp [checksum]

instance : LawfulCodec Fork.Schedule where
  faithful s := by
    have named : FieldNames ["chainId", "forkActivationBlocks"] := by decide +kernel
    refine ⟨ofRecord_plain named ?_, ?_⟩
    · simp [encode_plain]
    · unfold Codec.decode? Codec.encode Fork.instCodecSchedule
      dsimp only
      rw [record?_ofRecord named rfl]
      simp

end Chains

section Requests

instance : LawfulCodec Category where
  faithful c := by
    refine ⟨?_, ?_⟩
    · refine plain_ofString ?_
      cases c <;> decide
    · unfold Codec.decode? Codec.encode Category.instCodec
      dsimp only
      rw [string?_ofString]
      cases c <;> decide

theorem Range.faithful {r : Range} (start : r.start < 2 ^ 64) (count : r.count < 2 ^ 64) :
    Codec.Faithful r := by
  have named : FieldNames ["start", "count"] := by decide
  refine ⟨ofRecord_plain named ?_, ?_⟩
  · simp [Json.ofNat, Value.Plain]
  · unfold Codec.decode? Codec.encode instCodecRange
    dsimp only
    rw [record?_ofRecord named rfl]
    have readStart : natural? UInt64.size (ofNat r.start) = some r.start := natural?_ofNat start
    have readCount : natural? UInt64.size (ofNat r.count) = some r.count := natural?_ofNat count
    simp [readStart, readCount]

theorem Range.small_of_decode? {v : Value} {r : Range} (read : Codec.decode? v = some r) :
    r.start < 2 ^ 64 ∧ r.count < 2 ^ 64 := by
  unfold Codec.decode? instCodecRange at read
  dsimp only at read
  split at read
  · simp only [Option.bind_eq_bind, Option.bind_eq_some_iff] at read
    obtain ⟨start, hstart, count, hcount, heq⟩ := read
    cases heq
    exact ⟨natural?_lt hstart, natural?_lt hcount⟩
  · cases read

end Requests

section Engines

/-- A parameter is kept until the engine is known. -/
theorem storable_encode (n : UInt64) (depth : Nat) : (Codec.encode n).storable depth = true := by
  have small : n.toNat < doubleLimit := Nat.lt_of_lt_of_le n.toNat_lt (by decide +kernel)
  simp [Codec.encode, Json.ofNat, Value.storable, small]

theorem untag?_zip {names : List String} {values : List Value} (untagged : "engine" ∉ names)
    (storable : ∀ v ∈ values, v.storable Engine.maxDepth = true) :
    Engine.untag? ((names.map Text.ofString).zip values) =
      some (none, (names.map Text.ofString).zip values) := by
  induction names generalizing values with
  | nil => rfl
  | cons name names ih =>
    cases values with
    | nil => rfl
    | cons v values =>
      rw [List.mem_cons, not_or] at untagged
      obtain ⟨other, untagged⟩ := untagged
      obtain ⟨here, storable⟩ := List.forall_mem_cons.mp storable
      simp [Engine.untag?, string?_ofString, ih untagged storable, Ne.symm other, here]

/-- The tag comes first, and what follows it is a record of its own. -/
theorem decode?_tagged {tag : Value} {names : List String} {values : List Value}
    (untagged : "engine" ∉ names) (storable : ∀ v ∈ values, v.storable Engine.maxDepth = true) :
    (Codec.decode? (ofRecord ("engine" :: names) (tag :: values)) : Option Engine) =
      Engine.ofTag? tag (ofRecord names values) := by
  have split : Engine.untag? ((("engine" :: names).map Text.ofString).zip (tag :: values)) =
      some (some tag, (names.map Text.ofString).zip values) := by
    simp [Engine.untag?, string?_ofString, untag?_zip untagged storable]
  unfold Codec.decode? Engine.instCodec ofRecord
  dsimp only
  rw [split]

instance : LawfulCodec Engine where
  faithful e := by
    cases e with
    | ethash minimum =>
      have named : FieldNames ["engine", "minimum_difficulty"] := by decide +kernel
      have parameters : FieldNames ["minimum_difficulty"] := by decide
      have read := record?_ofRecord parameters
        (show ["minimum_difficulty"].length = [Codec.encode minimum].length from rfl)
      have tag : (Value.string (.ofString "ethash")).Plain := plain_ofString (by decide +kernel)
      refine ⟨ofRecord_plain named ?_, ?_⟩
      · simp [encode_plain, tag]
      · refine (decode?_tagged (by decide) (by simp [storable_encode])).trans ?_
        simp [Engine.ofTag?, string?_ofString, read]
    | clique period epoch =>
      have named : FieldNames ["engine", "period", "epoch"] := by decide +kernel
      have parameters : FieldNames ["period", "epoch"] := by decide
      have read := record?_ofRecord parameters (show ["period", "epoch"].length =
        [Codec.encode period, Codec.encode epoch].length from rfl)
      have tag : (Value.string (.ofString "clique")).Plain := plain_ofString (by decide +kernel)
      refine ⟨ofRecord_plain named ?_, ?_⟩
      · simp [encode_plain, tag]
      · refine (decode?_tagged (by decide) (by simp [storable_encode])).trans ?_
        simp [Engine.ofTag?, string?_ofString, read]

end Engines

section Settings

/-- Counted in whole milliseconds, of as many as can be read. -/
def Duration.Whole (d : Duration) : Prop := d.nanos % 1000000 = 0 ∧ d.millis < 2 ^ 64

instance (d : Duration) : Decidable d.Whole := inferInstanceAs (Decidable (_ ∧ _))

theorem Duration.Whole.faithful {d : Duration} (whole : d.Whole) : Codec.Faithful d := by
  refine ⟨trivial, ?_⟩
  have same : Duration.ofMillis d.millis = d := by
    obtain ⟨nanos⟩ := d
    have exact : nanos % 1000000 = 0 := whole.1
    simp only [Duration.ofMillis, Duration.millis]
    congr
    omega
  have read : natural? UInt64.size (Json.ofNat d.millis) = some d.millis := natural?_ofNat whole.2
  simp only [Codec.decode?, Codec.encode, read, Option.map_some, same]

/-- Only whole milliseconds are ever read. -/
theorem Duration.whole_of_decode? {v : Value} {d : Duration} (read : Codec.decode? v = some d) :
    d.Whole := by
  obtain ⟨n, natural, rfl⟩ := Option.map_eq_some_iff.mp read
  have small : n < 2 ^ 64 := natural?_lt natural
  refine ⟨Nat.mul_mod_left .., ?_⟩
  rwa [Duration.millis, Duration.ofMillis, Nat.mul_div_cancel _ (by decide)]

theorem Duration.faithful_optional {d? : Option Duration} (whole : ∀ d, d? = some d → d.Whole) :
    Codec.Faithful d? := by
  cases d? with
  | none => exact ⟨trivial, rfl⟩
  | some d =>
    obtain ⟨plain, decodes⟩ := (whole d rfl).faithful
    exact ⟨plain, congrArg (Option.map some) decodes⟩

theorem Duration.whole_of_decode?_optional {v : Value} {d? : Option Duration}
    (read : Codec.decode? v = some d?) : ∀ d, d? = some d → d.Whole := by
  rintro d rfl
  unfold Codec.decode? instCodecOption at read
  dsimp only at read
  split at read
  · cases read
  · obtain ⟨d', read, heq⟩ := Option.map_eq_some_iff.mp read
    cases heq
    exact Duration.whole_of_decode? read

namespace Config

/-- All times are counted in whole milliseconds. -/
structure Whole (c : Config) : Prop where
  targetRtt : c.targetRtt.Whole
  minRequestTimeout : c.minRequestTimeout.Whole
  maxRequestTimeout : c.maxRequestTimeout.Whole
  peerWaitTimeout : ∀ d, c.peerWaitTimeout = some d → d.Whole
  maxStateFetch : c.maxStateFetch.Whole

theorem whole_default : ({} : Config).Whole where
  targetRtt := by decide +kernel
  minRequestTimeout := by decide +kernel
  maxRequestTimeout := by decide +kernel
  peerWaitTimeout := by
    rintro d ⟨⟩
    decide +kernel
  maxStateFetch := by decide +kernel

theorem Whole.faithful {c : Config} (whole : c.Whole) : Codec.Faithful c := by
  have named : FieldNames Config.fieldNames := by decide +kernel
  have peerWait := Duration.faithful_optional whole.peerWaitTimeout
  refine ⟨ofRecord_plain named ?_, ?_⟩
  · simp [encode_plain, whole.targetRtt.faithful.plain, whole.minRequestTimeout.faithful.plain,
      whole.maxRequestTimeout.faithful.plain, whole.maxStateFetch.faithful.plain, peerWait.plain]
  · unfold Codec.decode? Codec.encode Config.instCodec
    dsimp only
    rw [record?_ofRecord named rfl]
    simp only [List.map_cons, List.map_nil, field?, decode?_encode,
      whole.targetRtt.faithful.decodes, whole.minRequestTimeout.faithful.decodes,
      whole.maxRequestTimeout.faithful.decodes, whole.maxStateFetch.faithful.decodes,
      peerWait.decodes, Option.bind_eq_bind, Option.bind_some, Option.pure_def]

/-- What holds of the default and of all that is read holds of the field. -/
theorem of_field? {α : Type} [Codec α] {P : α → Prop} {default a : α} {v? : Option Value}
    (given : P default) (read : ∀ v a, Codec.decode? v = some a → P a)
    (found : field? default v? = some a) : P a := by
  cases v? with
  | none =>
    cases found
    exact given
  | some v => exact read v a found

theorem whole_of_decode? {v : Value} {c : Config} (read : Codec.decode? v = some c) : c.Whole := by
  unfold Codec.decode? Config.instCodec at read
  dsimp only at read
  split at read
  · -- field by field, in the order in which they are read
    iterate 6 obtain ⟨_, -, read⟩ := Option.bind_eq_some_iff.mp read
    obtain ⟨targetRtt, hRtt, read⟩ := Option.bind_eq_some_iff.mp read
    obtain ⟨min, hmin, read⟩ := Option.bind_eq_some_iff.mp read
    obtain ⟨max, hmax, read⟩ := Option.bind_eq_some_iff.mp read
    obtain ⟨_, -, read⟩ := Option.bind_eq_some_iff.mp read
    obtain ⟨wait, hwait, read⟩ := Option.bind_eq_some_iff.mp read
    obtain ⟨state, hstate, read⟩ := Option.bind_eq_some_iff.mp read
    iterate 5 obtain ⟨_, -, read⟩ := Option.bind_eq_some_iff.mp read
    have times := fun v d => Duration.whole_of_decode? (v := v) (d := d)
    cases read
    exact ⟨of_field? whole_default.targetRtt times hRtt,
      of_field? whole_default.minRequestTimeout times hmin,
      of_field? whole_default.maxRequestTimeout times hmax,
      of_field? (P := fun d? => ∀ d, d? = some d → d.Whole) nofun
        (fun _ _ => Duration.whole_of_decode?_optional) hwait,
      of_field? whole_default.maxStateFetch times hstate⟩
  · cases read

end Config
end Settings

namespace Json

/-- What is written is read back as it was; so whatever can be read, in whichever of the forms that
are read, is read again from what is written of it. -/
def RoundTrips (α : Type) [Codec α] (Valid : α → Prop) : Prop :=
  (∀ a, Valid a → parse? α (render a) = some a) ∧
    ∀ s a, parse? α s = some a → parse? α (render a) = some a

theorem roundTrips_of_faithful {α : Type} [Codec α] {Valid : α → Prop}
    (faithful : ∀ a, Valid a → Codec.Faithful a)
    (valid : ∀ v a, Codec.decode? v = some a → Valid a) : RoundTrips α Valid := by
  refine ⟨fun a ha => (faithful a ha).parse?_render, fun s a read => ?_⟩
  obtain ⟨v, -, decoded⟩ := Option.bind_eq_some_iff.mp read
  exact (faithful a (valid v a decoded)).parse?_render

theorem roundTrips_of_lawful (α : Type) [Codec α] [LawfulCodec α] : RoundTrips α fun _ => True :=
  roundTrips_of_faithful (fun a _ => LawfulCodec.faithful a) fun _ _ _ => trivial

end Json

/-- All that is exchanged in JSON comes back as it was written. The numbers of a range are of 64
bits, and the times of a configuration are whole milliseconds. -/
theorem json_round_trips :
    RoundTrips Header (fun _ => True) ∧ RoundTrips Body (fun _ => True) ∧
      RoundTrips Block (fun _ => True) ∧ RoundTrips Receipt (fun _ => True) ∧
      RoundTrips Log (fun _ => True) ∧ RoundTrips Fork.Schedule (fun _ => True) ∧
      RoundTrips Fork.Id (fun _ => True) ∧ RoundTrips Category (fun _ => True) ∧
      RoundTrips Range (fun r => r.start < 2 ^ 64 ∧ r.count < 2 ^ 64) ∧
      RoundTrips Engine (fun _ => True) ∧ RoundTrips Config Config.Whole :=
  ⟨roundTrips_of_lawful _, roundTrips_of_lawful _, roundTrips_of_lawful _, roundTrips_of_lawful _,
    roundTrips_of_lawful _, roundTrips_of_lawful _, roundTrips_of_lawful _, roundTrips_of_lawful _,
    roundTrips_of_faithful (fun _ small => Range.faithful small.1 small.2)
      fun _ _ => Range.small_of_decode?,
    roundTrips_of_lawful _,
    roundTrips_of_faithful (fun _ => Config.Whole.faithful) fun _ _ => Config.whole_of_decode?⟩

theorem json_round_trips_longest_times :
    let longest : Duration := .ofMillis (2 ^ 64 - 1)
    let c : Config := { targetRtt := longest, maxStateFetch := longest, peerWaitTimeout := none }
    let r : Range := ⟨2 ^ 64 - 1, 0⟩
    c.Whole ∧ parse? Config (render c) = some c ∧ parse? Range (render r) = some r := by
  intro longest c r
  obtain ⟨-, -, -, -, -, -, -, -, ranges, -, configs⟩ := json_round_trips
  have whole : c.Whole :=
    { Config.whole_default with
      targetRtt := by decide +kernel
      maxStateFetch := by decide +kernel
      peerWaitTimeout := nofun }
  exact ⟨whole, configs.1 c whole, ranges.1 r (by decide +kernel)⟩

end ChainSync
