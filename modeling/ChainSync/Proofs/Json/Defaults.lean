import ChainSync.Proofs.Json.RoundTrip
import ChainSync.Proofs.Keyed
set_option autoImplicit false

/-!
What is made of a configuration that is written in part: of the fields that are left out, wherever
the others stand and whatever else there is.
-/

namespace ChainSync

open Json

namespace Json

section Objects

variable {names : List String} {fields : List (Text × Value)}

/-- The fields of an object that have one of the names, in the order in which they stand. -/
def known (names : List String) (fields : List (Text × Value)) : List (String × Value) :=
  fields.filterMap fun (k, v) =>
    k.string?.bind fun name => if name ∈ names then some (name, v) else none

/-- Every key says a name, and what is passed over is well written. -/
def Legible (names : List String) (fields : List (Text × Value)) : Prop :=
  ∀ f ∈ fields, ∃ name, f.1.string? = some name ∧ (name ∉ names → f.2.ignorable = true)

theorem collect?_legible (legible : Legible names fields)
    (once : ((known names fields).map Prod.fst).Nodup) :
    collect? names fields = some (known names fields) := by
  induction fields with
  | nil => rfl
  | cons f rest ih =>
    obtain ⟨k, v⟩ := f
    obtain ⟨⟨name, said, ignorable⟩, legible⟩ := List.forall_mem_cons.mp legible
    by_cases wanted : name ∈ names
    · have here : known names ((k, v) :: rest) = (name, v) :: known names rest := by
        simp [known, said, wanted]
      rw [here, List.map_cons, List.nodup_cons] at once
      obtain ⟨fresh, once⟩ := once
      have new : (known names rest).lookup name = none := Keyed.lookup_eq_none_iff.mpr fresh
      rw [here]
      simp [collect?, said, ih legible once, wanted, new]
    · have here : known names ((k, v) :: rest) = known names rest := by
        simp [known, said, wanted]
      rw [here] at once ⊢
      simp [collect?, said, ih legible once, wanted, ignorable wanted]

variable {entries : List (String × Value)} {present : String → Bool}

theorem nodup_of_perm_filter {found : List (String × Value)} (unique : (entries.map Prod.fst).Nodup)
    (chosen : found.Perm (entries.filter fun e => present e.1)) : (found.map Prod.fst).Nodup :=
  (chosen.map Prod.fst).nodup_iff.mpr (unique.sublist (List.filter_sublist.map _))

/-- In whichever order they stand, the entries that are present are found and no others. -/
theorem lookup_of_perm_filter {found : List (String × Value)}
    (unique : (entries.map Prod.fst).Nodup)
    (chosen : found.Perm (entries.filter fun e => present e.1)) (name : String) :
    found.lookup name = if present name then entries.lookup name else none := by
  have once := nodup_of_perm_filter unique chosen
  refine Option.ext fun v => ?_
  rw [Keyed.lookup_eq_some_iff once, chosen.mem_iff, List.mem_filter]
  by_cases here : present name
  · rw [if_pos here, Keyed.lookup_eq_some_iff unique]
    simp [here]
  · simp [here]

/-- A record read from an object that holds some of its fields. -/
theorem record?_partial {values : List Value} (unique : names.Nodup)
    (length : names.length = values.length) (legible : Legible names fields)
    (chosen : (known names fields).Perm ((names.zip values).filter fun e => present e.1)) :
    record? names (.object fields) =
      some (List.zipWith (fun name v => if present name then some v else none) names values) := by
  have keys : ((names.zip values).map Prod.fst).Nodup := by
    rwa [List.map_fst_zip (Nat.le_of_eq length)]
  have found := collect?_legible legible (nodup_of_perm_filter keys chosen)
  change (collect? names fields).map _ = _
  rw [found, Option.map_some]
  refine congrArg some ?_
  calc names.map (fun name => (known names fields).lookup name)
    _ = names.map (fun name => if present name then (names.zip values).lookup name else none) :=
      List.map_congr_left fun name _ => lookup_of_perm_filter keys chosen name
    _ = List.zipWith (fun name v? => if present name then v? else none) names
          (names.map fun name => (names.zip values).lookup name) := by
      rw [List.zipWith_map_right, List.zipWith_self]
    _ = List.zipWith (fun name v => if present name then some v else none) names values := by
      rw [lookup_zip unique length, List.zipWith_map_right]

end Objects
end Json

namespace Config

/-- The values of all fields as they are written, in the order of their names. -/
def values (c : Config) : List Value :=
  [Codec.encode c.headerBatchSize, Codec.encode c.skeletonSize, Codec.encode c.maxBlockBodies,
   Codec.encode c.maxReceipts, Codec.encode c.maxStateNodes, Codec.encode c.maxInFlightPerPeer,
   Codec.encode c.targetRtt, Codec.encode c.minRequestTimeout, Codec.encode c.maxRequestTimeout,
   Codec.encode c.maxPeerTimeouts, Codec.encode c.peerWaitTimeout, Codec.encode c.maxStateFetch,
   Codec.encode c.pivotDistance, Codec.encode c.maxForkAncestry, Codec.encode c.maxMasterAttempts,
   Codec.encode c.stateCommitBatch, Codec.encode c.skeletonMismatchLimit]

/-- The object holds the fields of a configuration that are present, each once and in any order,
and any others that no configuration has. -/
structure Holds (given : Config) (present : String → Bool) (fields : List (Text × Value)) :
    Prop where
  legible : Legible fieldNames fields
  chosen : (known fieldNames fields).Perm
    ((fieldNames.zip given.values).filter fun entry => present entry.1)

/-- The fields that are present as they are given, and the rest from elsewhere. -/
def choose (present : String → Bool) (given other : Config) : Config where
  headerBatchSize :=
    if present "header_batch_size" then given.headerBatchSize else other.headerBatchSize
  skeletonSize := if present "skeleton_size" then given.skeletonSize else other.skeletonSize
  maxBlockBodies := if present "max_block_bodies" then given.maxBlockBodies else other.maxBlockBodies
  maxReceipts := if present "max_receipts" then given.maxReceipts else other.maxReceipts
  maxStateNodes := if present "max_state_nodes" then given.maxStateNodes else other.maxStateNodes
  maxInFlightPerPeer :=
    if present "max_in_flight_per_peer" then given.maxInFlightPerPeer else other.maxInFlightPerPeer
  targetRtt := if present "target_rtt" then given.targetRtt else other.targetRtt
  minRequestTimeout :=
    if present "min_request_timeout" then given.minRequestTimeout else other.minRequestTimeout
  maxRequestTimeout :=
    if present "max_request_timeout" then given.maxRequestTimeout else other.maxRequestTimeout
  maxPeerTimeouts :=
    if present "max_peer_timeouts" then given.maxPeerTimeouts else other.maxPeerTimeouts
  peerWaitTimeout :=
    if present "peer_wait_timeout" then given.peerWaitTimeout else other.peerWaitTimeout
  maxStateFetch := if present "max_state_fetch" then given.maxStateFetch else other.maxStateFetch
  pivotDistance := if present "pivot_distance" then given.pivotDistance else other.pivotDistance
  maxForkAncestry :=
    if present "max_fork_ancestry" then given.maxForkAncestry else other.maxForkAncestry
  maxMasterAttempts :=
    if present "max_master_attempts" then given.maxMasterAttempts else other.maxMasterAttempts
  stateCommitBatch :=
    if present "state_commit_batch" then given.stateCommitBatch else other.stateCommitBatch
  skeletonMismatchLimit :=
    if present "skeleton_mismatch_limit" then given.skeletonMismatchLimit
    else other.skeletonMismatchLimit

theorem field?_partial {α : Type} [Codec α] {a default : α} (faithful : Codec.Faithful a)
    (here : Bool) : field? default (if here then some (Codec.encode a) else none) =
      some (if here then a else default) := by
  cases here with
  | false => rfl
  | true => exact faithful.decodes

theorem decode?_partial {given : Config} (whole : given.Whole) {present : String → Bool}
    {fields : List (Text × Value)} (holds : Holds given present fields) :
    Codec.decode? (.object fields) = some (given.choose present { peerWaitTimeout := none }) := by
  have named : FieldNames Config.fieldNames := by decide +kernel
  have read := record?_partial named.1 rfl holds.legible holds.chosen
  have wait := Duration.faithful_optional whole.peerWaitTimeout
  unfold Codec.decode? Config.instCodec
  dsimp only
  rw [read]
  simp only [fieldNames, values, List.zipWith_cons_cons, List.zipWith_nil_left,
    field?_partial (LawfulCodec.faithful _), field?_partial whole.targetRtt.faithful,
    field?_partial whole.minRequestTimeout.faithful,
    field?_partial whole.maxRequestTimeout.faithful,
    field?_partial whole.maxStateFetch.faithful, field?_partial wait,
    Option.bind_eq_bind, Option.bind_some, Option.pure_def]
  rfl

/-- What is left out of a configuration has its default, but the time to wait for peers: where that
is left out there is no limit to it. The fields may stand in any order and among any others. -/
theorem partial_configuration_is_completed {given : Config} (whole : given.Whole)
    (present : String → Bool) {fields : List (Text × Value)} (holds : Holds given present fields) :
    Codec.decode? (.object fields) = some (given.choose present { peerWaitTimeout := none }) ∧
      ∀ s, read? s = some (.object fields) →
        parse? Config s = some (given.choose present { peerWaitTimeout := none }) := by
  have decoded := decode?_partial whole holds
  refine ⟨decoded, fun s read => ?_⟩
  rw [parse?, read, Option.bind_some]
  exact decoded

theorem partial_configuration_is_completed_out_of_order :
    let given : Config := { headerBatchSize := 64, targetRtt := .ofMillis 250 }
    let present name := name == "target_rtt" || name == "header_batch_size"
    let fields := [(Text.ofString "target_rtt", Json.ofNat 250), (.ofString "note", .array [.null]),
      (.ofString "header_batch_size", Json.ofNat 64), (.ofString "note", .bool true)]
    given.Whole ∧ Holds given present fields ∧
      parse? Config (text (.object fields)) = some
        { headerBatchSize := 64, targetRtt := .ofMillis 250, peerWaitTimeout := none } := by
  intro given present fields
  have whole : given.Whole := { whole_default with targetRtt := by decide +kernel }
  have legible : Legible fieldNames fields := by
    simp [Legible, fields, string?_ofString, fieldNames, Value.ignorable, ignorableItems]
  have shown : known fieldNames fields =
      [("target_rtt", Json.ofNat 250), ("header_batch_size", Json.ofNat 64)] := by
    simp [known, fields, string?_ofString, fieldNames]
  have chosen : ((fieldNames.zip given.values).filter fun entry => present entry.1) =
      [("header_batch_size", Json.ofNat 64), ("target_rtt", Json.ofNat 250)] := by
    have size : Codec.encode (64 : UInt64) = Json.ofNat 64 := rfl
    have rtt : Codec.encode (Duration.ofMillis 250) = Json.ofNat 250 := rfl
    simp [fieldNames, values, present, given, size, rtt]
  have holds : Holds given present fields := ⟨legible, by rw [shown, chosen]; exact .swap ..⟩
  have plain : (Value.object fields).Plain := by
    have keys : ∀ s ∈ ["target_rtt", "note", "header_batch_size"], Ordinary s := by decide +kernel
    refine plainFields_iff.mpr ?_
    simp [fields, Json.ofNat, Value.Plain, PlainItems, plain_ofString (keys _ _)]
  have parsed := (partial_configuration_is_completed whole present holds).2 _ (read?_text plain)
  exact ⟨whole, holds, parsed⟩

/-- The time to wait for peers that an empty object leaves out is not the default one. -/
theorem left_out_wait_is_not_the_default :
    Holds {} (fun _ => false) [] ∧ read? "\x7b\x7d" = some (.object []) ∧
      parse? Config "\x7b\x7d" ≠ some (({} : Config).choose (fun _ => false) {}) := by
  have read : read? "\x7b\x7d" = some (.object []) := rfl
  have parsed : parse? Config "\x7b\x7d" = some { peerWaitTimeout := none } := rfl
  refine ⟨⟨by simp [Legible], by simp [known]⟩, read, ?_⟩
  rw [parsed]
  decide

end Config
end ChainSync
