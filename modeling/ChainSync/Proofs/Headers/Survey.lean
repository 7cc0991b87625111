import ChainSync.Proofs.Headers.Positions
set_option autoImplicit false

/-!
A skeleton from the first request for it to its headers, and what a master that answers from its
chain gets accepted.
-/

namespace ChainSync

open Fetch

/-- The headers of a chain that a request asks for; position `n` of the chain is block `n`. -/
def HeadersRequest.served (r : HeadersRequest) (theirs : List Header) : List Header :=
  r.numbers.filterMap (theirs[·]?)

/-- A skeleton being asked for with the hub it acts on, and with the requests that came to an
end. -/
structure Survey (σ : Type) where
  hub : Hub σ
  standing : Except SyncError (SkeletonFetch ⊕ List Header)
  heard : List Call := []

namespace Survey

variable {σ : Type}

inductive Event (σ : Type) where
  | signal (cancelled : Bool) (signal : Signal)
  /-- What becomes of the hub while the request is out. -/
  | meanwhile (hub : Hub σ)

def begin (h : Hub σ) (cancelled : Bool) (master : SyncPeer) (start stop size : Nat) : Survey σ :=
  let (hub, standing) := SkeletonFetch.begin h cancelled master start stop size
  { hub, standing }

/-- The request that a signal ends. -/
def endOf (f : SkeletonFetch) : Signal → List Call
  | .ended ticket _ => if ticket = f.query.call.ticket then [f.query.call] else []
  | _ => []

/-- Once the skeleton is there or given up nothing goes on. -/
def apply (x : Survey σ) : Event σ → Survey σ
  | .signal cancelled signal =>
    match x.standing with
    | .ok (.inl f) =>
      let (hub, standing) := f.step x.hub cancelled signal
      ⟨hub, standing, x.heard ++ endOf f signal⟩
    | _ => x
  | .meanwhile hub => { x with hub }

def run (x : Survey σ) (events : List (Event σ)) : Survey σ := events.foldl apply x

/-- The request that waits for an answer. -/
def call? (x : Survey σ) : Option Call :=
  match x.standing with
  | .ok (.inl f) => some f.query.call
  | _ => none

/-- Nobody gives up, and the master stays and answers from its chain. -/
def Fair (theirs : List Header) (master : PeerId) (x : Survey σ) : Event σ → Prop
  | .signal cancelled signal =>
    cancelled = false ∧ ∀ call request ending, x.call? = some call →
      call.request = .headers request → signal = .ended call.ticket ending →
      ending = .answered (.headers (request.served theirs))
  | .meanwhile hub => hub.peers.Serves master .headers 0

/-- Nothing but fair events. -/
def Unhindered (theirs : List Header) (master : PeerId) : Survey σ → List (Event σ) → Prop
  | _, [] => True
  | x, event :: events =>
    x.Fair theirs master event ∧ Unhindered theirs master (x.apply event) events

section Heights

variable {start stop size : Nat} {x : Survey σ}

/-- Whatever the master answers, only a skeleton with the heights asked for is one. -/
def Measured (start stop size : Nat) (x : Survey σ) : Prop :=
  SkeletonFetch.Sound (fun _ => True) start stop size x.hub (x.hub, x.standing)

theorem measured_of_sound {h : Hub σ} {out : Hub σ × Except SyncError (SkeletonFetch ⊕ List Header)}
    (sound : SkeletonFetch.Sound (fun _ => True) start stop size h out) (heard : List Call) :
    Measured start stop size ⟨out.1, out.2, heard⟩ :=
  { sound with quiet := .refl out.1 }

theorem measured_apply (measured : Measured start stop size x) (event : Event σ) :
    Measured start stop size (x.apply event) := by
  cases event with
  | meanwhile hub => exact { measured with quiet := .refl hub }
  | signal cancelled signal =>
    unfold apply
    dsimp only
    split
    · rename_i f waits
      obtain ⟨rfl, rfl, rfl, -⟩ := measured.asking f waits
      exact measured_of_sound (f.step_sound x.hub cancelled fun _ _ => trivial) _
    · exact measured

theorem measured_run (measured : Measured start stop size x) (events : List (Event σ)) :
    Measured start stop size (x.run events) := by
  induction events generalizing x with
  | nil => exact measured
  | cons event events ih => exact ih (measured_apply measured event)

theorem measured_begin (h : Hub σ) (cancelled : Bool) (master : SyncPeer) (start stop size : Nat) :
    Measured start stop size (.begin h cancelled master start stop size) := by
  have sound : SkeletonFetch.Sound (fun _ => True) start stop size h
      (SkeletonFetch.begin h cancelled master start stop size) :=
    SkeletonFetch.advance_sound h cancelled master start stop size (fun _ _ => trivial) _
  exact measured_of_sound sound []

end Heights

section Master

variable {theirs : List Header} {master : SyncPeer} {start stop size : Nat}

/-- A request that is out, the ones before it answered from the chain. -/
structure Pending (theirs : List Header) (master : SyncPeer) (start stop size : Nat) (h : Hub σ)
    (answers : Nat) (f : SkeletonFetch) : Prop where
  master_eq : f.master = master
  bounds : f.start = start ∧ f.stop = stop ∧ f.size = size
  slot : f.query.call.slot = ⟨master.id, .headers⟩
  serves : h.peers.Serves master.id .headers 0
  asked : ∃ answered request, f.query.call.request = .headers request ∧
    skeletonRequests start stop size = answered ++ request :: f.remaining ∧
    answered.length = answers ∧ f.received = answered.flatMap (·.served theirs)

/-- What a skeleton comes to with a master that answers from its chain. -/
inductive Truthful (theirs : List Header) (master : SyncPeer) (start stop size : Nat) (h : Hub σ)
    (answers : Nat) : Except SyncError (SkeletonFetch ⊕ List Header) → Prop where
  | waiting {f : SkeletonFetch} (pending : Pending theirs master start stop size h answers f) :
    Truthful theirs master start stop size h answers (.ok (.inl f))
  | accepted : Truthful theirs master start stop size h answers
      (.ok (.inr ((skeletonPositions start stop size).filterMap (theirs[·]?))))

/-- A chain that reaches up to the end of the segment, each block under its number. -/
structure Reaches (theirs : List Header) (stop : Nat) : Prop where
  heights : ∀ (n : Nat) (h : Header), theirs[n]? = some h → h.height = n
  long : stop < theirs.length

theorem Reaches.map_height (reaches : Reaches theirs stop) {numbers : List Nat}
    (below : ∀ n ∈ numbers, n ≤ stop) :
    (numbers.filterMap (theirs[·]?)).map Header.height = numbers := by
  induction numbers with
  | nil => rfl
  | cons n rest ih =>
    obtain ⟨bound, below⟩ := List.forall_mem_cons.mp below
    have found := List.getElem?_eq_getElem (bound.trans_lt reaches.long)
    rw [List.filterMap_cons_some found, List.map_cons, ih below, reaches.heights n _ found]

variable (room : start < stop) (positive : 0 < size) (reaches : Reaches theirs stop)
include room positive reaches

theorem advance_truthful {h : Hub σ} (serves : h.peers.Serves master.id .headers 1)
    {answered remaining : List HeadersRequest}
    (requests : skeletonRequests start stop size = answered ++ remaining) :
    let out := SkeletonFetch.advance h false master start stop size
      (answered.flatMap (·.served theirs)) remaining
    Truthful theirs master start stop size out.1 answered.length out.2 := by
  cases remaining with
  | cons request remaining =>
    obtain ⟨h', query, asked, serves, slot, call⟩ := HeaderQuery.ask_of_serves serves request
    simp only [SkeletonFetch.advance, asked]
    exact .waiting ⟨rfl, ⟨rfl, rfl, rfl⟩, slot, serves, answered, request, call, requests, rfl, rfl⟩
  | nil =>
    have all : answered.flatMap (·.served theirs) =
        (skeletonPositions start stop size).filterMap (theirs[·]?) := by
      rw [← flatMap_numbers_skeletonRequests positive room, requests, List.append_nil,
        List.filterMap_flatMap]
      rfl
    have heights := reaches.map_height fun n mem =>
      ((skeletonPositions_waymarks positive room).inside n mem).2
    simp only [SkeletonFetch.advance, all, checkSkeleton, heights, ne_eq, not_true_eq_false,
      if_false]
    exact .accepted

theorem step_truthful {h : Hub σ} {answers : Nat} {f : SkeletonFetch}
    (pending : Pending theirs master start stop size h answers f) (signal : Signal)
    (told : ∀ request ending, f.query.call.request = .headers request →
      signal = .ended f.query.call.ticket ending →
      ending = .answered (.headers (request.served theirs))) :
    let out := f.step h false signal
    Truthful theirs master start stop size out.1 (answers + (endOf f signal).length) out.2 := by
  cases signal with
  | woken => exact .waiting pending
  | deadline => exact .waiting pending
  | ended ticket ending =>
    by_cases own : ticket = f.query.call.ticket
    · subst own
      obtain ⟨answered, request, call, requests, rfl, received⟩ := pending.asked
      obtain rfl := told request ending call rfl
      obtain ⟨h', stepped, serves⟩ :=
        HeaderQuery.step_answered pending.slot pending.serves (request.served theirs)
      obtain ⟨rfl, rfl, rfl⟩ := pending.bounds
      obtain rfl := pending.master_eq
      -- the answer to the request completes what is received for those asked so far
      rw [List.append_cons] at requests
      have next := advance_truthful room positive reaches serves requests
      rw [List.flatMap_append, List.flatMap_singleton, List.length_append] at next
      simp only [SkeletonFetch.step, stepped, endOf, if_true, received]
      exact next
    · simp only [SkeletonFetch.step, HeaderQuery.step, own, if_false, endOf, List.length_nil]
      exact .waiting pending

theorem apply_truthful {x : Survey σ} {event : Event σ}
    (truthful : Truthful theirs master start stop size x.hub x.heard.length x.standing)
    (fair : x.Fair theirs master.id event) :
    Truthful theirs master start stop size (x.apply event).hub (x.apply event).heard.length
      (x.apply event).standing := by
  obtain ⟨h, standing, heard⟩ := x
  cases truthful with
  | @waiting f pending =>
    cases event with
    | meanwhile hub => exact .waiting { pending with serves := fair }
    | signal cancelled signal =>
      obtain ⟨rfl, told⟩ := fair
      have stepped := step_truthful room positive reaches pending signal
        fun request ending => told f.query.call request ending rfl
      simp only [apply, List.length_append]
      exact stepped
  | accepted => cases event <;> exact .accepted

theorem run_truthful {x : Survey σ} {events : List (Event σ)}
    (truthful : Truthful theirs master start stop size x.hub x.heard.length x.standing)
    (unhindered : Unhindered theirs master.id x events) :
    Truthful theirs master start stop size (x.run events).hub (x.run events).heard.length
      (x.run events).standing := by
  induction events generalizing x with
  | nil => exact truthful
  | cons event events ih =>
    exact ih (apply_truthful room positive reaches truthful unhindered.1) unhindered.2

end Master
end Survey

/-- The heights of a skeleton go up to the end of the segment in steps of at most a batch, and the
requests for it ask for just these. A master that answers from its chain gets its headers there
accepted as soon as all requests are answered. Whoever answers, no other heights are accepted, and
the fill that starts from them cuts the segment into batches. -/
theorem skeleton_cuts_segment_into_batches {σ : Type} {start stop size : Nat} (room : start < stop)
    (positive : 1 ≤ size) :
    let heights := skeletonPositions start stop size
    let requests := skeletonRequests start stop size
    Waymarks start stop size heights ∧ requests.flatMap HeadersRequest.numbers = heights ∧
      (∀ (h : Hub σ) (master : SyncPeer) (theirs : List Header) (events : List (Survey.Event σ)),
        Survey.Reaches theirs stop → h.peers.Serves master.id .headers 1 →
        Survey.Unhindered theirs master.id (.begin h false master start stop size) events →
        let x := (Survey.begin h false master start stop size).run events
        (x.call? ≠ none → x.heard.length < requests.length) ∧
          (x.call? = none → x.standing = .ok (.inr (heights.filterMap (theirs[·]?))))) ∧
      ∀ (h : Hub σ) (cancelled : Bool) (master : SyncPeer) (events : List (Survey.Event σ))
        (skeleton : List Header),
        let x := (Survey.begin h cancelled master start stop size).run events
        x.standing = .ok (.inr skeleton) → skeleton.map Header.height = heights ∧
          ∀ (session : Nat) (origin : Header) (engine : Engine) (mismatchLimit : Nat),
            origin.height = start →
            let fill := HeaderFill.start session origin skeleton master.id engine mismatchLimit
            let batches := HeaderFill.gaps start skeleton
            Batches start stop size batches ∧ (pendingRanges fill.queue.pending).Perm batches := by
  intro heights requests
  have waymarks : Waymarks start stop size heights := skeletonPositions_waymarks positive room
  refine ⟨waymarks, flatMap_numbers_skeletonRequests positive room, ?_, ?_⟩
  · intro h master theirs events reaches serves unhindered x
    have truthful :
        Survey.Truthful theirs master start stop size x.hub x.heard.length x.standing := by
      refine Survey.run_truthful room positive reaches ?_ unhindered
      exact Survey.advance_truthful room positive reaches serves (List.nil_append requests).symm
    clear_value x
    obtain ⟨hub, standing, heard⟩ := x
    cases truthful with
    | waiting pending =>
      obtain ⟨answered, request, -, split, length, -⟩ := pending.asked
      refine ⟨fun _ => ?_, nofun⟩
      rw [← length, show requests = _ from split, List.length_append]
      exact Nat.lt_add_of_pos_right (Nat.succ_pos _)
    | accepted => exact ⟨fun waits => absurd rfl waits, fun _ => rfl⟩
  · intro h cancelled master events skeleton x accepted
    have measured := Survey.measured_run
      (Survey.measured_begin h cancelled master start stop size) events
    have named := (measured.complete skeleton accepted).1
    refine ⟨named, ?_⟩
    rintro session origin engine mismatchLimit rfl
    have anchored : Waymarks origin.height stop size (skeleton.map Header.height) := by
      rw [named]
      exact waymarks
    have batches := anchored.batches
    exact ⟨batches, HeaderFill.pendingRanges_start batches session master.id engine mismatchLimit⟩

/-- Five blocks in batches of two: the second request is for the end alone. -/
theorem skeleton_cuts_segment_into_batches_of_two :
    let header (n : UInt64) : Header := { number := n }
    let theirs := [0, 1, 2, 3, 4, 5].map header
    let master : SyncPeer :=
      { info :=
          { id := 1, version := 68, headHash := 0, head := 5, totalDifficulty := .ofNat 0
            forkId := none, connection := 0 }
        state := .idle, inFlight := .const 0, throughput := .const 1, rtt := none
        consecutiveTimeouts := 0 }
    let h : Hub Unit := { peers := { config := {}, peers := [master] }, board := ⟨{}, ()⟩ }
    let tell (ticket : Nat) (numbers : List UInt64) : Survey.Event Unit :=
      .signal false (.ended ticket (.answered (.headers (numbers.map header))))
    let events := [tell 0 [2, 4], tell 1 [5]]
    0 < 5 ∧ 1 ≤ 2 ∧ Survey.Reaches theirs 5 ∧ h.peers.Serves master.id .headers 1 ∧
      Survey.Unhindered theirs master.id (.begin h false master 0 5 2) events ∧
      ((Survey.begin h false master 0 5 2).run events).standing =
        .ok (.inr ([2, 4, 5].map header)) ∧
      Batches 0 5 2 (HeaderFill.gaps 0 ([2, 4, 5].map header)) := by
  intro header theirs master h tell events
  let x := Survey.begin h false master 0 5 2
  obtain ⟨first, second, ended⟩ :
      x.call?.map (·.request) = some (.headers (.spaced 2 2 1)) ∧
      (x.apply (tell 0 [2, 4])).call?.map (·.request) = some (.headers (.single (.number 5))) ∧
      (x.run events).call? = none := by
    decide
  have fair (x : Survey Unit) (asked : HeadersRequest) (ticket : Nat) (numbers : List UInt64)
      (asks : x.call?.map (·.request) = some (.headers asked))
      (has : asked.served theirs = numbers.map header) :
      x.Fair theirs master.id (tell ticket numbers) := by
    refine ⟨rfl, fun call request ending waits named told => ?_⟩
    rw [waits, Option.map_some, named] at asks
    cases asks
    cases told
    rw [has]
  have unhindered : Survey.Unhindered theirs master.id x events :=
    ⟨fair x _ 0 [2, 4] first rfl, fair (x.apply (tell 0 [2, 4])) _ 1 [5] second rfl, trivial⟩
  have serves : h.peers.Serves master.id .headers 1 := ⟨by decide, master, rfl, rfl, by decide⟩
  have reaches : Survey.Reaches theirs 5 := by
    have numbered : theirs.map Header.height = List.range 6 := by decide
    refine ⟨fun n block found => ?_, by decide⟩
    have height : (List.range 6)[n]? = some block.height := by
      rw [← numbered, List.getElem?_map, found, Option.map_some]
    obtain ⟨bound, height⟩ := List.getElem?_eq_some_iff.mp height
    rw [← height, List.getElem_range]
  obtain ⟨-, -, answered, checked⟩ :=
    skeleton_cuts_segment_into_batches (σ := Unit) (by decide : 0 < 5) (by decide : 1 ≤ 2)
  have accepted := (answered h master theirs events reaches serves unhindered).2 ended
  have batches := ((checked h false master events _ accepted).2 0 {} .default 2 rfl).1
  exact ⟨by decide, by decide, reaches, serves, unhindered, accepted, batches⟩

end ChainSync
