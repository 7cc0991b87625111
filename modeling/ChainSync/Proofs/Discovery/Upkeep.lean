import ChainSync.Discovery.Updater
import ChainSync.Proofs.Events.Delivery
import ChainSync.Proofs.Rlp.Items
set_option autoImplicit false

/-!
The published fork id as the head moves. An updater takes its events one by one, while others go on
with the bus; what it has handled tells the entry of its record and how often that has changed.
-/

namespace ChainSync

theorem Fork.Id.encode_injective : Function.Injective Fork.Id.encode := by
  intro x y h
  have flat := Rlp.flatten_eq_of_record_eq h
  simp only [List.flatten_cons, List.flatten_nil, List.append_nil] at flat
  have short (id : Fork.Id) : id.checksumBytes.length < 2 ^ 64 := by
    rw [checksumBytes, Bytes.length_ofNat]
    decide
  obtain ⟨checksums, nexts⟩ := Rlp.bytes_append_inj (short x) (short y) flat
  have checksum : x.checksum.toNat = y.checksum.toNat :=
    Bytes.ofNat_inj x.checksum.toNat_lt y.checksum.toNat_lt checksums
  have next : x.next = y.next := (Rlp.u64_append_inj (s := []) (t := []) (by rw [nexts])).1
  cases x; cases y
  simp_all [UInt32.toNat_inj]

namespace Discovery

theorem Entry.eth_injective : Function.Injective Entry.eth := by
  intro x y h
  have same := Rlp.flatten_eq_of_record_eq (Entry.mk.inj h).2
  simp only [List.flatten_cons, List.flatten_nil, List.append_nil] at same
  exact Fork.Id.encode_injective same

namespace NodeRecord

variable (schedule : Fork.Schedule) (genesis : Hash)

/-- The record once its entry has been written for each of the heads. -/
def follow (r : NodeRecord) (heads : List UInt64) : NodeRecord :=
  heads.foldl (fun r head => r.set (.eth (schedule.forkId genesis head))) r

/-- The entry is that of a head. -/
def Names (r : NodeRecord) (head : UInt64) : Prop :=
  r.get? "eth" = some (Entry.eth (schedule.forkId genesis head)).value

variable {schedule genesis} {r : NodeRecord} {head : UInt64}

theorem names_set (r : NodeRecord) (head : UInt64) :
    (r.set (.eth (schedule.forkId genesis head))).Names schedule genesis head :=
  get?_set_self r (.eth (schedule.forkId genesis head))

theorem names_follow (named : r.Names schedule genesis head) (heads : List UInt64) :
    (r.follow schedule genesis heads).Names schedule genesis (heads.getLastD head) := by
  induction heads generalizing r head with
  | nil => exact named
  | cons next heads ih =>
    rw [List.getLastD_cons]
    exact ih (names_set r next)

/-- The entry is written as bytes, and these differ exactly if the fork ids do. -/
theorem seq_set_of_names (named : r.Names schedule genesis head) (next : UInt64) :
    (r.set (.eth (schedule.forkId genesis next))).seq =
      r.seq + if schedule.forkId genesis head = schedule.forkId genesis next then 0 else 1 := by
  have written : r.get? (Entry.eth (schedule.forkId genesis next)).key =
      some (Entry.eth (schedule.forkId genesis next)).value ↔
        schedule.forkId genesis head = schedule.forkId genesis next := by
    rw [show r.get? (Entry.eth (schedule.forkId genesis next)).key = _ from named,
      Option.some.injEq]
    refine ⟨fun same => Entry.eth_injective ?_, fun same => by rw [same]⟩
    simp only [Entry.eth] at same ⊢
    rw [same]
  rw [seq_set]
  simp only [written]
  split <;> rfl

/-- The number of the record counts the heads with another fork id than the one before. -/
theorem seq_follow (named : r.Names schedule genesis head) (heads : List UInt64) :
    let ids := (head :: heads).map (schedule.forkId genesis)
    (r.follow schedule genesis heads).seq =
      r.seq + (ids.zip ids.tail).countP fun p => p.1 ≠ p.2 := by
  induction heads generalizing r head with
  | nil => rfl
  | cons next heads ih =>
    have after := ih (names_set r next)
    simp only [List.map_cons, List.tail_cons] at after ⊢
    rw [show r.follow schedule genesis (next :: heads) =
      (r.set (.eth (schedule.forkId genesis next))).follow schedule genesis heads from rfl, after,
      seq_set_of_names named, List.zip_cons_cons, List.countP_cons]
    simp only [ne_eq, decide_not, Bool.not_eq_true', decide_eq_false_iff_not, ite_not]
    omega

end NodeRecord

namespace EntryUpdater

theorem foldl_handle (u : EntryUpdater) (events : List ChainHead) :
    events.foldl handle u =
      { u with record := u.record.follow u.schedule u.genesis (events.map (·.number)) } := by
  induction events generalizing u with
  | nil => rfl
  | cons event events ih => rw [List.foldl_cons, ih]; rfl

/-- One pass of its loop: the next event is handled, and a bus that is gone ends it. -/
def turn (u : EntryUpdater) (bus : EventBus ChainHead) : EntryUpdater × EventBus ChainHead :=
  if u.hasEnded then (u, bus)
  else
    match bus.recv u.subscription with
    | (.event event, bus) => (u.handle event, bus)
    | (.waiting, bus) => (u, bus)
    | (.ended, bus) => ({ u with hasEnded := true }, bus.unsubscribe u.subscription)

end EntryUpdater

/-- An updater with the bus that it listens to. -/
structure Upkeep where
  updater : EntryUpdater
  bus : EventBus ChainHead

namespace Upkeep

/-- The calls of others on the bus, and what the updater does: a pass of its loop, as many passes as
there is something for, and the end that it is told to make. -/
inductive Move where
  | call (c : EventBus.Call ChainHead)
  | turn
  | work
  | cancel

def Move.call? : Move → Option (EventBus.Call ChainHead)
  | .call c => some c
  | _ => none

def apply (s : Upkeep) : Move → Upkeep
  | .call c => { s with bus := s.bus.apply c }
  | .turn => let (updater, bus) := s.updater.turn s.bus; ⟨updater, bus⟩
  | .work => let (updater, bus) := s.updater.step s.bus; ⟨updater, bus⟩
  | .cancel => let (updater, bus) := s.updater.cancel s.bus; ⟨updater, bus⟩

def run (s : Upkeep) (moves : List Move) : Upkeep := moves.foldl apply s

theorem run_cons (s : Upkeep) (m : Move) (moves : List Move) :
    s.run (m :: moves) = (s.apply m).run moves := rfl

/-- The events that the updater takes off its subscription in a move. -/
def handles (s : Upkeep) : Move → List ChainHead
  | .turn =>
    if s.updater.hasEnded then []
    else s.bus.given s.updater.subscription (.recv s.updater.subscription)
  | .work => if s.updater.hasEnded then [] else s.bus.backlog s.updater.subscription
  | .call _ | .cancel => []

def handled : Upkeep → List Move → List ChainHead
  | _, [] => []
  | s, m :: moves => s.handles m ++ handled (s.apply m) moves

/-- Nobody else takes from a subscription or drops it. -/
def Foreign (id : Nat) (moves : List Move) : Prop :=
  ∀ m ∈ moves, ∀ c ∈ m.call?, c.takes id = false ∧ c.drops id = false

/-- The updater runs, and its subscription holds the events that it has not handled yet. -/
structure Attending (s : Upkeep) (queue : List ChainHead) : Prop where
  runs : s.updater.hasEnded = false
  numbered : s.bus.Numbered
  known : s.updater.subscription < s.bus.nextId
  held : s.bus.queue? s.updater.subscription = some queue

section Moves

variable {s : Upkeep} {queue : List ChainHead}

theorem Attending.backlog (h : s.Attending queue) :
    s.bus.backlog s.updater.subscription = queue := by
  rw [EventBus.backlog_eq, h.held, Option.getD_some]

theorem turn_eq (runs : s.updater.hasEnded = false) :
    s.apply .turn = match s.bus.backlog s.updater.subscription with
      | event :: _ => ⟨s.updater.handle event, (s.bus.tryRecv s.updater.subscription).2⟩
      | [] =>
        if s.bus.isOpen then s
        else ⟨{ s.updater with hasEnded := true }, s.bus.unsubscribe s.updater.subscription⟩ := by
  simp only [apply, EntryUpdater.turn, EventBus.recv, EventBus.tryRecv, runs]
  cases s.bus.backlog s.updater.subscription with
  | nil => cases hopen : s.bus.isOpen <;> simp [hopen]
  | cons event queue => rfl

theorem work_eq (runs : s.updater.hasEnded = false) :
    s.apply .work =
      if s.bus.isOpen then
        ⟨(s.bus.backlog s.updater.subscription).foldl EntryUpdater.handle s.updater,
          (s.bus.drain s.updater.subscription).2⟩
      else
        ⟨{ (s.bus.backlog s.updater.subscription).foldl EntryUpdater.handle s.updater with
            hasEnded := true },
          (s.bus.drain s.updater.subscription).2.unsubscribe s.updater.subscription⟩ := by
  cases hopen : s.bus.isOpen <;>
    simp [apply, EntryUpdater.step, EventBus.drain, EntryUpdater.foldl_handle, runs, hopen]

theorem handles_turn (runs : s.updater.hasEnded = false) :
    s.handles .turn = (s.bus.backlog s.updater.subscription).head?.toList := by
  simp [handles, runs, EventBus.given_eq, EventBus.Call.takes]

theorem handles_work (runs : s.updater.hasEnded = false) :
    s.handles .work = s.bus.backlog s.updater.subscription := by
  simp [handles, runs]

/-- An updater that has ended stays as it is. -/
theorem ended_apply (ended : s.updater.hasEnded = true) (m : Move) :
    (s.apply m).updater = s.updater ∧ s.handles m = [] := by
  cases m with
  | call c => exact ⟨rfl, rfl⟩
  | turn | work => simp [apply, EntryUpdater.turn, EntryUpdater.step, handles, ended]
  | cancel =>
    refine ⟨?_, rfl⟩
    simp only [apply, EntryUpdater.cancel, ← ended]

theorem ended_run (ended : s.updater.hasEnded = true) (moves : List Move) :
    (s.run moves).updater = s.updater ∧ s.handled moves = [] := by
  induction moves generalizing s with
  | nil => exact ⟨rfl, rfl⟩
  | cons m moves ih =>
    obtain ⟨same, nothing⟩ := ended_apply ended m
    obtain ⟨still, never⟩ := ih (s := s.apply m) (same ▸ ended)
    exact ⟨still.trans same, by rw [handled, nothing, never]; rfl⟩

/-- What a move does to the updater is to handle those events, and perhaps to end it. -/
theorem updater_apply (s : Upkeep) (m : Move) :
    (s.apply m).updater = { (s.handles m).foldl EntryUpdater.handle s.updater with
      hasEnded := (s.apply m).updater.hasEnded } := by
  cases ended : s.updater.hasEnded with
  | true =>
    obtain ⟨same, nothing⟩ := ended_apply ended m
    rw [same, nothing]
    rfl
  | false =>
    cases m with
    | call c | cancel => rfl
    | turn =>
      rw [turn_eq ended, handles_turn ended]
      cases s.bus.backlog s.updater.subscription with
      | nil => cases s.bus.isOpen <;> rfl
      | cons event queue => rfl
    | work =>
      rw [work_eq ended, handles_work ended]
      cases s.bus.isOpen <;> rfl

theorem updater_run (s : Upkeep) (moves : List Move) :
    (s.run moves).updater = { (s.handled moves).foldl EntryUpdater.handle s.updater with
      hasEnded := (s.run moves).updater.hasEnded } := by
  induction moves generalizing s with
  | nil => rfl
  | cons m moves ih =>
    rw [run_cons, ih, updater_apply, handled]
    simp [EntryUpdater.foldl_handle, NodeRecord.follow, List.foldl_append]

theorem isOpen_apply (s : Upkeep) (m : Move) :
    (s.apply m).bus.isOpen = (s.bus.isOpen && !m.call?.any (·.closes)) := by
  cases m with
  | call c => exact EventBus.isOpen_apply s.bus c
  | turn =>
    cases ended : s.updater.hasEnded with
    | true => simp [apply, EntryUpdater.turn, ended, Move.call?]
    | false =>
      rw [turn_eq ended]
      cases s.bus.backlog s.updater.subscription with
      | nil => cases hopen : s.bus.isOpen <;> simp [hopen, EventBus.unsubscribe, Move.call?]
      | cons event queue => simp [EventBus.isOpen_tryRecv, Move.call?]
  | work =>
    cases ended : s.updater.hasEnded with
    | true => simp [apply, EntryUpdater.step, ended, Move.call?]
    | false =>
      rw [work_eq ended]
      cases hopen : s.bus.isOpen <;> simp [hopen, EventBus.drain, EventBus.unsubscribe, Move.call?]
  | cancel => simp [apply, EntryUpdater.cancel, EventBus.unsubscribe, Move.call?]

theorem isOpen_run (s : Upkeep) (moves : List Move) :
    (s.run moves).bus.isOpen =
      (s.bus.isOpen && !(moves.filterMap Move.call?).any (·.closes)) := by
  induction moves generalizing s with
  | nil => simp [run]
  | cons m moves ih =>
    rw [run_cons, ih, isOpen_apply, List.filterMap_cons]
    cases m.call? <;> simp [Bool.and_assoc]

/-- A pass of the loop handles the event in front and leaves the others waiting. -/
theorem Attending.turn {event : ChainHead} (h : s.Attending (event :: queue)) :
    s.apply .turn = ⟨s.updater.handle event, (s.bus.tryRecv s.updater.subscription).2⟩ ∧
      (s.apply .turn).Attending queue := by
  have now := turn_eq h.runs
  rw [h.backlog] at now
  have held :
      (s.bus.tryRecv s.updater.subscription).2.queue? s.updater.subscription = some queue := by
    rw [EventBus.queue?_tryRecv, if_pos rfl, h.held]
    rfl
  have numbered := EventBus.numbered_apply h.numbered (.tryRecv s.updater.subscription)
  have known := EventBus.nextId_apply s.bus (.tryRecv s.updater.subscription)
  rw [now]
  exact ⟨rfl, h.runs, numbered, known ▸ h.known, held⟩

/-- To handle everything that waits is to make one pass of the loop for each event, and one more. -/
theorem Attending.work_eq_turns (h : s.Attending queue) :
    (s.apply .work).updater = (s.run (List.replicate (queue.length + 1) .turn)).updater := by
  induction queue generalizing s with
  | nil =>
    rw [List.replicate_succ, run_cons, work_eq h.runs, turn_eq h.runs, h.backlog]
    cases s.bus.isOpen <;> rfl
  | cons event queue ih =>
    obtain ⟨now, after⟩ := h.turn
    rw [List.length_cons, List.replicate_succ, run_cons, ← ih after, work_eq h.runs,
      work_eq after.runs, h.backlog, after.backlog, isOpen_apply, now]
    cases s.bus.isOpen <;> rfl

/-- A running updater either keeps running, with what it has not handled waiting in front of what
is published, or it ends: told so, or because the bus is gone and all is handled. -/
theorem attending_apply (h : s.Attending queue) {m : Move}
    (foreign : ∀ c ∈ m.call?, c.takes s.updater.subscription = false ∧
      c.drops s.updater.subscription = false) :
    (∃ left, (s.apply m).Attending left ∧ s.handles m ++ left =
      queue ++ if s.bus.isOpen then m.call?.elim [] (·.published) else []) ∨
    (s.apply m).updater.hasEnded = true ∧
      (m = .cancel ∧ s.handles m = [] ∨ s.bus.isOpen = false ∧ s.handles m = queue) := by
  cases m with
  | call c =>
    obtain ⟨takes, drops⟩ := foreign c rfl
    have after := EventBus.queue?_apply h.numbered h.known c
    rw [h.held, takes, drops] at after
    have known : s.updater.subscription < (s.bus.apply c).nextId := by
      rw [EventBus.nextId_apply]
      exact Nat.lt_of_lt_of_le h.known (Nat.le_add_right ..)
    exact .inl ⟨_, ⟨h.runs, EventBus.numbered_apply h.numbered c, known, after⟩, rfl⟩
  | turn =>
    rw [turn_eq h.runs, handles_turn h.runs, h.backlog]
    cases queue with
    | nil =>
      cases hopen : s.bus.isOpen with
      | true => exact .inl ⟨[], h, by simp [Move.call?]⟩
      | false => exact .inr ⟨rfl, .inr ⟨rfl, rfl⟩⟩
    | cons event queue =>
      obtain ⟨now, after⟩ := h.turn
      rw [now] at after
      exact .inl ⟨queue, after, by simp [Move.call?]⟩
  | work =>
    rw [work_eq h.runs, handles_work h.runs, h.backlog, EntryUpdater.foldl_handle]
    have after := EventBus.queue?_drain s.bus s.updater.subscription
    rw [h.held] at after
    have numbered : (s.bus.drain s.updater.subscription).2.Numbered := by
      rw [EventBus.Numbered, EventBus.ids_drain]
      exact h.numbered
    cases s.bus.isOpen with
    | true => exact .inl ⟨[], ⟨h.runs, numbered, h.known, after⟩, by simp [Move.call?]⟩
    | false => exact .inr ⟨rfl, .inr ⟨rfl, rfl⟩⟩
  | cancel => exact .inr ⟨rfl, .inl ⟨rfl, rfl⟩⟩

/-- What moves publish for a subscription is what the first of them does, and what the rest do. -/
theorem heard_cons {id : Nat} {m : Move} {moves : List Move} (foreign : Foreign id (m :: moves)) :
    (if s.bus.isOpen then EventBus.heard id ((m :: moves).filterMap Move.call?) else []) =
      (if s.bus.isOpen then m.call?.elim [] (·.published) else []) ++
        if (s.apply m).bus.isOpen then EventBus.heard id (moves.filterMap Move.call?) else [] := by
  cases m with
  | call c => exact EventBus.heard_cons (foreign _ List.mem_cons_self c rfl).2 _
  | turn | work | cancel => simp [isOpen_apply, List.filterMap_cons, Move.call?]

/-- Over any moves the updater handles, in order, what waited for it and what it hears: all but what
still waits if it still runs, and all of it if nothing but the end of the bus has ended it. -/
theorem attending_run (h : s.Attending queue) {moves : List Move}
    (foreign : Foreign s.updater.subscription moves) :
    let due := queue ++ if s.bus.isOpen then
      EventBus.heard s.updater.subscription (moves.filterMap Move.call?) else []
    s.handled moves <+: due ∧
      ((∃ left, (s.run moves).Attending left ∧ s.handled moves ++ left = due) ∨
        (s.run moves).updater.hasEnded = true ∧
          (.cancel ∉ moves → (s.run moves).bus.isOpen = false ∧ s.handled moves = due)) := by
  induction moves generalizing s queue with
  | nil => exact ⟨List.nil_prefix, .inl ⟨queue, h, by simp [handled, EventBus.heard]⟩⟩
  | cons m moves ih =>
    intro due
    have same : (s.apply m).updater.subscription = s.updater.subscription := by
      rw [updater_apply, EntryUpdater.foldl_handle]
    have rest : Foreign (s.apply m).updater.subscription moves :=
      same ▸ fun m hm => foreign m (List.mem_cons_of_mem _ hm)
    rw [handled, run_cons]
    rcases attending_apply h (foreign m List.mem_cons_self) with
      ⟨left, now, split⟩ | ⟨ended, cause⟩
    · have whole : s.handles m ++ (left ++ if (s.apply m).bus.isOpen then
          EventBus.heard s.updater.subscription (moves.filterMap Move.call?) else []) = due := by
        rw [← List.append_assoc, split, List.append_assoc, ← heard_cons foreign]
      obtain ⟨front, outcome⟩ := ih now rest
      rw [same] at front outcome
      rw [← whole]
      refine ⟨(List.prefix_append_right_inj _).mpr front, ?_⟩
      rcases outcome with ⟨left, still, all⟩ | ⟨ended, cause⟩
      · exact .inl ⟨left, still, by rw [List.append_assoc, all]⟩
      · refine .inr ⟨ended, fun kept => ?_⟩
        obtain ⟨gone, all⟩ := cause fun hm => kept (List.mem_cons_of_mem _ hm)
        exact ⟨gone, by rw [all]⟩
    · obtain ⟨still, nothing⟩ := ended_run ended moves
      rw [nothing, List.append_nil]
      have ended' : ((s.apply m).run moves).updater.hasEnded = true := by rw [still, ended]
      rcases cause with ⟨cancelled, none⟩ | ⟨gone, all⟩
      · rw [none]
        exact ⟨List.nil_prefix, .inr ⟨ended', fun kept => absurd (by simp [cancelled]) kept⟩⟩
      · have due_eq : due = queue := by simp [due, gone]
        rw [all, due_eq]
        refine ⟨List.prefix_rfl, .inr ⟨ended', fun _ => ⟨?_, rfl⟩⟩⟩
        rw [isOpen_run, isOpen_apply, gone, Bool.false_and, Bool.false_and]

end Moves

def start (schedule : Fork.Schedule) (genesis : Hash) (head : UInt64) (record : NodeRecord)
    (bus : EventBus ChainHead) : Upkeep :=
  let (updater, bus) := EntryUpdater.start schedule genesis head record bus
  ⟨updater, bus⟩

theorem attending_start (schedule : Fork.Schedule) (genesis : Hash) (head : UInt64)
    (record : NodeRecord) {calls : List (EventBus.Call ChainHead)}
    (going : calls.any (·.closes) = false) :
    let s := start schedule genesis head record (EventBus.empty.run calls)
    s.Attending [] ∧ s.updater.subscription = calls.countP (·.subscribes) ∧
      s.bus.isOpen = true := by
  obtain ⟨number, isOpen, numbered, known, held⟩ := EventBus.subscribe_run going
  exact ⟨⟨rfl, numbered, known, held⟩, number, isOpen⟩

/-- Whatever others do on the bus and in whatever order the heads come, the published entry is that
of the last head handled, and the number of a record that was empty is one more than the changes
of the fork id. The updater handles what is published, in its order, each event once. It ends when
it is told to, and then handles nothing more; else it ends only with the bus, and not before it has
handled all that was still waiting. -/
theorem entry_follows_the_chain_head (schedule : Fork.Schedule) (genesis : Hash) (head : UInt64)
    (record : NodeRecord) {calls : List (EventBus.Call ChainHead)}
    (going : calls.any (·.closes) = false) {moves : List Move}
    (foreign : Foreign (calls.countP (·.subscribes)) moves) :
    let s := start schedule genesis head record (EventBus.empty.run calls)
    let t := s.run moves
    let heads := (s.handled moves).map (·.number)
    let ids := (head :: heads).map (schedule.forkId genesis)
    let due := EventBus.heard (calls.countP (·.subscribes)) (moves.filterMap Move.call?)
    t.updater.record.get? "eth" =
      some (Entry.eth (schedule.forkId genesis (heads.getLastD head))).value ∧
    (record = .empty → t.updater.record.seq = 1 + (ids.zip ids.tail).countP fun p => p.1 ≠ p.2) ∧
    s.handled moves <+: due ∧
    (t.updater.hasEnded = false →
      s.handled moves ++ t.handles .work = due ∧
      (t.apply .work).updater.hasEnded = (moves.filterMap Move.call?).any (·.closes) ∧
      (t.apply .work).updater =
        (t.run (List.replicate ((t.handles .work).length + 1) .turn)).updater) ∧
    (t.updater.hasEnded = true → .cancel ∉ moves →
      (moves.filterMap Move.call?).any (·.closes) = true ∧ s.handled moves = due) ∧
    (t.updater.hasEnded = true → ∀ more, (t.run more).updater = t.updater ∧ t.handled more = []) ∧
    (t.apply .cancel).updater = { t.updater with hasEnded := true } := by
  intro s t heads ids due
  obtain ⟨attending, number, isOpen⟩ := attending_start schedule genesis head record going
  have t_open : t.bus.isOpen = !(moves.filterMap Move.call?).any (·.closes) := by
    rw [isOpen_run, isOpen, Bool.true_and]
  obtain ⟨front, outcome⟩ := attending_run attending (number ▸ foreign)
  rw [isOpen, if_pos rfl, List.nil_append, number] at front outcome
  have named : s.updater.record.Names schedule genesis head := NodeRecord.names_set record head
  have written : t.updater.record = s.updater.record.follow schedule genesis heads := by
    rw [updater_run, EntryUpdater.foldl_handle]
    rfl
  refine ⟨?_, fun fresh => ?_, front, fun runs => ?_, fun ended kept => ?_, ended_run, rfl⟩
  · rw [written]
    exact NodeRecord.names_follow named heads
  · rw [written, NodeRecord.seq_follow named heads]
    subst fresh
    rfl
  · rcases outcome with ⟨left, still, all⟩ | ⟨ended, -⟩
    · rw [handles_work runs, still.backlog]
      refine ⟨all, ?_, still.work_eq_turns⟩
      rw [work_eq runs, t_open, EntryUpdater.foldl_handle]
      cases (moves.filterMap Move.call?).any (·.closes) with
      | false => exact runs
      | true => rfl
    · rw [runs] at ended
      cases ended
  · rcases outcome with ⟨left, still, -⟩ | ⟨-, cause⟩
    · rw [still.runs] at ended
      cases ended
    · obtain ⟨gone, all⟩ := cause kept
      refine ⟨?_, all⟩
      rw [t_open] at gone
      simpa using gone

/-- The head goes on within a fork, down below it and past the next one; two of the three events
still wait when the bus goes. -/
theorem entry_follows_the_chain_head_down_again :
    let schedule : Fork.Schedule := ⟨1, [0, 100, 200]⟩
    let calls : List (EventBus.Call ChainHead) := [.subscribe]
    let moves : List Move := [.call (.publish ⟨160, 0⟩), .call (.publish ⟨50, 0⟩), .turn,
      .call (.publish ⟨250, 0⟩), .call .close, .work]
    let s := start schedule 7 150 .empty (EventBus.empty.run calls)
    calls.any (·.closes) = false ∧ Foreign 1 moves ∧
      (s.handled moves).map (·.number) = [160, 50, 250] ∧
      (s.run moves).updater.record.get? "eth" = some (Entry.eth (schedule.forkId 7 250)).value ∧
      (s.run moves).updater.record.seq = 3 ∧
      ∀ more, (s.run moves).handled more = [] := by
  intro schedule calls moves s
  have going : calls.any (·.closes) = false := rfl
  have foreign : Foreign 1 moves := by
    simp [moves, Foreign, Move.call?, EventBus.Call.takes, EventBus.Call.drops]
  obtain ⟨entry, number, -, -, -, idle, -⟩ :=
    entry_follows_the_chain_head schedule 7 150 .empty going foreign
  let ids := ([150, 160, 50, 250] : List UInt64).map (schedule.forkId 7)
  have changes : ((ids.zip ids.tail).countP fun p => p.1 ≠ p.2) = 2 := by decide +kernel
  exact ⟨going, foreign, rfl, entry, (number rfl).trans (congrArg (1 + ·) changes),
    fun more => (idle rfl more).2⟩

end Upkeep
end Discovery
end ChainSync
