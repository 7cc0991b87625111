import ChainSync.Proofs.Fetch.Accounts
import ChainSync.Proofs.Fetch.Conduct
set_option autoImplicit false

/-!
The requests that a run waits for: each has a ticket and an id of its own, and the task waits for no
others.
-/

namespace ChainSync.Fetch

variable {σ τ : Type}

theorem nodup_map_concat {α β : Type} {f : α → β} {l : List α} {a : α} (h : (l.map f).Nodup)
    (fresh : ∀ b ∈ l, f b ≠ f a) : ((l ++ [a]).map f).Nodup := by
  rw [List.map_append]
  refine List.nodup_append.mpr ⟨h, List.nodup_singleton _, fun x hx y hy => ?_⟩
  obtain ⟨b, hb, rfl⟩ := List.mem_map.mp hx
  rw [List.mem_singleton.mp hy]
  exact fresh b hb

/-- Taking out a ticket takes out its one request. -/
theorem perm_without {l : List Errand} (nodup : (l.map (·.call.ticket)).Nodup) {e : Errand}
    (he : e ∈ l) : l.Perm (e :: l.filter (·.call.ticket != e.call.ticket)) := by
  have same : l.filter (·.call.ticket != e.call.ticket) = l.erase e := by
    rw [nodup.of_map.erase_eq_filter]
    refine List.filter_congr fun e' he' => ?_
    by_cases heq : e' = e
    · simp [heq]
    · have other : e'.call.ticket ≠ e.call.ticket :=
        fun h => heq (List.inj_on_of_nodup_map nodup he' he h)
      rw [bne_iff_ne.mpr other, bne_iff_ne.mpr heq]
  rw [same]
  exact List.perm_cons_erase he

namespace Run

section Books

variable [Asking τ]

/-- What is known of the requests that a run waits for, while the next one gets this ticket. -/
structure Books (r : Run τ) (next : Nat) : Prop where
  tickets : (r.errands.map (·.call.ticket)).Nodup
  below : ∀ e ∈ r.errands, e.call.ticket < next
  ids : (r.errands.map (·.id)).Nodup
  attempts : ∀ e ∈ r.errands, e.id.attempt < Asking.attempts r.task
  owned : ∀ {id x}, Asking.asks r.task id = some x →
    ∃ e ∈ r.errands, e.id = id ∧ (e.call.peer, e.call.request) = x

namespace Books

variable {r r' : Run τ} {next next' : Nat} {e : Errand}

/-- The request that a task waits for by an id is the one that was made by it. -/
theorem agreed (h : r.Books next) (he : e ∈ r.errands) {x : PeerId × Request}
    (asked : Asking.asks r.task e.id = some x) : x = (e.call.peer, e.call.request) := by
  obtain ⟨e', he', hid, rfl⟩ := h.owned asked
  rw [List.inj_on_of_nodup_map h.ids he' he hid]

theorem mono (h : r.Books next) (le : next ≤ next') : r.Books next' :=
  ⟨h.tickets, fun e he => Nat.lt_of_lt_of_le (h.below e he) le, h.ids, h.attempts, h.owned⟩

variable [Workload τ]

theorem stays (h : r.Books next) (errands : r'.errands = r.errands)
    (task : Forgets r.task r'.task) : r'.Books next where
  tickets := errands ▸ h.tickets
  below := errands ▸ h.below
  ids := errands ▸ h.ids
  attempts := by
    rw [errands, task.attempts]
    exact h.attempts
  owned asked := by
    rw [errands]
    exact h.owned (task.asks asked)

/-- A request is made under a fresh ticket and a fresh id. -/
theorem issue (h : r.Books next) {a : Assignment} {task : τ} (inFlight : Nat)
    (makes : Makes e.call.peer a r.task task) (id : e.id = a.id)
    (request : e.call.request = a.request) (ticket : e.call.ticket = next) :
    Books { r with task, errands := r.errands ++ [e], inFlight } (next + 1) := by
  refine ⟨nodup_map_concat h.tickets fun e' he' => Nat.ne_of_lt (ticket ▸ h.below e' he'),
    fun e' he' => ?_, nodup_map_concat h.ids fun e' he' same => ?_, fun e' he' => ?_,
    fun {id' x} asked => ?_⟩
  · rcases List.mem_append.mp he' with he' | he'
    · exact Nat.lt_succ_of_lt (h.below e' he')
    · rw [List.mem_singleton.mp he', ticket]
      exact Nat.lt_succ_self _
  · have hlt := h.attempts e' he'
    rw [same, id, makes.fresh] at hlt
    exact Nat.lt_irrefl _ hlt
  · rw [makes.attempts]
    rcases List.mem_append.mp he' with he' | he'
    · exact Nat.lt_succ_of_lt (h.attempts e' he')
    · rw [List.mem_singleton.mp he', id, makes.fresh]
      exact Nat.lt_succ_self _
  · rcases makes.asks asked with asked | ⟨rfl, rfl⟩
    · obtain ⟨e', he', found⟩ := h.owned asked
      exact ⟨e', List.mem_append_left _ he', found⟩
    · exact ⟨e, List.mem_append_right _ (List.mem_singleton_self e), id, by rw [request]⟩

/-- A request is not waited for any more, neither by the run nor by its task. -/
theorem settle (h : r.Books next) (he : e ∈ r.errands)
    (errands : r'.errands = (Watch.settled r e.call.ticket).errands)
    (task : Forgets r.task r'.task) (gone : Asking.asks r'.task e.id = none) : r'.Books next := by
  have perm : r.errands.Perm (e :: (Watch.settled r e.call.ticket).errands) :=
    perm_without h.tickets he
  have sublist : r'.errands.Sublist r.errands := errands ▸ List.filter_sublist
  refine ⟨h.tickets.sublist (sublist.map _), fun e' he' => h.below e' (sublist.mem he'),
    h.ids.sublist (sublist.map _), fun e' he' => task.attempts ▸ h.attempts e' (sublist.mem he'),
    fun {id x} asked => ?_⟩
  obtain ⟨e', he', hid, found⟩ := h.owned (task.asks asked)
  refine ⟨e', ?_, hid, found⟩
  rcases List.mem_cons.mp (perm.mem_iff.mp he') with rfl | he'
  · rw [← hid, gone] at asked
    cases asked
  · exact errands ▸ he'

end Books

end Books

section Steps

variable [Workload τ] [Receiver σ τ] [Asking τ] [Accountable σ τ] {r : Run τ} {h : Hub σ}

omit [Workload τ] [Receiver σ τ] [Accountable σ τ] in
theorem books_opened {task : τ} (unasked : ∀ id, Asking.asks task id = none) (h : Hub σ) :
    (Watch.opened task h).run.Books (Watch.opened task h).hub.nextTicket := by
  refine ⟨by simp [Watch.opened], by simp [Watch.opened], by simp [Watch.opened],
    by simp [Watch.opened], fun {id x} asked => ?_⟩
  have asked : Asking.asks task id = some x := asked
  rw [unasked id] at asked
  cases asked

variable (σ τ) in
theorem conduct_books : Conduct fun (r : Run τ) (h : Hub σ) => r.Books h.nextTicket where
  offer {r h} live peer books := by
    rcases r.offer_cases h live peer with
      ⟨same, -⟩ | ⟨slot, peers, -, ⟨same, -⟩ | ⟨capacity, a, task, reserved, same⟩⟩
    · rw [same]
      exact books
    · rw [same]
      exact books
    · have makes := Accountable.reserve (σ := σ) reserved
      rw [same]
      exact books.issue _ makes rfl rfl rfl
  awaitPeers {r h} books := by
    obtain ⟨since, throttle, same⟩ := r.awaitPeers_eq h
    rw [same]
    exact books.stays rfl (.refl _)
  noteEvent {r h} event events books := by
    cases event with
    | registered peer => exact books.stays rfl (.refl _)
    | unregistered peer | dropped peer =>
      exact books.stays rfl (Accountable.failPeer (σ := σ) r.task peer)
  leave books := books

end Steps
end Run

namespace Watch

theorem judge_clock (h : Hub σ) (e : Errand) (delivery : Delivery) :
    (Run.judge h e delivery).now = h.now ∧ (Run.judge h e delivery).nextTicket = h.nextTicket := by
  unfold Run.judge
  split
  · dsimp only
    split <;> exact ⟨rfl, rfl⟩
  all_goals exact ⟨rfl, rfl⟩

variable [Workload τ] [Asking τ]

/-- What a report changes: the task does not wait for the request any more. -/
structure Concludes (r : Run τ) (h : Hub σ) (e : Errand) (r' : Run τ) (h' : Hub σ) : Prop where
  errands : r'.errands = r.errands
  inFlight : r'.inFlight = r.inFlight
  task : Forgets r.task r'.task
  gone : Asking.asks r'.task e.id = none
  now : h'.now = h.now
  next : h'.nextTicket = h.nextTicket

theorem concludes [Receiver σ τ] [Accountable σ τ] (r : Run τ) (h : Hub σ) (e : Errand)
    (ending : Ending) :
    Concludes r h e (r.conclude h e ending).1 (r.conclude h e ending).2.1 := by
  cases ending with
  | answered payload =>
    obtain ⟨forgets, gone⟩ := Accountable.deliver r.task h.board e.id e.call.peer payload
    simp only [Run.conclude]
    generalize Receiver.deliver r.task h.board e.id e.call.peer payload = out at forgets gone
    obtain ⟨task, board, result⟩ := out
    cases result with
    | error err => exact ⟨rfl, rfl, forgets, gone, rfl, rfl⟩
    | ok delivery =>
      obtain ⟨now, next⟩ := judge_clock { h with board } e delivery
      exact ⟨rfl, rfl, forgets, gone, now, next⟩
  | failed error =>
    obtain ⟨forgets, gone⟩ := Accountable.fail (σ := σ) r.task e.id
    exact ⟨rfl, rfl, forgets, gone, rfl, rfl⟩
  | timedOut =>
    obtain ⟨forgets, gone⟩ := Accountable.fail (σ := σ) r.task e.id
    exact ⟨rfl, rfl, forgets, gone, rfl, rfl⟩

end Watch
end ChainSync.Fetch
