import ChainSync.Proofs.Fetch.Books
set_option autoImplicit false

/-!
The books of a run: every request that it made has ended once or is waited for, and the task waits
for no others.
-/

namespace ChainSync.Fetch

variable {σ τ : Type} [Workload τ]

namespace Watch

section Books

variable {σ τ : Type} [Asking τ]

/-- What is known of the requests of a run at any time. -/
structure Ledger (w : Watch σ τ) : Prop where
  tickets : (w.issued.map (·.ticket)).Nodup
  below : ∀ c ∈ w.issued, c.ticket < w.hub.nextTicket
  once : w.issued.Perm (w.reported.map Prod.fst ++ w.run.calls)
  counter : w.run.inFlight = w.run.errands.length
  arrived : ∀ x ∈ w.arrived, x.1 ∈ w.run.errands
  apart : (w.arrived.map (·.1.call.ticket)).Nodup
  timely : ∀ e ∈ w.underWay, w.hub.now ≤ e.call.expires
  ids : (w.run.errands.map (·.id)).Nodup
  attempts : ∀ e ∈ w.run.errands, e.id.attempt < Asking.attempts w.run.task
  owned : ∀ {id x}, Asking.asks w.run.task id = some x →
    ∃ e ∈ w.run.errands, e.id = id ∧ (e.call.peer, e.call.request) = x

variable {w w' : Watch σ τ}

omit [Asking τ] in
theorem mem_underWay {e : Errand} : e ∈ w.underWay ↔
    e ∈ w.run.errands ∧ ∀ x ∈ w.arrived, x.1.call.ticket ≠ e.call.ticket := by
  simp [underWay, List.mem_filter]

theorem Ledger.nodup_errands (h : w.Ledger) : (w.run.errands.map (·.call.ticket)).Nodup := by
  have nodup := (h.once.map (·.ticket)).nodup_iff.mp h.tickets
  rw [List.map_append] at nodup
  have calls := nodup.of_append_right
  rwa [Run.calls, List.map_map] at calls

theorem Ledger.mem_issued (h : w.Ledger) {e : Errand} (he : e ∈ w.run.errands) :
    e.call ∈ w.issued :=
  h.once.mem_iff.mpr (List.mem_append_right _ (List.mem_map_of_mem he))

theorem Ledger.books (h : w.Ledger) : w.run.Books w.hub.nextTicket :=
  ⟨h.nodup_errands, fun _ he => h.below _ (h.mem_issued he), h.ids, h.attempts, h.owned⟩

variable [Workload τ]

/-- Nothing was asked, nothing ended and no time passed. -/
structure Stays (w w' : Watch σ τ) : Prop where
  errands : w'.run.errands = w.run.errands
  inFlight : w'.run.inFlight = w.run.inFlight
  task : Forgets w.run.task w'.run.task
  arrived : w'.arrived = w.arrived
  issued : w'.issued = w.issued
  reported : w'.reported = w.reported
  now : w'.hub.now = w.hub.now
  tickets : w.hub.nextTicket ≤ w'.hub.nextTicket

theorem Ledger.stays (h : w.Ledger) (stays : Stays w w') : w'.Ledger where
  tickets := stays.issued ▸ h.tickets
  below c hc := Nat.lt_of_lt_of_le (h.below c (stays.issued ▸ hc)) stays.tickets
  once := by
    rw [stays.issued, stays.reported, Run.calls, stays.errands]
    exact h.once
  counter := by rw [stays.inFlight, stays.errands, h.counter]
  arrived := by
    rw [stays.arrived, stays.errands]
    exact h.arrived
  apart := stays.arrived ▸ h.apart
  timely := by
    rw [underWay, stays.arrived, stays.errands, stays.now]
    exact h.timely
  ids := (h.books.stays stays.errands stays.task).ids
  attempts := (h.books.stays stays.errands stays.task).attempts
  owned := (h.books.stays stays.errands stays.task).owned

/-- A request is made under a fresh ticket and a fresh id. -/
theorem Ledger.issue (h : w.Ledger) {a : Assignment} {e : Errand} {task : τ} {hub : Hub σ}
    (makes : Makes e.call.peer a w.run.task task) (id : e.id = a.id)
    (request : e.call.request = a.request) (ticket : e.call.ticket = w.hub.nextTicket)
    (expires : w.hub.now ≤ e.call.expires) (now : hub.now = w.hub.now)
    (next : hub.nextTicket = w.hub.nextTicket + 1) :
    Ledger { w with
      run := { w.run with
        task, errands := w.run.errands ++ [e], inFlight := w.run.inFlight + 1 }
      hub
      issued := w.issued ++ [e.call] } := by
  have books := h.books.issue (w.run.inFlight + 1) makes id request ticket
  refine ⟨?_, fun c hc => ?_, ?_, ?_, fun x hx => List.mem_append_left _ (h.arrived x hx), h.apart,
    fun e' he' => ?_, books.ids, books.attempts, books.owned⟩
  · exact nodup_map_concat h.tickets fun c hc => Nat.ne_of_lt (ticket ▸ h.below c hc)
  · rw [next]
    rcases List.mem_append.mp hc with hc | hc
    · exact Nat.lt_succ_of_lt (h.below c hc)
    · rw [List.mem_singleton.mp hc, ticket]
      exact Nat.lt_succ_self _
  · simp only [Run.calls, List.map_append, ← List.append_assoc]
    exact h.once.append_right _
  · simp [h.counter]
  · obtain ⟨hmem, hun⟩ := mem_underWay.mp he'
    rw [now]
    rcases List.mem_append.mp hmem with hmem | hmem
    · exact h.timely e' (mem_underWay.mpr ⟨hmem, hun⟩)
    · rwa [List.mem_singleton.mp hmem]

omit [Workload τ] in
/-- A request ended, and its end waits to be told. -/
theorem Ledger.arrive (h : w.Ledger) {e : Errand} (he : e ∈ w.underWay) (ending : Ending)
    {hub : Hub σ} (now : hub.now = w.hub.now) (next : hub.nextTicket = w.hub.nextTicket) :
    Ledger { w with hub, arrived := w.arrived ++ [(e, ending)] } := by
  obtain ⟨hmem, hun⟩ := mem_underWay.mp he
  refine ⟨h.tickets, next ▸ h.below, h.once, h.counter, fun x hx => ?_, ?_, fun e' he' => ?_,
    h.ids, h.attempts, h.owned⟩
  · rcases List.mem_append.mp hx with hx | hx
    · exact h.arrived x hx
    · rwa [List.mem_singleton.mp hx]
  · exact nodup_map_concat h.apart hun
  · obtain ⟨hmem', hun'⟩ := mem_underWay.mp he'
    rw [now]
    exact h.timely e' (mem_underWay.mpr ⟨hmem', fun x hx => hun' x (List.mem_append_left _ hx)⟩)

/-- The run is told of an end, and its task does not wait for that request any more. -/
theorem Ledger.report (h : w.Ledger) {e : Errand} {ending : Ending}
    {arrived : List (Errand × Ending)} (first : w.arrived = (e, ending) :: arrived) {run : Run τ}
    {hub : Hub σ} (errands : run.errands = (settled w.run e.call.ticket).errands)
    (inFlight : run.inFlight = (settled w.run e.call.ticket).inFlight)
    (task : Forgets w.run.task run.task) (gone : Asking.asks run.task e.id = none)
    (now : hub.now = w.hub.now) (next : hub.nextTicket = w.hub.nextTicket) :
    Ledger { w with run, hub, arrived, reported := w.reported ++ [(e.call, ending)] } := by
  have he : e ∈ w.run.errands := h.arrived (e, ending) (first ▸ List.mem_cons_self ..)
  have perm : w.run.errands.Perm (e :: (settled w.run e.call.ticket).errands) :=
    perm_without h.nodup_errands he
  have left {e' : Errand} (he' : e' ∈ (settled w.run e.call.ticket).errands) : e' ∈ w.run.errands :=
    List.mem_of_mem_filter he'
  have apart := h.apart
  rw [first, List.map_cons, List.nodup_cons] at apart
  rw [← errands] at perm left
  have books := h.books.settle he errands task gone
  refine ⟨h.tickets, next ▸ h.below, ?_, ?_, fun x hx => ?_, apart.2, fun e' he' => ?_, books.ids,
    books.attempts, books.owned⟩
  · have calls := (perm.map (·.call)).append_left (w.reported.map Prod.fst)
    refine (h.once.trans calls).trans ?_
    simp only [List.map_append, List.map_cons, List.map_nil, List.append_assoc,
      List.singleton_append, Run.calls]
    exact .refl _
  · have length := perm.length_eq
    rw [List.length_cons] at length
    rw [inFlight, settled, h.counter, length, Nat.add_sub_cancel]
  · have hmem := h.arrived x (first ▸ List.mem_cons_of_mem _ hx)
    rw [errands]
    refine List.mem_filter.mpr ⟨hmem, bne_iff_ne.mpr fun same => apart.1 ?_⟩
    exact List.mem_map.mpr ⟨x, hx, same⟩
  · obtain ⟨hmem, hun⟩ := mem_underWay.mp he'
    rw [now]
    refine h.timely e' (mem_underWay.mpr ⟨left hmem, fun x hx => ?_⟩)
    rw [first] at hx
    rcases List.mem_cons.mp hx with rfl | hx
    · rw [errands] at hmem
      exact (bne_iff_ne.mp (List.mem_filter.mp hmem).2).symm
    · exact hun x hx

end Books

section Steps

variable [Receiver σ τ] [Asking τ] [Accountable σ τ] {w : Watch σ τ}

omit [Workload τ] [Receiver σ τ] [Accountable σ τ] in
theorem ledger_opened {task : τ} (unasked : ∀ id, Asking.asks task id = none) (h : Hub σ) :
    (opened task h).Ledger := by
  refine ⟨by simp [opened], by simp [opened], by simp [opened, Run.calls], rfl, by simp [opened],
    by simp [opened], by simp [opened, underWay], by simp [opened], by simp [opened],
    fun {id x} asked => ?_⟩
  have asked : Asking.asks task id = some x := asked
  rw [unasked id] at asked
  cases asked

/-- A pass makes requests for which there is work, one to a slot. -/
theorem ledger_assign (h : w.Ledger) :
    ∃ new, (w.run.assign w.hub).1.errands = w.run.errands ++ new ∧
      Ledger { w with
        run := (w.run.assign w.hub).1
        hub := (w.run.assign w.hub).2
        issued := w.issued ++ new.map (·.call) } := by
  refine Run.assign_induction (P := fun r hub => ∃ new, r.errands = w.run.errands ++ new ∧
    Ledger { w with run := r, hub, issued := w.issued ++ new.map (·.call) })
    ⟨[], by simp, by simpa using h⟩ ?_
  rintro r hub live peer ⟨new, errands, ledger⟩
  rcases r.offer_cases hub live peer with
    ⟨same, -⟩ | ⟨slot, peers, -, ⟨same, -⟩ | ⟨capacity, a, task, reserved, same⟩⟩
  · rw [same]
    exact ⟨new, errands, ledger⟩
  · rw [same]
    exact ⟨new, errands, ledger.stays ⟨rfl, rfl, .refl _, rfl, rfl, rfl, rfl, Nat.le_refl _⟩⟩
  · have makes := Accountable.reserve (σ := σ) reserved
    simp only at same
    rw [same]
    refine ⟨new ++ [_], by rw [errands, List.append_assoc], ?_⟩
    rw [List.map_append, ← List.append_assoc]
    exact ledger.issue makes rfl rfl rfl (Nat.le_add_right ..) rfl rfl

omit [Receiver σ τ] [Accountable σ τ] in
theorem Ledger.fail (h : w.Ledger) (err : SyncError) : (w.fail err).Ledger :=
  h.stays ⟨rfl, rfl, .refl _, rfl, rfl, rfl, rfl, Nat.le_refl _⟩

omit [Workload τ] [Receiver σ τ] [Asking τ] [Accountable σ τ] in
theorem hub_clock (h : Hub σ) (doing : Doing σ) :
    (doing.hub h).now = h.now ∧ h.nextTicket ≤ (doing.hub h).nextTicket := by
  cases doing <;> first | exact ⟨rfl, Nat.le_refl _⟩ | exact ⟨rfl, Nat.le_succ _⟩

theorem ledger_event (h : w.Ledger) (event : PeerEvent) (hub : Hub σ) (now : hub.now = w.hub.now)
    (next : hub.nextTicket = w.hub.nextTicket) :
    Ledger { w with run := w.run.noteEvent event, hub } := by
  have next := Nat.le_of_eq next.symm
  cases event with
  | registered peer => exact h.stays ⟨rfl, rfl, .refl _, rfl, rfl, rfl, now, next⟩
  | unregistered peer =>
    exact h.stays ⟨rfl, rfl, Accountable.failPeer (σ := σ) _ peer, rfl, rfl, rfl, now, next⟩
  | dropped peer =>
    exact h.stays ⟨rfl, rfl, Accountable.failPeer (σ := σ) _ peer, rfl, rfl, rfl, now, next⟩

/-- Whatever happens next, the books stay right. -/
theorem ledger_act (h : w.Ledger) (op : Op σ) : (w.act op).Ledger := by
  have happens := happens_act w op
  generalize w.act op = next at happens
  cases happens with
  | nothing => exact h
  | left _ result => exact h.stays ⟨rfl, rfl, .refl _, rfl, rfl, rfl, rfl, Nat.le_refl _⟩
  | passed waitingSince metrics =>
    obtain ⟨new, errands, ledger⟩ := ledger_assign h
    have added : (w.run.assign w.hub).1.errands.drop w.run.errands.length = new := by
      rw [errands, List.drop_left]
    rw [added]
    exact ledger.stays ⟨rfl, rfl, .refl _, rfl, rfl, rfl, rfl, Nat.le_refl _⟩
  | ended under => exact h.arrive under _ rfl rfl
  | @told e ending arrived run hub first concluded =>
    have done := concludes (settled w.run e.call.ticket) w.hub e ending
    rw [concluded] at done
    exact h.report first done.errands done.inFlight done.task done.gone done.now done.next
  | @refused e ending arrived run hub err first concluded =>
    have done := concludes (settled w.run e.call.ticket) w.hub e ending
    rw [concluded] at done
    have told := h.report first done.errands done.inFlight done.task done.gone done.now done.next
    exact told.fail err
  | noted event events => exact ledger_event h event _ rfl rfl
  | waited timely =>
    exact ⟨h.tickets, h.below, h.once, h.counter, h.arrived, h.apart, timely, h.ids, h.attempts,
      h.owned⟩
  | aside doing =>
    obtain ⟨now, next⟩ := hub_clock w.hub doing
    exact h.stays ⟨rfl, rfl, .refl _, rfl, rfl, rfl, now, next⟩

theorem ledger_play (h : w.Ledger) (ops : List (Op σ)) : (w.play ops).Ledger :=
  play_invariant h fun _ op _ _ h => ledger_act h op

end Steps
end Watch
end ChainSync.Fetch
