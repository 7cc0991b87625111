import ChainSync.Proofs.Session.Masters
import ChainSync.Session.Downloader
set_option autoImplicit false

/-!
How calls, their states and the lock hang together in a downloader.
-/

namespace ChainSync

open Fetch

namespace Downloader

variable {σ : Type}

def state? (d : Downloader σ) (number : Nat) : Option CallState := (d.call? number).map (·.state)

section Calls

variable {d : Downloader σ} {n m : Nat}

theorem call?_number {c : StartCall} (found : d.call? n = some c) : c.number = n := by
  simpa using List.find?_some found

theorem call?_setState (state : CallState) : (d.setState n state).call? m =
    (d.call? m).map fun c => if c.number = n then { c with state } else c := by
  rw [call?, setState, List.find?_map, call?]
  congr 2
  funext c
  rw [Function.comp_apply]
  split <;> rfl

theorem state?_of_calls {e : Downloader σ} (calls : e.calls = d.calls) (n : Nat) :
    e.state? n = d.state? n := by
  rw [state?, state?, call?, call?, calls]

theorem state?_setState (state : CallState) : (d.setState n state).state? m =
    if m = n then (d.state? m).map fun _ => state else d.state? m := by
  rw [state?, state?, call?_setState]
  cases found : d.call? m with
  | none => split <;> rfl
  | some c =>
    have number := call?_number found
    by_cases same : m = n
    · simp [same, number.trans same]
    · have other : c.number ≠ n := by rwa [number]
      simp [same, other]

@[simp] theorem calls_cancelLatest (d : Downloader σ) : d.cancelLatest.calls = d.calls := by
  unfold cancelLatest
  split <;> rfl

@[simp] theorem lock_cancelLatest (d : Downloader σ) : d.cancelLatest.lock = d.lock := by
  unfold cancelLatest
  split <;> rfl

@[simp] theorem queue_cancelLatest (d : Downloader σ) : d.cancelLatest.queue = d.queue := by
  unfold cancelLatest
  split <;> rfl

@[simp] theorem latest_cancelLatest (d : Downloader σ) : d.cancelLatest.latest = d.latest := by
  unfold cancelLatest
  split <;> rfl

theorem isCancelled_cancelLatest : d.cancelLatest.isCancelled n = true ↔
    d.latest = some n ∨ d.isCancelled n = true := by
  unfold cancelLatest
  split
  · rename_i latest heq
    simp only [isCancelled, heq, List.contains_iff_mem, List.mem_insert_iff, Option.some.injEq]
    exact or_congr_left eq_comm
  · rename_i heq
    simp only [heq, reduceCtorEq, false_or]

theorem running?_eq_some {s : Session} :
    d.running? = some (n, s) ↔ d.lock = some n ∧ d.state? n = some (.running s) := by
  unfold running? state?
  constructor
  · intro running
    split at running
    · cases running
    · rename_i number held
      split at running
      · rename_i heq
        cases running
        exact ⟨held, by simp [heq]⟩
      · cases running
  · rintro ⟨held, state⟩
    obtain ⟨c, found, hc⟩ := Option.map_eq_some_iff.mp state
    obtain ⟨number, mode, target, state⟩ := c
    obtain rfl : state = .running s := hc
    simp [held, found]

section Note

variable (out : Hub σ × (Session ⊕ Except SyncError Unit))

@[simp] theorem queue_note : (d.note n out).queue = d.queue := by
  obtain ⟨h, s | result⟩ := out <;> rfl

@[simp] theorem latest_note : (d.note n out).latest = d.latest := by
  obtain ⟨h, s | result⟩ := out <;> rfl

@[simp] theorem isCancelled_note : (d.note n out).isCancelled m = d.isCancelled m := by
  obtain ⟨h, s | result⟩ := out <;> rfl

@[simp] theorem length_note : (d.note n out).calls.length = d.calls.length := by
  obtain ⟨h, s | result⟩ := out <;> exact List.length_map ..

theorem state?_note_ne (other : m ≠ n) : (d.note n out).state? m = d.state? m := by
  obtain ⟨h, s | result⟩ := out <;> exact (state?_setState _).trans (if_neg other)

theorem state?_note_self (known : (d.state? n).isSome) :
    (∃ s, out.2 = .inl s ∧ (d.note n out).state? n = some (.running s) ∧
        (d.note n out).lock = d.lock) ∨
      ∃ result, out.2 = .inr result ∧ (d.note n out).state? n = some (.returned result) ∧
        (d.note n out).lock = none := by
  obtain ⟨state, known⟩ := Option.isSome_iff_exists.mp known
  obtain ⟨h, s | result⟩ := out
  · refine .inl ⟨s, rfl, ?_, rfl⟩
    exact (state?_setState _).trans (by rw [if_pos rfl]; exact congrArg (Option.map _) known)
  · refine .inr ⟨result, rfl, ?_, rfl⟩
    exact (state?_setState _).trans (by rw [if_pos rfl]; exact congrArg (Option.map _) known)

end Note
end Calls

/-- What the calls are, whoever has the lock. -/
structure Listed (d : Downloader σ) : Prop where
  known : ∀ n, (d.state? n).isSome ↔ n < d.calls.length
  replaced : ∀ n < d.calls.length, d.latest = some n ∨ d.isCancelled n = true
  latest : ∀ n, d.latest = some n → n < d.calls.length
  queued : ∀ n ∈ d.queue, d.state? n = some .waiting
  once : d.queue.Nodup

/-- Whoever has the lock runs, and nobody else does. -/
structure Orderly (d : Downloader σ) : Prop extends Listed d where
  holder : ∀ n, d.lock = some n → ∃ s, d.state? n = some (.running s)
  alone : ∀ n s, d.state? n = some (.running s) → d.lock = some n
  asks : ∀ n s, d.state? n = some (.running s) → s.stage.AskedOf s.attempt.master

section Orderly

variable {d : Downloader σ} {n : Nat}

theorem orderly_new (hub : Hub σ) (engine : Engine) (hasStore : Bool) :
    Orderly { hub, engine, hasStore } := by
  refine ⟨⟨?_, ?_, ?_, ?_, List.nodup_nil⟩, ?_, ?_, ?_⟩ <;> simp [state?, call?]

theorem Orderly.of_same {e : Downloader σ} (orderly : d.Orderly) (calls : e.calls = d.calls)
    (lock : e.lock = d.lock) (queue : e.queue = d.queue) (latest : e.latest = d.latest)
    (cancelled : ∀ n, d.isCancelled n = true → e.isCancelled n = true) : e.Orderly := by
  have states := state?_of_calls calls
  refine ⟨⟨?_, fun n hn => ?_, ?_, ?_, ?_⟩, ?_, ?_, ?_⟩
  · simpa only [states, calls] using orderly.known
  · rw [calls] at hn
    exact latest ▸ (orderly.replaced n hn).imp_right (cancelled n)
  · simpa only [latest, calls] using orderly.latest
  · simpa only [states, queue] using orderly.queued
  · exact queue ▸ orderly.once
  · simpa only [states, lock] using orderly.holder
  · simpa only [states, lock] using orderly.alone
  · simpa only [states] using orderly.asks

/-- A call that asked for the lock has not got it yet. -/
theorem Orderly.unqueued (orderly : d.Orderly) (held : d.lock = some n) : n ∉ d.queue := by
  intro queued
  obtain ⟨s, running⟩ := orderly.holder n held
  cases running.symm.trans (orderly.queued n queued)

theorem orderly_note {out : Hub σ × (Session ⊕ Except SyncError Unit)} (listed : d.Listed)
    (held : d.lock = some n) (known : n < d.calls.length) (unqueued : n ∉ d.queue)
    (alone : ∀ m s, d.state? m = some (.running s) → m = n)
    (asks : ∀ s, out.2 = .inl s → s.stage.AskedOf s.attempt.master) : (d.note n out).Orderly := by
  have self := state?_note_self out ((listed.known n).mpr known)
  have others {m : Nat} (other : m ≠ n) := state?_note_ne (d := d) out other
  have running {m : Nat} {s : Session} (h : (d.note n out).state? m = some (.running s)) :
      out.2 = .inl s ∧ m = n ∧ (d.note n out).lock = some n := by
    by_cases same : m = n
    · subst same
      rcases self with ⟨s', hs, hstate, hlock⟩ | ⟨result, -, hstate, -⟩
      · cases hstate.symm.trans h
        exact ⟨hs, rfl, hlock.trans held⟩
      · cases hstate.symm.trans h
    · rw [others same] at h
      exact absurd (alone m s h) same
  refine ⟨⟨fun m => ?_, ?_, ?_, fun m hm => ?_, ?_⟩, fun m hm => ?_, fun m s h => ?_,
    fun m s h => ?_⟩
  · by_cases same : m = n
    · subst same
      rcases self with ⟨s, -, hstate, -⟩ | ⟨result, -, hstate, -⟩ <;> simp [hstate, known]
    · simpa [others same] using listed.known m
  · simpa using listed.replaced
  · simpa using listed.latest
  · rw [queue_note] at hm
    have other : m ≠ n := by
      rintro rfl
      exact unqueued hm
    rw [others other]
    exact listed.queued m hm
  · simpa using listed.once
  · rcases self with ⟨s, -, hstate, hlock⟩ | ⟨result, -, -, hlock⟩
    · rw [hlock, held] at hm
      cases hm
      exact ⟨s, hstate⟩
    · rw [hlock] at hm
      cases hm
  · obtain ⟨-, rfl, hlock⟩ := running h
    exact hlock
  · exact asks s (running h).1

theorem state?_announce (listed : d.Listed) (mode : SyncMode) (target : Option Nat) (m : Nat) :
    (d.announce mode target).state? m =
      if m = d.calls.length then some .waiting else d.state? m := by
  have appended : (d.announce mode target).call? m =
      (d.call? m).or ([⟨d.calls.length, mode, target, .waiting⟩].find? (·.number == m)) := by
    simp [call?, announce, List.find?_append]
  rw [state?, appended]
  split
  · rename_i last
    have unknown : ¬ (d.state? m).isSome := by simp [listed.known, last]
    have unfound : d.call? m = none := by simpa [state?] using unknown
    rw [unfound, Option.none_or, List.find?_cons_of_pos (by simp [last])]
    rfl
  · rename_i other
    rw [List.find?_cons_of_neg (by simpa using Ne.symm other), List.find?_nil, Option.or_none,
      state?]

theorem orderly_announce (orderly : d.Orderly) (mode : SyncMode) (target : Option Nat) :
    (d.announce mode target).Orderly := by
  have states := state?_announce orderly.toListed mode target
  have length : (d.announce mode target).calls.length = d.calls.length + 1 := by simp [announce]
  have former {m : Nat} {s : Session}
      (h : (d.announce mode target).state? m = some (.running s)) :
      d.state? m = some (.running s) := by
    rw [states] at h
    split at h
    · cases h
    · exact h
  have old {m : Nat} {state : CallState} (h : d.state? m = some state) :
      (d.announce mode target).state? m = some state := by
    have known := (orderly.known m).mp (by rw [h]; rfl)
    rw [states, if_neg (by omega), h]
  refine ⟨⟨fun m => ?_, fun m hm => ?_, ?_, fun m hm => ?_, ?_⟩, fun m hm => ?_, fun m s h => ?_,
    fun m s h => orderly.asks m s (former h)⟩
  · rw [states, length]
    split
    · simp [*]
    · rw [orderly.known]
      omega
  · rw [length] at hm
    by_cases last : m = d.calls.length
    · exact .inl (by simp [announce, last])
    · exact .inr (isCancelled_cancelLatest.mpr (orderly.replaced m (by omega)))
  · rintro m ⟨⟩
    rw [length]
    omega
  · exact old (orderly.queued m (by simpa [announce] using hm))
  · simpa [announce] using orderly.once
  · obtain ⟨s, running⟩ := orderly.holder m (by simpa [announce] using hm)
    exact ⟨s, old running⟩
  · simpa [announce] using orderly.alone m s (former h)

theorem orderly_cancel (orderly : d.Orderly) : d.cancel.Orderly :=
  orderly.of_same (calls_cancelLatest d) (lock_cancelLatest d) (queue_cancelLatest d)
    (latest_cancelLatest d) fun _ cancelled => isCancelled_cancelLatest.mpr (.inr cancelled)

theorem orderly_enqueue (orderly : d.Orderly) (waiting : d.state? n = some .waiting)
    (first : n ∉ d.queue) : (d.enqueue n).Orderly := by
  refine ⟨⟨orderly.known, orderly.replaced, orderly.latest, fun m hm => ?_, ?_⟩, orderly.holder,
    orderly.alone, orderly.asks⟩
  · rcases List.mem_append.mp hm with hm | hm
    · exact orderly.queued m hm
    · exact List.mem_singleton.mp hm ▸ waiting
  · exact List.nodup_append.mpr ⟨orderly.once, List.nodup_singleton n, by
      rintro m hm _ hn rfl
      exact first (List.mem_singleton.mp hn ▸ hm)⟩

/-- The call at the front of the queue leaves it. -/
theorem Listed.behind {e : Downloader σ} {rest : List Nat} (listed : d.Listed)
    (queue : d.queue = n :: rest) (calls : e.calls = d.calls) (left : e.queue = rest)
    (latest : e.latest = d.latest) (cancelled : ∀ n, e.isCancelled n = d.isCancelled n) :
    e.Listed := by
  have states := state?_of_calls calls
  have once := listed.once
  have queued := listed.queued
  rw [queue] at once queued
  refine ⟨?_, ?_, ?_, fun m hm => ?_, left ▸ once.of_cons⟩
  · simpa only [states, calls] using listed.known
  · simpa only [calls, latest, cancelled] using listed.replaced
  · simpa only [latest, calls] using listed.latest
  · rw [states]
    exact queued m (List.mem_cons_of_mem _ (left ▸ hm))

theorem Orderly.idle (orderly : d.Orderly) (free : d.lock = none) (m : Nat) (s : Session) :
    d.state? m ≠ some (.running s) := by
  intro running
  cases free.symm.trans (orderly.alone m s running)

/-- What becomes of the first call that asked for a free lock. -/
theorem Orderly.grantFirst_cases (orderly : d.Orderly) (view : ChainView) (seen : Bool) :
    d.grantFirst view seen = d ∧ (d.lock = none → d.queue = []) ∨
      ∃ n rest, d.lock = none ∧ d.queue = n :: rest ∧
        (d.isCancelled n = true ∧ d.grantFirst view seen =
            { d with queue := rest }.setState n (.returned (.error .cancelled)) ∨
          d.isCancelled n = false ∧ ∃ hub env order, env.revoked = false ∧
            d.grantFirst view seen =
              { d with queue := rest, sessions := d.sessions + 1, lock := some n, hub }.note n
                (Session.begin env order hub)) := by
  unfold grantFirst
  split
  · rename_i n rest free queue
    refine .inr ⟨n, rest, free, queue, ?_⟩
    dsimp only
    split
    · rename_i cancelled
      exact .inl ⟨cancelled, rfl⟩
    · rename_i wanted
      refine .inr ⟨Bool.eq_false_iff.mpr wanted, ?_⟩
      have waiting := orderly.queued n (queue ▸ List.mem_cons_self ..)
      obtain ⟨c, found, -⟩ := Option.map_eq_some_iff.mp waiting
      obtain rfl := call?_number found
      have found : { d with queue := rest }.call? c.number = some c := found
      rw [found]
      exact ⟨_, _, _, Bool.eq_false_iff.mpr wanted, rfl⟩
  · rename_i other
    refine .inl ⟨rfl, fun free => ?_⟩
    cases queue : d.queue with
    | nil => rfl
    | cons n rest => exact absurd queue (other n rest free)

theorem orderly_grantFirst (orderly : d.Orderly) (view : ChainView) (seen : Bool) :
    (d.grantFirst view seen).Orderly := by
  rcases orderly.grantFirst_cases view seen with
    ⟨same, -⟩ | ⟨n, rest, free, queue, ⟨-, returned⟩ | ⟨-, hub, env, order, -, granted⟩⟩
  · rwa [same]
  all_goals
    have waiting := orderly.queued n (queue ▸ List.mem_cons_self ..)
    have known := (orderly.known n).mp (by rw [waiting]; rfl)
    have once := orderly.once
    rw [queue] at once
    have unqueued := (List.nodup_cons.mp once).1
  · rw [returned]
    have listed : Listed { d with queue := rest, lock := some n } :=
      orderly.toListed.behind queue rfl rfl rfl fun _ => rfl
    -- as if it had held the lock for an instant
    have noted : (note { d with queue := rest, lock := some n } n
        (d.hub, .inr (.error .cancelled))).Orderly :=
      orderly_note listed rfl known unqueued
        (fun m s running => absurd running (orderly.idle free m s)) (by simp)
    exact noted.of_same rfl free rfl rfl fun _ => id
  · rw [granted]
    have listed :
        Listed { d with queue := rest, sessions := d.sessions + 1, lock := some n, hub } :=
      orderly.toListed.behind queue rfl rfl rfl fun _ => rfl
    exact orderly_note listed rfl known unqueued
      (fun m s running => absurd running (orderly.idle free m s))
      (Session.begin_settled env order hub).asks

variable [NodeStore σ]

/-- What a signal does: the session that has the lock, if there is one, takes it in. -/
theorem tell_cases (d : Downloader σ) (view : ChainView) (seen : Bool) (signal : Signal) :
    d.running? = none ∧ d.tell view seen signal = d ∨
      ∃ n s, d.lock = some n ∧ d.state? n = some (.running s) ∧ d.tell view seen signal =
        d.note n (s.step (d.surroundings view n s.id seen) d.hub signal) := by
  unfold tell
  split
  · exact .inl ⟨‹_›, rfl⟩
  · rename_i n s running
    obtain ⟨held, state⟩ := running?_eq_some.mp running
    exact .inr ⟨n, s, held, state, rfl⟩

/-- What an answer of the local chain does. -/
theorem answer_cases (d : Downloader σ) (view : ChainView) (seen : Bool)
    (result : Except InsertError Unit) :
    d.running? = none ∧ d.answer view seen result = d ∨
      ∃ n s, d.lock = some n ∧ d.state? n = some (.running s) ∧ d.answer view seen result =
        d.note n (s.landed (d.surroundings view n s.id seen) d.hub result) := by
  unfold answer
  split
  · exact .inl ⟨‹_›, rfl⟩
  · rename_i n s running
    obtain ⟨held, state⟩ := running?_eq_some.mp running
    exact .inr ⟨n, s, held, state, rfl⟩

omit [NodeStore σ] in
/-- The session that has the lock goes on, or returns. -/
theorem orderly_note_running (orderly : d.Orderly) {s : Session} (held : d.lock = some n)
    (state : d.state? n = some (.running s)) {out : Hub σ × (Session ⊕ Except SyncError Unit)}
    (asks : ∀ s', out.2 = .inl s' → s'.stage.AskedOf s'.attempt.master) :
    (d.note n out).Orderly := by
  have known := (orderly.known n).mp (by rw [state]; rfl)
  have alone (m : Nat) (t : Session) (running : d.state? m = some (.running t)) : m = n :=
    Option.some.inj ((orderly.alone m t running).symm.trans held)
  exact orderly_note orderly.toListed held known (orderly.unqueued held) alone asks

theorem orderly_tell (orderly : d.Orderly) (view : ChainView) (seen : Bool) (signal : Signal) :
    (d.tell view seen signal).Orderly := by
  rcases d.tell_cases view seen signal with ⟨-, same⟩ | ⟨n, s, held, state, same⟩ <;> rw [same]
  · exact orderly
  · exact orderly_note_running orderly held state fun _ =>
      Session.step_asks (orderly.asks n s state) _ _ _

theorem orderly_answer (orderly : d.Orderly) (view : ChainView) (seen : Bool)
    (result : Except InsertError Unit) : (d.answer view seen result).Orderly := by
  rcases d.answer_cases view seen result with ⟨-, same⟩ | ⟨n, s, held, state, same⟩ <;> rw [same]
  · exact orderly
  · exact orderly_note_running orderly held state fun _ =>
      Session.landed_asks (orderly.asks n s state) _ _ _

end Orderly

end Downloader
end ChainSync
