import ChainSync.Proofs.Session.Calls
import ChainSync.Simulation.Trie
set_option autoImplicit false

/-!
Callers, sessions and the local chain get at a downloader in any order. At most one session runs at
a time, and none hands a batch over once it was cancelled or replaced.
-/

namespace ChainSync

open Fetch

namespace Downloader

variable {σ : Type}

/-- One thing that happens to a downloader, between two of which anything may. What a session saw of
its cancellation may be out of date by the time that it acts on it. -/
inductive Act (σ : Type) where
  | announce (mode : SyncMode) (target : Option Nat)
  | enqueue (number : Nat)
  | grantFirst (view : ChainView) (seen : Bool)
  | tell (view : ChainView) (seen : Bool) (signal : Signal)
  | answer (view : ChainView) (seen : Bool) (result : Except InsertError Unit)
  | cancel
  /-- Time passes, peers come and go. -/
  | meanwhile (hub : Hub σ)

/-- What cancels every call made so far. -/
def Act.cancels : Act σ → Prop
  | .announce .. | .cancel => True
  | _ => False

/-- What no session takes part in. -/
def Act.quiet : Act σ → Prop
  | .announce .. | .enqueue _ | .cancel | .meanwhile _ => True
  | _ => False

theorem Act.quiet_of_cancels {a : Act σ} (stop : a.cancels) : a.quiet := by
  cases a with
  | announce mode target => trivial
  | cancel => trivial
  | _ => exact stop.elim

/-- The batch that is with the local chain, under the number of its call. -/
def pending (d : Downloader σ) : List (Nat × Insertion) :=
  match d.running? with
  | some (number, session) => session.handedOver?.toList.map (number, ·)
  | none => []

section Acts

variable [NodeStore σ]

/-- A call asks for the lock once; sessions and the local chain act on whoever has it. -/
def act (d : Downloader σ) : Act σ → Downloader σ
  | .announce mode target => d.announce mode target
  | .enqueue number =>
    match d.state? number with
    | some .waiting => if number ∈ d.queue then d else d.enqueue number
    | _ => d
  | .grantFirst view seen => d.grantFirst view seen
  | .tell view seen signal => d.tell view seen signal
  | .answer view seen result => d.answer view seen result
  | .cancel => d.cancel
  | .meanwhile hub => { d with hub }

/-- The batch that an act hands over, if it does. -/
def fresh (d : Downloader σ) : Act σ → List (Nat × Insertion)
  | .answer view seen result => (d.answer view seen result).pending
  | a => if d.pending.isEmpty then (d.act a).pending else []

variable {d : Downloader σ} {n : Nat}

theorem act_enqueue (d : Downloader σ) (n : Nat) : d.act (.enqueue n) = d ∨
    d.state? n = some .waiting ∧ n ∉ d.queue ∧ d.act (.enqueue n) = d.enqueue n := by
  simp only [act]
  split
  · rename_i waiting
    split
    · exact .inl rfl
    · exact .inr ⟨waiting, ‹_›, rfl⟩
  · exact .inl rfl

theorem orderly_act (orderly : d.Orderly) (a : Act σ) : (d.act a).Orderly := by
  cases a with
  | announce mode target => exact orderly_announce orderly mode target
  | enqueue number =>
    rcases d.act_enqueue number with same | ⟨waiting, first, same⟩ <;> rw [same]
    · exact orderly
    · exact orderly_enqueue orderly waiting first
  | grantFirst view seen => exact orderly_grantFirst orderly view seen
  | tell view seen signal => exact orderly_tell orderly view seen signal
  | answer view seen result => exact orderly_answer orderly view seen result
  | cancel => exact orderly_cancel orderly
  | meanwhile hub => exact orderly.of_same rfl rfl rfl rfl fun _ => id

/-- A call that does not wait any more. -/
def Started (d : Downloader σ) (n : Nat) : Prop :=
  ∃ state, d.state? n = some state ∧ state ≠ .waiting

/-- What an act makes of a call. -/
inductive Moves (d e : Downloader σ) (n : Nat) : Prop where
  | stays (state : e.state? n = d.state? n) (queued : n ∈ d.queue → n ∈ e.queue)
  | steps (held : d.lock = some n) (started : e.Started n)
  | returns (waiting : d.state? n = some .waiting) (cancelled : d.isCancelled n = true)
      (returned : e.state? n = some (.returned (.error .cancelled)))
  | begins (waiting : d.state? n = some .waiting) (wanted : d.isCancelled n = false)
      (started : e.Started n)

omit [NodeStore σ] in
theorem moves_note {e : Downloader σ} {m : Nat}
    (out : Hub σ × (Session ⊕ Except SyncError Unit)) (calls : e.calls = d.calls)
    (known : (d.state? m).isSome) (queue : ∀ n ∈ d.queue, n = m ∨ n ∈ e.queue) :
    (e.note m out).state? n = d.state? n ∧ (n ∈ d.queue → n ∈ (e.note m out).queue) ∨
      n = m ∧ (e.note m out).Started n := by
  have states := state?_of_calls calls
  by_cases same : n = m
  · subst same
    refine .inr ⟨rfl, ?_⟩
    rcases e.state?_note_self out (by rwa [states]) with ⟨s, -, h, -⟩ | ⟨result, -, h, -⟩
    · exact ⟨_, h, by simp⟩
    · exact ⟨_, h, by simp⟩
  · refine .inl ⟨by rw [state?_note_ne out same, states], fun hn => ?_⟩
    rw [queue_note]
    exact (queue n hn).resolve_left same

omit [NodeStore σ] in
theorem moves_running {m : Nat} {s : Session} (held : d.lock = some m)
    (state : d.state? m = some (.running s)) (out : Hub σ × (Session ⊕ Except SyncError Unit)) :
    Moves d (d.note m out) n := by
  rcases moves_note (n := n) out rfl (by rw [state]; rfl) fun k queued => .inr queued with
    ⟨state, queued⟩ | ⟨rfl, started⟩
  · exact .stays state queued
  · exact .steps held started

theorem act_moves (orderly : d.Orderly) (known : n < d.calls.length) (a : Act σ) :
    Moves d (d.act a) n := by
  cases a with
  | announce mode target =>
    refine .stays ?_ fun h => by simpa [act, announce] using h
    rw [act, state?_announce orderly.toListed, if_neg (by omega)]
  | enqueue number =>
    rcases d.act_enqueue number with same | ⟨-, -, same⟩ <;> rw [same]
    · exact .stays rfl id
    · exact .stays rfl fun h => List.mem_append_left _ h
  | grantFirst view seen =>
    simp only [act]
    rcases orderly.grantFirst_cases view seen with ⟨same, -⟩ | ⟨m, rest, free, queue,
      ⟨cancelled, returned⟩ | ⟨wanted, hub, env, order, -, granted⟩⟩
    · rw [same]
      exact .stays rfl id
    · rw [returned]
      by_cases same : n = m
      · subst same
        have waiting := orderly.queued n (queue ▸ List.mem_cons_self ..)
        refine .returns waiting cancelled ?_
        rw [state?_setState, if_pos rfl]
        exact congrArg (Option.map _) waiting
      · refine .stays ((state?_setState _).trans (if_neg same)) fun h => ?_
        rw [queue] at h
        exact (List.mem_cons.mp h).resolve_left same
    · rw [granted]
      have waiting := orderly.queued m (queue ▸ List.mem_cons_self ..)
      rcases moves_note (d := d) (n := n) (Session.begin env order hub)
        (e := { d with queue := rest, sessions := d.sessions + 1, lock := some m, hub }) rfl
        (by rw [waiting]; rfl) (fun k hk => by rw [queue] at hk; exact List.mem_cons.mp hk) with
        ⟨state, queued⟩ | ⟨rfl, started⟩
      · exact .stays state queued
      · exact .begins waiting wanted started
  | tell view seen signal =>
    simp only [act]
    rcases d.tell_cases view seen signal with ⟨-, same⟩ | ⟨m, s, held, state, same⟩ <;> rw [same]
    · exact .stays rfl id
    · exact moves_running held state _
  | answer view seen result =>
    simp only [act]
    rcases d.answer_cases view seen result with ⟨-, same⟩ | ⟨m, s, held, state, same⟩ <;> rw [same]
    · exact .stays rfl id
    · exact moves_running held state _
  | cancel =>
    refine .stays ?_ fun h => by simpa [act, cancel] using h
    simp [act, state?, call?, cancel]
  | meanwhile hub => exact .stays rfl id

omit [NodeStore σ] in
theorem mem_pending {i : Insertion} : (n, i) ∈ d.pending ↔
    ∃ s, d.lock = some n ∧ d.state? n = some (.running s) ∧ s.handedOver? = some i := by
  unfold pending
  constructor
  · intro hmem
    split at hmem
    · rename_i number session running
      obtain ⟨i', handed, heq⟩ := List.mem_map.mp hmem
      cases heq
      obtain ⟨held, state⟩ := running?_eq_some.mp running
      exact ⟨session, held, state, by simpa using handed⟩
    · cases hmem
  · rintro ⟨s, held, state, handed⟩
    rw [running?_eq_some.mpr ⟨held, state⟩]
    simp [handed]

theorem act_cancelled (orderly : d.Orderly) (a : Act σ) (cancelled : d.isCancelled n = true) :
    (d.act a).isCancelled n = true := by
  cases a with
  | announce mode target => exact isCancelled_cancelLatest.mpr (.inr cancelled)
  | enqueue number =>
    rcases d.act_enqueue number with same | ⟨-, -, same⟩ <;> rw [same] <;> exact cancelled
  | grantFirst view seen =>
    simp only [act]
    rcases orderly.grantFirst_cases view seen with
      ⟨same, -⟩ | ⟨m, rest, -, -, ⟨-, same⟩ | ⟨-, hub, env, order, -, same⟩⟩ <;> rw [same]
    · exact cancelled
    · exact cancelled
    · rw [isCancelled_note]
      exact cancelled
  | tell view seen signal =>
    simp only [act]
    rcases d.tell_cases view seen signal with ⟨-, same⟩ | ⟨m, s, -, -, same⟩ <;> rw [same]
    · exact cancelled
    · rwa [isCancelled_note]
  | answer view seen result =>
    simp only [act]
    rcases d.answer_cases view seen result with ⟨-, same⟩ | ⟨m, s, -, -, same⟩ <;> rw [same]
    · exact cancelled
    · rwa [isCancelled_note]
  | cancel => exact isCancelled_cancelLatest.mpr (.inr cancelled)
  | meanwhile hub => exact cancelled

theorem act_cancels (orderly : d.Orderly) {a : Act σ} (stop : a.cancels)
    (known : n < d.calls.length) : (d.act a).isCancelled n = true := by
  have every := isCancelled_cancelLatest.mpr (orderly.replaced n known)
  cases a with
  | announce mode target => exact every
  | cancel => exact every
  | _ => exact stop.elim

theorem act_started (orderly : d.Orderly) (a : Act σ) (started : d.Started n) :
    (d.act a).Started n := by
  obtain ⟨state, hstate, other⟩ := started
  cases act_moves orderly ((orderly.known n).mp (by simp [hstate])) a with
  | stays same queued => exact ⟨state, same.trans hstate, other⟩
  | steps held started => exact started
  | returns waiting cancelled returned => exact ⟨_, returned, by simp⟩
  | begins waiting wanted started => exact started

omit [NodeStore σ] in
/-- A session that hands a batch over is the one that holds the lock. -/
theorem note_pending {e : Downloader σ} {m : Nat} {i : Insertion}
    {out : Hub σ × (Session ⊕ Except SyncError Unit)} (known : (e.state? m).isSome)
    (held : e.lock = some m) (pending : (n, i) ∈ (e.note m out).pending) :
    n = m ∧ (e.note m out).Started n ∧ ∃ s, out.2 = .inl s ∧ s.handedOver? = some i := by
  obtain ⟨s, lock, state, handed⟩ := mem_pending.mp pending
  rcases e.state?_note_self out known with ⟨t, going, running, same⟩ | ⟨result, -, -, free⟩
  · obtain rfl : n = m := Option.some.inj (lock.symm.trans (same.trans held))
    cases running.symm.trans state
    exact ⟨rfl, ⟨_, running, by simp⟩, s, going, handed⟩
  · cases free.symm.trans lock

omit [NodeStore σ] in
theorem pending_of_same {e : Downloader σ} (lock : e.lock = d.lock)
    (states : ∀ m s, e.state? m = some (.running s) → d.state? m = some (.running s))
    {i : Insertion} (pending : (n, i) ∈ e.pending) : (n, i) ∈ d.pending := by
  obtain ⟨s, held, state, handed⟩ := mem_pending.mp pending
  exact mem_pending.mpr ⟨s, lock ▸ held, states n s state, handed⟩

theorem pending_of_quiet (orderly : d.Orderly) {a : Act σ} (quiet : a.quiet) {i : Insertion}
    (pending : (n, i) ∈ (d.act a).pending) : (n, i) ∈ d.pending := by
  cases a with
  | announce mode target =>
    change (n, i) ∈ (d.announce mode target).pending at pending
    have lock : (d.announce mode target).lock = d.lock := lock_cancelLatest d
    refine pending_of_same lock (fun m s running => ?_) pending
    rw [state?_announce orderly.toListed] at running
    split at running
    · cases running
    · exact running
  | enqueue number =>
    rcases d.act_enqueue number with same | ⟨-, -, same⟩ <;> rw [same] at pending
    · exact pending
    · exact pending_of_same rfl (fun _ _ => id) pending
  | cancel =>
    change (n, i) ∈ d.cancel.pending at pending
    have lock : d.cancel.lock = d.lock := lock_cancelLatest d
    have calls : d.cancel.calls = d.calls := calls_cancelLatest d
    exact pending_of_same lock (fun m s running => state?_of_calls calls m ▸ running) pending
  | meanwhile hub => exact pending_of_same rfl (fun _ _ => id) pending
  | _ => exact quiet.elim

theorem fresh_of_quiet (orderly : d.Orderly) {a : Act σ} (quiet : a.quiet) : d.fresh a = [] := by
  have nothing (idle : d.pending.isEmpty = true) : (d.act a).pending = [] := by
    refine List.eq_nil_iff_forall_not_mem.mpr fun e he => ?_
    have former : (e.1, e.2) ∈ d.pending := pending_of_quiet orderly quiet he
    rw [List.isEmpty_iff.mp idle] at former
    cases former
  have unanswered : d.fresh a = if d.pending.isEmpty then (d.act a).pending else [] := by
    cases a with
    | answer view seen result => exact quiet.elim
    | _ => rfl
  rw [unanswered]
  split
  · exact nothing ‹_›
  · rfl

/-- Whatever a session saw, it hands a batch over only if its call is not cancelled. -/
theorem fresh_wanted (orderly : d.Orderly) {a : Act σ} {i : Insertion} (new : (n, i) ∈ d.fresh a) :
    d.isCancelled n = false ∧ (d.act a).Started n := by
  by_cases quiet : a.quiet
  · rw [fresh_of_quiet orderly quiet] at new
    cases new
  cases a with
  | grantFirst view seen =>
    simp only [fresh] at new
    split at new
    · rename_i idle
      simp only [act] at new ⊢
      rcases orderly.grantFirst_cases view seen with
        ⟨same, -⟩ | ⟨m, rest, free, queue, ⟨-, same⟩ | ⟨wanted, hub, env, order, wanted', same⟩⟩
      · rw [same, List.isEmpty_iff.mp idle] at new
        cases new
      · rw [same] at new
        obtain ⟨s, held, -⟩ := mem_pending.mp new
        cases free.symm.trans held
      · have waiting := orderly.queued m (queue ▸ List.mem_cons_self ..)
        have known : ({ d with queue := rest, sessions := d.sessions + 1, lock := some m, hub } :
            Downloader σ).state? m = some .waiting := waiting
        rw [same] at new ⊢
        obtain ⟨rfl, started, s, going, handed⟩ := note_pending (by rw [known]; rfl) rfl new
        exact ⟨wanted, started⟩
    · cases new
  | tell view seen signal =>
    simp only [fresh] at new
    split at new
    · rename_i idle
      have idle := List.isEmpty_iff.mp idle
      simp only [act] at new ⊢
      rcases d.tell_cases view seen signal with ⟨-, same⟩ | ⟨m, s, held, state, same⟩ <;>
        rw [same] at new ⊢
      · rw [idle] at new
        cases new
      · obtain ⟨rfl, started, t, going, handed⟩ := note_pending (by rw [state]; rfl) held new
        have unhanded : s.handedOver? = none := by
          refine Option.eq_none_iff_forall_not_mem.mpr fun j hj => ?_
          have former := mem_pending.mpr ⟨s, held, state, hj⟩
          rw [idle] at former
          cases former
        have settled := Session.step_settled (orderly.asks _ s state) unhanded
          (d.surroundings view n s.id seen) d.hub signal
        exact ⟨settled.heeds t i going handed, started⟩
    · cases new
  | answer view seen result =>
    simp only [fresh, act] at new ⊢
    rcases d.answer_cases view seen result with ⟨nobody, same⟩ | ⟨m, s, held, state, same⟩ <;>
      rw [same] at new ⊢
    · simp [pending, nobody] at new
    · obtain ⟨rfl, started, t, going, handed⟩ := note_pending (by rw [state]; rfl) held new
      cases given : s.handedOver? with
      | none =>
        rw [Session.landed_idle given] at going
        cases going
        cases given.symm.trans handed
      | some j =>
        have settled := Session.landed_settled (orderly.asks _ s state) given
          (d.surroundings view n s.id seen) d.hub result
        exact ⟨settled.heeds t i going handed, started⟩
  | _ => exact absurd trivial quiet

theorem act_returned (orderly : d.Orderly) (a : Act σ) {result : Except SyncError Unit}
    (returned : d.state? n = some (.returned result)) :
    (d.act a).state? n = some (.returned result) := by
  cases act_moves orderly ((orderly.known n).mp (by rw [returned]; rfl)) a with
  | stays same queued => exact same.trans returned
  | steps held started =>
    obtain ⟨s, running⟩ := orderly.holder n held
    cases returned.symm.trans running
  | returns waiting cancelled _ => cases returned.symm.trans waiting
  | begins waiting wanted started => cases returned.symm.trans waiting

/-- A call that is cancelled while it waits goes on waiting until its turn, and then returns. -/
theorem act_waiting (orderly : d.Orderly) (a : Act σ) (waiting : d.state? n = some .waiting)
    (cancelled : d.isCancelled n = true) :
    (d.act a).state? n = some (.returned (.error .cancelled)) ∨
      (d.act a).state? n = some .waiting ∧ (n ∈ d.queue → n ∈ (d.act a).queue) := by
  cases act_moves orderly ((orderly.known n).mp (by rw [waiting]; rfl)) a with
  | stays same queued => exact .inr ⟨same.trans waiting, queued⟩
  | steps held started =>
    obtain ⟨s, running⟩ := orderly.holder n held
    cases waiting.symm.trans running
  | returns waiting cancelled returned => exact .inl returned
  | begins waiting wanted started => cases cancelled.symm.trans wanted

section Passing

omit [NodeStore σ]

theorem grantFirst_held {m : Nat} (held : d.lock = some m) (view : ChainView) (seen : Bool) :
    d.grantFirst view seen = d := by
  unfold grantFirst
  rw [held]

theorem pass_held {m : Nat} (held : d.lock = some m) (view : ChainView) (fuel : Nat) :
    pass view fuel d = d := by
  induction fuel with
  | zero => rfl
  | succ fuel ih => rw [pass, grantFirst_held held, ih]

theorem queue_grantFirst (orderly : d.Orderly) (free : d.lock = none) (view : ChainView)
    (seen : Bool) : (d.grantFirst view seen).queue = d.queue.tail := by
  rcases orderly.grantFirst_cases view seen with
    ⟨same, empty⟩ | ⟨n, rest, -, queue, ⟨-, same⟩ | ⟨-, hub, env, order, -, same⟩⟩ <;> rw [same]
  · rw [empty free]
    rfl
  · rw [queue]
    rfl
  · rw [queue, queue_note]
    rfl

/-- The lock is passed on until a session keeps it or nobody waits. -/
theorem queue_pass (orderly : d.Orderly) (view : ChainView) (fuel : Nat)
    (free : (pass view fuel d).lock = none) : (pass view fuel d).queue = d.queue.drop fuel := by
  induction fuel generalizing d with
  | zero => rfl
  | succ fuel ih =>
    cases lock : d.lock with
    | none =>
      rw [pass, ih (orderly_grantFirst orderly view false) free, queue_grantFirst orderly lock,
        List.drop_tail]
    | some m =>
      rw [pass_held lock] at free
      cases free.symm.trans lock

end Passing

theorem pass_acts (view : ChainView) (fuel : Nat) (d : Downloader σ) :
    pass view fuel d = (List.replicate fuel (.grantFirst view false)).foldl act d := by
  induction fuel generalizing d with
  | zero => rfl
  | succ fuel ih => exact ih _

/-- What callers do is made of acts. -/
theorem calls_are_acts (orderly : d.Orderly) (view : ChainView) (mode : SyncMode)
    (target : Option Nat) (signal : Signal) (result : Except InsertError Unit) :
    let grants (n : Nat) : List (Act σ) := List.replicate n (.grantFirst view false)
    let seen := d.lock.any d.isCancelled
    (d.start view mode target).2 = (.announce mode target :: .enqueue d.calls.length ::
      grants (d.queue.length + 1)).foldl act d ∧
    d.signal view signal = (.tell view seen signal ::
      grants (d.tell view seen signal).queue.length).foldl act d ∧
    d.landed view result = (.answer view seen result ::
      grants (d.answer view seen result).queue.length).foldl act d := by
  have waiting : (d.announce mode target).state? d.calls.length = some .waiting := by
    rw [state?_announce orderly.toListed, if_pos rfl]
  have first : d.calls.length ∉ (d.announce mode target).queue := by
    intro queued
    have known := (orderly.known _).mp (Option.isSome_iff_exists.mpr
      ⟨_, orderly.queued d.calls.length (by simpa [announce] using queued)⟩)
    omega
  have asked : (d.announce mode target).act (.enqueue d.calls.length) =
      (d.announce mode target).enqueue d.calls.length := by
    simp only [act, waiting, if_neg first]
  refine ⟨?_, pass_acts .., pass_acts ..⟩
  have length : ((d.announce mode target).enqueue d.calls.length).queue.length =
      d.queue.length + 1 := by
    simp [enqueue, announce]
  rw [List.foldl_cons, List.foldl_cons, show d.act (.announce mode target) = d.announce mode target
    from rfl, asked, ← pass_acts, ← length]
  rfl

end Acts

/-- A downloader with the batches that its sessions have handed to the local chain. -/
structure Docket (σ : Type) where
  downloader : Downloader σ
  handed : List (Nat × Insertion)

namespace Docket

variable {σ : Type} {d : Docket σ} {n : Nat}

/-- The batches of one call. -/
def handedBy (d : Docket σ) (number : Nat) : List Insertion :=
  (d.handed.filter (·.1 == number)).map (·.2)

variable [NodeStore σ]

def perform (d : Docket σ) (a : Act σ) : Docket σ :=
  ⟨d.downloader.act a, d.handed ++ d.downloader.fresh a⟩

def run (d : Docket σ) (acts : List (Act σ)) : Docket σ := acts.foldl perform d

structure Kept (d : Docket σ) : Prop where
  orderly : d.downloader.Orderly
  started : ∀ e ∈ d.handed, d.downloader.Started e.1

theorem perform_kept (kept : d.Kept) (a : Act σ) : (d.perform a).Kept := by
  refine ⟨orderly_act kept.orderly a, fun e he => ?_⟩
  rcases List.mem_append.mp he with he | he
  · exact act_started kept.orderly a (kept.started e he)
  · exact (fresh_wanted kept.orderly he).2

theorem run_kept (kept : d.Kept) (acts : List (Act σ)) : (d.run acts).Kept := by
  induction acts generalizing d with
  | nil => exact kept
  | cons a acts ih => exact ih (perform_kept kept a)

theorem perform_handedBy (kept : d.Kept) (a : Act σ)
    (cancelled : d.downloader.isCancelled n = true) : (d.perform a).handedBy n = d.handedBy n := by
  have none_new : (d.downloader.fresh a).filter (·.1 == n) = [] := by
    refine List.filter_eq_nil_iff.mpr fun e he heq => ?_
    obtain rfl : e.1 = n := by simpa using heq
    cases cancelled.symm.trans (fresh_wanted kept.orderly he).1
  simp only [handedBy, perform, List.filter_append, none_new, List.append_nil]

theorem run_downloader (d : Docket σ) (acts : List (Act σ)) :
    (d.run acts).downloader = acts.foldl act d.downloader := by
  induction acts generalizing d with
  | nil => rfl
  | cons a acts ih => exact ih _

theorem run_cancelled (kept : d.Kept) (acts : List (Act σ))
    (cancelled : d.downloader.isCancelled n = true) :
    (d.run acts).downloader.isCancelled n = true := by
  induction acts generalizing d with
  | nil => exact cancelled
  | cons a acts ih => exact ih (perform_kept kept a) (act_cancelled kept.orderly a cancelled)

/-- Once a call is cancelled its session hands nothing over. -/
theorem run_handedBy (kept : d.Kept) (acts : List (Act σ))
    (cancelled : d.downloader.isCancelled n = true) : (d.run acts).handedBy n = d.handedBy n := by
  induction acts generalizing d with
  | nil => rfl
  | cons a acts ih =>
    exact (ih (perform_kept kept a) (act_cancelled kept.orderly a cancelled)).trans
      (perform_handedBy kept a cancelled)

theorem run_returned (kept : d.Kept) (acts : List (Act σ)) {result : Except SyncError Unit}
    (returned : d.downloader.state? n = some (.returned result)) :
    (d.run acts).downloader.state? n = some (.returned result) := by
  induction acts generalizing d with
  | nil => exact returned
  | cons a acts ih => exact ih (perform_kept kept a) (act_returned kept.orderly a returned)

theorem run_waiting (kept : d.Kept) (acts : List (Act σ))
    (waiting : d.downloader.state? n = some .waiting)
    (cancelled : d.downloader.isCancelled n = true) :
    (d.run acts).downloader.state? n = some (.returned (.error .cancelled)) ∨
      (d.run acts).downloader.state? n = some .waiting ∧
        (n ∈ d.downloader.queue → n ∈ (d.run acts).downloader.queue) := by
  induction acts generalizing d with
  | nil => exact .inr ⟨waiting, id⟩
  | cons a acts ih =>
    rcases act_waiting kept.orderly a waiting cancelled with returned | ⟨waiting, queued⟩
    · exact .inl (run_returned (perform_kept kept a) acts returned)
    · exact (ih (perform_kept kept a) waiting (act_cancelled kept.orderly a cancelled)).imp_right
        (.imp_right fun rest => rest ∘ queued)

omit [NodeStore σ] in
theorem handedBy_waiting (kept : d.Kept) (waiting : d.downloader.state? n = some .waiting) :
    d.handedBy n = [] := by
  refine List.map_eq_nil_iff.mpr (List.filter_eq_nil_iff.mpr fun e he heq => ?_)
  obtain rfl : e.1 = n := by simpa using heq
  obtain ⟨state, hstate, other⟩ := kept.started e he
  exact other (Option.some.inj (hstate.symm.trans waiting))

omit [NodeStore σ] in
/-- Where its turn comes, the call returns and the lock stays free for the next one. -/
theorem turn_returns (kept : d.Kept) (cancelled : d.downloader.isCancelled n = true)
    (free : d.downloader.lock = none) (first : d.downloader.queue.head? = some n) (view : ChainView)
    (seen : Bool) :
    (d.downloader.grantFirst view seen).state? n = some (.returned (.error .cancelled)) ∧
      (d.downloader.grantFirst view seen).lock = none := by
  rcases kept.orderly.grantFirst_cases view seen with
    ⟨-, empty⟩ | ⟨m, rest, -, queue, ⟨-, returned⟩ | ⟨wanted, -⟩⟩
  · rw [empty free] at first
    cases first
  all_goals
    rw [queue] at first
    cases first
  · have waiting := kept.orderly.queued n (queue ▸ List.mem_cons_self ..)
    rw [returned]
    refine ⟨?_, free⟩
    rw [state?_setState, if_pos rfl]
    exact congrArg (Option.map _) waiting
  · cases cancelled.symm.trans wanted

/-- Where nobody keeps the lock, everyone who was to be turned away has returned. -/
theorem pass_returns (kept : d.Kept) (waiting : d.downloader.state? n = some .waiting)
    (cancelled : d.downloader.isCancelled n = true) (queued : n ∈ d.downloader.queue)
    (view : ChainView) (free : (pass view d.downloader.queue.length d.downloader).lock = none) :
    (pass view d.downloader.queue.length d.downloader).state? n =
      some (.returned (.error .cancelled)) := by
  have left := queue_pass kept.orderly view _ free
  rw [List.drop_length] at left
  have passed := run_waiting kept
    (List.replicate d.downloader.queue.length (.grantFirst view false)) waiting cancelled
  rw [run_downloader, ← pass_acts] at passed
  refine passed.resolve_right fun ⟨_, rest⟩ => ?_
  rw [left] at rest
  cases rest queued

end Docket

variable [NodeStore σ]

/-- However callers, sessions and the local chain get at a new downloader: at most one session runs;
no call made before a cancellation, or before a later call, has a batch handed over after it; and
one that is cancelled while it waits never has any, waits until its turn and then returns that it
was cancelled. -/
theorem no_batch_once_cancelled (hub : Hub σ) (engine : Engine) (hasStore : Bool)
    (acts : List (Act σ)) :
    let d := Docket.run ⟨{ hub, engine, hasStore }, []⟩ acts
    (∀ n m s t, d.downloader.state? n = some (.running s) →
      d.downloader.state? m = some (.running t) → n = m) ∧
    (∀ (stop : Act σ) (later : List (Act σ)) (n : Nat), stop.cancels →
      n < d.downloader.calls.length → ((d.perform stop).run later).handedBy n = d.handedBy n) ∧
    ∀ (n : Nat) (later : List (Act σ)), d.downloader.state? n = some .waiting →
      d.downloader.isCancelled n = true →
      let e := d.run later
      e.handedBy n = [] ∧
      (e.downloader.state? n = some (.returned (.error .cancelled)) ∨
        e.downloader.state? n = some .waiting ∧
          (n ∈ d.downloader.queue → n ∈ e.downloader.queue)) ∧
      (∀ view seen, e.downloader.lock = none → e.downloader.queue.head? = some n →
        (e.downloader.grantFirst view seen).state? n = some (.returned (.error .cancelled)) ∧
          (e.downloader.grantFirst view seen).lock = none) ∧
      ∀ view, n ∈ e.downloader.queue →
        (pass view e.downloader.queue.length e.downloader).lock = none →
        (pass view e.downloader.queue.length e.downloader).state? n =
          some (.returned (.error .cancelled)) := by
  intro d
  have kept : d.Kept := Docket.run_kept ⟨orderly_new hub engine hasStore, by simp⟩ acts
  refine ⟨fun n m s t hn hm => ?_, fun stop later n cancels known => ?_,
    fun n later waiting cancelled => ?_⟩
  · exact Option.some.inj ((kept.orderly.alone n s hn).symm.trans (kept.orderly.alone m t hm))
  · have handed : (d.perform stop).handedBy n = d.handedBy n := by
      simp only [Docket.handedBy, Docket.perform,
        fresh_of_quiet kept.orderly (Act.quiet_of_cancels cancels), List.append_nil]
    exact (Docket.run_handedBy (Docket.perform_kept kept stop) later
      (act_cancels kept.orderly cancels known)).trans handed
  · have keptLater := Docket.run_kept kept later
    have barred : (d.run later).downloader.isCancelled n = true :=
      Docket.run_cancelled kept later cancelled
    refine ⟨(Docket.run_handedBy kept later cancelled).trans (Docket.handedBy_waiting kept waiting),
      Docket.run_waiting kept later waiting cancelled,
      fun view seen free first => Docket.turn_returns keptLater barred free first view seen,
      fun view queued free => ?_⟩
    exact Docket.pass_returns keptLater (keptLater.orderly.queued n queued) barred queued view free

/-- A call that is replaced before it gets the lock. -/
theorem no_batch_once_cancelled_replaced :
    let hub : Hub Simulation.NodeDatabase :=
      { peers := { config := {} }, metrics := .zero, board := ⟨{}, {}⟩ }
    let view : ChainView :=
      { currentHeader := .ok {}, headerByHash := fun _ => .ok none
        totalDifficulty := fun _ => .ok none }
    let d := Docket.run ⟨{ hub, engine := .default, hasStore := true }, []⟩
      [.announce .full none, .enqueue 0, .announce .light none]
    let e := d.run [.enqueue 1, .cancel]
    d.downloader.state? 0 = some .waiting ∧ d.downloader.isCancelled 0 = true ∧
      e.handedBy 0 = [] ∧
        (e.downloader.grantFirst view false).state? 0 = some (.returned (.error .cancelled)) := by
  intro hub view d e
  have waiting : d.downloader.state? 0 = some .waiting := rfl
  have replaced : d.downloader.isCancelled 0 = true := rfl
  obtain ⟨-, -, superseded⟩ := no_batch_once_cancelled hub .default true
    [.announce .full none, .enqueue 0, .announce .light none]
  obtain ⟨unhanded, -, turn, -⟩ := superseded 0 [.enqueue 1, .cancel] waiting replaced
  exact ⟨waiting, replaced, unhanded, (turn view false rfl rfl).1⟩

end Downloader
end ChainSync
