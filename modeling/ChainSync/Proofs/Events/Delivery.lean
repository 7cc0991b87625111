import Mathlib.Data.List.Basic
import ChainSync.Events
set_option autoImplicit false

/-!
What subscriptions receive. Under any calls, in any order, a bus gives each subscription what is
published while both are there, and counts the subscriptions that are there.
-/

namespace ChainSync.EventBus

/-- What may happen to a bus. A subscription is named by the number that it was given. -/
inductive Call (α : Type) where
  | subscribe
  | publish (event : α)
  | tryRecv (id : Nat)
  | recv (id : Nat)
  | unsubscribe (id : Nat)
  | close

variable {α : Type}

namespace Call

def drops (id : Nat) : Call α → Bool
  | .unsubscribe k => k == id
  | _ => false

def subscribes : Call α → Bool
  | .subscribe => true
  | _ => false

def takes (id : Nat) : Call α → Bool
  | .tryRecv k | .recv k => k == id
  | _ => false

def closes : Call α → Bool
  | .close => true
  | _ => false

def published : Call α → List α
  | .publish event => [event]
  | _ => []

theorem takes_of_drops {id : Nat} {c : Call α} (dropped : c.drops id = true) :
    c.takes id = false := by
  cases c with
  | unsubscribe k => rfl
  | subscribe | publish event | tryRecv k | recv k | close => cases dropped

end Call

def Next.event? : Next α → Option α
  | .event e => some e
  | _ => none

def apply (b : EventBus α) : Call α → EventBus α
  | .subscribe => b.subscribe.2
  | .publish event => (b.publish event).2
  | .tryRecv id => (b.tryRecv id).2
  | .recv id => (b.recv id).2
  | .unsubscribe id => b.unsubscribe id
  | .close => b.close

def run (b : EventBus α) (calls : List (Call α)) : EventBus α := calls.foldl apply b

/-- What a call gives to the subscription. -/
def given (b : EventBus α) (id : Nat) : Call α → List α
  | .tryRecv k => if k = id then (b.tryRecv k).1.toList else []
  | .recv k => if k = id then (b.recv k).1.event?.toList else []
  | _ => []

/-- Everything that calls give to the subscription, one after the other. -/
def received (id : Nat) : EventBus α → List (Call α) → List α
  | _, [] => []
  | b, c :: calls => b.given id c ++ received id (b.apply c) calls

/-- What is published before the subscription or the bus is dropped. -/
def heard (id : Nat) : List (Call α) → List α
  | [] => []
  | c :: calls => if c.drops id || c.closes then [] else c.published ++ heard id calls

/-- The subscriptions that calls make and that no later one of them drops, if `next` is the first
number to be given out. -/
def standing (next : Nat) : List (Call α) → List Nat
  | [] => []
  | .subscribe :: calls =>
    (if calls.any (·.drops next) then [] else [next]) ++ standing (next + 1) calls
  | _ :: calls => standing next calls

theorem run_cons (b : EventBus α) (c : Call α) (calls : List (Call α)) :
    b.run (c :: calls) = (b.apply c).run calls := rfl

theorem run_append (b : EventBus α) (xs ys : List (Call α)) :
    b.run (xs ++ ys) = (b.run xs).run ys := List.foldl_append ..

theorem received_append (id : Nat) (b : EventBus α) (xs ys : List (Call α)) :
    received id b (xs ++ ys) = received id b xs ++ received id (b.run xs) ys := by
  induction xs generalizing b with
  | nil => rfl
  | cons c xs ih => rw [List.cons_append, received, ih, ← List.append_assoc]; rfl

/-! A subscription's queue, and what each call does to it -/

/-- The events that the subscription has not taken yet, if it is held. -/
def queue? (b : EventBus α) (id : Nat) : Option (List α) :=
  (b.subscribers.find? (·.id == id)).map (·.backlog)

def ids (b : EventBus α) : List Nat := b.subscribers.map (·.id)

/-- Only numbers given out before are in use. -/
def Numbered (b : EventBus α) : Prop := ∀ id ∈ b.ids, id < b.nextId

section Queues

variable {b : EventBus α} {id : Nat} {q : List α}

theorem backlog_eq (b : EventBus α) (id : Nat) : b.backlog id = (b.queue? id).getD [] := by
  unfold backlog queue?
  cases b.subscribers.find? (·.id == id) <;> rfl

theorem find?_map_id (subscribers : List (Subscriber α)) (f : Subscriber α → Subscriber α)
    (same : ∀ s, (f s).id = s.id) (id : Nat) :
    (subscribers.map f).find? (·.id == id) = (subscribers.find? (·.id == id)).map f := by
  rw [List.find?_map]
  congr 2
  funext s
  rw [Function.comp_apply, same]

theorem queue?_subscribe (numbered : b.Numbered) :
    b.subscribe.2.queue? id =
      if b.isOpen && id == b.nextId then some [] else b.queue? id := by
  unfold queue? subscribe
  cases b.isOpen with
  | false => rfl
  | true =>
    have unknown : b.subscribers.find? (·.id == b.nextId) = none :=
      List.find?_eq_none.mpr fun s hs => by
        simpa using Nat.ne_of_lt (numbered s.id (List.mem_map_of_mem hs))
    by_cases same : id = b.nextId
    · subst same
      simp [List.find?_append, unknown]
    · have other : (b.nextId == id) = false := by simpa using Ne.symm same
      simp [List.find?_append, same, other]

theorem queue?_publish (b : EventBus α) (event : α) :
    (b.publish event).2.queue? id =
      (b.queue? id).map (· ++ if b.isOpen then [event] else []) := by
  unfold queue? publish
  cases b.isOpen with
  | false => simp [Function.comp_def]
  | true =>
    simp only [if_true, find?_map_id _ (fun s => { s with backlog := s.backlog ++ [event] })
      (fun _ => rfl), Option.map_map]
    rfl

theorem queue?_unsubscribe (b : EventBus α) (k : Nat) :
    (b.unsubscribe k).queue? id = if k = id then none else b.queue? id := by
  unfold queue? unsubscribe
  rw [List.find?_filter]
  split
  · rename_i same
    subst same
    rw [List.find?_eq_none.mpr (by simp), Option.map_none]
  · rename_i other
    congr 2
    funext s
    by_cases hs : s.id = id <;> simp [hs, Ne.symm other]

theorem queue?_tryRecv (b : EventBus α) (k : Nat) :
    (b.tryRecv k).2.queue? id = if k = id then (b.queue? id).map List.tail else b.queue? id := by
  unfold tryRecv
  split
  · rename_i empty
    split
    · rename_i same
      subst same
      rw [backlog_eq] at empty
      cases hq : b.queue? k with
      | none => rfl
      | some q => simp_all
    · rfl
  · unfold queue?
    rw [find?_map_id _ _ fun s => by split <;> rfl, Option.map_map]
    split
    · rename_i same
      subst same
      cases hf : b.subscribers.find? (·.id == k) with
      | none => rfl
      | some s =>
        have hs : s.id = k := by simpa using List.find?_some hf
        simp [hs]
    · rename_i other
      cases hf : b.subscribers.find? (·.id == id) with
      | none => rfl
      | some s =>
        have hs : s.id = id := by simpa using List.find?_some hf
        simp [hs, Ne.symm other]

theorem queue?_drain (b : EventBus α) (id : Nat) :
    (b.drain id).2.queue? id = (b.queue? id).map fun _ => [] := by
  unfold drain queue?
  rw [find?_map_id _ _ fun s => by split <;> rfl, Option.map_map, Option.map_map]
  cases hf : b.subscribers.find? (·.id == id) with
  | none => rfl
  | some s =>
    have hs : s.id = id := by simpa using List.find?_some hf
    simp [hs]

theorem ids_drain (b : EventBus α) (id : Nat) : (b.drain id).2.ids = b.ids := by
  simp only [drain, ids, List.map_map]
  congr 1
  funext s
  rw [Function.comp_apply]
  split <;> rfl

theorem tryRecv_fst (b : EventBus α) (id : Nat) : (b.tryRecv id).1 = (b.backlog id).head? := by
  unfold tryRecv
  cases b.backlog id <;> rfl

theorem isOpen_tryRecv (b : EventBus α) (id : Nat) : (b.tryRecv id).2.isOpen = b.isOpen := by
  unfold tryRecv
  split <;> rfl

theorem recv_fst (b : EventBus α) (id : Nat) :
    (b.recv id).1 = match b.backlog id with
      | event :: _ => .event event
      | [] => if b.isOpen then .waiting else .ended := by
  unfold recv tryRecv
  cases b.backlog id <;> rfl

theorem recv_snd (b : EventBus α) (id : Nat) : (b.recv id).2 = (b.tryRecv id).2 := by
  unfold recv tryRecv
  cases b.backlog id <;> rfl

/-- To wait for an event and to look for one give the same, if anything. -/
theorem given_eq (b : EventBus α) (id : Nat) (c : Call α) :
    b.given id c = if c.takes id then (b.backlog id).head?.toList else [] := by
  cases c with
  | tryRecv k =>
    by_cases same : k = id <;> simp [given, Call.takes, same, tryRecv_fst]
  | recv k =>
    by_cases same : k = id
    · subst same
      simp only [given, Call.takes, recv_fst, if_true, beq_self_eq_true]
      cases b.backlog k with
      | nil => cases b.isOpen <;> rfl
      | cons event q => rfl
    · simp [given, Call.takes, same]
  | subscribe | publish event | unsubscribe k | close => rfl

theorem isOpen_apply (b : EventBus α) (c : Call α) :
    (b.apply c).isOpen = (b.isOpen && !c.closes) := by
  cases c with
  | subscribe => simp [apply, subscribe, Call.closes]
  | publish event =>
    simp only [apply, publish, Call.closes]
    split <;> simp
  | tryRecv k => simp [apply, isOpen_tryRecv, Call.closes]
  | recv k => simp [apply, recv_snd, isOpen_tryRecv, Call.closes]
  | unsubscribe k => simp [apply, unsubscribe, Call.closes]
  | close => simp [apply, close, Call.closes]

theorem nextId_apply (b : EventBus α) (c : Call α) :
    (b.apply c).nextId = b.nextId + if c.subscribes then 1 else 0 := by
  have tryRecv (k : Nat) : (b.tryRecv k).2.nextId = b.nextId := by
    unfold EventBus.tryRecv
    split <;> rfl
  cases c with
  | subscribe => rfl
  | publish event =>
    simp only [apply, publish, Call.subscribes]
    split <;> rfl
  | tryRecv k => exact tryRecv k
  | recv k =>
    rw [apply, recv_snd]
    exact tryRecv k
  | unsubscribe k | close => rfl

theorem ids_apply (b : EventBus α) (c : Call α) :
    (b.apply c).ids = (b.ids ++ if b.isOpen && c.subscribes then [b.nextId] else []).filter
      fun id => !c.drops id := by
  have tryRecv (k : Nat) : (b.tryRecv k).2.ids = b.ids := by
    unfold EventBus.tryRecv ids
    split
    · rfl
    · rw [List.map_map]
      congr 1
      funext s
      rw [Function.comp_apply]
      split <;> rfl
  cases c with
  | subscribe =>
    simp only [apply, subscribe, ids, Call.drops, Call.subscribes]
    cases b.isOpen <;> simp
  | publish event =>
    simp only [apply, publish, ids, Call.drops, Call.subscribes]
    cases b.isOpen <;> simp
  | tryRecv k => simp [apply, tryRecv, Call.drops, Call.subscribes]
  | recv k => simp [apply, recv_snd, tryRecv, Call.drops, Call.subscribes]
  | unsubscribe k =>
    have same : (fun s : Subscriber α => s.id != k) = fun s => !(k == s.id) := by
      funext s
      rw [bne, BEq.comm]
    simp [apply, unsubscribe, ids, Call.drops, Call.subscribes, List.filter_map, Function.comp_def,
      same]
  | close => simp [apply, close, ids, Call.drops, Call.subscribes]

theorem numbered_apply (numbered : b.Numbered) (c : Call α) : (b.apply c).Numbered := by
  intro k hk
  rw [ids_apply, List.mem_filter, List.mem_append] at hk
  rw [nextId_apply]
  rcases hk.1 with hk | hk
  · exact Nat.lt_of_lt_of_le (numbered k hk) (Nat.le_add_right ..)
  · cases hs : c.subscribes with
    | false => simp [hs] at hk
    | true =>
      have last : k = b.nextId := by
        cases hopen : b.isOpen <;> simp [hopen, hs] at hk
        exact hk
      simp [last]

/-- What a call leaves of a queue: not even the queue if it drops the subscription, else all but
what it takes from the front, with what it publishes behind. -/
theorem queue?_apply (numbered : b.Numbered) (known : id < b.nextId) (c : Call α) :
    (b.apply c).queue? id =
      if c.drops id then none
      else (b.queue? id).map fun q =>
        (if c.takes id then q.tail else q) ++ if b.isOpen then c.published else [] := by
  cases c with
  | subscribe =>
    have other : (id == b.nextId) = false := by simpa using Nat.ne_of_lt known
    simp [apply, queue?_subscribe numbered, other, Call.drops, Call.takes, Call.published]
  | publish event => simp [apply, queue?_publish, Call.drops, Call.takes, Call.published]
  | tryRecv k =>
    simp only [apply, queue?_tryRecv, Call.drops, Call.takes, Call.published, beq_iff_eq]
    split <;> simp
  | recv k =>
    simp only [apply, recv_snd, queue?_tryRecv, Call.drops, Call.takes, Call.published, beq_iff_eq]
    split <;> simp
  | unsubscribe k => simp [apply, queue?_unsubscribe, Call.drops, Call.takes, Call.published]
  | close =>
    simp [apply, close, queue?, Function.comp_def, Call.drops, Call.takes, Call.published]

end Queues

/-! Whole runs -/

section Runs

variable {b : EventBus α} {id : Nat} {q : List α}

theorem given_of_queue (held : b.queue? id = some q) (c : Call α) :
    b.given id c = if c.takes id then q.head?.toList else [] := by
  rw [given_eq, backlog_eq, held, Option.getD_some]

/-- Nothing is taken from a subscription that is not held, and its number is not given out again. -/
theorem received_of_unheld (numbered : b.Numbered) (known : id < b.nextId)
    (unheld : b.queue? id = none) (calls : List (Call α)) : received id b calls = [] := by
  induction calls generalizing b with
  | nil => rfl
  | cons c calls ih =>
    have nothing : b.given id c = [] := by
      rw [given_eq, backlog_eq, unheld]
      split <;> rfl
    have later : (b.apply c).queue? id = none := by
      rw [queue?_apply numbered known, unheld]
      split <;> rfl
    have known' : id < (b.apply c).nextId := by
      rw [nextId_apply]
      omega
    rw [received, nothing, ih (numbered_apply numbered c) known' later, List.append_nil]

/-- A call that does not drop the subscription passes on what it publishes, if the bus is there. -/
theorem heard_cons {c : Call α} (kept : c.drops id = false) (calls : List (Call α)) :
    (if b.isOpen then heard id (c :: calls) else []) =
      (if b.isOpen then c.published else []) ++
        if (b.apply c).isOpen then heard id calls else [] := by
  rw [isOpen_apply, heard, kept, Bool.false_or]
  cases b.isOpen with
  | false => rfl
  | true => cases c <;> rfl

/-- What calls give to a subscription are the events that it had waiting and then those it hears,
from the front; as long as it is held, the others wait. -/
theorem received_run (numbered : b.Numbered) (known : id < b.nextId) (held : b.queue? id = some q)
    (calls : List (Call α)) :
    received id b calls <+: q ++ (if b.isOpen then heard id calls else []) ∧
      (calls.any (·.drops id) = false → ∃ left, (b.run calls).queue? id = some left ∧
        received id b calls ++ left = q ++ if b.isOpen then heard id calls else []) := by
  induction calls generalizing b q with
  | nil => exact ⟨List.nil_prefix, fun _ => ⟨q, held, by simp [received, heard]⟩⟩
  | cons c calls ih =>
    have numbered' := numbered_apply numbered c
    have known' : id < (b.apply c).nextId := by
      rw [nextId_apply]
      omega
    have after := queue?_apply numbered known c
    have given := given_of_queue held c
    cases dropped : c.drops id with
    | true =>
      rw [dropped, if_pos rfl] at after
      rw [received, given, Call.takes_of_drops dropped, received_of_unheld numbered' known' after]
      exact ⟨List.nil_prefix, by simp [dropped]⟩
    | false =>
      simp only [dropped, held, Option.map_some] at after
      obtain ⟨front, rest⟩ := ih numbered' known' after
      have split : b.given id c ++ ((if c.takes id then q.tail else q) ++
          if b.isOpen then c.published else []) = q ++ if b.isOpen then c.published else [] := by
        rw [given, ← List.append_assoc]
        congr 1
        cases c.takes id with
        | false => rfl
        | true => cases q <;> rfl
      have whole : b.given id c ++ (((if c.takes id then q.tail else q) ++
          if b.isOpen then c.published else []) ++
            if (b.apply c).isOpen then heard id calls else []) =
          q ++ if b.isOpen then heard id (c :: calls) else [] := by
        rw [heard_cons dropped, ← List.append_assoc, split, List.append_assoc]
      rw [← whole, received]
      refine ⟨(List.prefix_append_right_inj _).mpr front, fun kept => ?_⟩
      rw [List.any_cons, dropped, Bool.false_or] at kept
      obtain ⟨left, now, same⟩ := rest kept
      exact ⟨left, now, by rw [List.append_assoc, same]⟩

/-- Whoever asks often enough gets all that waits. -/
theorem received_recvs (numbered : b.Numbered) (known : id < b.nextId) (held : b.queue? id = some q)
    (n : Nat) : received id b (List.replicate n (.recv id)) = q.take n := by
  induction n generalizing b q with
  | zero => rfl
  | succ n ih =>
    have numbered' := numbered_apply numbered (.recv id)
    have known' : id < (b.apply (.recv id)).nextId := by rwa [nextId_apply]
    have after : (b.apply (.recv id)).queue? id = some q.tail := by
      rw [queue?_apply numbered known, held]
      simp [Call.drops, Call.takes, Call.published]
    rw [List.replicate_succ, received, given_of_queue held, ih numbered' known' after]
    cases q <;> simp [Call.takes]

theorem isOpen_run (b : EventBus α) (calls : List (Call α)) :
    (b.run calls).isOpen = (b.isOpen && !calls.any (·.closes)) := by
  induction calls generalizing b with
  | nil => simp [run]
  | cons c calls ih =>
    rw [run_cons, ih, isOpen_apply, List.any_cons, Bool.not_or, Bool.and_assoc]

theorem nextId_run (b : EventBus α) (calls : List (Call α)) :
    (b.run calls).nextId = b.nextId + calls.countP (·.subscribes) := by
  induction calls generalizing b with
  | nil => rfl
  | cons c calls ih =>
    rw [run_cons, ih, nextId_apply, List.countP_cons]
    omega

theorem numbered_run (numbered : b.Numbered) (calls : List (Call α)) : (b.run calls).Numbered := by
  induction calls generalizing b with
  | nil => exact numbered
  | cons c calls ih => exact ih (numbered_apply numbered c)

/-- While the bus is there, it holds the subscriptions it had and those made since, less the ones
that were dropped. -/
theorem ids_run (isOpen : b.isOpen = true) {calls : List (Call α)}
    (going : calls.any (·.closes) = false) :
    (b.run calls).ids =
      b.ids.filter (fun id => !calls.any (·.drops id)) ++ standing b.nextId calls := by
  induction calls generalizing b with
  | nil => simp [run, standing]
  | cons c calls ih =>
    rw [List.any_cons, Bool.or_eq_false_iff] at going
    have isOpen' : (b.apply c).isOpen = true := by rw [isOpen_apply, isOpen, going.1]; rfl
    rw [run_cons, ih isOpen' going.2, ids_apply, nextId_apply, isOpen, List.filter_filter]
    cases c with
    | subscribe =>
      have idle (k : Nat) : Call.drops k (.subscribe : Call α) = false := rfl
      cases hd : calls.any (·.drops b.nextId) <;>
        simp [Call.subscribes, idle, standing, List.filter_append, hd]
    | unsubscribe k => simp [Call.subscribes, Call.drops, standing, Bool.and_comm]
    | publish event | tryRecv k | recv k | close =>
      simp [Call.subscribes, Call.drops, standing]

end Runs

theorem numbered_empty : (empty : EventBus α).Numbered := by
  intro id hid
  cases hid

theorem length_subscribers_run {calls : List (Call α)} (going : calls.any (·.closes) = false) :
    (empty.run calls).subscribers.length = (standing 0 calls).length := by
  have same := congrArg List.length (ids_run (b := empty) rfl going)
  rwa [ids, List.length_map] at same

/-- A subscription made while the bus is there has the next number, and nothing waits for it yet. -/
theorem subscribe_run {calls : List (Call α)} (going : calls.any (·.closes) = false) :
    let made := (empty.run calls).subscribe
    made.1 = calls.countP (·.subscribes) ∧ made.2.isOpen = true ∧ made.2.Numbered ∧
      made.1 < made.2.nextId ∧ made.2.queue? made.1 = some [] := by
  intro made
  have isOpen : (empty.run calls).isOpen = true := by
    rw [isOpen_run, going]
    rfl
  have numbered := numbered_run (α := α) numbered_empty calls
  have held : made.2.queue? made.1 = some [] := by
    rw [queue?_subscribe numbered, isOpen, show made.1 = (empty.run calls).nextId from rfl]
    simp
  exact ⟨(nextId_run ..).trans (Nat.zero_add _), isOpen, numbered_apply numbered .subscribe,
    Nat.lt_succ_self _, held⟩

/-- Whatever happens to a bus, it counts the subscriptions made and not dropped; and each of them,
whatever the others do, is given the events published between its making and its drop, or the end
of the bus, each once and in their order. Those not taken yet wait for it, also when the bus is
gone, and not before it has taken them does it learn of the end. -/
theorem subscriptions_receive_what_is_published (calls : List (Call α)) :
    let b := empty.run calls
    (calls.any (·.closes) = false → b.subscriberCount = (standing 0 calls).length ∧
      ∀ event, (b.publish event).1 = (standing 0 calls).length) ∧
    ∀ before after, calls = before ++ .subscribe :: after → before.any (·.closes) = false →
      let made := (empty.run before).subscribe
      let id := made.1
      let got := received id made.2 after
      id = before.countP (·.subscribes) ∧ got <+: heard id after ∧
      (after.any (·.drops id) = false →
        got ++ b.backlog id = heard id after ∧
        (b.tryRecv id).1 = ((heard id after).drop got.length).head? ∧
        (b.recv id).1 = (match (heard id after).drop got.length with
          | event :: _ => .event event
          | [] => if after.any (·.closes) then .ended else .waiting) ∧
        ∀ n, received id made.2 (after ++ List.replicate n (.recv id)) =
          (heard id after).take (got.length + n)) := by
  intro b
  refine ⟨fun going => ?_, fun before after split going => ?_⟩
  · have isOpen : b.isOpen = true := by
      rw [isOpen_run, going]
      rfl
    have count := length_subscribers_run going
    refine ⟨count, fun event => ?_⟩
    rw [publish, if_pos isOpen]
    exact count
  · intro made id got
    obtain ⟨number, isOpen, numbered, known, held⟩ := subscribe_run going
    have now : b = made.2.run after := by
      rw [show b = empty.run calls from rfl, split, run_append]
      rfl
    obtain ⟨front, rest⟩ := received_run numbered known held after
    rw [isOpen, if_pos rfl, List.nil_append] at front rest
    refine ⟨number, front, fun kept => ?_⟩
    obtain ⟨left, waiting, whole⟩ := rest kept
    rw [← now] at waiting
    have backlog : b.backlog id = left := by rw [backlog_eq, waiting, Option.getD_some]
    have outstanding : (heard id after).drop got.length = left := by
      rw [← whole, List.drop_left]
    have known' : id < b.nextId := by
      rw [now, nextId_run]
      exact Nat.lt_of_lt_of_le known (Nat.le_add_right ..)
    refine ⟨by rw [backlog, whole], by rw [tryRecv_fst, backlog, outstanding], ?_, fun n => ?_⟩
    · rw [recv_fst, backlog, outstanding, now, isOpen_run, isOpen]
      cases left with
      | nil => cases after.any (·.closes) <;> rfl
      | cons event left => rfl
    · have numbered_now := numbered_run numbered after
      rw [← now] at numbered_now
      rw [received_append, ← now, received_recvs numbered_now known' waiting, ← whole,
        List.take_length_add_append]

/-- The second of three subscriptions, of which the first leaves between two events, has taken one
of them when the bus goes. -/
theorem subscriptions_receive_what_is_published_until_the_end :
    let after : List (Call Nat) :=
      [.publish 5, .unsubscribe 0, .subscribe, .publish 6, .tryRecv 1, .close]
    let b := empty.run (.subscribe :: .subscribe :: after)
    let made := (empty.run [.subscribe]).subscribe.2
    after.any (·.drops 1) = false ∧ received 1 made after = [5] ∧ b.backlog 1 = [6] ∧
      (b.recv 1).1 = .event 6 ∧
      ∀ n, received 1 made (after ++ List.replicate n (.recv 1)) = [5, 6].take (1 + n) := by
  intro after b made
  have kept : after.any (·.drops 1) = false := rfl
  obtain ⟨-, -, share⟩ := (subscriptions_receive_what_is_published _).2 [.subscribe] after rfl rfl
  obtain ⟨-, -, next, rest⟩ := share kept
  exact ⟨kept, rfl, rfl, next, rest⟩

end ChainSync.EventBus
