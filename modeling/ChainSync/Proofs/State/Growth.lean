import ChainSync.Proofs.State.Cascade
set_option autoImplicit false

/-!
What taking a node in adds to the hashes to ask for: those of its children that nobody asked for
yet, each once and at the end. Requests stay as they are. Nothing is assumed of the database here,
so that this holds as well of a node that could not be taken in.
-/

namespace ChainSync.StateDownload

variable {σ : Type} [NodeStore σ] {d d' : StateDownload}

/-- The requests stay as they are, and so does what is downloaded. -/
structure Still (d d' : StateDownload) : Prop where
  session : d'.session = d.session
  inFlight : d'.inFlight = d.inFlight
  nextAttempt : d'.nextAttempt = d.nextAttempt
  root : d'.root = d.root

theorem Still.trans {e : StateDownload} (h : Still d e) (h' : Still e d') : Still d d' :=
  ⟨h'.session.trans h.session, h'.inFlight.trans h.inFlight, h'.nextAttempt.trans h.nextAttempt,
    h'.root.trans h.root⟩

/-- Hashes may have been added to those to ask for, none of them twice. -/
structure Grown (d d' : StateDownload) : Prop extends Still d d' where
  added : ∃ new, d'.scheduled.map Prod.fst = d.scheduled.map Prod.fst ++ new ∧
    d'.queue = d.queue ++ new
  nodup : (d.scheduled.map Prod.fst).Nodup → (d'.scheduled.map Prod.fst).Nodup

theorem Still.grown (h : Still d d') (scheduled : d'.scheduled = d.scheduled)
    (queue : d'.queue = d.queue) : Grown d d' := by
  refine ⟨h, ⟨[], ?_, ?_⟩, fun nodup => scheduled ▸ nodup⟩
  · rw [scheduled, List.append_nil]
  · rw [queue, List.append_nil]

theorem Grown.trans {e : StateDownload} (h : Grown d e) (h' : Grown e d') : Grown d d' := by
  obtain ⟨new, hs, hq⟩ := h.added
  obtain ⟨new', hs', hq'⟩ := h'.added
  refine ⟨h.toStill.trans h'.toStill, ⟨new ++ new', ?_, ?_⟩, fun nodup => h'.nodup (h.nodup nodup)⟩
  · rw [hs', hs, List.append_assoc]
  · rw [hq', hq, List.append_assoc]

theorem grown_schedule (d : StateDownload) (hash : Hash) : Grown d (d.schedule hash) := by
  unfold schedule
  split
  · exact Still.grown ⟨rfl, rfl, rfl, rfl⟩ rfl rfl
  · rename_i unasked
    rw [Keyed.lookup_isSome_iff] at unasked
    refine ⟨⟨rfl, rfl, rfl, rfl⟩, ⟨[hash], by rw [List.map_append, List.map_singleton], rfl⟩,
      fun nodup => ?_⟩
    rw [List.map_append, List.map_singleton, ← List.concat_eq_append]
    exact nodup.concat unasked

theorem grown_linkChild (d : StateDownload) (parent child : Hash) :
    Grown d (d.linkChild parent child) := by
  have added : Grown d (d.addParent child parent) := Still.grown ⟨rfl, rfl, rfl, rfl⟩ rfl rfl
  unfold linkChild
  dsimp only
  split
  · exact added
  · exact added.trans (grown_schedule ..)

theorem grown_link (d : StateDownload) (store : σ) (hash : Hash) (children : List Hash) :
    Grown d (d.link store hash children).1 := by
  have same (d : StateDownload) : Grown d d := Still.grown ⟨rfl, rfl, rfl, rfl⟩ rfl rfl
  induction children generalizing d with
  | nil => exact same d
  | cons child rest ih =>
    simp only [link]
    split
    · exact ih d
    · split
      · exact same d
      · exact ih d
      · have linked : Grown d ((d.linkChild hash child).link store hash rest).1 :=
          (grown_linkChild d hash child).trans (ih _)
        rw [linkChild] at linked
        split <;> rename_i heq <;> rwa [heq] at linked

theorem grown_cascade (d : StateDownload) (fuel : Nat) (ready : List (Hash × Bytes)) :
    Grown d (d.cascade fuel ready) := by
  rw [cascade_eq]
  exact Still.grown ⟨rfl, rfl, rfl, rfl⟩ rfl rfl

theorem grown_flush (d : StateDownload) (store : σ) : Grown d (d.flush store).1 := by
  unfold flush
  split
  · exact Still.grown ⟨rfl, rfl, rfl, rfl⟩ rfl rfl
  · split <;> exact Still.grown ⟨rfl, rfl, rfl, rfl⟩ rfl rfl

theorem grown_commit (d : StateDownload) (store : σ) (hash : Hash) (data : Bytes) :
    Grown d (d.commit store hash data).1 := by
  unfold commit
  dsimp only
  split
  · exact (grown_cascade ..).trans (grown_flush ..)
  · exact grown_cascade ..

theorem grown_process (d : StateDownload) (store : σ) (hash : Hash) (data : Bytes) :
    Grown d (d.process store hash data).1 := by
  unfold process
  split
  · exact Still.grown ⟨rfl, rfl, rfl, rfl⟩ rfl rfl
  · rename_i children _
    have linked := grown_link d store hash children
    split <;> rename_i heq <;> rw [heq] at linked
    · exact linked
    · exact linked.trans (grown_commit ..)
    · exact linked.trans (Still.grown ⟨rfl, rfl, rfl, rfl⟩ rfl rfl)

end ChainSync.StateDownload
