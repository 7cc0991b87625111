import ChainSync.Proofs.Session.Pivot
set_option autoImplicit false

/-!
How an attempt in snap mode passes its pivot, over all that it lives through.
-/

namespace ChainSync

open Fetch

/-- The downloader keeps state. -/
def Occurrence.Stores {σ : Type} : Occurrence σ → Prop
  | .signal env _ | .landed env _ => env.hasStore = true
  | .meanwhile _ => True

namespace Attempt

variable {σ : Type} {a : Attempt} {env : Surroundings} {h : Hub σ}

theorem begin_snap {target : Option Nat} (store : env.hasStore = true) {stage : Stage}
    (begun : (begin env .snap target h).2 = .ok (some (a, stage))) : a.mode = .snap := by
  obtain ⟨mode, -⟩ := begin_mode begun
  simpa [store] using mode

theorem fromAncestor_goes {origin : Header} (snap : a.mode = .snap)
    (above : origin.height < a.target - h.peers.config.pivotDistance.toNat) :
    ∃ h', ({ a with pivot := some (a.target - h.peers.config.pivotDistance.toNat) } : Attempt).Goes h'
      (a.fromAncestor env h origin) := by
  unfold fromAncestor
  simp only [if_pos snap, if_pos above]
  exact ⟨_, nextSegment_goes origin⟩

theorem refused_calm (h : Hub σ) (i : Insertion) (err : InsertError) :
    h.Calm (refused h i err).1 := by
  unfold refused
  split
  · exact .refl h
  · dsimp only
    split <;> exact ⟨rfl, rfl, rfl⟩

end Attempt

namespace Course

variable {σ : Type} [NodeStore σ]

/-- What comes of the pivot's state in a step. -/
def stateDeeds (c : Course σ) : Occurrence σ → List Deed
  | .signal env signal =>
    match c.standing with
    | .ok (some (_, stage)) => Attempt.signalDeeds env c.hub signal stage
    | _ => []
  | .landed env (.ok ()) =>
    match c.standing with
    | .ok (some (_, .inserting i)) => Attempt.takenDeeds env c.hub i
    | _ => []
  | .landed _ (.error _) | .meanwhile _ => []

def deeds (c : Course σ) (o : Occurrence σ) : List Deed :=
  ((c.apply o).accepted.drop c.accepted.length).map .accepted ++ (c.stateDeeds o ++
    ((c.apply o).handed.drop c.handed.length).map .handed)

/-- All that an attempt does, in order. -/
def story (c : Course σ) : List (Occurrence σ) → List Deed
  | [] => []
  | o :: occurrences => c.deeds o ++ (c.apply o).story occurrences

/-- What holds of an attempt in snap mode that knows its origin. -/
structure Passing (p : Nat) (origin : Header) (story : List Deed) (s : Passage) (c : Course σ) :
    Prop where
  led : Passage.Leads p story s
  parted : ∀ i ∈ c.handed, i.batch.PartedAt p
  placed : Attempt.Placed c.hub.peers.config p ((headersOf c.accepted).getLastD origin) s c.standing

/-- A step of the way past the pivot. -/
def Passes (p : Nat) (origin : Header) (story : List Deed) (c : Course σ) (o : Occurrence σ) :
    Prop :=
  (∃ s, (c.apply o).Passing p origin (story ++ c.deeds o) s) ∧
    c.hub.Turns (c.deeds o) (c.apply o).hub

variable {c c' : Course σ} {o : Occurrence σ} {p : Nat} {origin : Header} {story : List Deed}
  {s : Passage} {a a' : Attempt} {stage : Stage} {target : Option Nat} {env : Surroundings}

theorem stateDeeds_timely : ∀ d ∈ c.stateDeeds o, d.Timely c.hub := by
  cases o with
  | signal env signal =>
    simp only [stateDeeds]
    split
    · rename_i a stage _
      cases stage with
      | state pivot above run expires => exact Attempt.ending_timely (Attempt.heard_calm run signal)
      | _ => simp [Attempt.signalDeeds]
    · simp
  | landed env result =>
    cases result with
    | error err => simp [stateDeeds]
    | ok =>
      simp only [stateDeeds]
      split
      · unfold Attempt.takenDeeds
        split
        · exact Attempt.fetchDeeds_timely
        · simp
      · simp
  | meanwhile hub => simp [stateDeeds]

theorem handed_apply (c : Course σ) (o : Occurrence σ) : c.handed <+: (c.apply o).handed := by
  cases o with
  | signal env signal =>
    simp only [apply]
    split
    · dsimp only
      split
      · exact List.prefix_append ..
      · exact List.prefix_rfl
    · exact List.prefix_rfl
  | landed env result =>
    simp only [apply]
    split
    · exact List.prefix_append ..
    · exact List.prefix_rfl
  | meanwhile hub => exact List.prefix_rfl

theorem accepted_apply (c : Course σ) (o : Occurrence σ) : c.accepted <+: (c.apply o).accepted := by
  cases o with
  | signal env signal =>
    simp only [apply]
    split <;> exact List.prefix_rfl
  | landed env result =>
    simp only [apply]
    split
    · cases result with
      | ok => exact List.prefix_append ..
      | error err => exact List.prefix_rfl
    · exact List.prefix_rfl
  | meanwhile hub => exact List.prefix_rfl

theorem handed_deeds (c : Course σ) (o : Occurrence σ) :
    c.handed ++ (c.deeds o).filterMap Deed.handed? = (c.apply o).handed := by
  obtain ⟨more, handed⟩ := c.handed_apply o
  have none : (c.stateDeeds o).filterMap Deed.handed? = [] := by
    refine List.filterMap_eq_nil_iff.mpr fun d hd => ?_
    have timely := stateDeeds_timely d hd
    cases d with
    | handed i => exact timely.elim
    | _ => rfl
  simp only [deeds, List.filterMap_append, none, Deed.filterMap_accepted, Deed.filterMap_handed,
    ← handed, List.drop_left, List.nil_append]

theorem accepted_deeds (c : Course σ) (o : Occurrence σ) :
    c.accepted ++ (c.deeds o).filterMap Deed.accepted? = (c.apply o).accepted := by
  obtain ⟨more, accepted⟩ := c.accepted_apply o
  have none : (c.stateDeeds o).filterMap Deed.accepted? = [] := by
    refine List.filterMap_eq_nil_iff.mpr fun d hd => ?_
    have timely := stateDeeds_timely d hd
    cases d with
    | accepted i => exact timely.elim
    | _ => rfl
  simp only [deeds, List.filterMap_append, none, Deed.filterMap_accepted, Deed.filterMap_handed,
    ← accepted, List.drop_left, List.append_nil]

/-- The story tells of every batch. -/
theorem batches_story (c : Course σ) (occurrences : List (Occurrence σ)) :
    c.handed ++ (c.story occurrences).filterMap Deed.handed? = (c.run occurrences).handed ∧
      c.accepted ++ (c.story occurrences).filterMap Deed.accepted? = (c.run occurrences).accepted := by
  induction occurrences generalizing c with
  | nil => exact ⟨List.append_nil _, List.append_nil _⟩
  | cons o occurrences ih =>
    obtain ⟨handed, accepted⟩ := ih (c.apply o)
    simp only [story, List.filterMap_append, ← List.append_assoc, handed_deeds, accepted_deeds]
    exact ⟨handed, accepted⟩

theorem origin_apply (known : c.origin = some origin) (o : Occurrence σ) :
    (c.apply o).origin = some origin := by
  cases o with
  | signal env signal =>
    simp only [apply]
    split
    · rw [known, Option.some_or]
    · exact known
  | landed env result =>
    simp only [apply]
    split <;> exact known
  | meanwhile hub => exact known

theorem deeds_of_still (handed : (c.apply o).handed = c.handed)
    (accepted : (c.apply o).accepted = c.accepted) (quiet : c.stateDeeds o = []) :
    c.deeds o = [] := by
  simp [deeds, handed, accepted, quiet]

theorem passes_of_still (passing : c.Passing p origin story s)
    (placed : Attempt.Placed (c.apply o).hub.peers.config p
      ((headersOf c.accepted).getLastD origin) s (c.apply o).standing)
    (handed : (c.apply o).handed = c.handed) (accepted : (c.apply o).accepted = c.accepted)
    (calm : c.hub.Calm (c.apply o).hub) (quiet : c.stateDeeds o = []) :
    c.Passes p origin story o := by
  rw [Passes, deeds_of_still handed accepted quiet, List.append_nil]
  exact ⟨⟨s, passing.led, by rw [handed]; exact passing.parted, by rwa [accepted]⟩, calm.turns⟩

theorem passes_of_same (passing : c.Passing p origin story s) (same : c.apply o = c)
    (quiet : c.stateDeeds o = []) : c.Passes p origin story o :=
  passes_of_still passing (by rw [same]; exact passing.placed) (by rw [same]) (by rw [same])
    (by rw [same]; exact .refl c.hub) quiet

omit [NodeStore σ] in
/-- What an attempt hands over at the end of a step is on the right side. -/
theorem passing_of_placed {d : List Deed} (behind : c'.Behind True a origin)
    (parted : ∀ i ∈ c.handed, i.batch.PartedAt p) (led : Passage.Leads p (story ++ d) s)
    (placed : Attempt.Placed c'.hub.peers.config p ((headersOf c'.accepted).getLastD origin) s
      c'.standing)
    (handed : c'.handed = c.handed ++ pending c'.standing) :
    c'.Passing p origin (story ++ (d ++ (pending c'.standing).map .handed)) s := by
  obtain ⟨led, fresh⟩ := placed.hands led fun b stage waits => (behind.waiting b stage waits).2.2
  rw [List.append_assoc] at led
  refine ⟨led, fun i hi => ?_, placed⟩
  rw [handed] at hi
  exact (List.mem_append.mp hi).elim (parted i) (fresh i)

omit [NodeStore σ] in
theorem Behind.past (behind : c.Behind True a origin) (bound : p ≤ a.target)
    (done : c.standing = .ok none) :
    Attempt.Stops c.hub.peers.config p ((headersOf c.accepted).getLastD origin) :=
  (behind.finished done).stops.of_le bound

theorem countP_handed (batches : List Insertion) :
    (batches.map Deed.handed).countP Deed.isFellBack = 0 := by
  simp [List.countP_map, Function.comp_def, Deed.isFellBack]

theorem signal_passes (kept : Kept True target c) (began : c.attempt = some a)
    (known : c.origin = some origin) (bound : p ≤ a.target) (passing : c.Passing p origin story s)
    (env : Surroundings) (signal : Signal) : c.Passes p origin story (.signal env signal) := by
  match standing : c.standing with
  | .error err =>
    exact passes_of_same passing (by simp only [apply, standing]) (by simp only [stateDeeds, standing])
  | .ok none =>
    exact passes_of_same passing (by simp only [apply, standing]) (by simp only [stateDeeds, standing])
  | .ok (some (b, stage)) =>
    obtain ⟨border, stands⟩ := passing.placed.waiting b stage standing
    have waiting := ((kept.behind a origin began known).waiting b stage standing).2.2
    have behind := (apply_kept kept (.signal env signal) fun _ _ _ _ _ => trivial).behind a origin
      ((c.attempt_apply _).trans began) (origin_apply known _)
    have stepped : c.apply (.signal env signal) = _ := apply_signal signal standing
    have heard : c.stateDeeds (.signal env signal) = Attempt.signalDeeds env c.hub signal stage := by
      simp only [stateDeeds, standing]
    by_cases inserting : ∃ i, stage = .inserting i
    · -- while a batch is with the local chain, a signal changes nothing
      obtain ⟨i, rfl⟩ := inserting
      have placed := passing.placed
      refine passes_of_still passing ?_ ?_ ?_ ?_ heard
      all_goals rw [stepped]
      · rwa [standing] at placed
      · simp [pending, standing]
      · exact .refl c.hub
    · have idle : pending c.standing = [] := by
        rw [standing]
        cases stage with
        | inserting i => exact absurd ⟨i, rfl⟩ inserting
        | _ => rfl
      have found : ∀ search, stage ≠ .ancestor search := by
        rintro search rfl
        exact waiting
      have past := behind.past bound
      rw [stepped] at past
      obtain ⟨⟨s, led, placed⟩, turns⟩ := Attempt.step_passes stands border passing.led found signal past
      have deeds : c.deeds (.signal env signal) = Attempt.signalDeeds env c.hub signal stage ++
          (pending (c.apply (.signal env signal)).standing).map .handed := by
        simp [Course.deeds, stepped, idle, heard]
      rw [Passes, deeds]
      refine ⟨⟨s, passing_of_placed behind passing.parted led ?_ ?_⟩, ?_⟩
      · rwa [stepped]
      · simp [stepped, idle]
      · rw [stepped]
        exact turns.of_count (by rw [List.countP_append, countP_handed, Nat.add_zero])

omit [NodeStore σ] in
theorem tip_of_last {accepted : List Insertion} {i : Insertion} {last : Header}
    (hlast : i.batch.headersOf.getLast? = some last) :
    (headersOf (accepted ++ [i])).getLastD origin = last := by
  simp [headersOf, List.getLastD_eq_getLast?, hlast]

theorem stateDeeds_of_idle {result : Except InsertError Unit}
    (idle : ¬ ∃ a i, c.standing = .ok (some (a, .inserting i))) :
    c.stateDeeds (.landed env result) = [] := by
  cases result with
  | error err => rfl
  | ok =>
    simp only [stateDeeds]
    split
    · exact absurd ⟨_, _, ‹_›⟩ idle
    · rfl

theorem landed_passes (kept : Kept True target c) (began : c.attempt = some a)
    (known : c.origin = some origin) (bound : p ≤ a.target) (passing : c.Passing p origin story s)
    (store : env.hasStore = true) (result : Except InsertError Unit) :
    c.Passes p origin story (.landed env result) := by
  by_cases going : ∃ b i, c.standing = .ok (some (b, .inserting i))
  · obtain ⟨b, i, standing⟩ := going
    obtain ⟨border, stands⟩ := passing.placed.waiting b _ standing
    have fits : i.Fits True a.master a.target origin (headersOf c.accepted) :=
      ((kept.behind a origin began known).waiting b _ standing).2.2
    have behind := (apply_kept kept (.landed env result) fun _ _ _ _ _ => trivial).behind a origin
      ((c.attempt_apply _).trans began) (origin_apply known _)
    have stepped : c.apply (.landed env result) = _ := apply_landed result standing
    cases result with
    | error err =>
      obtain ⟨h', err', refused, -⟩ := Attempt.refused_eq c.hub i err
      have landed : b.landed env c.hub i (.error err) = (h', .error err') := refused
      refine passes_of_still passing ?_ ?_ ?_ ?_ (by simp only [stateDeeds])
      all_goals rw [stepped]
      · rw [landed]
        exact .error
      · simp [landed, pending]
      · exact Attempt.refused_calm c.hub i err
    | ok =>
      obtain ⟨last, hlast⟩ : ∃ last, i.headers.getLast? = some last :=
        ⟨_, List.getLast?_eq_getLast_of_ne_nil fits.nonempty⟩
      have tip : (headersOf (c.accepted ++ [i])).getLastD origin = last :=
        tip_of_last (by rw [fits.batch, hlast])
      have landed : b.landed env c.hub i (.ok ()) = b.accepted env c.hub i last := by
        simp only [Attempt.landed, hlast]
      rw [landed] at stepped
      have past := behind.past bound
      rw [stepped] at past
      simp only [tip] at past
      cases stands with
      | laying lays shaped =>
        obtain ⟨⟨s, led, placed⟩, turns⟩ :=
          Attempt.accepted_passes store fits border lays passing.led shaped hlast past
        have deeds : c.deeds (.landed env (.ok ())) = .accepted i ::
            Attempt.takenDeeds env c.hub i ++
              (pending (c.apply (.landed env (.ok ()))).standing).map .handed := by
          simp [Course.deeds, stepped, stateDeeds, standing]
        rw [Passes, deeds]
        refine ⟨⟨s, passing_of_placed behind passing.parted led ?_ ?_⟩, ?_⟩
        · rw [stepped]
          simp only [tip]
          exact placed
        · rw [stepped]
        · rw [stepped]
          refine turns.of_count ?_
          rw [List.countP_append, countP_handed, Nat.add_zero]
          rfl
  · exact passes_of_same passing (apply_landed_of_idle going) (stateDeeds_of_idle going)

section Search

omit [NodeStore σ] in
theorem search_goes {h : Hub σ} {search : AncestorSearch} {signal : Signal}
    (snap : a.mode = .snap) (found : negotiated env h signal (.ancestor search) = some origin)
    (above : origin.height < a.target - h.peers.config.pivotDistance.toNat) [NodeStore σ] :
    ∃ h', ({ a with pivot := some (a.target - h.peers.config.pivotDistance.toNat) } : Attempt).Goes h'
      (a.step env h (.ancestor search) signal) := by
  have quiet := search.step_quiet h env.cancelled env.view signal
  simp only [negotiated] at found
  simp only [Attempt.step]
  generalize search.step h env.cancelled env.view signal = out at quiet found
  obtain ⟨h', result⟩ := out
  rcases result with err | search | ancestor
  · cases found
  · cases found
  · obtain rfl := Option.some.inj found
    have config : h'.peers.config = h.peers.config := quiet.config
    rw [← config] at above ⊢
    exact Attempt.fromAncestor_goes snap above

/-- A search that has found nothing yet goes on, or has failed. -/
theorem search_unfound {h : Hub σ} (valid : h.peers.config.validate = .ok ())
    (below : a.target ≤ a.master.info.head.toNat) {search : AncestorSearch} {signal : Signal}
    (unfound : negotiated env h signal (.ancestor search) = none) :
    (∃ err, (a.step env h (.ancestor search) signal).2 = .error err) ∨
      ∃ search', (a.step env h (.ancestor search) signal).2 = .ok (some (a, .ancestor search')) := by
  rcases search_cases True valid below env search signal with
    ⟨-, -, ⟨err, failed, -⟩ | going⟩ | ⟨origin, -, found, -⟩
  · exact .inl ⟨err, failed⟩
  · exact .inr going
  · cases unfound.symm.trans found

theorem search_passes (kept : Kept True target c) (began : c.attempt = some a)
    (unknown : c.origin = none) {search : AncestorSearch}
    (standing : c.standing = .ok (some (a', .ancestor search))) (snap : a'.mode = .snap)
    (signal : Signal)
    (found : negotiated env c.hub signal (.ancestor search) = some origin)
    (above : origin.height < a.target - c.hub.peers.config.pivotDistance.toNat) :
    ∃ s, (c.apply (.signal env signal)).Passing (a.target - c.hub.peers.config.pivotDistance.toNat)
      origin (c.deeds (.signal env signal)) s := by
  obtain ⟨handed, accepted, -⟩ := kept.searching a began unknown
  obtain ⟨b, hb, -, htarget, -⟩ := kept.under_way standing
  obtain rfl := Option.some.inj (began.symm.trans hb)
  have stepped : c.apply (.signal env signal) = _ := apply_signal signal standing
  have known : (c.apply (.signal env signal)).origin = some origin := by
    rw [stepped, unknown, found]
    rfl
  have behind := (apply_kept kept (.signal env signal) fun _ _ _ _ _ => trivial).behind a origin
    ((c.attempt_apply _).trans began) known
  have past := behind.past (Nat.sub_le a.target c.hub.peers.config.pivotDistance.toNat)
  rw [← htarget] at above past ⊢
  obtain ⟨h', goes⟩ := search_goes snap found above
  have tip : (headersOf (c.apply (.signal env signal)).accepted).getLastD origin = origin := by
    rw [stepped, accepted]
    rfl
  have idle : pending c.standing = [] := by
    rw [standing]
    rfl
  have quiet : c.stateDeeds (.signal env signal) = [] := by
    simp only [stateDeeds, standing]
    rfl
  have deeds : c.deeds (.signal env signal) =
      [] ++ ([] ++ (pending (c.apply (.signal env signal)).standing).map .handed) := by
    simp [Course.deeds, stepped, idle, quiet]
  rw [deeds]
  refine ⟨.below, passing_of_placed (c := c) behind (by simp [handed]) .start ?_ ?_⟩
  · rw [tip] at past ⊢
    rw [stepped] at past ⊢
    exact goes.placed rfl (.below snap above) past
  · simp [stepped, idle]

end Search

end Course
end ChainSync
