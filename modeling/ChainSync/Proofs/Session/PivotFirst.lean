import ChainSync.Proofs.Session.Crossing
set_option autoImplicit false

/-!
An attempt in snap mode stores blocks up to its pivot, fetches the state there once, and executes
what is above.
-/

namespace ChainSync

open Fetch

namespace Course

variable {σ : Type} [NodeStore σ] {c : Course σ} {p : Nat} {origin : Header} {story : List Deed}
  {s : Passage} {a : Attempt} {target : Option Nat} {env : Surroundings} {config : Config}

/-- What holds of an attempt in snap mode at any time. -/
structure Heading (config : Config) (story : List Deed) (c : Course σ) : Prop where
  steady : c.hub.peers.config = config
  searching : c.origin = none →
    story = [] ∧ ∀ a stage, c.standing = .ok (some (a, stage)) → a.mode = .snap
  passing : ∀ a origin, c.attempt = some a → c.origin = some origin →
    origin.height < a.target - config.pivotDistance.toNat →
      ∃ s, c.Passing (a.target - config.pivotDistance.toNat) origin story s

omit [NodeStore σ] in
theorem begin_heading {h : Hub σ} (store : env.hasStore = true) :
    (begin env .snap target h).Heading h.peers.config [] := by
  have config : (Attempt.begin env .snap target h).1.peers.config = h.peers.config :=
    Attempt.begin_quiet.config
  exact ⟨config, fun _ => ⟨rfl, fun _ _ => Attempt.begin_snap store⟩, by simp [begin]⟩

theorem apply_passing (kept : Kept True target c) (began : c.attempt = some a)
    (known : c.origin = some origin) (bound : p ≤ a.target) (passing : c.Passing p origin story s)
    {o : Occurrence σ} (store : o.Stores) :
    ∃ s, (c.apply o).Passing p origin (story ++ c.deeds o) s := by
  cases o with
  | signal env signal => exact (signal_passes kept began known bound passing env signal).1
  | landed env result => exact (landed_passes kept began known bound passing store result).1
  | meanwhile hub =>
    rw [deeds_of_still rfl rfl rfl, List.append_nil]
    exact ⟨s, passing.led, passing.parted, passing.placed⟩

theorem searching_heading (kept : Kept True target c) (heading : c.Heading config [])
    (began : c.attempt = some a) (unknown : c.origin = none) {b : Attempt} {search : AncestorSearch}
    (standing : c.standing = .ok (some (b, .ancestor search))) (snap : b.mode = .snap)
    (signal : Signal) :
    (c.apply (.signal env signal)).Heading config ([] ++ c.deeds (.signal env signal)) := by
  have steady := (config_apply kept (.signal env signal)).trans heading.steady
  have stepped : c.apply (.signal env signal) = _ := apply_signal signal standing
  cases found : negotiated env c.hub signal (.ancestor search) with
  | none =>
    obtain ⟨a', hb, hmaster, htarget, -⟩ := kept.under_way standing
    obtain rfl := Option.some.inj (began.symm.trans hb)
    have below : b.target ≤ b.master.info.head.toNat := by
      rw [hmaster, htarget]
      exact (kept.aimed a began).2
    have ended := search_unfound kept.valid below found
    have idle : pending (b.step env c.hub (.ancestor search) signal).2 = [] := by
      rcases ended with ⟨err, failed⟩ | ⟨search', going⟩
      · rw [failed]
        rfl
      · rw [going]
        rfl
    have nothing : c.deeds (.signal env signal) = [] := by
      refine deeds_of_still (by simp [stepped, idle]) (by rw [stepped]) ?_
      simp only [stateDeeds, standing]
      rfl
    rw [nothing]
    refine ⟨steady, fun _ => ⟨rfl, fun a' stage waits => ?_⟩, fun a' origin _ known => ?_⟩
    · rw [stepped] at waits
      rcases ended with ⟨err, failed⟩ | ⟨search', going⟩
      · cases failed.symm.trans waits
      · cases going.symm.trans waits
        exact snap
    · rw [stepped, unknown, found] at known
      cases known
  | some origin =>
    have known : (c.apply (.signal env signal)).origin = some origin := by
      rw [stepped, unknown, found]
      rfl
    refine ⟨steady, by simp [known], fun a' origin' began' known' above => ?_⟩
    rw [c.attempt_apply] at began'
    obtain rfl := Option.some.inj (began.symm.trans began')
    obtain rfl := Option.some.inj (known.symm.trans known')
    rw [← heading.steady] at above ⊢
    exact search_passes kept began unknown standing snap signal found above

theorem search_heading (kept : Kept True target c) (heading : c.Heading config story)
    (unknown : c.origin = none) (o : Occurrence σ) :
    (c.apply o).Heading config (story ++ c.deeds o) := by
  obtain ⟨rfl, snap⟩ := heading.searching unknown
  have steady := (config_apply kept o).trans heading.steady
  have still (quiet : c.stateDeeds o = []) (same : c.apply o = c) :
      (c.apply o).Heading config ([] ++ c.deeds o) := by
    rwa [deeds_of_still (by rw [same]) (by rw [same]) quiet, same]
  cases o with
  | signal env signal =>
    match standing : c.standing with
    | .error err => exact still (by simp only [stateDeeds, standing]) (by simp only [apply, standing])
    | .ok none => exact still (by simp only [stateDeeds, standing]) (by simp only [apply, standing])
    | .ok (some (b, stage)) =>
      obtain ⟨a, began, hmaster, htarget, ⟨-, handed, accepted, search, rfl⟩ | ⟨origin, known, -⟩⟩ :=
        kept.under_way standing
      · exact searching_heading kept heading began unknown standing (snap b _ standing) signal
      · cases unknown.symm.trans known
  | landed env result =>
    have idle : ¬ ∃ b i, c.standing = .ok (some (b, .inserting i)) := by
      rintro ⟨b, i, standing⟩
      obtain ⟨a, origin, -, known, -⟩ := kept.inserting standing
      cases unknown.symm.trans known
    exact still (stateDeeds_of_idle idle) (apply_landed_of_idle idle)
  | meanwhile hub =>
    rw [deeds_of_still rfl rfl rfl]
    refine ⟨steady, fun _ => ⟨rfl, snap⟩, fun a origin began known => ?_⟩
    cases unknown.symm.trans known

theorem apply_heading (kept : Kept True target c) (heading : c.Heading config story)
    {o : Occurrence σ} (store : o.Stores) : (c.apply o).Heading config (story ++ c.deeds o) := by
  cases known : c.origin with
  | none => exact search_heading kept heading known o
  | some origin =>
    refine ⟨(config_apply kept o).trans heading.steady, by simp [origin_apply known], ?_⟩
    intro a origin' began known' above
    rw [c.attempt_apply] at began
    obtain rfl := Option.some.inj ((origin_apply known o).symm.trans known')
    obtain ⟨s, passing⟩ := heading.passing a origin began known above
    exact apply_passing kept began known (Nat.sub_le ..) passing store

theorem run_heading (kept : Kept True target c) (heading : c.Heading config story)
    (occurrences : List (Occurrence σ)) (stores : ∀ o ∈ occurrences, o.Stores) :
    (c.run occurrences).Heading config (story ++ c.story occurrences) := by
  induction occurrences generalizing c story with
  | nil =>
    rw [Course.story, List.append_nil]
    exact heading
  | cons o occurrences ih =>
    rw [Course.story, ← List.append_assoc]
    exact ih (apply_kept kept o fun _ _ _ _ _ => trivial)
      (apply_heading kept heading (stores o List.mem_cons_self))
      fun o ho => stores o (List.mem_cons_of_mem _ ho)

omit [NodeStore σ] in
/-- What an attempt waits for tells whether it has given the state up. -/
theorem Passing.waits (passing : c.Passing p origin story s) {b : Attempt} {stage : Stage}
    (standing : c.standing = .ok (some (b, stage))) :
    b.pivot = some p ∧ (b.mode = .full ∧ (∃ now, .fellBack now ∈ story) ∨
      b.mode = .snap ∧ ¬ ∃ now, .fellBack now ∈ story) ∧
    ∀ pivot above run expires, stage = .state pivot above run expires →
      .begun pivot expires ∈ story ∧ run.task.root = pivot.stateRoot := by
  obtain ⟨border, stands⟩ := passing.placed.waiting b stage standing
  have led := passing.led
  refine ⟨border, ?_, ?_⟩
  · rw [led.fellBack_iff]
    cases stands with
    | laying lays shaped =>
      cases lays with
      | below snap short => exact .inr ⟨snap, by simp⟩
      | beyond past => rcases led.mode rfl with mode | mode <;> simp [mode]
    | fetching snap past executes root => exact .inr ⟨snap, by simp⟩
  · rintro pivot above run expires rfl
    cases stands with
    | laying lays shaped => exact shaped.elim
    | fetching snap past executes root => exact ⟨(led.begun rfl).1, root⟩

omit [NodeStore σ] in
theorem Passing.success (passing : c.Passing p origin story s) (done : c.standing = .ok none) :
    (story.countP Deed.isBegun = 1 ∧
      ((∃ task, .completed task ∈ story) ↔ ¬ ∃ now, .fellBack now ∈ story)) ∨
      story.countP Deed.isBegun = 0 ∧
        c.hub.peers.config.StopsShort ((headersOf c.accepted).getLastD origin).number p := by
  have led := passing.led
  rcases passing.placed.finished done with ⟨mode, rfl⟩ | ⟨rfl, short⟩
  · refine .inl ⟨led.countP_begun, ?_⟩
    rw [led.completed_iff, led.fellBack_iff]
    rcases led.mode rfl with rfl | rfl <;> simp
  · exact .inr ⟨led.countP_begun, short⟩

/-- The next step keeps the time, and counts when it gives a state up. -/
structure Punctual (c : Course σ) (o : Occurrence σ) : Prop where
  turns : c.hub.Turns (c.deeds o) (c.apply o).hub
  timely : ∀ d ∈ c.stateDeeds o, d.Timely c.hub

/-- A download whose time is up has ended, or the attempt goes on in full mode. -/
def Expires (c : Course σ) (env : Surroundings) (signal : Signal) : Prop :=
  ∀ a pivot above run expires, c.standing = .ok (some (a, .state pivot above run expires)) →
    expires ≤ c.hub.now →
      let deeds := c.stateDeeds (.signal env signal)
      (∃ task, deeds = [.completed task]) ∨
      (∃ err, (Attempt.heard env c.hub run signal).2.2 = some (.error err)) ∨
      deeds = [.fellBack c.hub.now] ∧ ∃ turned, c.hub.Turns [.fellBack c.hub.now] turned ∧
        a.step env c.hub (.state pivot above run expires) signal =
          ({ a with mode := .full } : Attempt).continueAbove env turned pivot above

theorem expires (c : Course σ) (env : Surroundings) (signal : Signal) : c.Expires env signal := by
  intro a pivot above run expires standing late
  have heard : c.stateDeeds (.signal env signal) =
      Attempt.ending expires (Attempt.heard env c.hub run signal) := by
    simp only [stateDeeds, standing, Attempt.signalDeeds]
  rw [heard, Attempt.step_state]
  exact Attempt.ending_due a env pivot above (Attempt.heard_calm run signal) late

end Course

namespace OneBlock

open Course

/-- The common block, the skeleton, the headers, and the local chain's answer. -/
def occurrences : List (Occurrence Simulation.NodeDatabase) :=
  [.signal env (.ended 0 (.answered (.headers [genesis]))),
    .signal env (.ended 1 (.answered (.headers [block]))),
    .signal env (.ended 2 (.answered (.headers [block]))),
    .landed env (.ok ())]

def course : Course Simulation.NodeDatabase := (Course.begin env .snap (some 1) hub).run occurrences

def story : List Deed := (Course.begin env .snap (some 1) hub).story occurrences

end OneBlock
end ChainSync
