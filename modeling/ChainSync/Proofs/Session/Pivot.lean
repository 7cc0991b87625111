import ChainSync.Proofs.Session.PivotState
set_option autoImplicit false

/-!
Where an attempt in snap mode stands towards its pivot, and what one of its steps makes of that.
-/

namespace ChainSync

open Fetch

variable {config : Config} {p : Nat} {origin tip : Header} {s : Passage} {story : List Deed}

namespace Attempt

/-- How an attempt goes on that lays blocks. -/
inductive Lays (p : Nat) (tip : Header) (a : Attempt) : Passage → Prop where
  | below (snap : a.mode = .snap) (short : tip.height < p) : Lays p tip a .below
  | beyond (past : p ≤ tip.height) : Lays p tip a (.beyond a.mode)

theorem Lays.heavy {a : Attempt} (lays : a.Lays p tip s) (led : Passage.Leads p story s) :
    a.mode ≠ .light := by
  cases lays with
  | below snap short => simp [snap]
  | beyond past => rcases led.mode rfl with mode | mode <;> simp [mode]

/-- What an attempt waits for, by where its chain stands. -/
inductive Stands (p : Nat) (tip : Header) (a : Attempt) : Passage → Stage → Prop where
  | laying {s : Passage} {stage : Stage} (lays : a.Lays p tip s) (shaped : a.Shaped stage) :
      Stands p tip a s stage
  | fetching {pivot : Header} {above : List Header} {run : Run StateDownload} {expires : Nat}
      (snap : a.mode = .snap) (past : p ≤ tip.height) (executes : a.Executes above)
      (root : run.task.root = pivot.stateRoot) :
      Stands p tip a (.fetching pivot expires) (.state pivot above run expires)

/-- Where an attempt stands towards its pivot. -/
structure Placed (config : Config) (p : Nat) (tip : Header) (s : Passage)
    (standing : Except SyncError Standing) : Prop where
  waiting : ∀ a stage, standing = .ok (some (a, stage)) → a.pivot = some p ∧ a.Stands p tip s stage
  finished : standing = .ok none →
    (∃ mode, s = .beyond mode) ∨ s = .below ∧ config.StopsShort tip.number p

theorem Placed.error {err : SyncError} : Placed config p tip s (.error err) := ⟨by simp, by simp⟩

variable {σ : Type} {a : Attempt} {env : Surroundings} {h : Hub σ}

theorem Goes.placed {out : Step σ} (goes : a.Goes h out) (pivot : a.pivot = some p)
    (lays : a.Lays p tip s) (stops : out.2 = .ok none → Stops config p tip) :
    Placed config p tip s out.2 := by
  refine ⟨fun a' stage waits => ?_, fun ended => ?_⟩
  · obtain ⟨rfl, shaped⟩ := goes.shaped a' stage waits
    exact ⟨pivot, .laying lays shaped⟩
  · cases lays with
    | below snap short => exact .inr ⟨rfl, (stops ended).resolve_left (Nat.not_le_of_lt short)⟩
    | beyond past => exact .inl ⟨_, rfl⟩

theorem Fetches.placed {pivot : Header} {above : List Header} {expires : Nat} {deeds : List Deed}
    {out : Step σ} (fetches : a.Fetches h pivot above expires deeds out)
    (led : Passage.Leads p story (.fetching pivot expires)) (snap : a.mode = .snap)
    (border : a.pivot = some p) (past : p ≤ tip.height) (executes : a.Executes above) :
    ∃ s, Passage.Leads p (story ++ deeds) s ∧ Placed config p tip s out.2 := by
  cases fetches with
  | waits calm early root =>
    refine ⟨_, by rwa [List.append_nil], ?_, by simp⟩
    rintro _ _ ⟨⟩
    exact ⟨border, .fetching snap past executes root⟩
  | fails calm err => exact ⟨_, by rwa [List.append_nil], .error⟩
  | completes root done goes =>
    exact ⟨.beyond .snap, led.next (.complete root done),
      goes.placed border (snap ▸ .beyond past) fun _ => .inl past⟩
  | fallsBack late turned goes =>
    exact ⟨.beyond .full, led.next (.fallBack late),
      goes.placed border (.beyond past) fun _ => .inl past⟩

section Batch

variable {shown : Prop} {master : SyncPeer} {target : Nat} {laid : List Header} {i : Insertion}

/-- A batch is on one side of the pivot. -/
theorem side_of_fits (fits : i.Fits shown master target origin laid) (pivot : a.pivot = some p)
    (lays : a.Lays p (laid.getLastD origin) s) (light : a.mode ≠ .light)
    (shaped : a.Shaped (.inserting i)) :
    (s = .below ∧ a.mode = .snap ∧ (∃ bs rs, i.batch = .receipts bs rs) ∧
        a.Divides i.headers i.pivotState i.above) ∨
      s = .beyond a.mode ∧ p ≤ (laid.getLastD origin).height ∧ (∃ bs, i.batch = .blocks bs) ∧
        i.pivotState = none ∧ i.above = [] := by
  have border : a.border = p := border_of_pivot pivot
  obtain ⟨first, rest, hheaders⟩ := List.exists_cons_of_ne_nil fits.nonempty
  have next : first.height = (laid.getLastD origin).height + 1 :=
    fits.laid.head_height (by rw [hheaders]; rfl)
  rcases hbatch : i.batch with hs | bs | ⟨bs, rs⟩
  · simp only [Shaped, hbatch] at shaped
    exact absurd shaped light
  · simp only [Shaped, hbatch] at shaped
    obtain ⟨executes, final, nothing⟩ := shaped
    cases lays with
    | below snap short =>
      -- the next block is the pivot at most
      have := executes snap first (by rw [hheaders]; rfl)
      omega
    | beyond past => exact .inr ⟨rfl, past, ⟨bs, rfl⟩, final, nothing⟩
  · simp only [Shaped, hbatch] at shaped
    cases lays with
    | below snap short => exact .inl ⟨rfl, snap, ⟨bs, rs, rfl⟩, shaped⟩
    | beyond past =>
      have := shaped.below first (by rw [hheaders]; simp)
      omega

theorem parted_of_fits (fits : i.Fits shown master target origin laid) (pivot : a.pivot = some p)
    (lays : a.Lays p (laid.getLastD origin) s) (light : a.mode ≠ .light)
    (shaped : a.Shaped (.inserting i)) :
    i.batch.PartedAt p ∧ Passage.Step p s (.handed i) s := by
  have batch := fits.batch
  rcases side_of_fits fits pivot lays light shaped with
    ⟨rfl, -, ⟨bs, rs, hbatch⟩, divides⟩ | ⟨rfl, past, ⟨bs, hbatch⟩, -⟩
  · have low : ∀ g ∈ i.headers, g.height ≤ p := by
      simpa only [border_of_pivot pivot] using divides.below
    refine ⟨?_, .handBelow fun g hg => low g (batch ▸ hg)⟩
    have backed := fits.backed bs rs hbatch
    rw [hbatch, Batch.headersOf] at batch
    rw [← batch, List.forall₂_map_left_iff] at backed
    rw [hbatch]
    exact (List.forall₂_and_left bs rs).mpr
      ⟨fun b hb => low _ (batch ▸ List.mem_map_of_mem hb), backed⟩
  · have high : ∀ g ∈ i.headers, p < g.height := fun g hg => by
      have := fits.laid.higher (List.mem_append_left i.above hg)
      omega
    refine ⟨?_, .handAbove fun g hg => high g (batch ▸ hg)⟩
    rw [hbatch, Batch.headersOf] at batch
    rw [hbatch]
    exact fun b hb => high _ (batch ▸ List.mem_map_of_mem hb)

/-- What is handed over is on the side where the chain stands. -/
theorem Placed.hands {standing : Except SyncError Standing}
    (placed : Placed config p (laid.getLastD origin) s standing) (led : Passage.Leads p story s)
    (waiting : ∀ a stage, standing = .ok (some (a, stage)) →
      Waiting shown master target origin laid stage) :
    Passage.Leads p (story ++ (Course.pending standing).map .handed) s ∧
      ∀ i ∈ Course.pending standing, i.batch.PartedAt p := by
  unfold Course.pending
  split
  · rename_i a i
    obtain ⟨pivot, stands⟩ := placed.waiting a _ rfl
    have fits : i.Fits shown master target origin laid := waiting a _ rfl
    cases stands with
    | laying lays shaped =>
      obtain ⟨parted, step⟩ := parted_of_fits fits pivot lays (lays.heavy led) shaped
      exact ⟨led.next step, by simpa using parted⟩
  · exact ⟨by simpa using led, by simp⟩

variable [NodeStore σ]

/-- What comes of a batch that the local chain takes. -/
def takenDeeds (env : Surroundings) (h : Hub σ) (i : Insertion) : List Deed :=
  match i.headers.getLast?, i.pivotState with
  | some last, some pivot => fetchDeeds env (published h last) pivot
  | _, _ => []

theorem accepted_passes (store : env.hasStore = true)
    (fits : i.Fits shown master target origin laid) (pivot : a.pivot = some p)
    (lays : a.Lays p (laid.getLastD origin) s) (led : Passage.Leads p story s)
    (shaped : a.Shaped (.inserting i)) {last : Header} (hlast : i.headers.getLast? = some last)
    (stops : (a.accepted env h i last).2 = .ok none → Stops config p last) :
    (∃ s, Passage.Leads p (story ++ .accepted i :: takenDeeds env h i) s ∧
      Placed config p last s (a.accepted env h i last).2) ∧
      h.Turns (takenDeeds env h i) (a.accepted env h i last).1 := by
  have told : h.Calm (published h last) := ⟨rfl, rfl, rfl⟩
  have border : a.border = p := border_of_pivot pivot
  rcases side_of_fits fits pivot lays (lays.heavy led) shaped with
    ⟨rfl, snap, -, divides⟩ | ⟨rfl, past, -, final, nothing⟩
  · have executes : a.Executes i.above := fun _ => divides.above
    have state := divides.pivot last hlast
    have low := divides.below last (List.mem_of_getLast? hlast)
    rw [border] at state low
    by_cases height : last.height = p
    · rw [if_pos height] at state
      have fetched : a.accepted env h i last = a.fetchState env (published h last) last i.above := by
        simp only [accepted, state]
        rfl
      have taken : takenDeeds env h i = fetchDeeds env (published h last) last := by
        simp only [takenDeeds, hlast, state]
      have arrived := led.next (.reach (i := i) (by rw [fits.batch, hlast]) height)
      rw [fetched, taken]
      rcases fetchState_fetches (h := published h last) store executes with
        ⟨nothing, cancelled⟩ | ⟨deeds, expires, begun, -, fetches⟩
      · rw [nothing, cancelled]
        exact ⟨⟨_, arrived, .error⟩, told.turns⟩
      · obtain ⟨s, led, placed⟩ := fetches.placed (arrived.next .begin) snap pivot height.ge executes
        rw [begun]
        exact ⟨⟨s, by simpa using led, placed⟩, (fetches.turns.after told).of_count rfl⟩
    · rw [if_neg height] at state
      have goes : a.Goes h (a.accepted env h i last) := by
        simp only [accepted, state]
        exact (continueAbove_goes last executes).after told
      have taken : takenDeeds env h i = [] := by simp only [takenDeeds, hlast, state]
      rw [taken]
      exact ⟨⟨_, led.next .takeBelow,
        goes.placed pivot (.below snap (Nat.lt_of_le_of_ne low height)) stops⟩, goes.calm.turns⟩
  · have goes : a.Goes h (a.accepted env h i last) := by
      simp only [accepted, final, nothing]
      exact (continueAbove_goes last fun _ => by simp).after told
    have taken : takenDeeds env h i = [] := by simp only [takenDeeds, hlast, final]
    have higher := fits.laid.higher (List.mem_append_left i.above (List.mem_of_getLast? hlast))
    rw [taken]
    exact ⟨⟨_, led.next .takeAbove, goes.placed pivot (.beyond (by omega)) stops⟩, goes.calm.turns⟩

end Batch

section Signals

variable [NodeStore σ]

/-- What comes of a state that is being fetched. -/
def signalDeeds (env : Surroundings) (h : Hub σ) (signal : Signal) : Stage → List Deed
  | .state _ _ run expires => ending expires (heard env h run signal)
  | _ => []

theorem signalDeeds_of_shaped {stage : Stage} (shaped : a.Shaped stage) (signal : Signal) :
    signalDeeds env h signal stage = [] := by
  cases stage with
  | state => exact shaped.elim
  | _ => rfl

theorem step_passes {stage : Stage} (stands : a.Stands p tip s stage) (pivot : a.pivot = some p)
    (led : Passage.Leads p story s) (found : ∀ search, stage ≠ .ancestor search) (signal : Signal)
    (stops : (a.step env h stage signal).2 = .ok none → Stops config p tip) :
    (∃ s, Passage.Leads p (story ++ signalDeeds env h signal stage) s ∧
      Placed config p tip s (a.step env h stage signal).2) ∧
      h.Turns (signalDeeds env h signal stage) (a.step env h stage signal).1 := by
  cases stands with
  | laying lays shaped =>
    have goes : a.Goes h (a.step env h stage signal) := step_goes shaped found signal
    rw [signalDeeds_of_shaped shaped, List.append_nil]
    exact ⟨⟨s, led, goes.placed pivot lays stops⟩, goes.calm.turns⟩
  | @fetching state above run expires snap past executes root =>
    have fetches : a.Fetches h state above expires (ending expires (heard env h run signal))
        (a.step env h (.state state above run expires) signal) := by
      rw [step_state]
      exact onState_fetches executes (heard_calm run signal)
        (heard_sound (StateDownload.lasting_root σ state.stateRoot) root signal)
    exact ⟨fetches.placed led snap pivot past executes, fetches.turns⟩

end Signals
end Attempt
end ChainSync
