import ChainSync.Proofs.Session.Figures
import ChainSync.Proofs.Session.PivotFirst
import ChainSync.Proofs.Session.Trials
set_option autoImplicit false

/-!
What a session has counted once all went well, whatever it went through.
-/

namespace ChainSync

open Fetch

/-- A session with the block that it agreed on last, and the master that it did so with. -/
structure Account (σ : Type) where
  voyage : Voyage σ
  agreed : Option (SyncPeer × Header)

namespace Attempt

variable {σ : Type} {o : Session.Order} {agreed : Option (SyncPeer × Header)} {a b : Attempt}
  {env : Surroundings} {h : Hub σ} {stage : Stage}

/-- What holds of an attempt under way, and of the counters meanwhile. -/
structure Reckons (o : Session.Order) (agreed : Option (SyncPeer × Header)) (a : Attempt)
    (stage : Stage) (now : SyncProgress) : Prop where
  aimed : a.target = o.target.getD a.master.info.head.toNat
  below : a.target ≤ a.master.info.head.toNat
  serves : a.Serves o.mode
  stands : (∃ search, stage = .ancestor search) ∨ ∃ origin laid,
    agreed = some (a.master, origin) ∧ Waiting True a.master a.target origin laid stage ∧
      a.Agreed origin.height laid.length ∧ a.Counted origin.height laid.length now stage

/-- What a session has counted that is through, with its last attempt and the chain of that. -/
structure Reports (a : Attempt) (o : Session.Order) (config : Config) (origin : Header)
    (laid : List Header) (now : SyncProgress) : Prop where
  aimed : a.target = o.target.getD a.master.info.head.toNat
  serves : a.Serves o.mode
  settled : a.Agreed origin.height laid.length
  chain : Laid True a.master a.target origin laid
  stops : Stops config a.target (laid.getLastD origin)
  counted : now = a.due origin.height laid.length 0

/-- The length of a chain that has come to its target, or as far as a segment fits. -/
theorem Reports.length {a : Attempt} {config : Config} {origin : Header} {laid : List Header}
    {now : SyncProgress} (reports : a.Reports o config origin laid now)
    (above : origin.height ≤ a.target) :
    config.StopsShort (.ofNat (origin.height + laid.length)) a.target ∨
      origin.height + laid.length = a.target := by
  rw [← reports.chain.tip_height]
  rcases reports.stops with reached | short
  · right
    rcases top_of_laid reports.chain reached with ⟨below, rfl⟩ | ⟨last, hlast, height, -⟩
    · exact Nat.le_antisymm above below
    · rw [List.getLastD_eq_getLast?, hlast, Option.getD_some, height]
  · left
    rwa [Header.height, UInt64.ofNat_toNat]

/-- What a step comes to that a session goes by. -/
structure Reckoned (o : Session.Order) (agreed : Option (SyncPeer × Header)) (out : Step σ) :
    Prop where
  valid : out.1.peers.config.validate = .ok ()
  going : ∀ a stage, out.2 = .ok (some (a, stage)) → a.Reckons o agreed stage out.1.figures
  done : out.2 = .ok none → ∃ (a : Attempt) (origin : Header) (laid : List Header),
    agreed = some (a.master, origin) ∧
      a.Reports o out.1.peers.config origin laid out.1.figures

theorem begin_serves (begun : (begin env o.mode o.target h).2 = .ok (some (a, stage))) :
    a.Serves o.mode := by
  obtain ⟨mode, pivot⟩ := begin_mode begun
  split at mode
  · rename_i storeless
    exact ⟨by simp [mode, storeless.1], fun _ => ⟨mode, pivot⟩⟩
  · exact ⟨by rw [mode], fun full => ⟨mode.trans full, pivot⟩⟩

theorem begin_reckoned (valid : h.peers.config.validate = .ok ()) :
    Reckoned o agreed (begin env o.mode o.target h) := by
  have config : (begin env o.mode o.target h).1.peers.config = h.peers.config :=
    begin_quiet.config
  refine ⟨by rw [config, valid], fun a stage begun => ?_, fun done => ?_⟩
  all_goals rcases begin_cases env o.mode o.target h with ⟨err, failed⟩ | ⟨b, search, going, -, aimed⟩
  · cases failed.symm.trans begun
  · have serves := begin_serves begun
    cases going.symm.trans begun
    exact ⟨aimed.1, aimed.2, serves, .inl ⟨search, rfl⟩⟩
  · cases failed.symm.trans done
  · cases going.symm.trans done

/-- A step that fits the chain so far and is counted. -/
theorem reckoned_of_counts {origin : Header} {laid : List Header} {out : Step σ}
    (valid : h.peers.config.validate = .ok ())
    (aimed : a.target = o.target.getD a.master.info.head.toNat)
    (below : a.target ≤ a.master.info.head.toNat) (serves : a.Serves o.mode)
    (settled : a.Agreed origin.height laid.length) (known : agreed = some (a.master, origin))
    (sound : a.Sound True env origin laid h out) (counts : a.Counts origin.height laid.length out) :
    Reckoned o agreed out := by
  refine ⟨by rw [sound.quiet.config, valid], fun a' stage going => ?_, fun done => ?_⟩
  · obtain ⟨master, target, waiting⟩ := sound.waiting a' stage going
    obtain ⟨continues, counted⟩ := counts.going a' stage going
    rw [← master, ← target] at waiting
    rw [← master] at known
    exact ⟨by rw [master, target, aimed], by rw [master, target]; exact below,
      continues.serves serves,
      .inr ⟨origin, laid, known, waiting, continues.agreed settled, counted⟩⟩
  · obtain ⟨hl, stops, -⟩ := sound.finished done
    rw [← sound.quiet.config] at stops
    exact ⟨a, origin, laid, known, aimed, serves, settled, hl, stops, counts.done done⟩

section Steps

variable [NodeStore σ] {signal : Signal}

/-- A master that names the common block has the counters begin there. -/
theorem search_counts {search : AncestorSearch} {mode : SyncMode} {origin : Header}
    (serves : a.Serves mode)
    (found : Course.negotiated env h signal (.ancestor search) = some origin) :
    ∃ b : Attempt, b.master = a.master ∧ b.target = a.target ∧ b.Serves mode ∧
      b.Agreed origin.height 0 ∧
        b.Counts origin.height 0 (a.step env h (.ancestor search) signal) := by
  simp only [Course.negotiated] at found
  simp only [step]
  generalize search.step h env.cancelled env.view signal = out at found
  obtain ⟨h', result⟩ := out
  rcases result with err | search | ancestor
  · cases found
  · cases found
  · obtain rfl := Option.some.inj found
    exact fromAncestor_counts serves ancestor.header

theorem search_reckoned {search : AncestorSearch} (valid : h.peers.config.validate = .ok ())
    (reckons : a.Reckons o agreed (.ancestor search) h.figures) (signal : Signal) :
    Reckoned o (((Course.negotiated env h signal (.ancestor search)).map (a.master, ·)).or agreed)
      (a.step env h (.ancestor search) signal) := by
  obtain ⟨aimed, below, serves, -⟩ := reckons
  rcases Course.search_cases True valid below env search signal with
    ⟨unfound, quiet, ended⟩ | ⟨origin, h', found, -, config, sound⟩
  · rw [unfound]
    have valid' : (a.step env h (.ancestor search) signal).1.peers.config.validate = .ok () := by
      rw [quiet.config, valid]
    refine ⟨valid', fun b stage going => ?_, fun done => ?_⟩
    all_goals rcases ended with ⟨err, failed, -⟩ | ⟨search', waits⟩
    · cases failed.symm.trans going
    · cases waits.symm.trans going
      exact ⟨aimed, below, serves, .inl ⟨search', rfl⟩⟩
    · cases failed.symm.trans done
    · cases waits.symm.trans done
  · rw [found]
    obtain ⟨b, master, target, serves, settled, counts⟩ := search_counts serves found
    have settled : b.Agreed origin.height ([] : List Header).length := settled
    refine reckoned_of_counts (by rw [config, valid]) ?_ ?_ serves settled ?_
      (sound.of_same master.symm target.symm) counts
    · rw [master, target, aimed]
    · rwa [master, target]
    · rw [master]
      rfl

theorem signal_reckoned (valid : h.peers.config.validate = .ok ())
    (reckons : a.Reckons o agreed stage h.figures) (signal : Signal) :
    Reckoned o (((Course.negotiated env h signal stage).map (a.master, ·)).or agreed)
      (a.step env h stage signal) := by
  rcases reckons.stands with ⟨search, rfl⟩ | ⟨origin, laid, known, waiting, settled, counted⟩
  · exact search_reckoned valid reckons signal
  · have nothing : Course.negotiated env h signal stage = none := by
      cases stage with
      | ancestor search => exact waiting.elim
      | _ => rfl
    rw [nothing]
    exact reckoned_of_counts valid reckons.aimed reckons.below reckons.serves settled known
      (step_sound valid reckons.below waiting fun _ _ _ => trivial) (step_counts counted signal)

theorem landed_reckoned {i : Insertion} (valid : h.peers.config.validate = .ok ())
    (reckons : a.Reckons o agreed (.inserting i) h.figures) (result : Except InsertError Unit) :
    Reckoned o agreed (a.landed env h i result) := by
  obtain ⟨aimed, below, serves, ⟨search, ⟨⟩⟩ | ⟨origin, laid, known, fits, settled, handed⟩⟩ := reckons
  cases result with
  | error err =>
    obtain ⟨h', err', refused, quiet, -⟩ := refused_eq h i err
    have failed : a.landed env h i (.error err) = (h', .error err') := refused
    rw [failed]
    exact ⟨by rw [quiet.config, valid], by simp, by simp⟩
  | ok =>
    have fits : i.Fits True a.master a.target origin laid := fits
    obtain ⟨last, hlast⟩ : ∃ last, i.headers.getLast? = some last :=
      ⟨_, List.getLast?_eq_getLast_of_ne_nil fits.nonempty⟩
    have sound : a.Sound True env origin (laid ++ i.headers) (published h last)
        (a.landed env h i (.ok ())) := by
      simp only [landed, hlast]
      exact accepted_sound valid below fits hlast
    have counts : a.Counts origin.height (laid ++ i.headers).length (a.landed env h i (.ok ())) := by
      rw [List.length_append]
      exact landed_counts fits settled handed
    exact reckoned_of_counts (h := published h last) valid aimed below serves
      (List.length_append ▸ settled.more i.headers.length) known sound counts

end Steps

end Attempt

namespace Account

variable {σ : Type} {o : Session.Order}

def begin (env : Surroundings) (o : Session.Order) (h : Hub σ) : Account σ :=
  { voyage := .begin env o h, agreed := none }

variable [NodeStore σ]

/-- The block that a master names to a session, if it names one now. -/
def found (v : Voyage σ) : Occurrence σ → Option (SyncPeer × Header)
  | .signal env signal =>
    match v.outcome with
    | .inl s => (Course.negotiated env v.hub signal s.stage).map (s.attempt.master, ·)
    | .inr _ => none
  | .landed .. | .meanwhile _ => none

def apply (j : Account σ) (occurrence : Occurrence σ) : Account σ :=
  { voyage := j.voyage.apply occurrence, agreed := (found j.voyage occurrence).or j.agreed }

def run (j : Account σ) (occurrences : List (Occurrence σ)) : Account σ :=
  occurrences.foldl apply j

/-- What holds of a session, and of what it has counted. -/
structure Sound (o : Session.Order) (j : Account σ) : Prop where
  valid : j.voyage.hub.peers.config.validate = .ok ()
  going : ∀ s, j.voyage.outcome = .inl s → s.order = o ∧
    s.attempt.Reckons o j.agreed s.stage j.voyage.hub.figures
  done : j.voyage.outcome = .inr (.ok ()) → ∃ (a : Attempt) (origin : Header) (laid : List Header),
    j.agreed = some (a.master, origin) ∧
      a.Reports o j.voyage.hub.peers.config origin laid j.voyage.hub.figures

section Resolve

omit [NodeStore σ]

variable {env env' : Surroundings} {last : Option (Occurrence σ)} {agreed : Option (SyncPeer × Header)}

theorem resolved_sound {n : Nat} {out : Attempt.Step σ} {more masters : List SyncPeer}
    {settled : Hub σ × (Session ⊕ Except SyncError Unit)}
    (resolved : Session.Resolved env o n out more settled)
    (reckoned : Attempt.Reckoned o agreed out) :
    Sound o ⟨⟨settled.1, settled.2, masters, env', last⟩, agreed⟩ := by
  induction resolved with
  | going n h attempt stage =>
    refine ⟨reckoned.valid, ?_, by simp⟩
    rintro s ⟨⟩
    exact ⟨rfl, reckoned.going attempt stage rfl⟩
  | done n h => exact ⟨reckoned.valid, by simp, fun _ => reckoned.done rfl⟩
  | failed n h other => exact ⟨reckoned.valid, by simp, by simp⟩
  | last h blamed =>
    refine ⟨?_, by simp, by simp⟩
    rw [(Hub.Quiet.drop h _).config]
    exact reckoned.valid
  | next blamed rest ih =>
    rename_i h err master masters out
    refine ih (Attempt.begin_reckoned ?_)
    rw [(Hub.Quiet.drop h _).config]
    exact reckoned.valid

theorem begin_sound {h : Hub σ} (valid : h.peers.config.validate = .ok ()) :
    Sound o (begin env o h) :=
  resolved_sound (Session.resolve_resolved _ _) (Attempt.begin_reckoned valid)

end Resolve

section Steps

variable {j : Account σ} {occurrence : Occurrence σ}

theorem deed_reckoned (sound : Sound o j) {env : Surroundings} {s : Session}
    {out : Attempt.Step σ} (deed : j.voyage.deed? occurrence = some (env, s, out)) :
    Attempt.Reckoned o ((found j.voyage occurrence).or j.agreed) out := by
  have under := (Voyage.deed_of_some deed).under
  obtain ⟨-, reckons⟩ := sound.going s under
  cases occurrence with
  | meanwhile hub => cases deed
  | signal env' signal =>
    simp only [Voyage.deed?, found, under] at deed ⊢
    cases deed
    exact Attempt.signal_reckoned sound.valid reckons signal
  | landed env' result =>
    simp only [Voyage.deed?, under] at deed
    obtain ⟨i, handed, heq⟩ := Option.map_eq_some_iff.mp deed
    cases heq
    have inserting : s.stage = .inserting i := by
      unfold Session.handedOver? at handed
      split at handed
      · rename_i stage
        cases handed
        exact stage
      · cases handed
    rw [inserting] at reckons
    exact Attempt.landed_reckoned sound.valid reckons result

theorem found_of_idle (idle : j.voyage.deed? occurrence = none) :
    found j.voyage occurrence = none := by
  cases occurrence with
  | signal env signal =>
    simp only [Voyage.deed?, found] at idle ⊢
    split at idle
    · cases idle
    · simp [*]
  | landed env result => rfl
  | meanwhile hub => rfl

theorem apply_sound (sound : Sound o j) (occurrence : Occurrence σ)
    (arrival : ∀ h, occurrence = .meanwhile h → h.peers.config.validate = .ok ())
    (alone : ∀ h s, occurrence = .meanwhile h → j.voyage.outcome = .inl s →
      h.figures = j.voyage.hub.figures) : Sound o (j.apply occurrence) := by
  unfold apply
  cases deed : j.voyage.deed? occurrence with
  | none =>
    rw [found_of_idle deed, Option.none_or]
    rcases Voyage.apply_of_none deed with idle | ⟨h, s, rfl, under, came⟩
    · rwa [idle]
    · rw [came]
      refine ⟨arrival h rfl, fun s' under' => ?_, by simp [under]⟩
      rw [alone h s rfl under]
      exact sound.going s' under'
  | some taken =>
    obtain ⟨env, s, out⟩ := taken
    have deed' := Voyage.deed_of_some deed
    obtain ⟨rfl, -⟩ := sound.going s deed'.under
    rw [deed'.applied]
    exact resolved_sound (Session.resolve_resolved _ _) (deed_reckoned sound deed)

theorem run_sound (sound : Sound o j) (occurrences : List (Occurrence σ))
    (arrivals : ∀ h, .meanwhile h ∈ occurrences → h.peers.config.validate = .ok ())
    (alone : ∀ earlier h later s, occurrences = earlier ++ .meanwhile h :: later →
      (j.run earlier).voyage.outcome = .inl s → h.figures = (j.run earlier).voyage.hub.figures) :
    Sound o (j.run occurrences) := by
  induction occurrences generalizing j with
  | nil => exact sound
  | cons occurrence occurrences ih =>
    refine ih (apply_sound sound occurrence ?_ ?_) (fun h hmem => ?_) ?_
    · rintro h rfl
      exact arrivals h (List.mem_cons_self ..)
    · rintro h s rfl
      exact alone [] h occurrences s rfl
    · exact arrivals h (List.mem_cons_of_mem _ hmem)
    · rintro earlier h later s rfl
      exact alone (occurrence :: earlier) h later s rfl

end Steps

omit [NodeStore σ] in
theorem through_of_toBool {outcome : Session ⊕ Except SyncError Unit}
    (ended : outcome.getRight?.map Except.toBool = some true) : outcome = .inr (.ok ()) := by
  match outcome with
  | .inl _ => cases ended
  | .inr (.error _) => cases ended
  | .inr (.ok ()) => rfl

end Account

namespace OneBlock

/-- Another peer with the same chain. -/
def pair : Hub Simulation.NodeDatabase :=
  { hub with
    peers := { hub.peers with peers := [master, { master with info := { master.info with id := 2 } }] } }

/-- Time passes before the first answer. -/
def later : Hub Simulation.NodeDatabase :=
  { (Account.begin env ⟨1, .snap, some 1⟩ pair).voyage.hub with now := 1 }

/-- The first master names the common block and leaves; the other one is asked for all of it. -/
def answers : List (Occurrence Simulation.NodeDatabase) :=
  [.signal env (.ended 0 (.answered (.headers [genesis]))),
    .signal env (.ended 1 (.failed .disconnected)),
    .signal env (.ended 2 (.answered (.headers [genesis]))),
    .signal env (.ended 3 (.answered (.headers [block]))),
    .signal env (.ended 4 (.answered (.headers [block]))),
    .landed env (.ok ())]

end OneBlock
end ChainSync
