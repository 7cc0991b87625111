import ChainSync.Proofs.Session.Opening
import ChainSync.Proofs.Session.Stages
import ChainSync.Simulation.Trie
set_option autoImplicit false

/-!
The whole of an attempt: which batches it hands to the local chain, what it makes known of them, and
when it says that all went well.
-/

namespace ChainSync

open Fetch

/-- What an attempt lives through. -/
inductive Occurrence (σ : Type) where
  | signal (env : Surroundings) (signal : Signal)
  /-- The local chain answers to the batch that it was handed. -/
  | landed (env : Surroundings) (result : Except InsertError Unit)
  /-- Time passes, peers come and go, others take what was published. The configuration stays. -/
  | meanwhile (hub : Hub σ)

/-- An attempt with its history. -/
structure Course (σ : Type) where
  hub : Hub σ
  standing : Except SyncError Standing
  /-- The attempt as it began, if it did. -/
  attempt : Option Attempt
  /-- The block that it agreed on with its master. -/
  origin : Option Header
  handed : List Insertion
  accepted : List Insertion
  /-- The local chain as the last step saw it. -/
  view : ChainView

namespace Course

variable {σ : Type}

/-- The batch that is with the local chain. -/
def pending : Except SyncError Standing → List Insertion
  | .ok (some (_, .inserting i)) => [i]
  | _ => []

def negotiated (env : Surroundings) (h : Hub σ) (signal : Signal) : Stage → Option Header
  | .ancestor search =>
    match (search.step h env.cancelled env.view signal).2 with
    | .ok (.inr ancestor) => some ancestor.header
    | _ => none
  | _ => none

def headersOf (batches : List Insertion) : List Header := batches.flatMap fun i => i.batch.headersOf

def begin (env : Surroundings) (mode : SyncMode) (target : Option Nat) (h : Hub σ) : Course σ :=
  let (hub, standing) := Attempt.begin env mode target h
  { hub, standing
    attempt := match standing with
      | .ok (some (a, _)) => some a
      | _ => none
    origin := none, handed := [], accepted := [], view := env.view }

variable [NodeStore σ]

/-- An attempt that has ended does not go on. -/
def apply (c : Course σ) : Occurrence σ → Course σ
  | .signal env signal =>
    match c.standing with
    | .ok (some (a, stage)) =>
      let (hub, standing) := a.step env c.hub stage signal
      { c with
        hub, standing, view := env.view
        origin := c.origin.or (negotiated env c.hub signal stage)
        handed := if (pending c.standing).isEmpty then c.handed ++ pending standing else c.handed }
    | _ => c
  | .landed env result =>
    match c.standing with
    | .ok (some (a, .inserting i)) =>
      let (hub, standing) := a.landed env c.hub i result
      { c with
        hub, standing, view := env.view
        handed := c.handed ++ pending standing
        accepted := match result with
          | .ok () => c.accepted ++ [i]
          | .error _ => c.accepted }
    | _ => c
  | .meanwhile hub =>
    { c with hub := { hub with peers := { hub.peers with config := c.hub.peers.config } } }

def run (c : Course σ) (occurrences : List (Occurrence σ)) : Course σ := occurrences.foldl apply c

/-- What the master answers to the questions for a skeleton. -/
def shows (c : Course σ) : Occurrence σ → List Header
  | .signal _ signal =>
    match c.standing with
    | .ok (some (_, stage)) => Attempt.answers stage signal
    | _ => []
  | _ => []

/-- All that the master shows of its chain. -/
def testimony (c : Course σ) : List (Occurrence σ) → List Header
  | [] => []
  | o :: occurrences => c.shows o ++ testimony (c.apply o) occurrences

/-- The head that the master advertised is not among the headers, unless it is `shown`. -/
def Admits (shown : Prop) (c : Course σ) (headers : List Header) : Prop :=
  ∀ a, c.attempt = some a → ∀ g ∈ headers, a.master.Advertised g → shown

/-- What holds of an attempt that knows its origin. -/
structure Behind (shown : Prop) (a : Attempt) (origin : Header) (c : Course σ) : Prop where
  laid : Laid shown a.master a.target origin (headersOf c.handed)
  handed : c.handed = c.accepted ++ pending c.standing ∨
    (∃ err, c.standing = .error err) ∧ ∃ i, c.handed = c.accepted ++ [i]
  waiting : ∀ a' stage, c.standing = .ok (some (a', stage)) →
    a'.master = a.master ∧ a'.target = a.target ∧
      Attempt.Waiting shown a.master a.target origin (headersOf c.accepted) stage
  finished : c.standing = .ok none → Attempt.Finished shown a.master a.target c.hub.peers.config
    c.view origin (headersOf c.accepted)
  unknown : ∀ hash, c.standing = .error (.unknownBlock hash) → Attempt.Unknown shown a.master
    a.target c.hub.peers.config c.view origin (headersOf c.accepted)

/-- What holds of an attempt that still looks for its origin. -/
structure Searching (a : Attempt) (c : Course σ) : Prop where
  handed : c.handed = []
  accepted : c.accepted = []
  standing : (∃ err, c.standing = .error err ∧ ∀ hash, err ≠ .unknownBlock hash) ∨ ∃ a' search,
    c.standing = .ok (some (a', .ancestor search)) ∧ a'.master = a.master ∧ a'.target = a.target

/-- What holds of an attempt that did not begin. -/
structure Idle (c : Course σ) : Prop where
  origin : c.origin = none
  handed : c.handed = []
  accepted : c.accepted = []
  standing : ∃ err, c.standing = .error err

structure Kept (shown : Prop) (target : Option Nat) (c : Course σ) : Prop where
  valid : c.hub.peers.config.validate = .ok ()
  idle : c.attempt = none → c.Idle
  aimed : ∀ a, c.attempt = some a →
    a.target = target.getD a.master.info.head.toNat ∧ a.target ≤ a.master.info.head.toNat
  searching : ∀ a, c.attempt = some a → c.origin = none → c.Searching a
  behind : ∀ a origin, c.attempt = some a → c.origin = some origin → c.Behind shown a origin

variable {shown : Prop}

section Begin

omit [NodeStore σ]

theorem config_begin (env : Surroundings) (mode : SyncMode) (target : Option Nat) (h : Hub σ) :
    (begin env mode target h).hub.peers.config = h.peers.config := Attempt.begin_quiet.config

theorem begin_kept {env : Surroundings} {mode : SyncMode} {target : Option Nat} {h : Hub σ}
    (valid : h.peers.config.validate = .ok ()) : Kept shown target (begin env mode target h) := by
  have config : (Attempt.begin env mode target h).1.peers.config = h.peers.config :=
    Attempt.begin_quiet.config
  have begun := Attempt.begin_cases env mode target h
  unfold begin
  generalize Attempt.begin env mode target h = out at config begun ⊢
  obtain ⟨h', standing⟩ := out
  have valid' : h'.peers.config.validate = .ok () := by rw [config, valid]
  rcases begun with ⟨err, rfl⟩ | ⟨a, search, rfl, -, aimed⟩
  · exact ⟨valid', fun _ => ⟨rfl, rfl, rfl, err, rfl⟩, by simp, by simp, by simp⟩
  · refine ⟨valid', by simp, ?_, ?_, by simp⟩
    · rintro _ ⟨⟩
      exact aimed
    · rintro _ ⟨⟩ -
      exact ⟨rfl, rfl, .inr ⟨a, search, rfl, rfl, rfl⟩⟩

end Begin

section Search

variable {a : Attempt} {env : Surroundings} {h : Hub σ}

omit [NodeStore σ] in
theorem fromAncestor_sound (valid : h.peers.config.validate = .ok ())
    (below : a.target ≤ a.master.info.head.toNat) (origin : Header) :
    ∃ h', h'.heads = h.heads ∧ h'.peers.config = h.peers.config ∧
      Attempt.Sound shown a env origin [] h' (a.fromAncestor env h origin) := by
  unfold Attempt.fromAncestor
  dsimp only
  generalize hsettled : (if a.mode = SyncMode.snap then _ else _ : Attempt) = settled
  have same : settled.master = a.master ∧ settled.target = a.target := by
    rw [← hsettled]
    split
    · split <;> exact ⟨rfl, rfl⟩
    · exact ⟨rfl, rfl⟩
  generalize hopened : h.setProgress _ = opened
  have quiet : opened.heads = h.heads ∧ opened.peers.config = h.peers.config := by
    rw [← hopened]
    exact ⟨rfl, rfl⟩
  have sound : settled.Sound shown env origin [] opened (settled.nextSegment env opened origin) :=
    Attempt.nextSegment_sound (by rw [quiet.2, valid]) (by rwa [same.1, same.2]) (.nil _ _ origin)
  exact ⟨opened, quiet.1, quiet.2, sound.of_same same.1 same.2⟩

variable (shown) in
theorem search_cases (valid : h.peers.config.validate = .ok ())
    (below : a.target ≤ a.master.info.head.toNat) (env : Surroundings) (search : AncestorSearch)
    (signal : Signal) :
    (negotiated env h signal (.ancestor search) = none ∧
        h.Quiet (a.step env h (.ancestor search) signal).1 ∧
          ((∃ err, (a.step env h (.ancestor search) signal).2 = .error err ∧
              ∀ hash, err ≠ .unknownBlock hash) ∨
            ∃ search', (a.step env h (.ancestor search) signal).2 =
              .ok (some (a, .ancestor search')))) ∨
      ∃ origin h', negotiated env h signal (.ancestor search) = some origin ∧
        h'.heads = h.heads ∧ h'.peers.config = h.peers.config ∧
          a.Sound shown env origin [] h' (a.step env h (.ancestor search) signal) := by
  have quiet := search.step_quiet h env.cancelled env.view signal
  have known := search.step_known h env.cancelled env.view signal
  simp only [negotiated, Attempt.step]
  generalize search.step h env.cancelled env.view signal = out at quiet known ⊢
  obtain ⟨h', result⟩ := out
  rcases result with err | search' | ancestor
  · exact .inl ⟨rfl, quiet, .inl ⟨err, rfl, by simpa using known⟩⟩
  · exact .inl ⟨rfl, quiet, .inr ⟨search', rfl⟩⟩
  · obtain ⟨h'', heads, config, sound⟩ := fromAncestor_sound (a := a) (by rw [quiet.config, valid])
      below ancestor.header
    exact .inr ⟨_, h'', rfl, heads.trans quiet.heads, config.trans quiet.config, sound⟩

end Search

section Steps

variable {target : Option Nat} {c : Course σ} {a a' : Attempt} {env : Surroundings}
  {origin : Header} {stage : Stage}

omit [NodeStore σ] in
theorem Behind.handed_of_ok (behind : c.Behind shown a origin) {standing : Standing}
    (ok : c.standing = .ok standing) : c.handed = c.accepted ++ pending c.standing := by
  rcases behind.handed with handed | ⟨⟨err, herr⟩, -⟩
  · exact handed
  · cases herr.symm.trans ok

omit [NodeStore σ] in
theorem pending_laid {standing : Except SyncError Standing} {laid : List Header}
    (hl : Laid shown a.master a.target origin laid)
    (waiting : ∀ a' stage, standing = .ok (some (a', stage)) →
      a'.master = a.master ∧ a'.target = a.target ∧
        Attempt.Waiting shown a.master a.target origin laid stage) :
    Laid shown a.master a.target origin (laid ++ headersOf (pending standing)) := by
  unfold pending
  split
  · rename_i a' i
    have fits : i.Fits shown a.master a.target origin laid := (waiting a' _ rfl).2.2
    have hl := fits.laid
    rw [← List.append_assoc] at hl
    rw [headersOf, List.flatMap_singleton, fits.batch]
    exact hl.initial
  · rwa [headersOf, List.flatMap_nil, List.append_nil]

omit [NodeStore σ] in
theorem behind_of_sound {h : Hub σ} {out : Attempt.Step σ}
    (hl : Laid shown a.master a.target origin (headersOf c.accepted))
    (sound : Attempt.Sound shown a env origin (headersOf c.accepted) h out)
    (hhub : c.hub = out.1) (hstanding : c.standing = out.2) (hview : c.view = env.view)
    (hhanded : c.handed = c.accepted ++ pending c.standing) : c.Behind shown a origin := by
  obtain ⟨quiet, waiting, finished, unknown⟩ := sound
  rw [← hstanding] at waiting finished unknown
  rw [← hview, ← quiet.config, ← hhub] at finished unknown
  refine ⟨?_, .inl hhanded, waiting, finished, unknown⟩
  rw [hhanded, headersOf, List.flatMap_append]
  exact pending_laid hl waiting

omit [NodeStore σ] in
theorem kept_of_behind (valid : c.hub.peers.config.validate = .ok ()) (began : c.attempt = some a)
    (aimed : a.target = target.getD a.master.info.head.toNat ∧
      a.target ≤ a.master.info.head.toNat)
    (known : c.origin = some origin) (behind : c.Behind shown a origin) : Kept shown target c := by
  refine ⟨valid, by simp [began], ?_, by simp [known], ?_⟩
  · intro b hb
    obtain rfl := Option.some.inj (began.symm.trans hb)
    exact aimed
  · intro b o hb ho
    obtain rfl := Option.some.inj (began.symm.trans hb)
    obtain rfl := Option.some.inj (known.symm.trans ho)
    exact behind

omit [NodeStore σ] in
theorem kept_of_searching (valid : c.hub.peers.config.validate = .ok ())
    (began : c.attempt = some a)
    (aimed : a.target = target.getD a.master.info.head.toNat ∧
      a.target ≤ a.master.info.head.toNat)
    (unknown : c.origin = none) (searching : c.Searching a) : Kept shown target c := by
  refine ⟨valid, by simp [began], ?_, ?_, by simp [unknown]⟩
  · intro b hb
    obtain rfl := Option.some.inj (began.symm.trans hb)
    exact aimed
  · intro b hb _
    obtain rfl := Option.some.inj (began.symm.trans hb)
    exact searching

omit [NodeStore σ] in
theorem Kept.under_way (kept : Kept shown target c)
    (standing : c.standing = .ok (some (a', stage))) :
    ∃ a, c.attempt = some a ∧ a'.master = a.master ∧ a'.target = a.target ∧
      ((c.origin = none ∧ c.handed = [] ∧ c.accepted = [] ∧ ∃ search, stage = .ancestor search) ∨
        ∃ origin, c.origin = some origin ∧ c.Behind shown a origin) := by
  cases began : c.attempt with
  | none =>
    obtain ⟨err, herr⟩ := (kept.idle began).standing
    cases herr.symm.trans standing
  | some a =>
    refine ⟨a, rfl, ?_⟩
    cases known : c.origin with
    | none =>
      obtain ⟨handed, accepted, ⟨err, herr, -⟩ | ⟨b, search, hb, same⟩⟩ :=
        kept.searching a began known
      · cases herr.symm.trans standing
      · cases hb.symm.trans standing
        exact ⟨same.1, same.2, .inl ⟨rfl, handed, accepted, search, rfl⟩⟩
    | some origin =>
      have behind := kept.behind a origin began known
      obtain ⟨hmaster, htarget, -⟩ := behind.waiting a' stage standing
      exact ⟨hmaster, htarget, .inr ⟨origin, rfl, behind⟩⟩

theorem apply_signal (signal : Signal) (standing : c.standing = .ok (some (a', stage))) :
    c.apply (.signal env signal) =
      { c with
        hub := (a'.step env c.hub stage signal).1
        standing := (a'.step env c.hub stage signal).2
        view := env.view
        origin := c.origin.or (negotiated env c.hub signal stage)
        handed := if (pending c.standing).isEmpty then
          c.handed ++ pending (a'.step env c.hub stage signal).2 else c.handed } := by
  simp only [apply, standing]

theorem handed_signal (signal : Signal) (standing : c.standing = .ok (some (a', stage)))
    (handed : c.handed = c.accepted ++ pending c.standing) :
    (if (pending c.standing).isEmpty then c.handed ++ pending (a'.step env c.hub stage signal).2
      else c.handed) = c.accepted ++ pending (a'.step env c.hub stage signal).2 := by
  rw [handed, standing]
  -- while a batch is with the local chain, a signal changes nothing; no other stage has one
  cases stage <;> simp [pending, Attempt.step]

theorem signal_behind (kept : Kept shown target c) (env : Surroundings) (signal : Signal)
    (told : c.Admits shown (c.shows (.signal env signal)))
    (began : c.attempt = some a) (known : c.origin = some origin)
    (standing : c.standing = .ok (some (a', stage))) :
    Kept shown target (c.apply (.signal env signal)) ∧
      c.hub.Quiet (c.apply (.signal env signal)).hub := by
  have aimed := kept.aimed a began
  have behind := kept.behind a origin began known
  obtain ⟨hmaster, htarget, waiting⟩ := behind.waiting a' stage standing
  have hl : Laid shown a.master a.target origin (headersOf c.accepted) :=
    Attempt.laid_of_waiting waiting
  rw [← hmaster, ← htarget] at waiting
  have shows : c.shows (.signal env signal) = Attempt.answers stage signal := by
    simp only [Course.shows, standing]
  have sound : a'.Sound shown env origin (headersOf c.accepted) c.hub
      (a'.step env c.hub stage signal) :=
    Attempt.step_sound kept.valid (by rw [hmaster, htarget]; exact aimed.2) waiting
      fun g hg => hmaster ▸ told a began g (shows ▸ hg)
  have handed : c.handed = c.accepted ++ pending c.standing := behind.handed_of_ok standing
  -- an origin that is known is not negotiated anew
  have still : c.origin.or (negotiated env c.hub signal stage) = some origin := by
    rw [known, Option.some_or]
  rw [apply_signal signal standing]
  refine ⟨kept_of_behind (by rw [sound.quiet.config, kept.valid]) began aimed still ?_,
    sound.quiet⟩
  exact behind_of_sound hl (sound.of_same hmaster htarget) rfl rfl rfl
    (handed_signal signal standing handed)

theorem signal_searching (kept : Kept shown target c) (env : Surroundings) (signal : Signal)
    {search : AncestorSearch} (began : c.attempt = some a) (unknown : c.origin = none)
    (handed : c.handed = []) (accepted : c.accepted = []) (hmaster : a'.master = a.master)
    (htarget : a'.target = a.target)
    (standing : c.standing = .ok (some (a', .ancestor search))) :
    Kept shown target (c.apply (.signal env signal)) ∧
      (c.apply (.signal env signal)).hub.heads = c.hub.heads ∧
        (c.apply (.signal env signal)).hub.peers.config = c.hub.peers.config := by
  have aimed := kept.aimed a began
  have found := search_cases shown (a := a') kept.valid (by rw [hmaster, htarget]; exact aimed.2) env
    search signal
  rw [apply_signal signal standing]
  generalize a'.step env c.hub (.ancestor search) signal = out at found ⊢
  obtain ⟨h', standing'⟩ := out
  have idle : pending c.standing = [] := by rw [standing]; rfl
  rcases found with ⟨unfound, quiet, ended⟩ | ⟨origin, h'', found, heads, config, sound⟩
  · refine ⟨kept_of_searching (by rw [quiet.config, kept.valid]) began aimed
      (by rw [unknown, unfound]; rfl) ⟨?_, accepted, ?_⟩, quiet.heads, quiet.config⟩
    · rcases ended with ⟨err, rfl, -⟩ | ⟨search', rfl⟩ <;> simp [pending, handed]
    · rcases ended with ⟨err, rfl, known⟩ | ⟨search', rfl⟩
      · exact .inl ⟨err, rfl, known⟩
      · exact .inr ⟨a', search', rfl, hmaster, htarget⟩
  · have hl : Laid shown a.master a.target origin (headersOf c.accepted) := by
      rw [accepted]
      exact .nil ..
    have sound : a.Sound shown env origin (headersOf c.accepted) h'' (h', standing') := by
      rw [accepted]
      exact sound.of_same hmaster htarget
    have known : c.origin.or (negotiated env c.hub signal (.ancestor search)) = some origin := by
      rw [unknown, found]
      rfl
    refine ⟨kept_of_behind (by rw [sound.quiet.config, config, kept.valid]) began aimed known ?_,
      sound.quiet.heads.trans heads, sound.quiet.config.trans config⟩
    exact behind_of_sound hl sound rfl rfl rfl (by simp [idle, handed, accepted])

theorem signal_kept (kept : Kept shown target c) (env : Surroundings) (signal : Signal)
    (told : c.Admits shown (c.shows (.signal env signal))) :
    Kept shown target (c.apply (.signal env signal)) ∧
      (c.apply (.signal env signal)).hub.heads = c.hub.heads ∧
        (c.apply (.signal env signal)).accepted = c.accepted := by
  match standing : c.standing with
  | .error err =>
    have same : c.apply (.signal env signal) = c := by simp only [apply, standing]
    rw [same]
    exact ⟨kept, rfl, rfl⟩
  | .ok none =>
    have same : c.apply (.signal env signal) = c := by simp only [apply, standing]
    rw [same]
    exact ⟨kept, rfl, rfl⟩
  | .ok (some (a', stage)) =>
    have accepted : (c.apply (.signal env signal)).accepted = c.accepted := by
      rw [apply_signal signal standing]
    obtain ⟨a, began, hmaster, htarget,
      ⟨unknown, handed, untaken, search, rfl⟩ | ⟨origin, known, -⟩⟩ := kept.under_way standing
    · obtain ⟨kept, heads, -⟩ := signal_searching kept env signal began unknown handed untaken hmaster
        htarget standing
      exact ⟨kept, heads, accepted⟩
    · obtain ⟨kept, quiet⟩ := signal_behind kept env signal told began known standing
      exact ⟨kept, quiet.heads, accepted⟩

omit [NodeStore σ] in
theorem Kept.inserting {i : Insertion} (kept : Kept shown target c)
    (standing : c.standing = .ok (some (a', .inserting i))) :
    ∃ a origin, c.attempt = some a ∧ c.origin = some origin ∧ a'.master = a.master ∧
      a'.target = a.target ∧ c.handed = c.accepted ++ [i] ∧
        i.Fits shown a.master a.target origin (headersOf c.accepted) := by
  obtain ⟨a, began, hmaster, htarget, ⟨-, -, -, search, hstage⟩ | ⟨origin, known, behind⟩⟩ :=
    kept.under_way standing
  · cases hstage
  · refine ⟨a, origin, began, known, hmaster, htarget, ?_, (behind.waiting a' _ standing).2.2⟩
    rw [behind.handed_of_ok standing, standing]
    rfl

theorem apply_landed {i : Insertion} (result : Except InsertError Unit)
    (standing : c.standing = .ok (some (a', .inserting i))) :
    c.apply (.landed env result) =
      { c with
        hub := (a'.landed env c.hub i result).1
        standing := (a'.landed env c.hub i result).2
        view := env.view
        handed := c.handed ++ pending (a'.landed env c.hub i result).2
        accepted := match result with
          | .ok () => c.accepted ++ [i]
          | .error _ => c.accepted } := by
  simp only [apply, standing]

theorem apply_landed_of_idle {result : Except InsertError Unit}
    (idle : ¬ ∃ a i, c.standing = .ok (some (a, .inserting i))) :
    c.apply (.landed env result) = c := by
  simp only [apply]
  split
  · exact absurd ⟨_, _, ‹_›⟩ idle
  · rfl

theorem landed_ok {i : Insertion} (kept : Kept shown target c) (env : Surroundings)
    (standing : c.standing = .ok (some (a', .inserting i))) :
    Kept shown target (c.apply (.landed env (.ok ()))) ∧
      (c.apply (.landed env (.ok ()))).accepted = c.accepted ++ [i] ∧
        ∃ last, i.batch.headersOf.getLast? = some last ∧
          (Attempt.published c.hub last).Quiet (c.apply (.landed env (.ok ()))).hub := by
  obtain ⟨a, origin, began, known, hmaster, htarget, handed, fits⟩ := kept.inserting standing
  have aimed := kept.aimed a began
  obtain ⟨last, hlast⟩ : ∃ last, i.headers.getLast? = some last :=
    ⟨_, List.getLast?_eq_getLast_of_ne_nil fits.nonempty⟩
  -- the chain grows by what the batch is made of
  have laid : headersOf (c.accepted ++ [i]) = headersOf c.accepted ++ i.headers := by
    simp [headersOf, fits.batch]
  have hl : Laid shown a.master a.target origin (headersOf (c.accepted ++ [i])) := by
    have hl := fits.laid
    rw [← List.append_assoc, ← laid] at hl
    exact hl.initial
  have sound : a'.Sound shown env origin (headersOf (c.accepted ++ [i])) (Attempt.published c.hub last)
      (a'.landed env c.hub i (.ok ())) := by
    simp only [Attempt.landed, hlast, laid]
    rw [← hmaster, ← htarget] at fits
    exact Attempt.accepted_sound kept.valid (by rw [hmaster, htarget]; exact aimed.2) fits hlast
  have same := sound.of_same hmaster htarget
  rw [apply_landed _ standing]
  refine ⟨kept_of_behind (by rw [sound.quiet.config]; exact kept.valid) began aimed known
    (behind_of_sound hl same rfl rfl rfl ?_), rfl, last, by rw [fits.batch, hlast], sound.quiet⟩
  rw [handed]

theorem landed_error {i : Insertion} (kept : Kept shown target c) (env : Surroundings)
    (err : InsertError) (standing : c.standing = .ok (some (a', .inserting i))) :
    Kept shown target (c.apply (.landed env (.error err))) ∧
      (c.apply (.landed env (.error err))).accepted = c.accepted ∧
        c.hub.Quiet (c.apply (.landed env (.error err))).hub := by
  obtain ⟨a, origin, began, known, hmaster, htarget, handed, fits⟩ := kept.inserting standing
  have behind := kept.behind a origin began known
  obtain ⟨h', err', refused, quiet, unasked⟩ := Attempt.refused_eq c.hub i err
  have landed : a'.landed env c.hub i (.error err) = (h', .error err') := refused
  rw [apply_landed _ standing, landed]
  refine ⟨kept_of_behind (by rw [quiet.config, kept.valid]) began (kept.aimed a began) known
    ⟨?_, .inr ⟨⟨err', rfl⟩, i, ?_⟩, by simp, by simp,
      by simpa using fun hash heq => absurd heq (unasked hash)⟩,
      rfl, quiet⟩
  · simpa [pending] using behind.laid
  · simpa [pending] using handed

theorem apply_kept (kept : Kept shown target c) (o : Occurrence σ)
    (told : c.Admits shown (c.shows o)) : Kept shown target (c.apply o) := by
  cases o with
  | signal env signal => exact (signal_kept kept env signal told).1
  | landed env result =>
    by_cases going : ∃ a' i, c.standing = .ok (some (a', .inserting i))
    · obtain ⟨a', i, standing⟩ := going
      cases result with
      | ok => exact (landed_ok kept env standing).1
      | error err => exact (landed_error kept env err standing).1
    · rwa [apply_landed_of_idle going]
  | meanwhile hub =>
    obtain ⟨valid, idle, aimed, searching, behind⟩ := kept
    refine ⟨valid, fun began => ?_, aimed, fun a began unknown => ?_,
      fun a origin began known => ?_⟩
    · obtain ⟨origin, handed, accepted, standing⟩ := idle began
      exact ⟨origin, handed, accepted, standing⟩
    · obtain ⟨handed, accepted, standing⟩ := searching a began unknown
      exact ⟨handed, accepted, standing⟩
    · obtain ⟨laid, handed, waiting, finished, unknown⟩ := behind a origin began known
      exact ⟨laid, handed, waiting, finished, unknown⟩

theorem attempt_apply (c : Course σ) (o : Occurrence σ) : (c.apply o).attempt = c.attempt := by
  cases o with
  | signal env signal =>
    simp only [apply]
    split <;> rfl
  | landed env result =>
    simp only [apply]
    split <;> rfl
  | meanwhile hub => rfl

theorem attempt_run (c : Course σ) (occurrences : List (Occurrence σ)) :
    (c.run occurrences).attempt = c.attempt := by
  induction occurrences generalizing c with
  | nil => rfl
  | cons o occurrences ih => exact (ih _).trans (c.attempt_apply o)

theorem run_kept (kept : Kept shown target c) (occurrences : List (Occurrence σ))
    (told : c.Admits shown (c.testimony occurrences)) : Kept shown target (c.run occurrences) := by
  induction occurrences generalizing c with
  | nil => exact kept
  | cons o occurrences ih =>
    refine ih (apply_kept kept o fun a began g hg => ?_) fun a began g hg => ?_
    · exact told a began g (List.mem_append_left _ hg)
    · exact told a (c.attempt_apply o ▸ began) g (List.mem_append_right _ hg)

theorem config_apply (kept : Kept True target c) (o : Occurrence σ) :
    (c.apply o).hub.peers.config = c.hub.peers.config := by
  cases o with
  | signal env signal =>
    match standing : c.standing with
    | .error err => simp only [apply, standing]
    | .ok none => simp only [apply, standing]
    | .ok (some (a', stage)) =>
      obtain ⟨a, began, hmaster, htarget,
        ⟨unknown, handed, untaken, search, rfl⟩ | ⟨origin, known, -⟩⟩ := kept.under_way standing
      · exact (signal_searching kept env signal began unknown handed untaken hmaster htarget
          standing).2.2
      · exact (signal_behind kept env signal (fun _ _ _ _ _ => trivial) began known
          standing).2.config
  | landed env result =>
    by_cases going : ∃ a' i, c.standing = .ok (some (a', .inserting i))
    · obtain ⟨a', i, standing⟩ := going
      cases result with
      | ok =>
        obtain ⟨-, -, last, -, quiet⟩ := landed_ok kept env standing
        exact quiet.config
      | error err => exact (landed_error kept env err standing).2.2.config
    · rw [apply_landed_of_idle going]
  | meanwhile hub => rfl

theorem config_run (kept : Kept True target c) (occurrences : List (Occurrence σ)) :
    (c.run occurrences).hub.peers.config = c.hub.peers.config := by
  induction occurrences generalizing c with
  | nil => rfl
  | cons o occurrences ih =>
    exact (ih (apply_kept kept o fun _ _ _ _ _ => trivial)).trans (config_apply kept o)

omit [NodeStore σ] in
theorem origin_known (kept : Kept shown target c) (known : c.origin = some origin) :
    ∃ a, c.attempt = some a ∧ a.target = target.getD a.master.info.head.toNat ∧
      c.Behind shown a origin := by
  cases began : c.attempt with
  | none => cases (kept.idle began).origin.symm.trans known
  | some a => exact ⟨a, rfl, (kept.aimed a began).1, kept.behind a origin began known⟩

omit [NodeStore σ] in
theorem origin_unknown (kept : Kept shown target c) (unknown : c.origin = none) :
    c.handed = [] ∧ c.accepted = [] ∧ pending c.standing = [] ∧ c.standing ≠ .ok none := by
  cases began : c.attempt with
  | none =>
    obtain ⟨-, handed, accepted, err, herr⟩ := kept.idle began
    exact ⟨handed, accepted, by rw [herr]; rfl, by simp [herr]⟩
  | some a =>
    obtain ⟨handed, accepted, ⟨err, herr, -⟩ | ⟨a', search, hsearch, -⟩⟩ :=
      kept.searching a began unknown
    · exact ⟨handed, accepted, by rw [herr]; rfl, by simp [herr]⟩
    · exact ⟨handed, accepted, by rw [hsearch]; rfl, by simp [hsearch]⟩

omit [NodeStore σ] in
theorem done_of_isNone {standing : Except SyncError Standing}
    (ended : standing.toOption.map Option.isNone = some true) : standing = .ok none := by
  match standing with
  | .ok none => rfl
  | .ok (some _) => cases ended
  | .error _ => cases ended

omit [NodeStore σ] in
/-- At most one batch is with the local chain, or was refused. -/
theorem one_pending (kept : Kept shown target c) : c.handed = c.accepted ++ pending c.standing ∨
    (∃ err, c.standing = .error err) ∧ ∃ i, c.handed = c.accepted ++ [i] := by
  cases known : c.origin with
  | none =>
    obtain ⟨handed, accepted, idle, -⟩ := origin_unknown kept known
    rw [handed, accepted, idle]
    exact .inl rfl
  | some origin =>
    obtain ⟨a, -, -, behind⟩ := origin_known kept known
    exact behind.handed

end Steps

end Course

/-! A chain of a few blocks without transactions. -/

namespace OneBlock

open Course

def genesis : Header := { difficulty := .ofNat 131072 }

def block : Header :=
  { parentHash := genesis.hash, number := 1, timestamp := 1, difficulty := .ofNat 131072
    stateRoot := emptyTrieHash }

def master : SyncPeer :=
  { info :=
      { id := 1, version := 68, headHash := Hash.zero, head := 2, totalDifficulty := .ofNat 17
        forkId := none, connection := 4 }
    state := .idle, inFlight := .const 0, throughput := .const 100.0, rtt := none
    consecutiveTimeouts := 0 }

def hub : Hub Simulation.NodeDatabase :=
  { peers := { config := { pivotDistance := 0 }, peers := [master] }, metrics := .zero
    board := ⟨{}, {}⟩ }

def env : Surroundings :=
  { engine := .default, hasStore := true, session := 1, cancelled := false
    view :=
      { currentHeader := .ok genesis
        headerByHash := fun _ => .ok (some genesis)
        totalDifficulty := fun _ => .ok none } }

/-- What comes behind `block`. -/
def next : Header :=
  { parentHash := block.hash, number := 2, timestamp := 2, difficulty := .ofNat 131072 }

/-- Segments are of one block, and the master advertises the head that it has. -/
def stepwise : Hub Simulation.NodeDatabase :=
  { hub with
    peers :=
      { config := { headerBatchSize := 1, skeletonSize := 1 }
        peers := [{ master with info := { master.info with headHash := next.hash } }] } }

/-- The local chain knows what every block weighs. -/
def weighing : Surroundings :=
  { env with view := { env.view with totalDifficulty := fun _ => .ok (some (.ofNat 20)) } }

def heard (env : Surroundings) (ticket : Nat) (headers : List Header) :
    Occurrence Simulation.NodeDatabase :=
  .signal env (.ended ticket (.answered (.headers headers)))

/-- The common block, and twice a skeleton, its headers, and the local chain's answer. -/
def twoSegments : List (Occurrence Simulation.NodeDatabase) :=
  [heard weighing 0 [genesis],
    heard weighing 1 [block], heard weighing 2 [block], .landed weighing (.ok ()),
    heard weighing 3 [next], heard weighing 4 [next], .landed weighing (.ok ())]

/-- A master far ahead, and segments of so many headers. -/
def stretched (batch skeleton : UInt64) : Hub Simulation.NodeDatabase :=
  { hub with
    peers :=
      { config := { headerBatchSize := batch, skeletonSize := skeleton, pivotDistance := 2 }
        peers := [{ master with info := { master.info with head := 6 } }] } }

/-- The local chain has `block`, too. -/
def seasoned : Surroundings :=
  { env with
    view := { env.view with
      currentHeader := .ok block, headerByHash := fun _ => .ok (some block) } }

end OneBlock
end ChainSync
