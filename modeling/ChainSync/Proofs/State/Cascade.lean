import ChainSync.Proofs.State.Tracked
set_option autoImplicit false

/-!
Committing a complete node, and all that become complete by it, in an order that the database
may be given.
-/

namespace ChainSync.StateDownload

open LawfulNodeStore

variable {σ : Type} [NodeStore σ] [LawfulNodeStore σ]

/-- A database that is closed at the start is safe ever after. -/
def Scope.Safe (k : Scope σ) (r : Recorder σ) : Prop := Closed k.origin → r.Safe

/-- What was stored since the start, and what is about to be. -/
structure Logged (k : Scope σ) (r : Recorder σ) (d : StateDownload) : Prop where
  safe : k.Safe r
  hashes : ∀ h, h ∈ d.membatchHashes ↔ h ∈ d.membatch.map Prod.fst
  batch : Ordered r.store d.membatch
  stored : nodes r.store = nodes k.origin ∪ {e | e ∈ r.log}
  entries : ∀ e ∈ r.log ++ d.membatch, k.Node e ∧ k.wanted e.1 ∧ ¬ Stored k.origin e.1
  once : ((r.log ++ d.membatch).map Prod.fst).Nodup
  committed : d.committed = (r.log ++ d.membatch).length

variable {k : Scope σ} {s : σ} {r : Recorder σ} {d : StateDownload} {hand owed : List Hash}

theorem Logged.known_of_origin (l : Logged k r d) {h : Hash} (hs : Stored k.origin h) :
    Known r.store d h := by
  obtain ⟨data, hdata⟩ := hs
  exact .inr ⟨data, l.stored ▸ .inl hdata⟩

theorem Logged.known_of_log (l : Logged k r d) {h : Hash}
    (hl : h ∈ (r.log ++ d.membatch).map Prod.fst) : Known r.store d h := by
  rw [List.map_append, List.mem_append] at hl
  rcases hl with hl | hl
  · obtain ⟨e, he, rfl⟩ := List.mem_map.mp hl
    exact .inr ⟨e.2, l.stored ▸ .inr he⟩
  · exact .inl hl

theorem Scope.Ready.mono {d' : StateDownload} {e : Hash × Bytes} (h : k.Ready s d e)
    (sub : ∀ c, Known s d c → Known s d' c) : k.Ready s d' e := ⟨h.1, h.2.mono sub⟩

theorem settleParents_eq (d : StateDownload) (ps : List Hash) :
    (d.settleParents ps).1 = { d with waiting := (d.settleParents ps).1.waiting } := by
  induction ps generalizing d with
  | nil => rfl
  | cons p ps ih =>
    simp only [settleParents]
    rw [ih, settleParent_eq]

theorem tracked_settleParents {ps : List Hash} (h : Tracked k hand ps s d) :
    Tracked k (hand ++ (d.settleParents ps).2.map Prod.fst) [] s (d.settleParents ps).1 ∧
      (∀ e ∈ (d.settleParents ps).2, k.Ready s d e) ∧
      (d.settleParents ps).1.waiting.length + (d.settleParents ps).2.length =
        d.waiting.length := by
  induction ps generalizing d hand with
  | nil =>
    exact ⟨by simpa [settleParents] using h, by simp [settleParents], by simp [settleParents]⟩
  | cons p ps ih =>
    obtain ⟨htracked, hready, hlen⟩ := tracked_settleParent h
    obtain ⟨htracked', hready', hlen'⟩ := ih htracked
    simp only [settleParents]
    refine ⟨?_, fun e he => ?_, ?_⟩
    · rwa [List.map_append, ← List.append_assoc]
    · rcases List.mem_append.mp he with he | he
      · exact hready e he
      · exact (hready' e he).mono fun c hc => by rwa [settleParent_eq] at hc
    · rw [List.length_append]
      omega

/-- A node in hand joins the batch, and those that wait for it have to be told. -/
def finish (d : StateDownload) (e : Hash × Bytes) : StateDownload :=
  { d with
    membatch := d.membatch ++ [e]
    membatchHashes := d.membatchHashes.insert e.1
    committed := d.committed + 1
    parents := d.parents.filter (·.1 != e.1) }

theorem cascade_succ (d : StateDownload) (fuel : Nat) (front : List (Hash × Bytes))
    (e : Hash × Bytes) :
    d.cascade (fuel + 1) (front ++ [e]) =
      ((d.finish e).settleParents (d.parentsOf e.1)).1.cascade fuel
        (front ++ ((d.finish e).settleParents (d.parentsOf e.1)).2) := by
  rw [cascade]
  · simp only [List.getLast?_append, List.getLast?_singleton, Option.some_or,
      List.dropLast_concat]
    rfl
  · simp

/-- A cascade changes neither what is scheduled nor what is asked for. -/
theorem cascade_eq (d : StateDownload) (fuel : Nat) (ready : List (Hash × Bytes)) :
    d.cascade fuel ready = { d with
      waiting := (d.cascade fuel ready).waiting
      parents := (d.cascade fuel ready).parents
      membatch := (d.cascade fuel ready).membatch
      membatchHashes := (d.cascade fuel ready).membatchHashes
      committed := (d.cascade fuel ready).committed } := by
  induction fuel generalizing d ready with
  | zero => rfl
  | succ fuel ih =>
    rcases List.eq_nil_or_concat ready with rfl | ⟨front, e, rfl⟩
    · rfl
    · rw [List.concat_eq_append, cascade_succ, ih, settleParents_eq]
      rfl

theorem known_finish {e : Hash × Bytes} {c : Hash} :
    Known s (d.finish e) c ↔ Known s d c ∨ c = e.1 := by
  simp only [Known, finish, List.map_append, List.mem_append, List.map_cons, List.map_nil,
    List.mem_singleton]
  tauto

theorem logged_finish {e : Hash × Bytes} (l : Logged k r d) (ready : k.Ready r.store d e)
    (wanted : k.wanted e.1) (unknown : ¬ Known r.store d e.1) : Logged k r (d.finish e) := by
  refine ⟨l.safe, fun h => ?_, l.batch.concat ready.1.1 (ready.2.mono fun c hc => hc.symm),
    l.stored, fun e' he => ?_, ?_, ?_⟩
  · simp only [finish, List.mem_insert_iff, l.hashes, List.map_append, List.mem_append,
      List.map_cons, List.map_nil, List.mem_singleton]
    tauto
  · simp only [finish, ← List.append_assoc] at he
    rcases List.mem_append.mp he with he | he
    · exact l.entries e' he
    · obtain rfl := List.mem_singleton.mp he
      exact ⟨ready.1, wanted, fun hs => unknown (l.known_of_origin hs)⟩
  · simp only [finish, ← List.append_assoc]
    rw [List.map_append]
    refine List.nodup_append.mpr ⟨l.once, List.nodup_singleton _, fun a ha b hb hab => ?_⟩
    obtain rfl := List.mem_singleton.mp hb
    exact unknown (l.known_of_log (hab ▸ ha))
  · simp only [finish, l.committed, List.length_append, List.length_singleton]
    omega

theorem links_perm_finish (hn : (d.parents.map Prod.fst).Nodup) (e : Hash × Bytes) :
    d.links.Perm ((d.finish e).links ++ d.parentsOf e.1) := by
  cases hl : d.parents.lookup e.1 with
  | none =>
    have hnot := Keyed.lookup_eq_none_iff.mp hl
    simp only [links, finish, parentsOf, hl, Keyed.filter_eq_self hnot, Option.getD_none,
      List.append_nil]
    exact .refl _
  | some ps =>
    have hperm := Keyed.perm_cons_filter hn (Keyed.mem_of_lookup hl)
    simp only [links, finish, parentsOf, hl, Option.getD_some]
    exact (hperm.flatMap_right Prod.snd).trans List.perm_append_comm

theorem parentsOf_finish {e : Hash × Bytes} {c : Hash} (hne : c ≠ e.1) :
    (d.finish e).parentsOf c = d.parentsOf c := by
  simp only [parentsOf, finish]
  congr 1
  induction d.parents with
  | nil => rfl
  | cons p ps ih =>
    by_cases hp : p.1 = e.1
    · have hcp : (c == p.1) = false := by simpa [hp] using hne
      rw [List.filter_cons_of_neg (by simpa using hp), ih, List.lookup_cons, hcp]
    · rw [List.filter_cons_of_pos (by simpa using hp), List.lookup_cons, List.lookup_cons, ih]

theorem tracked_finish {e : Hash × Bytes} (h : Tracked k (hand ++ [e.1]) [] s d) :
    Tracked k hand (d.parentsOf e.1) s (d.finish e) := by
  have hperm : (d.unfinished ++ (hand ++ [e.1])).Perm (e.1 :: (d.unfinished ++ hand)) := by
    rw [← List.append_assoc]
    exact List.perm_append_comm
  have hmissing := h.missing.perm hperm
  have hnot := (List.nodup_cons.mp hmissing.nodup).1
  have hlinks := links_perm_finish h.waits.nodup e
  refine ⟨⟨(List.nodup_cons.mp hmissing.nodup).2, fun c hc => ?_, fun c hc => ?_, fun hne => ?_,
    fun c hc => ?_⟩, ⟨h.waits.positive, fun w hw => ?_, fun q hq => ?_,
    Keyed.nodup_filter h.waits.nodup _, h.waits.node, fun w hw => ?_⟩⟩
  · rw [known_finish, not_or]
    exact ⟨hmissing.unknown c (List.mem_cons_of_mem _ hc), by rintro rfl; exact hnot hc⟩
  · exact hmissing.wanted c (List.mem_cons_of_mem _ hc)
  · rw [known_finish]
    rcases hmissing.root hne with hr | hr
    · exact .inl (.inl hr)
    · rcases List.mem_cons.mp hr with hr | hr
      · exact .inl (.inr hr)
      · exact .inr hr
  · simp only [finish, Keyed.map_fst_filter, List.mem_filter, bne_iff_ne] at hc
    exact (List.mem_cons.mp (hmissing.parents c hc.1)).resolve_left hc.2
  · have hc := h.waits.count w hw
    rw [List.append_nil] at hc
    rw [hc, hlinks.count_eq]
  · exact h.waits.owner q (by rw [List.append_nil]; exact hlinks.mem_iff.mpr hq)
  · refine (h.waits.children w hw).mono fun c hc => ?_
    rw [known_finish]
    by_cases hce : c = e.1
    · exact .inl (.inr hce)
    · rw [parentsOf_finish hce]
      exact hc.imp_left .inl

/-- The middle of a cascade. The nodes in hand lack nothing, and the fuel bounds the nodes that
can still be committed. -/
structure Cascading (k : Scope σ) (r : Recorder σ) (fuel : Nat) (ready : List (Hash × Bytes))
    (d : StateDownload) : Prop where
  tracked : Tracked k (ready.map Prod.fst) [] r.store d
  logged : Logged k r d
  lacking : ∀ e ∈ ready, k.Ready r.store d e
  enough : ready.length + d.waiting.length ≤ fuel

/-- One node joins the batch, and those that waited for it alone are in hand behind the others. -/
theorem Cascading.next {fuel : Nat} {front more : List (Hash × Bytes)} {e : Hash × Bytes}
    {d' : StateDownload} (h : Cascading k r (fuel + 1) (front ++ [e]) d)
    (settled : (d.finish e).settleParents (d.parentsOf e.1) = (d', more)) :
    Tracked k (front.map Prod.fst) (d.parentsOf e.1) r.store (d.finish e) ∧
      Cascading k r fuel (front ++ more) d' := by
  have he := h.lacking e (by simp)
  have hin : e.1 ∈ d.unfinished ++ (front ++ [e]).map Prod.fst := by simp
  have hlog := logged_finish h.logged he (h.tracked.missing.wanted _ hin)
    (h.tracked.missing.unknown _ hin)
  have finished : Tracked k (front.map Prod.fst) (d.parentsOf e.1) r.store (d.finish e) :=
    tracked_finish (by simpa using h.tracked)
  obtain ⟨htracked, hmore, hlen⟩ := tracked_settleParents finished
  have hd := settleParents_eq (d.finish e) (d.parentsOf e.1)
  rw [settled] at htracked hmore hd hlen
  simp only at htracked hmore hd hlen
  refine ⟨finished, by rwa [List.map_append], ?_, fun e' he' => ?_, ?_⟩
  · rw [hd]
    exact ⟨hlog.safe, hlog.hashes, hlog.batch, hlog.stored, hlog.entries, hlog.once,
      hlog.committed⟩
  · rw [hd]
    rcases List.mem_append.mp he' with he' | he'
    · refine (h.lacking e' (List.mem_append_left _ he')).mono fun c hc => ?_
      exact known_finish.mpr (.inl hc)
    · exact hmore e' he'
  · have enough := h.enough
    have hwaiting : (d.finish e).waiting = d.waiting := rfl
    rw [hwaiting] at hlen
    simp only [List.length_append, List.length_singleton] at enough ⊢
    omega

theorem tracked_cascade {fuel : Nat} {ready : List (Hash × Bytes)}
    (h : Cascading k r fuel ready d) :
    Tracked k [] [] r.store (d.cascade fuel ready) ∧ Logged k r (d.cascade fuel ready) := by
  induction fuel generalizing d ready with
  | zero =>
    have enough := h.enough
    obtain rfl := List.eq_nil_of_length_eq_zero (show ready.length = 0 by omega)
    exact ⟨h.tracked, h.logged⟩
  | succ fuel ih =>
    rcases List.eq_nil_or_concat ready with rfl | ⟨front, e, rfl⟩
    · exact ⟨h.tracked, h.logged⟩
    · rw [List.concat_eq_append] at *
      rw [cascade_succ]
      exact ih (h.next rfl).2

end ChainSync.StateDownload
