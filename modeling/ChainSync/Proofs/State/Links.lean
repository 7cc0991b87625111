import ChainSync.Proofs.Keyed
import ChainSync.Proofs.State.Store
import ChainSync.State.Download
set_option autoImplicit false

/-!
The links from missing nodes to those that wait for them, and what linking a node adds.
-/

namespace ChainSync.StateDownload

variable {σ : Type} [NodeStore σ] [LawfulNodeStore σ]

def parentsOf (d : StateDownload) (child : Hash) : List Hash := (d.parents.lookup child).getD []

/-- Everyone that waits for a child, once for each child. -/
def links (d : StateDownload) : List Hash := d.parents.flatMap Prod.snd

def Known (s : σ) (d : StateDownload) (h : Hash) : Prop := h ∈ d.membatch.map Prod.fst ∨ Stored s h

theorem isKnown_iff {r : Recorder σ} {d : StateDownload}
    (hashes : ∀ h, h ∈ d.membatchHashes ↔ h ∈ d.membatch.map Prod.fst) {h : Hash} {b : Bool}
    (hk : d.isKnown r h = .ok b) : b = true ↔ Known r.store d h := by
  unfold isKnown at hk
  split at hk
  · rename_i hmem
    rw [List.contains_iff_mem, hashes] at hmem
    cases hk
    simp [Known, hmem]
  · rename_i hmem
    rw [List.contains_iff_mem, hashes] at hmem
    have hs : NodeStore.hasNode r.store h = .ok b := hk
    rw [LawfulNodeStore.hasNode_iff hs, Known, or_iff_right hmem]
    rfl

theorem addParent_of_mem {d : StateDownload} {child : Hash} (parent : Hash)
    (h : child ∈ d.parents.map Prod.fst) :
    d.addParent child parent = { d with parents := d.parents.map fun e =>
      if e.1 = child then (e.1, e.2 ++ [parent]) else (e.1, e.2) } := by
  rw [addParent, if_pos (Keyed.lookup_isSome_iff.mpr h)]

theorem addParent_of_not_mem {d : StateDownload} {child : Hash} (parent : Hash)
    (h : child ∉ d.parents.map Prod.fst) :
    d.addParent child parent = { d with parents := d.parents ++ [(child, [parent])] } := by
  rw [addParent, if_neg (fun hs => h (Keyed.lookup_isSome_iff.mp hs))]

theorem parentsOf_addParent (d : StateDownload) (child parent c : Hash) :
    (d.addParent child parent).parentsOf c =
      if c = child then d.parentsOf c ++ [parent] else d.parentsOf c := by
  by_cases h : child ∈ d.parents.map Prod.fst
  · rw [addParent_of_mem parent h, parentsOf, parentsOf,
      Keyed.lookup_map fun e => by split <;> rfl]
    by_cases hc : c = child
    · obtain ⟨l, hl⟩ := Option.isSome_iff_exists.mp (Keyed.lookup_isSome_iff.mpr h)
      simp [hc, hl]
    · cases d.parents.lookup c <;> simp [hc]
  · rw [addParent_of_not_mem parent h, parentsOf, parentsOf, List.lookup_append]
    by_cases hc : c = child
    · subst hc
      simp [Keyed.lookup_eq_none_iff.mpr h]
    · have hne : (c == child) = false := by simpa using hc
      simp [List.lookup_cons, hne, hc]

theorem keys_addParent (d : StateDownload) (child parent : Hash) :
    (d.addParent child parent).parents.map Prod.fst =
      if child ∈ d.parents.map Prod.fst then d.parents.map Prod.fst
      else d.parents.map Prod.fst ++ [child] := by
  by_cases h : child ∈ d.parents.map Prod.fst
  · rw [addParent_of_mem parent h, if_pos h, List.map_map]
    refine List.map_congr_left fun e _ => ?_
    simp only [Function.comp_apply]
    split <;> rfl
  · rw [addParent_of_not_mem parent h, if_neg h, List.map_append, List.map_singleton]

theorem flatMap_map_append {ps : List (Hash × List Hash)} (hn : (ps.map Prod.fst).Nodup)
    {child : Hash} (parent : Hash) (h : child ∈ ps.map Prod.fst) :
    ((ps.map fun e => if e.1 = child then (e.1, e.2 ++ [parent]) else (e.1, e.2)).flatMap
      Prod.snd).Perm (parent :: ps.flatMap Prod.snd) := by
  induction ps with
  | nil => simp at h
  | cons e ps ih =>
    rw [List.map_cons, List.nodup_cons] at hn
    rw [List.map_cons, List.flatMap_cons, List.flatMap_cons]
    by_cases he : e.1 = child
    · subst he
      have hrest :
          (ps.map fun e' => if e'.1 = e.1 then (e'.1, e'.2 ++ [parent]) else (e'.1, e'.2)) =
            ps := by
        refine (List.map_congr_left fun e' he' => ?_).trans (List.map_id ps)
        have hne : e'.1 ≠ e.1 := fun heq => hn.1 (heq ▸ List.mem_map_of_mem he')
        rw [if_neg hne, id]
      rw [if_pos rfl, hrest, List.append_assoc, List.singleton_append]
      exact List.perm_middle
    · rw [if_neg he]
      rw [List.map_cons, List.mem_cons] at h
      have hmem := h.resolve_left fun heq => he heq.symm
      exact ((ih hn.2 hmem).append_left e.2).trans List.perm_middle

theorem links_addParent {d : StateDownload} (hn : (d.parents.map Prod.fst).Nodup)
    (child parent : Hash) : (d.addParent child parent).links.Perm (parent :: d.links) := by
  by_cases h : child ∈ d.parents.map Prod.fst
  · rw [addParent_of_mem parent h]
    exact flatMap_map_append hn parent h
  · rw [addParent_of_not_mem parent h, links, links, List.flatMap_append]
    exact List.perm_append_comm

/-- What linking a node to its missing children does. -/
structure Linked (parent : Hash) (missing : List Hash) (d d' : StateDownload) : Prop where
  others : d' = { d with scheduled := d'.scheduled, queue := d'.queue, parents := d'.parents }
  same : missing = [] → d' = d
  /-- Children that nobody asked for yet are scheduled. -/
  fresh : ∃ new, d'.scheduled = d.scheduled ++ new.map (·, []) ∧ d'.queue = d.queue ++ new ∧
    new.Nodup ∧ ∀ c ∈ new, c ∈ missing ∧ c ∉ d.scheduled.map Prod.fst ∧ c ∉ d.waiting.map Prod.fst
  sought : ∀ c ∈ missing, c ∈ d'.scheduled.map Prod.fst ∨ c ∈ d.waiting.map Prod.fst
  links : d'.links.Perm (List.replicate missing.length parent ++ d.links)
  parentsOf : ∀ c p, p ∈ d'.parentsOf c ↔ p ∈ d.parentsOf c ∨ p = parent ∧ c ∈ missing
  nodup : (d'.parents.map Prod.fst).Nodup
  keys : ∀ c ∈ d'.parents.map Prod.fst, c ∈ d.parents.map Prod.fst ∨ c ∈ missing

theorem Linked.refl (parent : Hash) {d : StateDownload} (hn : (d.parents.map Prod.fst).Nodup) :
    Linked parent [] d d :=
  ⟨rfl, fun _ => rfl, ⟨[], by simp⟩, by simp, by simp, by simp, hn, fun _ => .inl⟩

theorem Linked.scheduled_keys {parent : Hash} {missing : List Hash} {d d' : StateDownload}
    (h : Linked parent missing d d') :
    ∃ new, d'.scheduled.map Prod.fst = d.scheduled.map Prod.fst ++ new ∧
      d'.queue = d.queue ++ new ∧ new.Nodup ∧
      ∀ c ∈ new, c ∈ missing ∧ c ∉ d.scheduled.map Prod.fst ∧ c ∉ d.waiting.map Prod.fst := by
  obtain ⟨new, hs, hrest⟩ := h.fresh
  refine ⟨new, ?_, hrest⟩
  rw [hs, List.map_append, List.map_map]
  exact congrArg _ (List.map_id new)

theorem Linked.known {parent : Hash} {missing : List Hash} {d d' : StateDownload}
    (h : Linked parent missing d d') (s : σ) (c : Hash) : Known s d' c ↔ Known s d c := by
  rw [h.others]
  rfl

/-- The effect of one missing child. -/
def linkChild (d : StateDownload) (parent child : Hash) : StateDownload :=
  let d := d.addParent child parent
  if (d.waiting.lookup child).isSome then d else d.schedule child

theorem linkChild_eq (d : StateDownload) (parent child : Hash) :
    ∃ new, d.linkChild parent child =
        { d with
          parents := (d.addParent child parent).parents
          scheduled := d.scheduled ++ new.map (·, [])
          queue := d.queue ++ new } ∧
      (new = [] ∧ (child ∈ d.scheduled.map Prod.fst ∨ child ∈ d.waiting.map Prod.fst) ∨
        new = [child] ∧ child ∉ d.scheduled.map Prod.fst ∧ child ∉ d.waiting.map Prod.fst) := by
  simp only [← Keyed.lookup_isSome_iff]
  by_cases hw : (d.waiting.lookup child).isSome
  · refine ⟨[], ?_, .inl ⟨rfl, .inr hw⟩⟩
    have hw' : ((d.addParent child parent).waiting.lookup child).isSome := hw
    simp only [linkChild, hw', if_true, List.map_nil, List.append_nil]
    rfl
  · have hw' : ¬ ((d.addParent child parent).waiting.lookup child).isSome := hw
    by_cases hs : (d.scheduled.lookup child).isSome
    · refine ⟨[], ?_, .inl ⟨rfl, .inl hs⟩⟩
      have hs' : ((d.addParent child parent).scheduled.lookup child).isSome := hs
      simp only [linkChild, schedule, hw', hs', if_true, List.map_nil, List.append_nil]
      rfl
    · refine ⟨[child], ?_, .inr ⟨rfl, hs, hw⟩⟩
      have hs' : ¬ ((d.addParent child parent).scheduled.lookup child).isSome := hs
      simp only [linkChild, schedule, hw', hs']
      rfl

theorem linked_linkChild (parent child : Hash) {d : StateDownload}
    (hn : (d.parents.map Prod.fst).Nodup) : Linked parent [child] d (d.linkChild parent child) := by
  obtain ⟨new, heq, hnew⟩ := d.linkChild_eq parent child
  have hkeys := keys_addParent d child parent
  rw [heq]
  refine ⟨rfl, by simp, ⟨new, rfl, rfl, ?_, ?_⟩, ?_, links_addParent hn child parent,
    fun c p => ?_, ?_, fun c hc => ?_⟩
  · rcases hnew with ⟨rfl, -⟩ | ⟨rfl, -⟩ <;> simp
  · rcases hnew with ⟨rfl, -⟩ | ⟨rfl, hnot⟩
    · simp
    · intro c hc
      obtain rfl := List.mem_singleton.mp hc
      exact ⟨hc, hnot⟩
  · intro c hc
    obtain rfl := List.mem_singleton.mp hc
    rw [List.map_append, List.mem_append]
    rcases hnew with ⟨rfl, h | h⟩ | ⟨rfl, -⟩
    · exact .inl (.inl h)
    · exact .inr h
    · exact .inl (.inr (List.mem_singleton_self _))
  · have hof := parentsOf_addParent d child parent c
    change p ∈ (d.addParent child parent).parentsOf c ↔ _
    rw [hof]
    by_cases hc : c = child <;> simp [hc]
  · rw [hkeys]
    split
    · exact hn
    · rename_i hm
      refine List.nodup_append.mpr ⟨hn, List.nodup_singleton _, fun a ha b hb hab => hm ?_⟩
      exact List.mem_singleton.mp hb ▸ hab ▸ ha
  · rw [hkeys] at hc
    split at hc
    · exact .inl hc
    · exact List.mem_append.mp hc

theorem Linked.trans {parent : Hash} {xs ys : List Hash} {d e f : StateDownload}
    (h : Linked parent xs d e) (h' : Linked parent ys e f) : Linked parent (xs ++ ys) d f := by
  have hwaiting : e.waiting = d.waiting := by rw [h.others]
  obtain ⟨new, hs, hq, hnew, hfresh⟩ := h.fresh
  obtain ⟨new', hs', hq', hnew', hfresh'⟩ := h'.fresh
  have hkeys : e.scheduled.map Prod.fst = d.scheduled.map Prod.fst ++ new := by
    rw [hs, List.map_append, List.map_map]
    exact congrArg _ (List.map_id new)
  refine ⟨?_, fun hnil => ?_, ⟨new ++ new', ?_, ?_, ?_, fun c hc => ?_⟩, fun c hc => ?_, ?_,
    fun c p => ?_, h'.nodup, fun c hc => ?_⟩
  · rw [h'.others, h.others]
  · obtain ⟨hx, hy⟩ := List.append_eq_nil_iff.mp hnil
    rw [h'.same hy, h.same hx]
  · rw [hs', hs, List.map_append, List.append_assoc]
  · rw [hq', hq, List.append_assoc]
  · refine List.nodup_append.mpr ⟨hnew, hnew', fun a ha b hb hab => ?_⟩
    subst hab
    exact (hfresh' a hb).2.1 (hkeys ▸ List.mem_append_right _ ha)
  · rcases List.mem_append.mp hc with hc | hc
    · obtain ⟨hm, hnot⟩ := hfresh c hc
      exact ⟨List.mem_append_left _ hm, hnot⟩
    · obtain ⟨hm, hns, hnw⟩ := hfresh' c hc
      rw [hkeys, List.mem_append, not_or] at hns
      exact ⟨List.mem_append_right _ hm, hns.1, hwaiting ▸ hnw⟩
  · rcases List.mem_append.mp hc with hc | hc
    · refine (h.sought c hc).imp_left fun hm => ?_
      rw [hs', List.map_append]
      exact List.mem_append_left _ hm
    · exact hwaiting ▸ h'.sought c hc
  · rw [List.length_append, Nat.add_comm, ← List.replicate_append_replicate, List.append_assoc]
    exact h'.links.trans (h.links.append_left _)
  · rw [h'.parentsOf, h.parentsOf, List.mem_append]
    tauto
  · rw [List.mem_append]
    rcases h'.keys c hc with hc | hc
    · exact (h.keys c hc).imp_right .inl
    · exact .inr (.inr hc)

/-- A node is linked to all of its children that are not known. -/
theorem linked_of_link {r : Recorder σ} {d d' : StateDownload} {parent : Hash} {cs : List Hash}
    {n : Nat} (hn : (d.parents.map Prod.fst).Nodup)
    (hashes : ∀ h, h ∈ d.membatchHashes ↔ h ∈ d.membatch.map Prod.fst)
    (hl : d.link r parent cs = (d', .ok n)) :
    ∃ missing, missing.length = n ∧ Linked parent missing d d' ∧
      (∀ c ∈ missing, c ∈ cs ∧ c ≠ emptyTrieHash ∧ ¬ Known r.store d c) ∧
      ∀ c ∈ cs, c ≠ emptyTrieHash → Known r.store d c ∨ c ∈ missing := by
  induction cs generalizing d d' n with
  | nil =>
    cases hl
    exact ⟨[], rfl, .refl parent hn, by simp, by simp⟩
  | cons child rest ih =>
    unfold link at hl
    split at hl
    · rename_i hempty
      obtain ⟨missing, hlen, linked, hmissing, hall⟩ := ih hn hashes hl
      refine ⟨missing, hlen, linked, fun c hc => ?_, fun c hc hne => ?_⟩
      · exact ⟨List.mem_cons_of_mem _ (hmissing c hc).1, (hmissing c hc).2⟩
      · rcases List.mem_cons.mp hc with rfl | hc
        · exact absurd hempty hne
        · exact hall c hc hne
    · rename_i hempty
      split at hl
      · simp at hl
      · rename_i hknown
        obtain ⟨missing, hlen, linked, hmissing, hall⟩ := ih hn hashes hl
        refine ⟨missing, hlen, linked, fun c hc => ?_, fun c hc hne => ?_⟩
        · exact ⟨List.mem_cons_of_mem _ (hmissing c hc).1, (hmissing c hc).2⟩
        · rcases List.mem_cons.mp hc with rfl | hc
          · exact .inl ((isKnown_iff hashes hknown).mp rfl)
          · exact hall c hc hne
      · rename_i hunknown
        have hchild := linked_linkChild parent child hn
        have hbatch : (d.linkChild parent child).membatch = d.membatch := by rw [hchild.others]
        have hhashes : (d.linkChild parent child).membatchHashes = d.membatchHashes := by
          rw [hchild.others]
        have hnot := (isKnown_iff hashes hunknown).not.mp (by simp)
        cases hr : (d.linkChild parent child).link r parent rest with
        | mk e res =>
          rw [linkChild] at hr
          simp only [hr] at hl
          cases res with
          | error err => simp at hl
          | ok m =>
            cases hl
            obtain ⟨missing, hlen, linked, hmissing, hall⟩ :=
              ih hchild.nodup (hhashes ▸ hbatch ▸ hashes) hr
            simp only [Known, hbatch] at hmissing hall
            refine ⟨child :: missing, by rw [List.length_cons, hlen], hchild.trans linked,
              fun c hc => ?_, fun c hc hne => ?_⟩
            · rcases List.mem_cons.mp hc with rfl | hc
              · exact ⟨List.mem_cons_self .., hempty, hnot⟩
              · exact ⟨List.mem_cons_of_mem _ (hmissing c hc).1, (hmissing c hc).2⟩
            · rcases List.mem_cons.mp hc with rfl | hc
              · exact .inr (List.mem_cons_self ..)
              · exact (hall c hc hne).imp_right (List.mem_cons_of_mem _)

end ChainSync.StateDownload
