import Mathlib.Data.List.Forall2
import ChainSync.Fetch.BlockData
import ChainSync.Proofs.Block.Commitments
import ChainSync.Proofs.Fetch.Desk
import ChainSync.Proofs.Fetch.Release
import ChainSync.Session.Attempt
set_option autoImplicit false

/-!
The data of a run of headers. Three numberings stay aligned: positions of the queue, the blocks
that have something to ask for, and all blocks.
-/

namespace ChainSync.Fetch

/-- What is relied on of a kind of data. -/
class LawfulBlockData (δ : Type) [BlockData δ] : Prop where
  validate_empty {h : Header} : BlockData.committedEmpty δ h →
    BlockData.validate h (BlockData.empty : δ) = .ok ()
  count_zero (p : SyncProgress) : BlockData.count δ p 0 = p
  count_count (p : SyncProgress) (m n : Nat) :
    BlockData.count δ (BlockData.count δ p m) n = BlockData.count δ p (m + n)
  count_current (p : SyncProgress) (n : Nat) : (BlockData.count δ p n).current = p.current
  count_mode (p : SyncProgress) (n : Nat) : (BlockData.count δ p n).mode = p.mode

instance : LawfulBlockData Body where
  validate_empty he := Header.checkBody_empty he
  count_zero _ := rfl
  count_count p m n := by simp only [BlockData.count, Nat.add_assoc]
  count_current _ _ := rfl
  count_mode _ _ := rfl

instance : LawfulBlockData (List Receipt) where
  validate_empty he := Header.checkReceipts_empty he
  count_zero _ := rfl
  count_count p m n := by simp only [BlockData.count, Nat.add_assoc]
  count_current _ _ := rfl
  count_mode _ _ := rfl

namespace BlockFetch

variable {δ : Type} [BlockData δ]

theorem mem_wantedFrom {headers : List Header} {i index : Nat} :
    index ∈ wantedFrom δ i headers ↔
      i ≤ index ∧ ∃ h, headers[index - i]? = some h ∧ BlockData.committedEmpty δ h = false := by
  induction headers generalizing i with
  | nil => simp [wantedFrom]
  | cons h rest ih =>
    have shift : i + 1 ≤ index → index - i = (index - (i + 1)) + 1 := by omega
    by_cases he : BlockData.committedEmpty δ h
    · rw [wantedFrom, if_pos he, ih]
      constructor
      · rintro ⟨hle, g, hg, hne⟩
        exact ⟨by omega, g, by rwa [shift hle, List.getElem?_cons_succ], hne⟩
      · rintro ⟨hle, g, hg, hne⟩
        rcases Nat.eq_or_lt_of_le hle with rfl | hlt
        · simp only [Nat.sub_self, List.getElem?_cons_zero, Option.some.injEq] at hg
          simp [hg, hne] at he
        · rw [shift hlt, List.getElem?_cons_succ] at hg
          exact ⟨hlt, g, hg, hne⟩
    · rw [wantedFrom, if_neg he, List.mem_cons, ih]
      constructor
      · rintro (rfl | ⟨hle, g, hg, hne⟩)
        · exact ⟨Nat.le_refl _, h, by simp, by simpa using he⟩
        · exact ⟨by omega, g, by rwa [shift hle, List.getElem?_cons_succ], hne⟩
      · rintro ⟨hle, g, hg, hne⟩
        rcases Nat.eq_or_lt_of_le hle with rfl | hlt
        · exact .inl rfl
        · rw [shift hlt, List.getElem?_cons_succ] at hg
          exact .inr ⟨hlt, g, hg, hne⟩

theorem nodup_wantedFrom (headers : List Header) (i : Nat) : (wantedFrom δ i headers).Nodup := by
  induction headers generalizing i with
  | nil => exact .nil
  | cons h rest ih =>
    rw [wantedFrom]
    split
    · exact ih (i + 1)
    · refine List.nodup_cons.mpr ⟨fun hi => ?_, ih (i + 1)⟩
      have := (mem_wantedFrom.mp hi).1
      omega

theorem length_wantedFrom_le (headers : List Header) (i : Nat) :
    (wantedFrom δ i headers).length ≤ headers.length := by
  induction headers generalizing i with
  | nil => exact Nat.le_refl _
  | cons h rest ih =>
    have := ih (i + 1)
    rw [wantedFrom]
    split
    · exact Nat.le_succ_of_le this
    · exact Nat.succ_le_succ this

/-- What was released so far stands where it belongs, and nothing else was put anywhere. -/
structure Placed (stored : List (δ × PeerId)) (f : BlockFetch δ) : Prop where
  wanted_eq : f.wanted = wantedFrom δ 0 f.headers
  released_eq : f.released = stored.length
  length_items : f.items.length = f.headers.length
  length_deliveredBy : f.deliveredBy.length = f.headers.length
  known : ∀ (index : Nat) (header : Header), f.headers[index]? = some header → BlockData.committedEmpty δ header →
    f.items[index]? = some (some BlockData.empty) ∧ f.deliveredBy[index]? = some none
  asked : ∀ p index : Nat, f.wanted[p]? = some index →
    f.items[index]? = some (stored[p]?.map Prod.fst) ∧
      f.deliveredBy[index]? = some (stored[p]?.map Prod.snd)

variable {f : BlockFetch δ} {stored : List (δ × PeerId)}

theorem Placed.index_lt (h : Placed stored f) {index : Nat} (hi : index ∈ f.wanted) :
    index < f.headers.length := by
  rw [h.wanted_eq, mem_wantedFrom] at hi
  obtain ⟨-, header, hget, -⟩ := hi
  exact (List.getElem?_eq_some_iff.mp hget).1

theorem filterMap_id_getElem? {α : Type} {l : List (Option α)}
    (h : ∀ i, i < l.length → ∃ a, l[i]? = some (some a)) :
    (l.filterMap id).map some = l := by
  induction l with
  | nil => rfl
  | cons o l ih =>
    obtain ⟨a, ha⟩ := h 0 (Nat.zero_lt_succ _)
    obtain rfl := Option.some.inj ha
    have hrest := ih fun i hi => h (i + 1) (Nat.succ_lt_succ hi)
    exact congrArg (some a :: ·) hrest

theorem Placed.asked_of_full (h : Placed stored f) (full : stored.length = f.wanted.length)
    {i : Nat} {header : Header} (hi : f.headers[i]? = some header)
    (hne : BlockData.committedEmpty δ header = false) :
    ∃ (p : Nat) (x : δ × PeerId), f.wanted[p]? = some i ∧ stored[p]? = some x ∧
      f.items[i]? = some (some x.1) ∧ f.deliveredBy[i]? = some (some x.2) := by
  have hmem : i ∈ f.wanted := by
    rw [h.wanted_eq, mem_wantedFrom]
    exact ⟨Nat.zero_le _, header, hi, hne⟩
  obtain ⟨p, hp⟩ := List.mem_iff_getElem?.mp hmem
  have hlt := (List.getElem?_eq_some_iff.mp hp).1
  have hx := List.getElem?_eq_getElem (full ▸ hlt)
  have hasked := h.asked p i hp
  rw [hx] at hasked
  exact ⟨p, _, hp, hx, hasked⟩

theorem Placed.map_some_output (h : Placed stored f) (full : stored.length = f.wanted.length) :
    f.output.map some = f.items := by
  refine filterMap_id_getElem? fun i hi => ?_
  have hheader := List.getElem?_eq_getElem (h.length_items ▸ hi)
  cases he : BlockData.committedEmpty δ (f.headers.get ⟨i, h.length_items ▸ hi⟩) with
  | true => exact ⟨_, (h.known i _ hheader he).1⟩
  | false =>
    obtain ⟨p, x, -, -, hitem, -⟩ := h.asked_of_full full hheader he
    exact ⟨x.1, hitem⟩

theorem Placed.output_of_full (h : Placed stored f) (full : stored.length = f.wanted.length)
    {i : Nat} {item : δ} (hi : f.items[i]? = some (some item)) : f.output[i]? = some item := by
  rw [← h.map_some_output full, List.getElem?_map, Option.map_eq_some_iff] at hi
  obtain ⟨x, hx, heq⟩ := hi
  rw [hx, Option.some.inj heq]

/-- Every index used on the way is inside its list. -/
def Within (f : BlockFetch δ) : List (δ × PeerId) → Prop
  | [] => True
  | x :: rest =>
    (∃ index, f.wanted[f.released]? = some index ∧ index < f.items.length ∧
      index < f.deliveredBy.length) ∧ Within (f.place x) rest

omit [BlockData δ] in
theorem place_eq {index : Nat} (h : f.wanted[f.released]? = some index) (x : δ × PeerId) :
    f.place x = { f with
      items := f.items.set index (some x.1)
      deliveredBy := f.deliveredBy.set index (some x.2)
      released := f.released + 1 } := by
  simp only [place, h]

omit [BlockData δ] in
theorem place_keeps (f : BlockFetch δ) (x : δ × PeerId) :
    (f.place x).headers = f.headers ∧ (f.place x).wanted = f.wanted ∧
      (f.place x).queue = f.queue := by
  unfold place
  split <;> exact ⟨rfl, rfl, rfl⟩

omit [BlockData δ] in
theorem foldl_place_keeps (f : BlockFetch δ) (ready : List (δ × PeerId)) :
    (ready.foldl place f).headers = f.headers ∧ (ready.foldl place f).wanted = f.wanted ∧
      (ready.foldl place f).queue = f.queue := by
  induction ready generalizing f with
  | nil => exact ⟨rfl, rfl, rfl⟩
  | cons x rest ih =>
    obtain ⟨hh, hw, hq⟩ := ih (f.place x)
    obtain ⟨hh', hw', hq'⟩ := f.place_keeps x
    exact ⟨hh.trans hh', hw.trans hw', hq.trans hq'⟩

theorem placed_place (h : Placed stored f) (x : δ × PeerId)
    (room : stored.length < f.wanted.length) : Placed (stored ++ [x]) (f.place x) := by
  obtain ⟨index, hindex⟩ : ∃ index, f.wanted[stored.length]? = some index :=
    ⟨_, List.getElem?_eq_getElem room⟩
  have hmem := List.mem_of_getElem? hindex
  have hlt := h.index_lt hmem
  rw [place_eq (h.released_eq ▸ hindex)]
  refine ⟨h.wanted_eq, by simp [h.released_eq], by simp [h.length_items],
    by simp [h.length_deliveredBy], fun i header hi he => ?_, fun p i hp => ?_⟩
  · have hne : index ≠ i := by
      rintro rfl
      rw [h.wanted_eq, mem_wantedFrom] at hmem
      obtain ⟨-, g, hg, hempty⟩ := hmem
      rw [Nat.sub_zero, show f.headers[index]? = some header from hi, Option.some.injEq] at hg
      simp [← hg, he] at hempty
    simp only [List.getElem?_set_ne hne]
    exact h.known i header hi he
  · have hp : f.wanted[p]? = some i := hp
    have hold := h.asked p i hp
    by_cases heq : p = stored.length
    · subst heq
      obtain rfl := Option.some.inj (hindex.symm.trans hp)
      simp [hlt, h.length_items, h.length_deliveredBy]
    · have hne : index ≠ i := by
        rintro rfl
        have hnodup := h.wanted_eq ▸ nodup_wantedFrom (δ := δ) f.headers 0
        exact heq ((List.getElem?_inj (List.getElem?_eq_some_iff.mp hp).1 hnodup).mp
          (hp.trans hindex.symm))
      have hsame : (stored ++ [x])[p]? = stored[p]? := by
        rcases Nat.lt_or_gt_of_ne heq with hlt' | hgt
        · exact List.getElem?_append_left hlt'
        · rw [List.getElem?_eq_none (Nat.le_of_lt hgt), List.getElem?_eq_none (by simp; omega)]
      simpa only [List.getElem?_set_ne hne, hsame] using hold

theorem placed_foldl (h : Placed stored f) (ready : List (δ × PeerId))
    (room : stored.length + ready.length ≤ f.wanted.length) :
    Within f ready ∧ Placed (stored ++ ready) (ready.foldl place f) := by
  induction ready generalizing f stored with
  | nil => exact ⟨trivial, by simpa using h⟩
  | cons x rest ih =>
    simp only [List.length_cons] at room
    have hx := placed_place h x (by omega)
    have hwanted := (f.place_keeps x).2.1
    obtain ⟨within, hrest⟩ := ih hx (by simp [hwanted]; omega)
    have hindex := List.getElem?_eq_getElem (l := f.wanted) (i := f.released)
      (by rw [h.released_eq]; omega)
    have hlt := h.index_lt (List.mem_of_getElem? hindex)
    rw [List.append_assoc] at hrest
    refine ⟨⟨⟨_, hindex, ?_, ?_⟩, within⟩, hrest⟩
    · rwa [h.length_items]
    · rwa [h.length_deliveredBy]

theorem placed_start (session : Nat) (headers : List Header) (size : Nat) :
    Placed [] (start session headers size : BlockFetch δ) := by
  -- what an index holds at first
  have first (index : Nat) (header : Header) (hi : headers[index]? = some header) :
      (start session headers size : BlockFetch δ).items[index]? =
          some (if BlockData.committedEmpty δ header then some BlockData.empty else none) ∧
        (start session headers size : BlockFetch δ).deliveredBy[index]? = some none := by
    simp only [start, List.getElem?_map, hi, Option.map_some, and_self]
  refine ⟨rfl, rfl, by simp [start], by simp [start], fun index header hi he => ?_,
    fun p index hp => ?_⟩
  · have hfirst := first index header hi
    rwa [if_pos he] at hfirst
  · obtain ⟨-, header, hget, hne⟩ := mem_wantedFrom.mp (List.mem_of_getElem? hp)
    have hfirst := first index header hget
    rwa [hne] at hfirst

/-- The items of an answer that are kept, by their positions in the queue, with who sent them. -/
def keeps (f : BlockFetch δ) (id : RequestId) (peer : PeerId) (response : List δ) :
    Positioned (δ × PeerId) :=
  match f.queue.inFlight.lookup id with
  | none => []
  | some r =>
    Positioned.numbered r.range.start
      ((f.accept r.range r.range.start response).1.map fun item => (item, peer))

/-- The fetch with an answer in its queue, and what the queue then releases. -/
def takeIn (f : BlockFetch δ) (id : RequestId) (peer : PeerId) (response : List δ) :
    BlockFetch δ × List (δ × PeerId) :=
  match f.queue.take? id with
  | none => (f, [])
  | some (r, queue) =>
    let (kept, fault) := f.accept r.range r.range.start response
    let (ready, queue) :=
      (queue.complete r (kept.map fun item => (item, peer)) fault.isSome).takeReady
    ({ f with queue }, ready)

theorem deliver_fst (f : BlockFetch δ) (id : RequestId) (peer : PeerId) (response : List δ) :
    (f.deliver id peer response).1 =
      (f.takeIn id peer response).2.foldl place (f.takeIn id peer response).1 := by
  unfold deliver takeIn
  cases f.queue.take? id <;> rfl

theorem accept_length (f : BlockFetch δ) {range : Range} {position : Nat}
    (h : position ≤ range.stop) (response : List δ) :
    position + (f.accept range position response).1.length ≤ range.stop := by
  induction response generalizing position with
  | nil => exact h
  | cons item rest ih =>
    unfold accept
    split
    · exact h
    · rename_i hheader
      split at hheader
      · split
        · exact h
        · have hrest := @ih (position + 1) (by omega)
          simp only [List.length_cons]
          omega
      · simp at hheader

theorem accept_valid (f : BlockFetch δ) (range : Range) (position : Nat) (response : List δ) :
    ∀ e ∈ Positioned.numbered position (f.accept range position response).1,
      ∃ header, f.headerAt? e.1 = some header ∧ BlockData.validate header e.2 = .ok () := by
  induction response generalizing position with
  | nil => simp [accept, Positioned.numbered]
  | cons item rest ih =>
    unfold accept
    split
    · simp [Positioned.numbered]
    · rename_i header hheader
      split at hheader
      · split
        · simp [Positioned.numbered]
        · rename_i hvalid
          intro e he
          rcases List.mem_cons.mp he with rfl | he
          · exact ⟨header, hheader, hvalid⟩
          · exact ih (position + 1) e he
      · simp at hheader

theorem accept_prefix (f : BlockFetch δ) (range : Range) (position : Nat) (response : List δ) :
    (f.accept range position response).1 <+: response := by
  induction response generalizing position with
  | nil => exact List.prefix_refl _
  | cons item rest ih =>
    unfold accept
    split
    · exact List.nil_prefix
    · split
      · exact List.nil_prefix
      · exact (List.prefix_cons_inj item).mpr (ih (position + 1))

omit [BlockData δ] in
theorem released_le_place (f : BlockFetch δ) (x : δ × PeerId) :
    f.released ≤ (f.place x).released := by
  unfold place
  split
  · exact Nat.le_succ _
  · exact Nat.le_refl _

omit [BlockData δ] in
theorem released_le_foldl (f : BlockFetch δ) (ready : List (δ × PeerId)) :
    f.released ≤ (ready.foldl place f).released := by
  induction ready generalizing f with
  | nil => exact Nat.le_refl _
  | cons x rest ih => exact Nat.le_trans (f.released_le_place x) (ih _)

theorem released_le_deliver (f : BlockFetch δ) (id : RequestId) (peer : PeerId)
    (response : List δ) : f.released ≤ (f.deliver id peer response).1.released := by
  have hsame : (f.takeIn id peer response).1.released = f.released := by
    unfold takeIn
    cases f.queue.take? id <;> rfl
  rw [deliver_fst, ← hsame]
  exact released_le_foldl ..

/-- What is handed out comes from the queue, and nothing else changes. -/
theorem reserve_eq_some {peer : PeerId} {capacity : Nat} {live : List PeerId} {a : Assignment}
    {g : BlockFetch δ} (h : f.reserve peer capacity live = some (a, g)) :
    ∃ id range queue, f.queue.reserve peer capacity live = some (id, range, queue) ∧
      a = ⟨id, f.blockRange range, BlockData.request δ
        (range.positions.filterMap fun p => (f.headerAt? p).map Header.hash)⟩ ∧
      g = { f with queue } := by
  rw [reserve, Option.map_eq_some_iff] at h
  obtain ⟨⟨id, range, queue⟩, hr, heq⟩ := h
  cases heq
  exact ⟨id, range, queue, hr, rfl, rfl⟩

theorem reserve_released {peer : PeerId} {capacity : Nat} {live : List PeerId} {a : Assignment}
    {g : BlockFetch δ} (h : f.reserve peer capacity live = some (a, g)) :
    g.released = f.released := by
  obtain ⟨id, range, queue, -, -, rfl⟩ := reserve_eq_some h
  rfl

omit [BlockData δ] in
theorem fail_released (f : BlockFetch δ) (id : RequestId) : (f.fail id).2.released = f.released := by
  unfold fail
  split <;> rfl

/-- A fetch between two calls, with the items it kept of all answers. -/
structure Aligned (headers : List Header) (kept : Positioned (δ × PeerId)) (f : BlockFetch δ) :
    Prop where
  headers_eq : f.headers = headers
  custody : ∃ taken, Bench.Balanced 0 f.wanted.length ⟨f.queue, taken⟩
  placed : ∃ stored, Placed stored f ∧ f.queue.nextRelease = stored.length ∧
    kept.Perm (Positioned.numbered 0 stored ++ f.queue.delivered)
  valid : ∀ e ∈ kept, ∃ header, f.headerAt? e.1 = some header ∧
    BlockData.validate header e.2.1 = .ok ()

variable {headers : List Header} {kept : Positioned (δ × PeerId)}

theorem aligned_start (session : Nat) (headers : List Header) (size : Nat) :
    Aligned headers [] (start session headers size : BlockFetch δ) := by
  have opens : Queue.Opens (start session headers size : BlockFetch δ).queue 0
      (0 + (wantedFrom δ 0 headers).length) := .count ..
  rw [Nat.zero_add] at opens
  exact ⟨rfl, ⟨[], opens.balanced⟩, ⟨[], placed_start .., rfl, .refl _⟩, by simp⟩

theorem Aligned.requeue (h : Aligned headers kept f) {queue : Queue (δ × PeerId)}
    (custody : ∃ taken, Bench.Balanced 0 f.wanted.length ⟨queue, taken⟩)
    (keeps : queue.delivered = f.queue.delivered ∧ queue.nextRelease = f.queue.nextRelease) :
    Aligned headers kept { f with queue } := by
  obtain ⟨stored, hplaced, hnext, hperm⟩ := h.placed
  exact ⟨h.headers_eq, custody,
    ⟨stored, ⟨hplaced.wanted_eq, hplaced.released_eq, hplaced.length_items,
      hplaced.length_deliveredBy, hplaced.known, hplaced.asked⟩, keeps.2.trans hnext,
      by simp only [keeps.1]; exact hperm⟩, h.valid⟩

theorem aligned_reserve (h : Aligned headers kept f) {peer : PeerId} {capacity : Nat}
    {live : List PeerId} {a : Assignment} {g : BlockFetch δ}
    (hr : f.reserve peer capacity live = some (a, g)) : Aligned headers kept g := by
  obtain ⟨id, range, queue, handed, -, rfl⟩ := reserve_eq_some hr
  obtain ⟨taken, balanced⟩ := h.custody
  refine h.requeue ⟨taken, Bench.balanced_reserve balanced handed⟩ ?_
  obtain ⟨batch, failedBy, -, -, -, -, -, rfl⟩ := Queue.reserve_eq_some handed
  exact ⟨rfl, rfl⟩

theorem aligned_fail (h : Aligned headers kept f) (id : RequestId) :
    Aligned headers kept (f.fail id).2 := by
  unfold fail
  cases hf : f.queue.fail? id with
  | none => exact h
  | some x =>
    obtain ⟨taken, balanced⟩ := h.custody
    exact h.requeue ⟨taken, Bench.balanced_fail balanced hf⟩ (Queue.fail?_keeps hf)

theorem aligned_failPeer (h : Aligned headers kept f) (peer : PeerId) :
    Aligned headers kept (f.failPeer peer).2 := by
  obtain ⟨taken, balanced⟩ := h.custody
  exact h.requeue ⟨taken, Bench.balanced_failPeer balanced peer⟩ (Queue.failPeer_keeps ..)

omit [BlockData δ] in
/-- Items that come from an answer wait or leave at once; either way they join those kept. -/
theorem kept_perm {known waiting filled ready after : Positioned (δ × PeerId)}
    (h : kept.Perm (known ++ waiting)) (moved : (filled ++ waiting).Perm (ready ++ after)) :
    (kept ++ filled).Perm ((known ++ ready) ++ after) :=
  calc kept ++ filled
    |>.Perm ((known ++ waiting) ++ filled) := h.append_right _
  _ |>.Perm (known ++ (filled ++ waiting)) := by
      rw [List.append_assoc]
      exact List.perm_append_comm.append_left _
  _ |>.Perm (known ++ (ready ++ after)) := moved.append_left _
  _ |>.Perm ((known ++ ready) ++ after) := by rw [List.append_assoc]

/-- What the queue releases finds its place, and the fetch stays aligned. -/
theorem aligned_release (h : Aligned headers kept f) {queue : Queue (δ × PeerId)}
    {taken : List (RequestId × InFlight)} {filled : Positioned (δ × PeerId)}
    {ready : List (δ × PeerId)} (balanced : Bench.Balanced 0 f.wanted.length ⟨queue, taken⟩)
    (next : queue.nextRelease = f.queue.nextRelease + ready.length)
    (moved : (filled ++ f.queue.delivered).Perm
      (Positioned.numbered f.queue.nextRelease ready ++ queue.delivered))
    (valid : ∀ e ∈ filled, ∃ header, f.headerAt? e.1 = some header ∧
      BlockData.validate header e.2.1 = .ok ()) :
    Within { f with queue } ready ∧
      Aligned headers (kept ++ filled) (ready.foldl place { f with queue }) := by
  obtain ⟨stored, hplaced, hstored, hperm⟩ := h.placed
  rw [hstored] at next moved
  have room : queue.nextRelease ≤ f.wanted.length := balanced.next_le (Nat.zero_le _)
  have hplaced : Placed stored { f with queue } :=
    ⟨hplaced.wanted_eq, hplaced.released_eq, hplaced.length_items, hplaced.length_deliveredBy,
      hplaced.known, hplaced.asked⟩
  obtain ⟨within, placed⟩ := placed_foldl hplaced ready (next ▸ room)
  obtain ⟨hh, hw, hq⟩ := foldl_place_keeps { f with queue } ready
  refine ⟨within, hh.trans h.headers_eq, ⟨taken, ?_⟩, ⟨stored ++ ready, placed, ?_, ?_⟩,
    fun e he => ?_⟩
  · rw [hw, hq]
    exact balanced
  · rw [hq, List.length_append, next]
  · rw [hq, Positioned.numbered_append, Nat.zero_add]
    exact kept_perm hperm moved
  · have hat : (ready.foldl place { f with queue }).headerAt? e.1 = f.headerAt? e.1 := by
      simp only [headerAt?, hh, hw]
    rw [hat]
    rcases List.mem_append.mp he with he | he
    · exact h.valid e he
    · exact valid e he

/-- Taking an answer in stays inside all lists, and what it adds is aligned with the rest. -/
theorem aligned_deliver (h : Aligned headers kept f) (id : RequestId) (peer : PeerId)
    (response : List δ) :
    Within (f.takeIn id peer response).1 (f.takeIn id peer response).2 ∧
      Aligned headers (kept ++ f.keeps id peer response) (f.deliver id peer response).1 := by
  rw [deliver_fst]
  unfold takeIn keeps
  cases ht : f.queue.take? id with
  | none =>
    -- an answer that nobody waits for adds nothing
    have hnone : f.queue.inFlight.lookup id = none := by simpa [Queue.take?] using ht
    rw [hnone, List.append_nil]
    exact ⟨trivial, h⟩
  | some x =>
    obtain ⟨r, queue⟩ := x
    obtain ⟨taken, balanced⟩ := h.custody
    have balanced := Bench.balanced_take balanced ht
    obtain ⟨hr, hqueue⟩ := Queue.take?_eq_some.mp ht
    have hsame : queue.nextRelease = f.queue.nextRelease ∧ queue.delivered = f.queue.delivered := by
      simp only [hqueue, and_self]
    have hlen := f.accept_length (Nat.le_add_right r.range.start r.range.count) response
    have hvalid := f.accept_valid r.range r.range.start response
    simp only [hr]
    generalize f.accept r.range r.range.start response = judged at hlen hvalid ⊢
    obtain ⟨items, fault⟩ := judged
    simp only at hlen hvalid ⊢
    have hcount : (items.map fun item => (item, peer)).length ≤ r.range.count := by
      rw [List.length_map]
      rw [Range.stop] at hlen
      omega
    obtain ⟨balanced, hnext, hmoved⟩ := balanced.complete_takeReady hcount fault.isSome
    rw [hsame.1] at hnext hmoved
    rw [hsame.2] at hmoved
    refine aligned_release h balanced hnext hmoved fun e he => ?_
    rw [Positioned.numbered_map] at he
    obtain ⟨x, hx, rfl⟩ := List.mem_map.mp he
    exact hvalid x hx

theorem Aligned.stored_of_done (h : Aligned headers kept f) (done : f.isDone) :
    ∃ stored, Placed stored f ∧ stored.length = f.wanted.length ∧
      kept.Perm (Positioned.numbered 0 stored) := by
  obtain ⟨taken, balanced⟩ := h.custody
  obtain ⟨stored, hplaced, hnext, hperm⟩ := h.placed
  have hstop : f.queue.stop = f.wanted.length := balanced.stop_eq
  have hle := balanced.next_le (Nat.zero_le _)
  have hge := f.queue.isDone_iff.mp done
  simp only at hle
  -- whatever still waited would have to lie behind the end
  have hall : f.queue.delivered = [] := by
    refine List.eq_nil_iff_forall_not_mem.mpr fun e he => ?_
    have hkey : e.1 ∈ f.queue.delivered.map Prod.fst := List.mem_map_of_mem he
    have hnext := balanced.next_le_delivered hkey
    have hlt := balanced.delivered_lt hkey
    simp only at hnext hlt
    omega
  rw [hall, List.append_nil] at hperm
  exact ⟨stored, hplaced, by omega, hperm⟩

/-- A finished fetch has what each header commits to. -/
theorem Aligned.valid_output [LawfulBlockData δ] (h : Aligned headers kept f) (done : f.isDone)
    {i : Nat} {header : Header} (hi : headers[i]? = some header) :
    ∃ item, f.output[i]? = some item ∧ BlockData.validate header item = .ok () := by
  obtain ⟨stored, placed, full, hperm⟩ := h.stored_of_done done
  have hf : f.headers[i]? = some header := h.headers_eq ▸ hi
  cases he : BlockData.committedEmpty δ header with
  | true =>
    exact ⟨_, placed.output_of_full full (placed.known i header hf he).1,
      LawfulBlockData.validate_empty he⟩
  | false =>
    obtain ⟨p, x, hp, hx, hitem, -⟩ := placed.asked_of_full full hf he
    obtain ⟨g, hg, hvalid⟩ := h.valid (p, x)
      (hperm.mem_iff.mpr (Positioned.mem_numbered.mpr ⟨Nat.zero_le _, hx⟩))
    simp only [headerAt?, hp, hf, Option.some.injEq] at hg
    exact ⟨x.1, placed.output_of_full full hitem, hg ▸ hvalid⟩

theorem Aligned.length_output (h : Aligned headers kept f) (done : f.isDone) :
    f.output.length = headers.length := by
  obtain ⟨stored, placed, full, -⟩ := h.stored_of_done done
  rw [← h.headers_eq, ← placed.length_items, ← placed.map_some_output full, List.length_map]

theorem Aligned.backed [LawfulBlockData δ] (h : Aligned headers kept f) (done : f.isDone) :
    List.Forall₂ (fun header item => BlockData.validate header item = .ok ()) headers f.output := by
  refine List.forall₂_iff_get.mpr ⟨(h.length_output done).symm, fun i hi hi' => ?_⟩
  obtain ⟨item, hitem, valid⟩ := h.valid_output done (List.getElem?_eq_getElem hi)
  rw [List.getElem?_eq_getElem hi', Option.some.injEq] at hitem
  rw [← hitem] at valid
  exact valid

section Desk

variable {σ : Type} {d : Desk σ (BlockFetch δ)} {before : SyncProgress}

def adds (d : Desk σ (BlockFetch δ)) : Move → Positioned (δ × PeerId)
  | .deliver id peer payload => d.task.keeps id peer (BlockData.ofPayload payload)
  | _ => []

theorem aligned_apply (h : Aligned headers kept d.task) (m : Move) :
    Aligned headers (kept ++ adds d m) (d.apply m).task := by
  cases m with
  | reserve peer capacity live =>
    simp only [Desk.apply, adds, List.append_nil]
    cases hr : Workload.reserve d.task peer capacity live with
    | none => exact h
    | some x => exact aligned_reserve h hr
  | deliver id peer payload => exact (aligned_deliver h id peer _).2
  | fail id => exact (List.append_nil kept).symm ▸ aligned_fail h id
  | failPeer peer => exact (List.append_nil kept).symm ▸ aligned_failPeer h peer

theorem aligned_run (h : Aligned headers kept d.task) (moves : List Move) :
    Aligned headers (kept ++ Desk.history adds d moves) (d.run moves).task := by
  induction moves generalizing d kept with
  | nil =>
    rw [Desk.history, List.append_nil]
    exact h
  | cons m moves ih =>
    have hrest := ih (aligned_apply h m)
    rwa [List.append_assoc] at hrest

/-- The counter stands at what needed no request and what was released. -/
def Counted (before : SyncProgress) (headers : List Header) (d : Desk σ (BlockFetch δ)) : Prop :=
  d.board.progress =
    BlockData.count δ before
      (headers.length - (wantedFrom δ 0 headers).length + d.task.released)

theorem counted_apply [LawfulBlockData δ] (h : Counted before headers d) (m : Move) :
    Counted before headers (d.apply m) := by
  cases m with
  | reserve peer capacity live =>
    simp only [Desk.apply]
    cases hr : Workload.reserve d.task peer capacity live with
    | none => exact h
    | some x => rwa [Counted, show x.2.released = _ from reserve_released hr]
  | deliver id peer payload =>
    have hle := d.task.released_le_deliver id peer (BlockData.ofPayload payload)
    simp only [Counted, Desk.apply, Receiver.deliver]
    rw [show d.board.progress = _ from h, LawfulBlockData.count_count, Nat.add_assoc,
      Nat.add_sub_cancel' hle]
  | fail id => rwa [Counted, show ((d.apply (.fail id)).task).released = _ from fail_released ..]
  | failPeer peer => exact h

theorem counted_run [LawfulBlockData δ] (h : Counted before headers d) (moves : List Move) :
    Counted before headers (d.run moves) :=
  Desk.run_invariant h fun _ m _ hd => counted_apply hd m

/-- An answer of the peer held the item at its place for a position that was asked for. -/
def Brought (d : Desk σ (BlockFetch δ)) (moves : List Move) (e : Nat × δ × PeerId) : Prop :=
  ∃ earlier id payload later r, moves = earlier ++ .deliver id e.2.2 payload :: later ∧
    (d.run earlier).task.queue.inFlight.lookup id = some r ∧ r.range.start ≤ e.1 ∧
    (BlockData.ofPayload payload)[e.1 - r.range.start]? = some e.2.1

theorem brought_of_adds {m : Move} {e : Nat × δ × PeerId} (h : e ∈ adds d m) (later : List Move) :
    Brought d (m :: later) e := by
  cases m with
  | deliver id peer payload =>
    simp only [adds, keeps] at h
    cases hr : d.task.queue.inFlight.lookup id with
    | none => simp [hr] at h
    | some r =>
      simp only [hr, Positioned.numbered_map] at h
      obtain ⟨x, hx, rfl⟩ := List.mem_map.mp h
      obtain ⟨hle, hget⟩ := Positioned.mem_numbered.mp hx
      obtain ⟨rest, heq⟩ := d.task.accept_prefix r.range r.range.start (BlockData.ofPayload payload)
      have hlt := (List.getElem?_eq_some_iff.mp hget).1
      refine ⟨[], id, payload, later, r, rfl, hr, hle, ?_⟩
      rw [← heq, List.getElem?_append_left hlt, hget]
  | reserve => simp [adds] at h
  | fail => simp [adds] at h
  | failPeer => simp [adds] at h

theorem brought_of_history {moves : List Move} {e : Nat × δ × PeerId}
    (h : e ∈ Desk.history adds d moves) : Brought d moves e := by
  induction moves generalizing d with
  | nil => simp [Desk.history] at h
  | cons m moves ih =>
    rcases List.mem_append.mp h with h | h
    · exact brought_of_adds h moves
    · obtain ⟨earlier, id, payload, later, r, rfl, hr, hle, hget⟩ := ih h
      exact ⟨m :: earlier, id, payload, later, r, rfl, hr, hle, hget⟩

def opening (δ : Type) [BlockData δ] (session size : Nat) (headers : List Header)
    (before : SyncProgress) (store : σ) : Desk σ (BlockFetch δ) :=
  let (task, progress) := begin session headers size before
  ⟨task, ⟨progress, store⟩, none⟩

/-- Whatever comes next, no index leaves its list. -/
def InBounds (f : BlockFetch δ) : Prop :=
  (∀ index ∈ f.wanted, index < f.headers.length) ∧ ∀ id peer response,
    (f.deliver id peer response).1 =
        (f.takeIn id peer response).2.foldl place (f.takeIn id peer response).1 ∧
      Within (f.takeIn id peer response).1 (f.takeIn id peer response).2

/-- What a finished fetch has for each header. -/
structure Whole (headers : List Header) (before : SyncProgress) (d : Desk σ (BlockFetch δ))
    (moves : List Move) : Prop where
  length_output : (d.run moves).task.output.length = headers.length
  length_deliveredBy : (d.run moves).task.deliveredBy.length = headers.length
  valid : ∀ (i : Nat) (header : Header), headers[i]? = some header →
    ∃ item, (d.run moves).task.output[i]? = some item ∧ BlockData.validate header item = .ok ()
  empty : ∀ (i : Nat) (header : Header), headers[i]? = some header →
    BlockData.committedEmpty δ header →
      (d.run moves).task.output[i]? = some BlockData.empty ∧
        (d.run moves).task.deliveredBy[i]? = some none
  asked : ∀ (i : Nat) (header : Header), headers[i]? = some header →
    BlockData.committedEmpty δ header = false →
      ∃ p item peer, (d.run moves).task.wanted[p]? = some i ∧
        (p, item, peer) ∈ Desk.history adds d moves ∧ Brought d moves (p, item, peer) ∧
          (d.run moves).task.output[i]? = some item ∧
            (d.run moves).task.deliveredBy[i]? = some (some peer)
  /-- No position has its item from two answers. -/
  once : ((Desk.history adds d moves).map Prod.fst).Nodup
  progress : (d.run moves).board.progress = BlockData.count δ before headers.length

theorem opening_aligned (session size : Nat) (headers : List Header) (before : SyncProgress)
    (store : σ) : Aligned headers [] (opening δ session size headers before store).task :=
  aligned_start session headers size

theorem whole_of_done [LawfulBlockData δ] (session size : Nat) (headers : List Header)
    (before : SyncProgress) (store : σ) (moves : List Move)
    (done : ((opening δ session size headers before store).run moves).task.isDone) :
    Whole headers before (opening δ session size headers before store) moves := by
  have opened : Counted before headers (opening δ session size headers before store) := rfl
  have counted := counted_run opened moves
  have aligned := aligned_run (opening_aligned (δ := δ) session size headers before store) moves
  rw [List.nil_append] at aligned
  obtain ⟨stored, placed, full, hperm⟩ := aligned.stored_of_done done
  have hheaders := aligned.headers_eq
  have known := placed.known
  have asked := @Placed.asked_of_full _ _ _ _ placed full
  have stands := @Placed.output_of_full _ _ _ _ placed full
  rw [hheaders] at known asked
  have kept : ∀ {p : Nat} {x : δ × PeerId}, stored[p]? = some x →
      (p, x) ∈ Desk.history adds (opening δ session size headers before store) moves :=
    fun hx => hperm.mem_iff.mpr (Positioned.mem_numbered.mpr ⟨Nat.zero_le _, hx⟩)
  refine ⟨aligned.length_output done, ?_, fun i header hi => ?_, fun i header hi he => ?_,
    fun i header hi hne => ?_, ?_, ?_⟩
  · rw [placed.length_deliveredBy, hheaders]
  · exact aligned.valid_output done hi
  · exact ⟨stands (known i header hi he).1, (known i header hi he).2⟩
  · obtain ⟨p, x, hp, hx, hitem, hpeer⟩ := asked hi hne
    exact ⟨p, x.1, x.2, hp, kept hx, brought_of_history (kept hx), stands hitem, hpeer⟩
  · rw [(hperm.map Prod.fst).nodup_iff, Positioned.map_fst_numbered]
    exact List.nodup_range'
  · have hle := length_wantedFrom_le (δ := δ) headers 0
    rw [counted, placed.released_eq, full, placed.wanted_eq, hheaders, Nat.sub_add_cancel hle]

theorem inBounds_run (session size : Nat) (headers : List Header) (before : SyncProgress)
    (store : σ) (moves : List Move) :
    InBounds ((opening δ session size headers before store).run moves).task := by
  have aligned := aligned_run (opening_aligned (δ := δ) session size headers before store) moves
  obtain ⟨stored, placed, -⟩ := aligned.placed
  exact ⟨fun index hi => placed.index_lt hi, fun id peer response =>
    ⟨deliver_fst .., (aligned_deliver aligned id peer response).1⟩⟩

theorem headersOf_assemble {headers : List Header} {bodies : List Body}
    (hlen : bodies.length = headers.length) :
    (Attempt.assemble headers bodies).map Block.header = headers := by
  induction headers generalizing bodies with
  | nil => simp [Attempt.assemble]
  | cons header headers ih =>
    cases bodies with
    | nil => simp at hlen
    | cons body bodies => exact congrArg (header :: ·) (ih (Nat.succ.inj hlen))

/-- Blocks that were put together of headers and as many bodies. -/
theorem assemble_spec {headers : List Header} {bodies : List Body}
    (hlen : bodies.length = headers.length)
    (valid : ∀ (i : Nat) (header : Header), headers[i]? = some header →
      ∃ body, bodies[i]? = some body ∧ header.checkBody body = .ok ()) :
    (Attempt.assemble headers bodies).map Block.header = headers ∧
      (Attempt.assemble headers bodies).map Block.body = bodies ∧
        ∀ block ∈ Attempt.assemble headers bodies, block.header.checkBody block.body = .ok () := by
  refine ⟨headersOf_assemble hlen, ?_⟩
  induction headers generalizing bodies with
  | nil =>
    obtain rfl := List.length_eq_zero_iff.mp hlen
    simp [Attempt.assemble]
  | cons header headers ih =>
    cases bodies with
    | nil => simp at hlen
    | cons body bodies =>
      obtain ⟨hbodies, hrest⟩ := ih (Nat.succ.inj hlen) fun i h hi => valid (i + 1) h hi
      obtain ⟨b, hb, hvalid⟩ := valid 0 header rfl
      obtain rfl := Option.some.inj hb
      refine ⟨congrArg (body :: ·) hbodies, fun block hblock => ?_⟩
      rcases List.mem_cons.mp hblock with rfl | hblock
      · exact hvalid
      · exact hrest block hblock

/-- However a fetch goes, its indices stay in bounds, and once it is done every header has the item
that it commits to, the peer that sent it, and its place in the count. Blocks are put together of
what belongs together. -/
theorem finished_fetch_is_whole (session size : Nat) (headers : List Header)
    (before : SyncProgress) (store : σ) (moves : List Move) :
    let bodies := opening Body session size headers before store
    let receipts := opening (List Receipt) session size headers before store
    (InBounds (bodies.run moves).task ∧ InBounds (receipts.run moves).task) ∧
      ((bodies.run moves).task.isDone → Whole headers before bodies moves ∧
        (Attempt.assemble headers (bodies.run moves).task.output).map Block.header = headers ∧
        (Attempt.assemble headers (bodies.run moves).task.output).map Block.body =
          (bodies.run moves).task.output ∧
        ∀ block ∈ Attempt.assemble headers (bodies.run moves).task.output,
          block.header.checkBody block.body = .ok ()) ∧
      ((receipts.run moves).task.isDone → Whole headers before receipts moves) := by
  intro bodies receipts
  refine ⟨⟨inBounds_run .., inBounds_run ..⟩, fun done => ?_,
    whole_of_done session size headers before store moves⟩
  have whole := whole_of_done session size headers before store moves done
  exact ⟨whole, assemble_spec whole.length_output whole.valid⟩

theorem finished_fetch_is_whole_one_body :
    let body : Body := ⟨[[1]], []⟩
    let headers : List Header := [{}, { number := 1, transactionsRoot := body.transactionsRoot }]
    let moves : List Move := [.reserve 1 8 [1, 2], .deliver ⟨7, 0⟩ 1 (.bodies [⟨[[2]], []⟩]),
      .reserve 2 8 [1, 2], .deliver ⟨7, 1⟩ 2 (.bodies [body, body])]
    let d := opening Body 7 4 headers {} ()
    (d.run moves).task.isDone = true ∧ (d.run moves).task.deliveredBy = [none, some 2] ∧
      (Attempt.assemble headers (d.run moves).task.output).map Block.body = [Body.empty, body] ∧
      (d.run moves).board.progress.bodies = 2 := by
  intro body headers moves d
  have done : (d.run moves).task.isDone = true := by decide +kernel
  have peers : (d.run moves).task.deliveredBy = [none, some 2] := by decide +kernel
  have output : (d.run moves).task.output = [Body.empty, body] := by decide +kernel
  have finished := (finished_fetch_is_whole 7 4 headers {} () moves).2.1 done
  have whole : Whole headers {} d moves := finished.1
  refine ⟨done, peers, finished.2.2.1.trans output, ?_⟩
  rw [whole.progress]
  rfl

end Desk

end BlockFetch
end ChainSync.Fetch
