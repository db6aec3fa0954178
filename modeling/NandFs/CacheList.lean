import NandFs.Cache
import NandFs.LinkedRing

/-! # The list of the buffers in use

The links of the buffers with the two end pointers are a ring whose base is the queue itself.
-/
namespace NandFs

open Program LinkedRing

section Lists
variable [Config]

namespace CacheLruQ
variable {q : CacheLruQ} {cid i : Nat} {f : CacheBuffer → CacheBuffer}

@[simp] theorem modify_caches_self : (q.modify cid f).caches cid = f (q.caches cid) :=
  Function.update_self _ _ _

theorem modify_caches_of_ne (hne : i ≠ cid) : (q.modify cid f).caches i = q.caches i :=
  Function.update_of_ne hne _ _

theorem modify_caches : (q.modify cid f).caches i = if i = cid then f (q.caches i) else q.caches i := by
  by_cases h : i = cid
  · rw [h, modify_caches_self, if_pos rfl]
  · rw [modify_caches_of_ne h, if_neg h]

@[simp] theorem modify_lruCid : (q.modify cid f).lruCid = q.lruCid := rfl

@[simp] theorem modify_mruCid : (q.modify cid f).mruCid = q.mruCid := rfl

@[simp] theorem modify_dirtyCount : (q.modify cid f).dirtyCount = q.dirtyCount := rfl

/-- A modification shows in no view of the buffers that it does not change. -/
theorem modify_view {τ : Type} (view : CacheBuffer → τ) (hf : ∀ c, view (f c) = view c) :
    view ((q.modify cid f).caches i) = view (q.caches i) := by
  by_cases h : i = cid
  · rw [h, modify_caches_self, hf]
  · rw [modify_caches_of_ne h]

/-! ## The links -/

/-- What follows a buffer; the first one follows the queue. -/
def fwd (q : CacheLruQ) : Option Nat → Option Nat
  | none => q.mruCid
  | some cid => (q.caches cid).lessRecentlyUsed

/-- What a buffer follows, and the last one before the queue. -/
def bwd (q : CacheLruQ) : Option Nat → Option Nat
  | none => q.lruCid
  | some cid => (q.caches cid).moreRecentlyUsed

@[simp] theorem fwd_none : q.fwd none = q.mruCid := rfl

@[simp] theorem fwd_some : q.fwd (some cid) = (q.caches cid).lessRecentlyUsed := rfl

@[simp] theorem bwd_none : q.bwd none = q.lruCid := rfl

@[simp] theorem bwd_some : q.bwd (some cid) = (q.caches cid).moreRecentlyUsed := rfl

/-- The list from the most recently used buffer on is `lru`, in both directions, and no other buffer
has links. -/
structure Lists (q : CacheLruQ) (lru : List Nat) : Prop where
  ring : Ring q.fwd q.bwd none (lru.map some)
  less : ∀ cid ∉ lru, (q.caches cid).lessRecentlyUsed = none
  more : ∀ cid ∉ lru, (q.caches cid).moreRecentlyUsed = none

end CacheLruQ

omit [Config] in
theorem getD_map_some {α : Type} (o : Option α) : (o.map some).getD none = o := by
  cases o <;> rfl

/-- A buffer but for its links. -/
def CacheBuffer.unlinked (c : CacheBuffer) : CacheBuffer :=
  { c with lessRecentlyUsed := none, moreRecentlyUsed := none }

/-- Buffers that differ in their links only look the same to what does not look at links. -/
theorem CacheBuffer.unlinked_view {τ : Type} {c d : CacheBuffer} (h : c.unlinked = d.unlinked)
    (view : CacheBuffer → τ) (hview : ∀ c, view c.unlinked = view c) : view c = view d := by
  rw [← hview c, h, hview]

@[simp] theorem isFree_initCacheBuffer : (initCacheBuffer : CacheBuffer).isFree = true := rfl

theorem CacheBuffer.isFree_congr {c d : CacheBuffer} (hdirty : c.isDirty = d.isDirty)
    (haddr : c.logAddr = d.logAddr) : c.isFree = d.isFree := by
  unfold isFree
  rw [hdirty, haddr]

namespace CacheLruQ.Lists
variable {q : CacheLruQ} {lru : List Nat} {cid : Nat}

theorem init : (initLruQ : CacheLruQ).Lists [] :=
  ⟨ring_nil rfl rfl, fun _ _ => rfl, fun _ _ => rfl⟩

theorem nodup (h : q.Lists lru) : lru.Nodup := h.ring.nodes_nodup.of_map some

theorem mruCid (h : q.Lists lru) : q.mruCid = lru.head? := by
  have := h.ring.fwd_base
  cases lru <;> exact this

theorem lruCid (h : q.Lists lru) : q.lruCid = lru.getLast? := by
  have := h.ring.bwd_base
  rw [List.getLast?_map, getD_map_some] at this
  exact this

variable {xs ys : List Nat}

theorem ring_split (h : q.Lists (xs ++ cid :: ys)) :
    Ring q.fwd q.bwd none (xs.map some ++ some cid :: ys.map some) := by
  have := h.ring
  rwa [List.map_append, List.map_cons] at this

theorem next (h : q.Lists (xs ++ cid :: ys)) : (q.caches cid).lessRecentlyUsed = ys.head? := by
  have := h.ring_split.fwd_node
  rwa [List.head?_map, getD_map_some] at this

theorem prev (h : q.Lists (xs ++ cid :: ys)) : (q.caches cid).moreRecentlyUsed = xs.getLast? := by
  have := h.ring_split.bwd_node
  rwa [List.getLast?_map, getD_map_some] at this

theorem next_ne (h : q.Lists lru) : (q.caches cid).lessRecentlyUsed ≠ some cid := by
  by_cases hmem : cid ∈ lru
  · obtain ⟨xs, ys, rfl⟩ := List.append_of_mem hmem
    rw [h.next]
    intro hhead
    have hys := List.mem_of_head? hhead
    exact (List.nodup_cons.mp (List.nodup_append.mp h.nodup).2.1).1 hys
  · rw [h.less cid hmem]
    exact Option.some_ne_none cid ∘ Eq.symm

theorem prev_ne (h : q.Lists lru) : (q.caches cid).moreRecentlyUsed ≠ some cid := by
  by_cases hmem : cid ∈ lru
  · obtain ⟨xs, ys, rfl⟩ := List.append_of_mem hmem
    rw [h.prev]
    intro hlast
    have hxs := List.mem_of_getLast? hlast
    exact (List.nodup_append.mp h.nodup).2.2 cid hxs cid List.mem_cons_self rfl
  · rw [h.more cid hmem]
    exact Option.some_ne_none cid ∘ Eq.symm

end CacheLruQ.Lists

/-! ## Removing a buffer -/

namespace CacheLruQ
variable {q : CacheLruQ} {lru : List Nat} {cid i : Nat}

theorem skipFromMore_caches : (q.skipFromMore cid).caches i =
    if (q.caches cid).moreRecentlyUsed = some i then
      { q.caches i with lessRecentlyUsed := (q.caches cid).lessRecentlyUsed }
    else q.caches i := by
  unfold skipFromMore
  cases hmore : (q.caches cid).moreRecentlyUsed with
  | none => rfl
  | some more =>
    dsimp only
    rw [modify_caches]
    simp only [Option.some.injEq, eq_comm]

theorem skipFromLess_caches : (q.skipFromLess cid).caches i =
    if (q.caches cid).lessRecentlyUsed = some i then
      { q.caches i with moreRecentlyUsed := (q.caches cid).moreRecentlyUsed }
    else q.caches i := by
  unfold skipFromLess
  cases hless : (q.caches cid).lessRecentlyUsed with
  | none => rfl
  | some less =>
    dsimp only
    rw [modify_caches]
    simp only [Option.some.injEq, eq_comm]

@[simp] theorem changeLru_caches : (q.changeLru cid).caches = q.caches := by
  unfold changeLru
  split
  · split <;> rfl
  · rfl

@[simp] theorem changeMru_caches : (q.changeMru cid).caches = q.caches := by
  unfold changeMru
  split
  · split <;> rfl
  · rfl

@[simp] theorem skipFromMore_lruCid : (q.skipFromMore cid).lruCid = q.lruCid := by
  unfold skipFromMore
  split <;> rfl

@[simp] theorem skipFromMore_mruCid : (q.skipFromMore cid).mruCid = q.mruCid := by
  unfold skipFromMore
  split <;> rfl

@[simp] theorem skipFromMore_dirtyCount : (q.skipFromMore cid).dirtyCount = q.dirtyCount := by
  unfold skipFromMore
  split <;> rfl

@[simp] theorem skipFromLess_lruCid : (q.skipFromLess cid).lruCid = q.lruCid := by
  unfold skipFromLess
  split <;> rfl

@[simp] theorem skipFromLess_mruCid : (q.skipFromLess cid).mruCid = q.mruCid := by
  unfold skipFromLess
  split <;> rfl

@[simp] theorem skipFromLess_dirtyCount : (q.skipFromLess cid).dirtyCount = q.dirtyCount := by
  unfold skipFromLess
  split <;> rfl

@[simp] theorem changeLru_mruCid : (q.changeLru cid).mruCid = q.mruCid := by
  unfold changeLru
  split
  · split <;> rfl
  · rfl

@[simp] theorem changeLru_dirtyCount : (q.changeLru cid).dirtyCount = q.dirtyCount := by
  unfold changeLru
  split
  · split <;> rfl
  · rfl

@[simp] theorem changeMru_lruCid : (q.changeMru cid).lruCid = q.lruCid := by
  unfold changeMru
  split
  · split <;> rfl
  · rfl

@[simp] theorem changeMru_dirtyCount : (q.changeMru cid).dirtyCount = q.dirtyCount := by
  unfold changeMru
  split
  · split <;> rfl
  · rfl

@[simp] theorem removeFromLru_dirtyCount : (q.removeFromLru cid).dirtyCount = q.dirtyCount := by
  unfold removeFromLru
  simp

section DirtyCount
variable {count : Int}

theorem skipFromMore_setDirtyCount : ({ q with dirtyCount := count } : CacheLruQ).skipFromMore cid =
    { q.skipFromMore cid with dirtyCount := count } := by
  unfold skipFromMore
  dsimp only
  split <;> rfl

theorem skipFromLess_setDirtyCount : ({ q with dirtyCount := count } : CacheLruQ).skipFromLess cid =
    { q.skipFromLess cid with dirtyCount := count } := by
  unfold skipFromLess
  dsimp only
  split <;> rfl

theorem changeLru_setDirtyCount : ({ q with dirtyCount := count } : CacheLruQ).changeLru cid =
    { q.changeLru cid with dirtyCount := count } := by
  unfold changeLru
  dsimp only
  split
  · split <;> rfl
  · rfl

theorem changeMru_setDirtyCount : ({ q with dirtyCount := count } : CacheLruQ).changeMru cid =
    { q.changeMru cid with dirtyCount := count } := by
  unfold changeMru
  dsimp only
  split
  · split <;> rfl
  · rfl

/-- A removal neither reads nor changes the number of dirty buffers. -/
theorem removeFromLru_setDirtyCount :
    ({ q with dirtyCount := count } : CacheLruQ).removeFromLru cid =
      { q.removeFromLru cid with dirtyCount := count } := by
  unfold removeFromLru
  rw [skipFromMore_setDirtyCount, skipFromLess_setDirtyCount, changeLru_setDirtyCount,
    changeMru_setDirtyCount]
  rfl

end DirtyCount

/-- A removal changes nothing but links. -/
theorem removeFromLru_unlinked :
    ((q.removeFromLru cid).caches i).unlinked = (q.caches i).unlinked := by
  have hmore : ((q.skipFromMore cid).caches i).unlinked = (q.caches i).unlinked := by
    rw [skipFromMore_caches]
    split <;> rfl
  unfold removeFromLru
  refine (modify_view CacheBuffer.unlinked ?_).trans ?_
  · intro c
    rfl
  · rw [changeMru_caches, changeLru_caches, skipFromLess_caches]
    split
    · exact hmore
    · exact hmore

/-- An insertion changes nothing but links. -/
theorem insertToLru_unlinked :
    ((q.insertToLru cid).caches i).unlinked = (q.caches i).unlinked := by
  unfold insertToLru
  split
  · rfl
  · split
    · rfl
    · simp only [modify_caches]
      split <;> split <;> rfl

@[simp] theorem insertToLru_dirtyCount : (q.insertToLru cid).dirtyCount = q.dirtyCount := by
  unfold insertToLru
  split
  · rfl
  · split <;> rfl

/-- `cache_remove_from_lru` and `cache_insert_to_lru` -/
theorem toMru_unlinked :
    (((q.removeFromLru cid).insertToLru cid).caches i).unlinked = (q.caches i).unlinked :=
  insertToLru_unlinked.trans removeFromLru_unlinked

@[simp] theorem toMru_isDirty :
    (((q.removeFromLru cid).insertToLru cid).caches i).isDirty = (q.caches i).isDirty :=
  CacheBuffer.unlinked_view toMru_unlinked CacheBuffer.isDirty fun _ => rfl

@[simp] theorem toMru_logAddr :
    (((q.removeFromLru cid).insertToLru cid).caches i).logAddr = (q.caches i).logAddr :=
  CacheBuffer.unlinked_view toMru_unlinked CacheBuffer.logAddr fun _ => rfl

theorem setOldAddr_caches_of_ne {oldAddr : LogAddr} (hi : i ≠ cid) :
    (q.setOldAddr cid oldAddr).caches i = q.caches i := by
  unfold setOldAddr
  split
  · rfl
  · exact modify_caches_of_ne hi

theorem markDirty_caches_of_ne {isWrite : Bool} (hi : i ≠ cid) :
    (q.markDirty cid isWrite).caches i = q.caches i := by
  unfold markDirty
  split
  · dsimp only
    exact modify_caches_of_ne hi
  · rfl

/-- Marking a buffer dirty changes nothing else of it. -/
theorem markDirty_caches_self {isWrite : Bool} : (q.markDirty cid isWrite).caches cid =
    { q.caches cid with isDirty := isWrite || (q.caches cid).isDirty } := by
  unfold markDirty
  cases isWrite with
  | false => rfl
  | true =>
    cases hdirty : (q.caches cid).isDirty with
    | false =>
      rw [if_pos ⟨rfl, rfl⟩]
      dsimp only
      rw [modify_caches_self, Bool.true_or]
    | true =>
      rw [if_neg (by simp)]
      rw [Bool.true_or, ← hdirty]

theorem markDirty_mruCid {isWrite : Bool} : (q.markDirty cid isWrite).mruCid = q.mruCid := by
  unfold markDirty
  split <;> rfl

theorem markDirty_lruCid {isWrite : Bool} : (q.markDirty cid isWrite).lruCid = q.lruCid := by
  unfold markDirty
  split <;> rfl

theorem removeFromLru_less : ((q.removeFromLru cid).caches i).lessRecentlyUsed =
    if i = cid then none
    else if (q.caches cid).moreRecentlyUsed = some i then (q.caches cid).lessRecentlyUsed
    else (q.caches i).lessRecentlyUsed := by
  unfold removeFromLru
  rw [modify_caches, changeMru_caches, changeLru_caches]
  by_cases hi : i = cid
  · rw [if_pos hi, if_pos hi]
  · have hskipLess : ∀ k : CacheLruQ,
        ((k.skipFromLess cid).caches i).lessRecentlyUsed = (k.caches i).lessRecentlyUsed := by
      intro k
      rw [skipFromLess_caches]
      split <;> rfl
    rw [if_neg hi, if_neg hi, hskipLess, skipFromMore_caches]
    split <;> rfl

section Neighbours
variable (hmore : (q.caches cid).moreRecentlyUsed ≠ some cid)
include hmore

theorem skipFromMore_caches_self : (q.skipFromMore cid).caches cid = q.caches cid := by
  rw [skipFromMore_caches, if_neg hmore]

theorem removeFromLru_more : ((q.removeFromLru cid).caches i).moreRecentlyUsed =
    if i = cid then none
    else if (q.caches cid).lessRecentlyUsed = some i then (q.caches cid).moreRecentlyUsed
    else (q.caches i).moreRecentlyUsed := by
  unfold removeFromLru
  rw [modify_caches, changeMru_caches, changeLru_caches, skipFromLess_caches,
    skipFromMore_caches_self hmore]
  by_cases hi : i = cid
  · rw [if_pos hi, if_pos hi]
  · have hskipMore : ((q.skipFromMore cid).caches i).moreRecentlyUsed =
        (q.caches i).moreRecentlyUsed := by
      rw [skipFromMore_caches]
      split <;> rfl
    rw [if_neg hi, if_neg hi]
    split
    · rfl
    · exact hskipMore

variable (hless : (q.caches cid).lessRecentlyUsed ≠ some cid)
include hless

theorem skipFromLess_caches_self :
    ((q.skipFromMore cid).skipFromLess cid).caches cid = q.caches cid := by
  rw [skipFromLess_caches, skipFromMore_caches_self hmore, if_neg hless]

theorem removeFromLru_lruCid : (q.removeFromLru cid).lruCid =
    if q.lruCid = some cid then (q.caches cid).lessRecentlyUsed.or (q.caches cid).moreRecentlyUsed
    else q.lruCid := by
  unfold removeFromLru
  rw [modify_lruCid, changeMru_lruCid]
  unfold changeLru
  rw [skipFromLess_caches_self hmore hless, skipFromLess_lruCid, skipFromMore_lruCid]
  split
  · cases (q.caches cid).lessRecentlyUsed <;> rfl
  · rw [skipFromLess_lruCid, skipFromMore_lruCid]

theorem removeFromLru_mruCid : (q.removeFromLru cid).mruCid =
    if q.mruCid = some cid then (q.caches cid).moreRecentlyUsed.or (q.caches cid).lessRecentlyUsed
    else q.mruCid := by
  unfold removeFromLru
  rw [modify_mruCid]
  unfold changeMru
  rw [changeLru_mruCid, changeLru_caches, skipFromLess_caches_self hmore hless,
    skipFromLess_mruCid, skipFromMore_mruCid]
  split
  · cases (q.caches cid).moreRecentlyUsed <;> rfl
  · rw [changeLru_mruCid, skipFromLess_mruCid, skipFromMore_mruCid]

end Neighbours

namespace Lists

/-- What leaves the links and the two ends alone leaves the list. -/
theorem congr {q' : CacheLruQ} (h : q.Lists lru) (hmru : q'.mruCid = q.mruCid)
    (hlru : q'.lruCid = q.lruCid)
    (hless : ∀ i, (q'.caches i).lessRecentlyUsed = (q.caches i).lessRecentlyUsed)
    (hmore : ∀ i, (q'.caches i).moreRecentlyUsed = (q.caches i).moreRecentlyUsed) :
    q'.Lists lru := by
  refine ⟨h.ring.congr ?_ ?_, fun i hi => (hless i).trans (h.less i hi),
    fun i hi => (hmore i).trans (h.more i hi)⟩
  · rintro (_ | i) -
    · exact hmru
    · exact hless i
  · rintro (_ | i) -
    · exact hlru
    · exact hmore i

theorem removeFromLru_mem {xs ys : List Nat} (h : q.Lists (xs ++ cid :: ys)) :
    (q.removeFromLru cid).Lists (xs ++ ys) := by
  have hmore : (q.caches cid).moreRecentlyUsed ≠ some cid := h.prev_ne
  have hless : (q.caches cid).lessRecentlyUsed ≠ some cid := h.next_ne
  have hnotMem : cid ∉ xs ++ ys := (List.nodup_cons.mp (List.nodup_middle.mp h.nodup)).1
  have hring := h.ring_split.unlink
  rw [← List.map_append] at hring
  refine ⟨hring.congr ?_ ?_, fun i hi => ?_, fun i hi => ?_⟩
  · intro x hx
    rcases List.mem_cons.mp hx with rfl | hx
    · rw [fwd_none, removeFromLru_mruCid hmore hless, h.mruCid, bwd_some, fwd_some, h.prev]
      cases xs with
      | nil => simp
      | cons x xs =>
        have hne : x ≠ cid := fun he => hnotMem (he ▸ List.mem_cons_self)
        rw [if_neg (by simpa using hne), List.getLast?_cons,
          Function.update_of_ne (Option.some_ne_none _).symm, fwd_none, h.mruCid]
    · obtain ⟨i, hi, rfl⟩ := List.mem_map.mp hx
      have hne : i ≠ cid := fun he => hnotMem (he ▸ hi)
      rw [fwd_some, removeFromLru_less, if_neg hne, bwd_some, fwd_some]
      by_cases hi : (q.caches cid).moreRecentlyUsed = some i
      · rw [if_pos hi, hi, Function.update_self]
      · rw [if_neg hi, Function.update_of_ne (Ne.symm hi), fwd_some]
  · intro x hx
    rcases List.mem_cons.mp hx with rfl | hx
    · rw [bwd_none, removeFromLru_lruCid hmore hless, h.lruCid, bwd_some, fwd_some, h.next]
      rcases List.eq_nil_or_concat' ys with rfl | ⟨ys, y, rfl⟩
      · simp
      · have hne : y ≠ cid := fun he => hnotMem (he ▸ by simp)
        obtain ⟨z, hz⟩ : ∃ z, (ys ++ [y]).head? = some z := by
          cases ys with
          | nil => exact ⟨y, rfl⟩
          | cons z ys => exact ⟨z, rfl⟩
        have hlast : (xs ++ cid :: (ys ++ [y])).getLast? = some y := by
          rw [← List.cons_append, ← List.append_assoc, List.getLast?_concat]
        rw [hlast, if_neg (by simpa using hne), hz,
          Function.update_of_ne (Option.some_ne_none _).symm, bwd_none, h.lruCid, hlast]
    · obtain ⟨i, hi, rfl⟩ := List.mem_map.mp hx
      have hne : i ≠ cid := fun he => hnotMem (he ▸ hi)
      rw [bwd_some, removeFromLru_more hmore, if_neg hne, bwd_some, fwd_some]
      by_cases hi : (q.caches cid).lessRecentlyUsed = some i
      · rw [if_pos hi, hi, Function.update_self]
      · rw [if_neg hi, Function.update_of_ne (Ne.symm hi), bwd_some]
  · rw [removeFromLru_less]
    by_cases hne : i = cid
    · rw [if_pos hne]
    · have hlast : (q.caches cid).moreRecentlyUsed ≠ some i := by
        rw [h.prev]
        exact fun hlast => hi (List.mem_append_left ys (List.mem_of_getLast? hlast))
      have hlru : i ∉ xs ++ cid :: ys := by
        rw [List.mem_append, List.mem_cons] at *
        tauto
      rw [if_neg hne, if_neg hlast, h.less i hlru]
  · rw [removeFromLru_more hmore]
    by_cases hne : i = cid
    · rw [if_pos hne]
    · have hhead : (q.caches cid).lessRecentlyUsed ≠ some i := by
        rw [h.next]
        exact fun hhead => hi (List.mem_append_right xs (List.mem_of_head? hhead))
      have hlru : i ∉ xs ++ cid :: ys := by
        rw [List.mem_append, List.mem_cons] at *
        tauto
      rw [if_neg hne, if_neg hhead, h.more i hlru]

theorem removeFromLru_notMem (h : q.Lists lru) (hmem : cid ∉ lru) :
    (q.removeFromLru cid).Lists lru := by
  have hmore := h.more cid hmem
  have hless := h.less cid hmem
  have hmru : q.mruCid ≠ some cid := by
    rw [h.mruCid]
    exact fun hhead => hmem (List.mem_of_head? hhead)
  have hlru : q.lruCid ≠ some cid := by
    rw [h.lruCid]
    exact fun hlast => hmem (List.mem_of_getLast? hlast)
  have hmore' : (q.caches cid).moreRecentlyUsed ≠ some cid := h.prev_ne
  have hless' : (q.caches cid).lessRecentlyUsed ≠ some cid := h.next_ne
  have hsameLess : ∀ i, ((q.removeFromLru cid).caches i).lessRecentlyUsed =
      (q.caches i).lessRecentlyUsed := by
    intro i
    rw [removeFromLru_less, hmore, if_neg (Option.some_ne_none i).symm]
    split
    · next hi => rw [hi, hless]
    · rfl
  have hsameMore : ∀ i, ((q.removeFromLru cid).caches i).moreRecentlyUsed =
      (q.caches i).moreRecentlyUsed := by
    intro i
    rw [removeFromLru_more hmore', hless, if_neg (Option.some_ne_none i).symm]
    split
    · next hi => rw [hi, hmore]
    · rfl
  refine h.congr ?_ ?_ hsameLess hsameMore
  · rw [removeFromLru_mruCid hmore' hless', if_neg hmru]
  · rw [removeFromLru_lruCid hmore' hless', if_neg hlru]

theorem removeFromLru (h : q.Lists lru) (cid : Nat) :
    (q.removeFromLru cid).Lists (lru.erase cid) := by
  by_cases hmem : cid ∈ lru
  · obtain ⟨xs, ys, hsplit⟩ := List.append_of_mem hmem
    have hxs : cid ∉ xs := by
      have hnodup := h.nodup
      rw [hsplit] at hnodup
      exact fun hx => (List.nodup_append.mp hnodup).2.2 cid hx cid List.mem_cons_self rfl
    rw [hsplit, List.erase_append_right _ hxs, List.erase_cons_head]
    rw [hsplit] at h
    exact h.removeFromLru_mem
  · rw [List.erase_of_not_mem hmem]
    exact h.removeFromLru_notMem hmem

theorem insertToLru (h : q.Lists lru) (hmem : cid ∉ lru) :
    (q.insertToLru cid).Lists (cid :: lru) := by
  have hring := h.ring.link (a := some cid) (Option.some_ne_none cid) (by simpa using hmem)
  rw [← List.map_cons, fwd_none, h.mruCid] at hring
  unfold CacheLruQ.insertToLru
  rw [h.mruCid]
  cases lru with
  | nil =>
    refine ⟨hring.congr ?_ ?_, fun i hi => h.less i List.not_mem_nil, fun i hi =>
      h.more i List.not_mem_nil⟩
    · intro x hx
      rcases List.mem_cons.mp hx with rfl | hx
      · simp
      · obtain rfl : x = some cid := by simpa using hx
        simp [h.less cid List.not_mem_nil]
    · intro x hx
      rcases List.mem_cons.mp hx with rfl | hx
      · simp
      · obtain rfl : x = some cid := by simpa using hx
        simp [h.more cid List.not_mem_nil]
  | cons old lru =>
    have hold : cid ≠ old := fun he => hmem (he ▸ List.mem_cons_self)
    have hsplit : q.Lists ([] ++ old :: lru) := h
    have hprev : (q.caches old).moreRecentlyUsed = none := hsplit.prev
    have hless : ∀ i, (((q.modify cid fun c => { c with lessRecentlyUsed := some old }).modify old
        fun c => { c with moreRecentlyUsed := some cid }).caches i).lessRecentlyUsed =
          if i = cid then some old else (q.caches i).lessRecentlyUsed := by
      intro i
      simp only [modify_caches]
      split <;> split <;> rfl
    have hmore : ∀ i, (((q.modify cid fun c => { c with lessRecentlyUsed := some old }).modify old
        fun c => { c with moreRecentlyUsed := some cid }).caches i).moreRecentlyUsed =
          if i = old then some cid else (q.caches i).moreRecentlyUsed := by
      intro i
      simp only [modify_caches]
      split <;> split <;> rfl
    dsimp only [List.head?_cons]
    rw [if_neg (not_not.mpr hprev)]
    refine ⟨hring.congr ?_ ?_, fun i hi => ?_, fun i hi => ?_⟩
    · rintro (_ | i) -
      · simp
      · rw [fwd_some, hless]
        by_cases hi : i = cid
        · simp [hi]
        · simp [hi, Function.update_of_ne]
    · rintro (_ | i) -
      · simp
      · rw [bwd_some, hmore]
        by_cases hi : i = old
        · simp [hi, Function.update_of_ne, Ne.symm hold]
        · by_cases hcid : i = cid
          · simp [hcid, hold, h.more cid hmem]
          · simp [hi, hcid, Function.update_of_ne]
    · have hne : i ≠ cid := fun he => hi (he ▸ List.mem_cons_self)
      rw [hless, if_neg hne]
      exact h.less i fun hl => hi (List.mem_cons_of_mem cid hl)
    · have hne : i ≠ old := fun he => hi (he ▸ List.mem_cons_of_mem cid List.mem_cons_self)
      rw [hmore, if_neg hne]
      exact h.more i fun hl => hi (List.mem_cons_of_mem cid hl)

theorem toMru (h : q.Lists lru) (cid : Nat) :
    ((q.removeFromLru cid).insertToLru cid).Lists (cid :: lru.erase cid) :=
  (h.removeFromLru cid).insertToLru h.nodup.not_mem_erase

theorem modify {f : CacheBuffer → CacheBuffer} (h : q.Lists lru)
    (hless : ∀ c, (f c).lessRecentlyUsed = c.lessRecentlyUsed)
    (hmore : ∀ c, (f c).moreRecentlyUsed = c.moreRecentlyUsed) : (q.modify cid f).Lists lru :=
  h.congr rfl rfl (fun _ => modify_view CacheBuffer.lessRecentlyUsed hless)
    fun _ => modify_view CacheBuffer.moreRecentlyUsed hmore

theorem initByCid (h : q.Lists lru) (hmem : cid ∉ lru) : (q.initByCid cid).Lists lru := by
  refine h.congr rfl rfl (fun i => ?_) fun i => ?_
  · unfold CacheLruQ.initByCid
    rw [modify_caches]
    split
    · next hi => rw [hi, h.less cid hmem]; rfl
    · rfl
  · unfold CacheLruQ.initByCid
    rw [modify_caches]
    split
    · next hi => rw [hi, h.more cid hmem]; rfl
    · rfl

/-! ## The loops over the list -/

theorem findRealAddr_suffix {logAddr : LogAddr} {ys : List Nat} :
    ∀ {xs : List Nat} {n : Nat}, q.Lists (xs ++ ys) → ys.length ≤ n →
      q.findRealAddr logAddr n ys.head? =
        some (ys.find? fun cid => (q.caches cid).logAddr == logAddr) := by
  induction ys with
  | nil =>
    intro xs n _ _
    cases n <;> rfl
  | cons cid ys ih =>
    intro xs n h hn
    obtain ⟨n, rfl⟩ : ∃ m, n = m + 1 := Nat.exists_eq_succ_of_ne_zero (by
      rintro rfl
      exact Nat.not_succ_le_zero _ hn)
    have hrest : q.Lists ((xs ++ [cid]) ++ ys) := by
      rwa [List.append_assoc, List.singleton_append]
    rw [List.head?_cons, CacheLruQ.findRealAddr, h.next,
      ih hrest (Nat.le_of_succ_le_succ hn), List.find?_cons]
    by_cases haddr : (q.caches cid).logAddr = logAddr
    · simp [haddr]
    · rw [if_neg haddr, beq_eq_false_iff_ne.mpr haddr]

/-- `cache_get_cid_by_real_addr` finds the first buffer of the list that has the address. -/
theorem findRealAddr (h : q.Lists lru) {n : Nat} (hn : lru.length ≤ n) (logAddr : LogAddr) :
    q.findRealAddr logAddr n q.mruCid =
      some (lru.find? fun cid => (q.caches cid).logAddr == logAddr) := by
  have hsplit : q.Lists ([] ++ lru) := h
  rw [h.mruCid]
  exact findRealAddr_suffix hsplit hn

/-- `cache_get_lru_cid` goes back from a buffer of the list and ends at a leaf, if at any. -/
theorem findLeaf_prefix {exceptCid : Option Nat} {n : Nat} :
    ∀ {xs ys : List Nat} {cid : Nat}, q.Lists (xs ++ cid :: ys) → xs.length < n →
      ∃ leaf, q.findLeaf exceptCid n cid = some leaf ∧
        ∀ i, leaf = some i → i ∈ xs ++ [cid] ∧ (q.caches i).refCount ≤ 0 := by
  induction n with
  | zero => exact fun _ hn => absurd hn (Nat.not_lt_zero _)
  | succ n ih =>
    intro xs ys cid h hn
    rw [CacheLruQ.findLeaf]
    split
    · rw [h.prev]
      rcases List.eq_nil_or_concat' xs with rfl | ⟨xs, x, rfl⟩
      · exact ⟨none, rfl, fun i hi => absurd hi (Option.some_ne_none i).symm⟩
      · rw [List.getLast?_concat]
        rw [List.append_assoc] at h
        have hlt : xs.length < n := by
          rw [List.length_append, List.length_singleton] at hn
          exact Nat.lt_of_succ_lt_succ hn
        obtain ⟨leaf, hleaf, hspec⟩ := ih h hlt
        exact ⟨leaf, hleaf, fun i hi =>
          ⟨List.mem_append_left _ (hspec i hi).1, (hspec i hi).2⟩⟩
    · next hleaf =>
      refine ⟨some cid, rfl, fun i hi => ?_⟩
      obtain rfl := Option.some.inj hi
      exact ⟨by simp, not_lt.mp fun href => hleaf (.inl href)⟩

theorem findLeaf (h : q.Lists lru) {n : Nat} (hn : lru.length ≤ n) (exceptCid : Option Nat)
    (hlru : q.lruCid = some cid) :
    ∃ leaf, q.findLeaf exceptCid n cid = some leaf ∧
      ∀ i, leaf = some i → i ∈ lru ∧ (q.caches i).refCount ≤ 0 := by
  rw [h.lruCid] at hlru
  obtain ⟨xs, rfl⟩ := List.getLast?_eq_some_iff.mp hlru
  rw [List.length_append, List.length_singleton] at hn
  exact h.findLeaf_prefix (Nat.lt_of_succ_le hn)

end Lists

/-- The buffers of the list have `cid` as a parent no more. -/
def forgetParent (q : CacheLruQ) (cid : Nat) (lru : List Nat) : CacheLruQ :=
  { q with caches := fun i =>
      if i ∈ lru ∧ (q.caches i).parentCid = some cid then { q.caches i with parentCid := none }
      else q.caches i }

namespace Lists

theorem omitParent_suffix {ys : List Nat} :
    ∀ {q : CacheLruQ} {xs : List Nat} {n : Nat}, q.Lists (xs ++ ys) → ys.length ≤ n →
      CacheLruQ.omitParent cid n ys.head? q = some (q.forgetParent cid ys) := by
  induction ys with
  | nil =>
    intro q xs n _ _
    have hsame : q.forgetParent cid [] = q := by
      unfold forgetParent
      simp
    rw [hsame]
    cases n <;> rfl
  | cons i ys ih =>
    intro q xs n h hn
    obtain ⟨n, rfl⟩ : ∃ m, n = m + 1 := Nat.exists_eq_succ_of_ne_zero (by
      rintro rfl
      exact Nat.not_succ_le_zero _ hn)
    rw [List.head?_cons, CacheLruQ.omitParent]
    have hrest : ∀ {k : CacheLruQ}, k.Lists (xs ++ i :: ys) → k.Lists ((xs ++ [i]) ++ ys) := by
      intro k hk
      rwa [List.append_assoc, List.singleton_append]
    by_cases hparent : (q.caches i).parentCid = some cid
    · have hq : (q.modify i fun c => { c with parentCid := none }).Lists (xs ++ i :: ys) :=
        h.modify (fun _ => rfl) fun _ => rfl
      rw [if_pos hparent, hq.next, ih (hrest hq) (Nat.le_of_succ_le_succ hn)]
      refine congrArg some ?_
      unfold forgetParent
      dsimp only [modify_lruCid, modify_mruCid, modify_dirtyCount]
      congr 1
      funext j
      by_cases hj : j = i
      · rw [hj, modify_caches_self]
        simp [hparent]
      · rw [modify_caches_of_ne hj]
        simp [hj]
    · rw [if_neg hparent, h.next, ih (hrest h) (Nat.le_of_succ_le_succ hn)]
      refine congrArg some ?_
      unfold forgetParent
      congr 1
      funext j
      by_cases hj : j = i
      · rw [hj]
        simp [hparent]
      · simp [hj]

theorem omitParent (h : q.Lists lru) {n : Nat} (hn : lru.length ≤ n) (cid : Nat) :
    CacheLruQ.omitParent cid n q.mruCid q = some (q.forgetParent cid lru) := by
  have hsplit : q.Lists ([] ++ lru) := h
  rw [h.mruCid]
  exact omitParent_suffix hsplit hn

end Lists

end CacheLruQ

/-! ## Occupied buffers -/

/-- What the list depends on: the links, and whether a buffer is free. -/
def CacheBuffer.listing (c : CacheBuffer) : Option Nat × Option Nat × Bool × LogAddr :=
  (c.lessRecentlyUsed, c.moreRecentlyUsed, c.isDirty, c.logAddr)

namespace CacheLruQ
variable {q q' q'' : CacheLruQ} {n : Nat} {lru : List Nat} {cid i : Nat}

/-- From `q` to `q'` neither the list changes nor which buffers are free. -/
structure Keeps (q q' : CacheLruQ) : Prop where
  mruCid : q'.mruCid = q.mruCid
  lruCid : q'.lruCid = q.lruCid
  dirtyCount : q'.dirtyCount = q.dirtyCount
  listing : ∀ i, (q'.caches i).listing = (q.caches i).listing

namespace Keeps

theorem refl (q : CacheLruQ) : Keeps q q := ⟨rfl, rfl, rfl, fun _ => rfl⟩

theorem trans (h : Keeps q q') (h' : Keeps q' q'') : Keeps q q'' :=
  ⟨h'.mruCid.trans h.mruCid, h'.lruCid.trans h.lruCid, h'.dirtyCount.trans h.dirtyCount,
    fun i => (h'.listing i).trans (h.listing i)⟩

theorem modify {f : CacheBuffer → CacheBuffer} (hf : ∀ c, (f c).listing = c.listing) :
    Keeps q (q.modify cid f) :=
  ⟨rfl, rfl, rfl, fun _ => modify_view CacheBuffer.listing hf⟩

theorem isDirty (h : Keeps q q') (i : Nat) : (q'.caches i).isDirty = (q.caches i).isDirty :=
  congrArg (fun p => p.2.2.1) (h.listing i)

theorem logAddr (h : Keeps q q') (i : Nat) : (q'.caches i).logAddr = (q.caches i).logAddr :=
  congrArg (fun p => p.2.2.2) (h.listing i)

theorem isFree (h : Keeps q q') (i : Nat) : (q'.caches i).isFree = (q.caches i).isFree :=
  CacheBuffer.isFree_congr (h.isDirty i) (h.logAddr i)

theorem lists (h : Keeps q q') (hq : q.Lists lru) : q'.Lists lru :=
  hq.congr h.mruCid h.lruCid (fun i => congrArg (fun p => p.1) (h.listing i))
    fun i => congrArg (fun p => p.2.1) (h.listing i)

end Keeps

theorem keeps_setParentFields (q : CacheLruQ) (cid : Nat) (a : LogAddr) :
    Keeps q (setParentFields cid q a) := by
  unfold setParentFields
  split
  · refine Keeps.trans (Keeps.modify ?_) (Keeps.modify ?_)
    · exact fun _ => rfl
    · exact fun _ => rfl
  · exact Keeps.refl q

theorem keeps_foldl_setParentFields (cid : Nat) (addrs : List LogAddr) (q : CacheLruQ) :
    Keeps q (addrs.foldl (setParentFields cid) q) := by
  induction addrs generalizing q with
  | nil => exact Keeps.refl q
  | cons a addrs ih => exact (keeps_setParentFields q cid a).trans (ih _)

theorem keeps_setWriteBuffer (q : CacheLruQ) (cid : Nat) (buf : Block) (dataType : DataType) :
    Keeps q (q.setWriteBuffer cid buf dataType) := by
  have hfold : Keeps q ((nestedAddrs dataType buf).foldl (setParentFields cid)
      (q.modify cid fun c => { c with buf, refCount := 0 })) := by
    refine Keeps.trans (Keeps.modify ?_) (keeps_foldl_setParentFields cid _ _)
    exact fun _ => rfl
  unfold setWriteBuffer
  dsimp only
  split
  · exact hfold.trans (Keeps.modify fun _ => rfl)
  · exact hfold

theorem keeps_forgetParent (q : CacheLruQ) (cid : Nat) (lru : List Nat) :
    Keeps q (q.forgetParent cid lru) := by
  refine ⟨rfl, rfl, rfl, fun i => ?_⟩
  unfold forgetParent
  dsimp only
  split <;> rfl

/-- The buffer is taken out of the list and initialised, and is not counted as dirty any more. -/
def recycle (q : CacheLruQ) (cid : Nat) : CacheLruQ :=
  let q := if (q.caches cid).isDirty then { q with dirtyCount := q.dirtyCount - 1 } else q
  (q.removeFromLru cid).initByCid cid

theorem recycle_caches_self : (q.recycle cid).caches cid = initCacheBuffer := by
  unfold recycle initByCid
  exact modify_caches_self

theorem recycle_unlinked (hi : i ≠ cid) :
    ((q.recycle cid).caches i).unlinked = (q.caches i).unlinked := by
  unfold recycle initByCid
  rw [modify_caches_of_ne hi]
  refine removeFromLru_unlinked.trans ?_
  split <;> rfl

theorem recycle_view {τ : Type} (view : CacheBuffer → τ) (hview : ∀ c, view c.unlinked = view c)
    (hi : i ≠ cid) : view ((q.recycle cid).caches i) = view (q.caches i) :=
  CacheBuffer.unlinked_view (recycle_unlinked hi) view hview

theorem recycle_of_clean (hclean : (q.caches cid).isDirty = false) :
    q.recycle cid = (q.removeFromLru cid).initByCid cid := by
  unfold recycle
  rw [hclean]
  rfl

/-- `cache_force_free_cache` counts the buffer after it has taken it out of the list. -/
theorem recycle_of_removed (removed : CacheLruQ) (hremoved : removed = q.removeFromLru cid) :
    (if (removed.caches cid).isDirty = true then
      { removed with dirtyCount := removed.dirtyCount - 1 } else removed : CacheLruQ).initByCid cid =
      q.recycle cid := by
  subst hremoved
  unfold recycle
  dsimp only
  rw [CacheBuffer.unlinked_view removeFromLru_unlinked CacheBuffer.isDirty fun _ => rfl,
    removeFromLru_dirtyCount]
  split
  · exact congrArg (fun k : CacheLruQ => k.initByCid cid) removeFromLru_setDirtyCount.symm
  · rfl

/-- The turn of `cache_init_tid_related` recycles a buffer of the transaction. -/
theorem initTid_eq {tid : Int} :
    initTid tid q cid = if (q.caches cid).tid = tid then q.recycle cid else q := rfl

theorem recycle_dirtyCount : (q.recycle cid).dirtyCount =
    if (q.caches cid).isDirty = true then q.dirtyCount - 1 else q.dirtyCount := by
  unfold recycle initByCid
  rw [modify_dirtyCount, removeFromLru_dirtyCount]
  split <;> rfl

/-- The list holds the buffers that are not free, and no two of them hold a block of one address. -/
structure Listed (q : CacheLruQ) (n : Nat) (lru : List Nat) : Prop where
  lists : q.Lists lru
  mem_iff : ∀ cid, cid ∈ lru ↔ cid < n ∧ (q.caches cid).isFree = false
  addr_inj : ∀ i < n, ∀ j < n, (q.caches i).logAddr = (q.caches j).logAddr →
    (q.caches i).logAddr ≠ LogAddr.empty → i = j

namespace Listed

theorem init (n : Nat) : (initLruQ : CacheLruQ).Listed n [] where
  lists := .init
  mem_iff cid := ⟨fun h => absurd h List.not_mem_nil, fun h =>
    absurd (isFree_initCacheBuffer.symm.trans h.2) (by decide)⟩
  addr_inj i _ j _ _ hne := absurd rfl hne

theorem keeps (h : q.Listed n lru) (hq : Keeps q q') : q'.Listed n lru where
  lists := hq.lists h.lists
  mem_iff i := by rw [h.mem_iff, hq.isFree]
  addr_inj i hi j hj := by
    rw [hq.logAddr, hq.logAddr]
    exact h.addr_inj i hi j hj

theorem lt (h : q.Listed n lru) (hmem : cid ∈ lru) : cid < n := ((h.mem_iff cid).mp hmem).1

theorem length_le (h : q.Listed n lru) : lru.length ≤ n := by
  have hsub : lru ⊆ List.range n := fun i hi => List.mem_range.mpr (h.lt hi)
  have := (List.subperm_of_subset h.lists.nodup hsub).length_le
  rwa [List.length_range] at this

theorem recycle (h : q.Listed n lru) (cid : Nat) : (q.recycle cid).Listed n (lru.erase cid) := by
  have haddr : ∀ i, i ≠ cid → ((q.recycle cid).caches i).logAddr = (q.caches i).logAddr :=
    fun i hi => recycle_view CacheBuffer.logAddr (fun _ => rfl) hi
  have hlists : (q.recycle cid).Lists (lru.erase cid) := by
    have hcount : (if (q.caches cid).isDirty then { q with dirtyCount := q.dirtyCount - 1 }
        else q : CacheLruQ).Lists lru := by
      split
      · exact h.lists.congr rfl rfl (fun _ => rfl) fun _ => rfl
      · exact h.lists
    exact (hcount.removeFromLru cid).initByCid h.lists.nodup.not_mem_erase
  refine ⟨hlists, fun i => ?_, ?_⟩
  · by_cases hi : i = cid
    · rw [hi, recycle_caches_self, isFree_initCacheBuffer]
      exact ⟨fun hmem => absurd hmem h.lists.nodup.not_mem_erase, fun hfree => by simp at hfree⟩
    · rw [List.mem_erase_of_ne hi, h.mem_iff, recycle_view CacheBuffer.isFree (fun _ => rfl) hi]
  · intro i hi j hj hsame hne
    by_cases hic : i = cid
    · rw [hic, recycle_caches_self] at hne
      exact absurd rfl hne
    · by_cases hjc : j = cid
      · rw [hjc, recycle_caches_self] at hsame
        exact absurd hsame hne
      · rw [haddr i hic, haddr j hjc] at hsame
        rw [haddr i hic] at hne
        exact h.addr_inj i hi j hj hsame hne

/-- A buffer is put first, with the block of an address that no other buffer has. -/
theorem put (h : q.Listed n lru) (hcid : cid < n) (hlists : q'.Lists (cid :: lru.erase cid))
    (hother : ∀ i, i ≠ cid → (q'.caches i).isDirty = (q.caches i).isDirty ∧
      (q'.caches i).logAddr = (q.caches i).logAddr)
    (hfree : (q'.caches cid).isFree = false)
    (haddr : (q'.caches cid).logAddr ≠ LogAddr.empty → ∀ i < n, i ≠ cid →
      (q.caches i).logAddr ≠ (q'.caches cid).logAddr) : q'.Listed n (cid :: lru.erase cid) := by
  refine ⟨hlists, fun i => ?_, ?_⟩
  · by_cases hi : i = cid
    · rw [hi]
      exact ⟨fun _ => ⟨hcid, hfree⟩, fun _ => List.mem_cons_self⟩
    · rw [List.mem_cons, or_iff_right hi, List.mem_erase_of_ne hi, h.mem_iff,
        CacheBuffer.isFree_congr (hother i hi).1 (hother i hi).2]
  · intro i hi j hj hsame hne
    by_cases hic : i = cid
    · rw [hic] at hsame hne ⊢
      by_contra hjc
      exact haddr hne j hj (Ne.symm hjc) (((hother j (Ne.symm hjc)).2.symm).trans hsame.symm)
    · by_cases hjc : j = cid
      · rw [hjc] at hsame
        rw [hsame] at hne
        exact absurd (((hother i hic).2.symm).trans hsame) (haddr hne i hi hic)
      · rw [(hother i hic).2, (hother j hjc).2] at hsame
        rw [(hother i hic).2] at hne
        exact h.addr_inj i hi j hj hsame hne

theorem accessDirty (h : q.Listed n lru) (hcid : cid < n) (hdirty : (q.caches cid).isDirty = true)
    (buf : Block) (tid : Int) (dataType : DataType) (isWrite : Bool) :
    (q.accessDirty cid buf tid dataType isWrite).Listed n (cid :: lru.erase cid) := by
  have hfront : ((q.removeFromLru cid).insertToLru cid).Listed n (cid :: lru.erase cid) := by
    refine h.put hcid (h.lists.toMru cid) (fun i _ => ⟨toMru_isDirty, toMru_logAddr⟩) ?_ ?_
    · unfold CacheBuffer.isFree
      rw [toMru_isDirty, hdirty]
      rfl
    · rw [toMru_logAddr]
      intro hne i hi hic hsame
      exact hic (h.addr_inj i hi cid hcid hsame (hsame ▸ hne))
  have hkeeps : Keeps ((q.removeFromLru cid).insertToLru cid)
      (((q.removeFromLru cid).insertToLru cid).modify cid fun c => { c with tid }) :=
    .modify fun _ => rfl
  unfold CacheLruQ.accessDirty
  dsimp only
  split
  · exact hfront.keeps (hkeeps.trans (keeps_setWriteBuffer _ _ _ _))
  · exact hfront.keeps hkeeps

theorem accessClean (h : q.Listed n lru) (hcid : cid < n) (buf : Block) {oldAddr : LogAddr}
    (parentOffset : Option Nat) (tid : Int) (dataType : DataType) {isWrite : Bool}
    (hfree : isWrite = true ∨ ((q.setOldAddr cid oldAddr).caches cid).isFree = false)
    (haddr : ((q.setOldAddr cid oldAddr).caches cid).logAddr ≠ LogAddr.empty → ∀ i < n, i ≠ cid →
      (q.caches i).logAddr ≠ ((q.setOldAddr cid oldAddr).caches cid).logAddr) :
    (q.accessClean cid buf oldAddr parentOffset tid dataType isWrite).Listed n
      (cid :: lru.erase cid) := by
  have hold : (q.setOldAddr cid oldAddr).Lists lru := by
    unfold setOldAddr
    split
    · exact h.lists
    · exact h.lists.modify (fun _ => rfl) fun _ => rfl
  have hother : ∀ i, i ≠ cid → (q.setOldAddr cid oldAddr).caches i = q.caches i :=
    fun _ => setOldAddr_caches_of_ne
  unfold CacheLruQ.accessClean
  generalize q.setOldAddr cid oldAddr = q₁ at *
  have hdirty : (((q₁.removeFromLru cid).insertToLru cid).markDirty cid isWrite).Listed n
      (cid :: lru.erase cid) := by
    refine h.put hcid ((hold.toMru cid).congr markDirty_mruCid markDirty_lruCid (fun i => ?_)
      fun i => ?_) (fun i hi => ?_) ?_ ?_
    · by_cases hi : i = cid
      · rw [hi, markDirty_caches_self]
      · rw [markDirty_caches_of_ne hi]
    · by_cases hi : i = cid
      · rw [hi, markDirty_caches_self]
      · rw [markDirty_caches_of_ne hi]
    · rw [markDirty_caches_of_ne hi, toMru_isDirty, toMru_logAddr, hother i hi]
      exact ⟨rfl, rfl⟩
    · rw [markDirty_caches_self]
      unfold CacheBuffer.isFree at hfree ⊢
      dsimp only
      rw [toMru_isDirty, toMru_logAddr]
      rcases hfree with rfl | hfree
      · rfl
      · cases isWrite with
        | true => rfl
        | false => exact hfree
    · rw [markDirty_caches_self]
      dsimp only
      rw [toMru_logAddr]
      exact haddr
  have htid : Keeps (((q₁.removeFromLru cid).insertToLru cid).markDirty cid isWrite)
      ((((q₁.removeFromLru cid).insertToLru cid).markDirty cid isWrite).modify cid fun c =>
        { c with tid }) := .modify fun _ => rfl
  dsimp only
  split
  · exact hdirty.keeps ((htid.trans (keeps_setWriteBuffer _ _ _ _)).trans (.modify fun _ => rfl))
  · exact hdirty.keeps (htid.trans (.modify fun _ => rfl))

end Listed

end CacheLruQ

end Lists

end NandFs
