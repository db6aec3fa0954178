import NandFs.LogSegments
import NandFs.CounterLevels

/-! # What a change of the log keeps

A step that writes, copies or reclaims pages leaves what each live page holds as it was, with
its spare area.  It marks no page, so each page that is marked after it was marked before, and
the level that counts it is the same.
-/
namespace NandFs

open Program

variable [Config]

/-- Pages of a segment header: the header and the checkpoint in it. -/
def headerPages (nBytes : Nat) : Nat := 1 + calculateInPages (seqCheckpointSize + nBytes)

/-- A page of data that is not obsolete. -/
structure Stored.Valid (st : Stored) (b : Block) : Prop where
  main : st.main = b
  obsolete : st.obsolete = false
  checkpoint : st.checkpoint = .notPart

/-- The pages `live` of the first `n` segments are in view, as data that is not obsolete. -/
def InView (nBytes n : Nat) (view : LogAddr → Option Stored) (live : LogAddr → Option Block) :
    Prop :=
  ∀ a b, live a = some b → a.segment < n ∧ headerPages nBytes ≤ a.offset ∧
    a.offset < pagesPerSlot ∧ ∃ st, view a = some st ∧ st.Valid b

/-- The pages that were written and not marked since: each is found under its logical address. -/
abbrev Live (nBytes : Nat) (m : SegMap) (c : Contents) (live : LogAddr → Option Block) : Prop :=
  InView nBytes m.nSegments (m.stored c) live

theorem InView.congr {nBytes n n' : Nat} {view view' : LogAddr → Option Stored}
    {live : LogAddr → Option Block} (h : InView nBytes n view live) (hn : n ≤ n')
    (hview : ∀ a, a.segment < n → headerPages nBytes ≤ a.offset → a.offset < pagesPerSlot →
      view' a = view a) : InView nBytes n' view' live := by
  intro a b hab
  obtain ⟨hlt, hge, ho, st, hpage, hvalid⟩ := h a b hab
  exact ⟨by omega, hge, ho, st, by rw [hview a hlt hge ho, hpage], hvalid⟩

/-- The page at `a` is marked as obsolete; in the current segment only those before the head
are looked at. -/
structure MarkedAt (m : SegMap) (c : Contents) (a : LogAddr) : Prop where
  lt : a.segment < m.nSegments
  offset : a.offset < pagesPerSlot
  behind : a.segment = m.reclaimed.segment → a.offset < m.headOffset
  marked : ∃ st, m.stored c a = some st ∧ st.obsolete = true

/-- The current segment has no page that is marked. -/
def Unmarked (m : SegMap) (c : Contents) : Prop :=
  ∀ a, MarkedAt m c a → a.segment ≠ m.reclaimed.segment

/-- From `s` to `t` the live pages were kept, and no page was marked. -/
structure LogKept (live : LogAddr → Option Block) (s : World) (c : Contents) (t : World)
    (c' : Contents) : Prop where
  pages : ∀ a b, live a = some b → t.segMap.stored c' a = s.segMap.stored c a
  marked : ∀ a, MarkedAt t.segMap c' a → MarkedAt s.segMap c a ∧
    getCounterLevel t.obsCountersMap a.segment = getCounterLevel s.obsCountersMap a.segment
  legal : s.obsCountersMap.Legal → t.obsCountersMap.Legal

namespace LogKept
variable {nBytes : Nat} {live live' : LogAddr → Option Block} {s t u : World} {c c' c'' : Contents}

theorem refl (s : World) (c : Contents) : LogKept live s c s c :=
  ⟨fun _ _ _ => rfl, fun _ ha => ⟨ha, rfl⟩, id⟩

theorem trans (h : LogKept live s c t c') (h' : LogKept live t c' u c'') : LogKept live s c u c'' where
  pages a b hab := (h'.pages a b hab).trans (h.pages a b hab)
  marked a ha := by
    obtain ⟨hmarked, hlevel⟩ := h'.marked a ha
    obtain ⟨hmarked', hlevel'⟩ := h.marked a hmarked
    exact ⟨hmarked', hlevel.trans hlevel'⟩
  legal hl := h'.legal (h.legal hl)

theorem mono (h : LogKept live' s c t c') (hsub : ∀ a b, live a = some b → live' a = some b) :
    LogKept live s c t c' :=
  ⟨fun a b hab => h.pages a b (hsub a b hab), h.marked, h.legal⟩

/-- The map and the counters may hold what is not looked at here. -/
theorem of_eq (hm : t.segMap.mapping = s.segMap.mapping)
    (hr : t.segMap.reclaimed = s.segMap.reclaimed)
    (hl : t.obsCountersMap.counters = s.obsCountersMap.counters) : LogKept live s c t c := by
  have hstored : ∀ a, t.segMap.stored c a = s.segMap.stored c a := by
    intro a
    have h1 : t.segMap.segToSlot = s.segMap.segToSlot := congrArg Mapping.segToSlot hm
    have h2 : t.segMap.newSlotId = s.segMap.newSlotId := congrArg Mapping.newSlotId hm
    unfold SegMap.stored
    rw [isStateReclamation_congr hm, hr, h1, h2]
  refine ⟨fun a _ _ => hstored a, fun a ha => ⟨⟨?_, ha.offset, fun hs => ?_, ?_⟩, ?_⟩, fun h => ?_⟩
  · rw [← show t.segMap.nSegments = s.segMap.nSegments from congrArg Mapping.nSegments hm]
    exact ha.lt
  · have hb := ha.behind (by rw [hr]; exact hs)
    unfold SegMap.headOffset at hb ⊢
    rwa [hr] at hb
  · rw [← hstored]
    exact ha.marked
  · rw [getCounterLevel_eq, hl, ← getCounterLevel_eq]
  · intro segId hseg
    rw [getCounterLevel_eq, hl, ← getCounterLevel_eq]
    exact h segId hseg

/-- A page that is not marked is written at the head: the same one again, if the page at the head
is live. -/
theorem write {st : Stored} (hseg : Segments s.segMap c) (hlive : Live nBytes s.segMap c live)
    (ho : s.segMap.headOffset < pagesPerSlot) (hobs : st.obsolete = false)
    (hst : ∀ b, live s.segMap.reclaimed = some b →
      s.segMap.stored c s.segMap.reclaimed = some st)
    (hm : t.segMap = s.segMap.incrementReclaimedOffset)
    (hl : t.obsCountersMap.counters = s.obsCountersMap.counters) :
    LogKept live s c t (c.set s.segMap.newSlotId s.segMap.headOffset st) := by
  have hinc := incrementReclaimedOffset_eq ho
  refine ⟨fun a b hab => ?_, fun a ha => ?_, fun h segId hs => ?_⟩
  · rw [hm, hseg.stored_write ho (hlive a b hab).1]
    by_cases ha : a = s.segMap.reclaimed
    · rw [if_pos ha, ha, hst b (ha ▸ hab)]
    · rw [if_neg ha]
  · obtain ⟨hlt, hoff, hbehind, st', hst', hmarked⟩ := ha
    rw [hm] at hst' hlt hbehind
    rw [hinc] at hlt hbehind
    have hlt : a.segment < s.segMap.nSegments := hlt
    rw [hseg.stored_write ho hlt] at hst'
    have hne : a ≠ s.segMap.reclaimed := by
      intro ha
      rw [if_pos ha] at hst'
      cases hst'
      rw [hobs] at hmarked
      exact Bool.false_ne_true hmarked
    rw [if_neg hne] at hst'
    refine ⟨⟨hlt, hoff, fun hs => ?_, st', hst', hmarked⟩, ?_⟩
    · have hb : a.offset < s.segMap.headOffset + 1 := hbehind hs
      have hoff : a.offset ≠ s.segMap.headOffset := fun he => hne (by
        cases a
        exact congrArg₂ LogAddr.mk hs he)
      omega
    · rw [getCounterLevel_eq, hl, ← getCounterLevel_eq]
  · rw [getCounterLevel_eq, hl, ← getCounterLevel_eq]
    exact h segId hs

/-- The log goes on at the start of another segment. -/
theorem move (hlive : Live nBytes s.segMap c live) (hend : s.segMap.headOffset = pagesPerSlot)
    (hstart : t.segMap.headOffset = 0)
    (hn : ∀ seg < t.segMap.nSegments, seg ≠ t.segMap.reclaimed.segment →
      seg < s.segMap.nSegments)
    (hstored : ∀ a : LogAddr, a.segment < s.segMap.nSegments → a.offset < pagesPerSlot →
      t.segMap.stored c' a = s.segMap.stored c a)
    (hl : t.obsCountersMap.counters = s.obsCountersMap.counters) : LogKept live s c t c' := by
  refine ⟨fun a b hab => ?_, fun a ha => ?_, fun h segId hs => ?_⟩
  · obtain ⟨hlt, -, hoff, -⟩ := hlive a b hab
    exact hstored a hlt hoff
  · have hlt := hn a.segment ha.lt fun hs => by
      have := ha.behind hs
      omega
    refine ⟨⟨hlt, ha.offset, fun _ => hend ▸ ha.offset, ?_⟩, ?_⟩
    · rw [← hstored a hlt ha.offset]
      exact ha.marked
    · rw [getCounterLevel_eq, hl, ← getCounterLevel_eq]
  · rw [getCounterLevel_eq, hl, ← getCounterLevel_eq]
    exact h segId hs

/-- The level of a segment without a marked page is set. -/
theorem setLevel {level : UInt8} {seg : Nat} (hle : level ≤ obsCountFull)
    (hset : LevelSet seg level s t) (hm : t.segMap = s.segMap)
    (hnone : ∀ a, MarkedAt s.segMap c a → a.segment ≠ seg) : LogKept live s c t c := by
  refine ⟨fun a _ _ => by rw [hm], fun a ha => ?_, fun h segId hs => ?_⟩
  · rw [hm] at ha
    refine ⟨ha, ?_⟩
    rw [hset, if_neg (hnone a ha)]
  · rw [hset]
    by_cases he : segId = seg
    · rwa [if_pos he]
    · rw [if_neg he]
      exact h segId hs

/-- Where the current segment is the same, it has no marked page afterwards either. -/
theorem unmarked (h : LogKept live s c t c') (hu : Unmarked s.segMap c)
    (hs : t.segMap.reclaimed.segment = s.segMap.reclaimed.segment) : Unmarked t.segMap c' := by
  intro a ha
  rw [hs]
  exact hu a (h.marked a ha).1

end LogKept

end NandFs
