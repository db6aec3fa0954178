import NandFs.EuLookup
import NandFs.SegMapPhase

/-! # Formatting

Booting an erased chip, with any erase units bad: the reserve segments get the slots of
their own numbers and the first segment slot 0, so that the segment map is in its growing
phase.  The scans of the chip leave the map alone, since no page holds data, none is a
copy-back, and none stands for another erase unit (`Page.IsFresh`).
-/
namespace NandFs

open Program

variable [Config]

/-- A chip that was erased, before it is formatted. -/
def erasedWorld (badEu : Nat → Bool) : World where
  flash := {
    page := fun _ => initBuf
    mainAreaWrites := fun _ => false
    spareWrites := fun _ => false
    badEu := badEu
    power := none }
  segMap := initSegMap
  obsCountersMap := ⟨fun _ => 0, 0, 0, fun _ => 0⟩
  lfsrState := 1
  afterLfsr := fun _ => 0

/-- As `erasedWorld`, with the random generator as it is initialized. -/
def seededWorld (badEu : Nat → Bool) : World :=
  { erasedWorld badEu with lfsrState := 0x63478395 }

/-- Holds no data of the log, is no copy-back and stands for no erase unit. -/
def Page.IsFresh (page : Page) : Prop :=
  page.flags.segType ≠ .used ∧ page.flags.copyBack = false ∧ 2 ^ 23 ≤ page.flags.slotEuOffset

theorem isFresh_initBuf : initBuf.IsFresh := by
  simp [Page.IsFresh, initBuf, initFlags, noSlotAndEuOffset]

/-- The segments of `owned` have the slots of their own numbers, all others none. -/
def SegMap.Owns (m : SegMap) (owned : Nat → Prop) : Prop :=
  ∀ seg, owned seg ∧ m.segToSlot seg = seg ∨ ¬owned seg ∧ m.segToSlot seg = noSlot

/-- A chip that is being formatted. -/
def Formatting (owned : Nat → Prop) (w : World) : Prop :=
  AllPages Page.IsFresh w ∧ w.segMap.Owns owned

theorem Formatting.keeps {α : Type} {owned : Nat → Prop} {m : SeqM α}
    (hpages : Preserves (AllPages Page.IsFresh) m) (hmap : Frame World.segMap m) :
    Preserves (Formatting owned) m :=
  preserves_and hpages (hmap.preserves fun m => m.Owns owned)

theorem Formatting.keeps_of_frame {α : Type} {owned : Nat → Prop} {m : SeqM α}
    (h : ∀ {τ : Type} {view : World → τ}, Frame view m) : Preserves (Formatting owned) m :=
  Formatting.keeps (Frame.allPages h) h

theorem Formatting.keeps_nandErase {owned : Nat → Prop} (a : Nat) :
    Preserves (Formatting owned) (nandErase a) :=
  Formatting.keeps (preserves_nandErase isFresh_initBuf a) (frame_nandErase a)

/-- A property of the chip that erases and the headers of the reserve segments keep.  A header is
written to the first valid erase unit of its slot. -/
structure FormatInvariant (K : Flash → Prop) : Prop where
  erase : ∀ f eu, K f → K (f.erase eu)
  power : ∀ f power, K f → K { f with power := power }
  header : ∀ f page a total, calcOffsetInEu a = 0 → getSlot a ∈ reserveSegments →
    f.validEuAt (getSlot a) 1 = a → page.flags.slotEuOffset = reserveEuIsHeader →
      K f → K (f.program page a total)

/-- The chip has `K`, and the page to be written is not in a reserve erase unit. -/
def Kept (K : Flash → Prop) (w : World) : Prop :=
  K w.flash ∧ w.segMap.isEuReserve = false ∧ w.segMap.reserveEuAddr = phyAddressEmpty

/-- A chip that is being formatted, with a property that formatting keeps. -/
def FormattingWith (K : Flash → Prop) (owned : Nat → Prop) (w : World) : Prop :=
  Kept K w ∧ Formatting owned w

/-- The driver asserts on an erase unit beyond the chip. -/
theorem nandCheckEuStatus_far {a : Nat} (ha : pageCount ≤ a) (s : World) :
    ∃ e, nandCheckEuStatus a s = .error e s := by
  have hstart : ¬calcEuStart a < pageCount := by
    have hle : 2 ^ Config.euBits ≤ a / pagesPerEu := by
      rw [Nat.le_div_iff_mul_le pagesPerEu_pos, ← pageCount_eq_mul]
      exact ha
    have hmul : calcEuStart a = a / pagesPerEu * pagesPerEu := by
      have := Nat.div_add_mod' a pagesPerEu
      unfold calcEuStart
      omega
    rw [hmul, pageCount_eq_mul, Nat.not_lt]
    exact Nat.mul_le_mul_right _ hle
  have hassert : assert (decide (calcEuStart a < pageCount)) s = .error .abort s := by
    rw [decide_eq_false hstart]
    rfl
  unfold nandCheckEuStatus getFp
  by_cases hfile : a < simulatedPages
  · rw [bind_ok (show assert (decide (a < simulatedPages)) s = .ok () s by
      rw [decide_eq_true hfile]; rfl), bind_error hassert]
    exact ⟨.abort, rfl⟩
  · rw [bind_error (show assert (decide (a < simulatedPages)) s = .error .abort s by
      rw [decide_eq_false hfile]; rfl)]
    exact ⟨.abort, rfl⟩

section Invariant
variable {K : Flash → Prop} (hK : FormatInvariant K)
include hK

theorem FormatInvariant.keeps_spendPower : Preserves (fun w => K w.flash) spendPower :=
  preserves_spendPower fun _ _ hs => hK.power _ _ hs

theorem FormatInvariant.keeps_nandErase (a : Nat) :
    Preserves (fun w => K w.flash) (nandErase a) := by
  refine preserves_bind ((frame_getFp a).preserves K) fun _ =>
    preserves_ite (fun _ => preserves_pure _) fun _ => ?_
  refine preserves_bind ((frame_nandCheckEuStatus _).preserves K) fun _ =>
    preserves_ite (fun _ => ?_) fun _ => preserves_pure _
  exact preserves_bind hK.keeps_spendPower fun _ =>
    preserves_bind (preserves_modify fun _ hs => hK.erase _ _ hs) fun _ => preserves_pure _

/-- A header is programmed at the start of an erase unit of a reserve segment, or beyond the
chip, where nothing is. -/
theorem FormatInvariant.keeps_nandProgramTotalPage {page : Page} {a : Nat}
    (hpage : page.flags.slotEuOffset = reserveEuIsHeader) {s : World}
    (ha : a < pageCount → calcOffsetInEu a = 0 ∧ getSlot a ∈ reserveSegments ∧
      s.flash.validEuAt (getSlot a) 1 = a)
    (hs : K s.flash) : wp (nandProgramTotalPage page a)
      (fun res t => K t.flash ∧ (res ≠ 0 → pageCount ≤ a)) (fun _ t => K t.flash) s := by
  have hprog : ∀ total, wp (nandProgramPageA page a total)
      (fun res t => K t.flash ∧ (res ≠ 0 → pageCount ≤ a)) (fun _ t => K t.flash) s := by
    intro total
    -- the bad-block bytes stay, and with them the valid erase units
    let K' : Flash → Prop := fun f => K f ∧ f.badEu = s.flash.badEu
    have hpower : Preserves (fun w => K' w.flash) spendPower :=
      preserves_spendPower fun _ _ hs => ⟨hK.power _ _ hs.1, hs.2⟩
    unfold nandProgramPageA
    refine ((frame_getFp a).preserves K').wp_bind ⟨hs, rfl⟩ (fun _ t ht => ?_) fun _ _ ht => ht.1
    refine wp_ite (fun hge => ⟨ht.1, fun _ => hge⟩) fun hlt => ?_
    obtain ⟨hoff, hslot, hvalid⟩ := ha (by omega)
    rw [wp_bind, wp_get]
    refine ((frame_assert _).preserves K').wp_bind ht (fun _ u hu => ?_) fun _ _ hu => hu.1
    refine hpower.wp_bind hu (fun _ v hv => ?_) fun _ _ hv => hv.1
    refine ⟨hK.header _ _ _ _ hoff hslot ?_ hpage hv.1, fun h => absurd rfl h⟩
    rw [Flash.validEuAt, funext (Flash.good_congr hv.2), ← Flash.validEuAt]
    exact hvalid
  have hverify : ∀ total, wp (seqVerify (nandProgramPageA page a total) (pure 0))
      (fun res t => K t.flash ∧ (res ≠ 0 → pageCount ≤ a)) (fun _ t => K t.flash) s := by
    intro total
    refine wp_seqVerify (wp_mono (hprog total) (fun res t ht => ?_) fun _ _ ht => ht)
    by_cases hres : res ≠ 0
    · rw [if_pos hres]
      exact ⟨ht.1, fun _ => ht.2 hres⟩
    · rw [if_neg hres]
      exact ⟨ht.1, fun h => absurd rfl h⟩
  exact wp_ite (fun _ => hverify true) fun _ => hverify false

end Invariant

section With
variable {K : Flash → Prop} {owned : Nat → Prop} {α : Type} {m : SeqM α}

/-- What keeps the property of the chip and leaves the segment map alone. -/
theorem Kept.keeps (h : Preserves (fun w => K w.flash) m) (hmap : Frame World.segMap m) :
    Preserves (Kept K) m :=
  preserves_and h
    (hmap.preserves fun m => m.isEuReserve = false ∧ m.reserveEuAddr = phyAddressEmpty)

theorem FormattingWith.keeps_of_frame (h : ∀ {τ : Type} {view : World → τ}, Frame view m) :
    Preserves (FormattingWith K owned) m :=
  preserves_and (Kept.keeps ((h : Frame World.flash m).preserves K) h)
    (Formatting.keeps_of_frame h)

theorem FormattingWith.keeps_nandErase (hK : FormatInvariant K) (a : Nat) :
    Preserves (FormattingWith K owned) (nandErase a) :=
  preserves_and (Kept.keeps (hK.keeps_nandErase a) (frame_nandErase a))
    (Formatting.keeps_nandErase a)

end With

/-! ## The reserve segments -/

/-- An erased chip, the segment map being `m`. -/
def Blank (m : SegMap) (w : World) : Prop := AllPages (· = initBuf) w ∧ w.segMap = m

theorem Blank.keeps_nandErase {m : SegMap} (a : Nat) : Preserves (Blank m) (nandErase a) :=
  preserves_and (preserves_nandErase (by rfl) a) (frame_nandErase a m)

theorem Blank.keeps_of_frame {α : Type} {m : SegMap} {k : SeqM α}
    (h : ∀ {τ : Type} {view : World → τ}, Frame view k) : Preserves (Blank m) k :=
  preserves_and (Frame.allPages h) (h m)

theorem preserves_scanReserveSlots {K : Flash → Prop} (hK : FormatInvariant K) (slots : List Nat)
    (found : Doubly) : Preserves (fun w => K w.flash) (scanReserveSlots slots found) := by
  induction slots generalizing found with
  | nil => exact preserves_pure _
  | cons slotId slots ih =>
    refine preserves_bind ((frame_getValidEuAddrInLocation _ _).preserves K) fun eu =>
      preserves_ite (fun _ => ih _) fun _ => ?_
    refine preserves_bind ((frame_nandReadPageTotal eu).preserves K) fun page => ?_
    cases page with
    | none =>
      exact preserves_bind (hK.keeps_nandErase eu) fun _ =>
        preserves_ite (fun _ => preserves_pure _) fun _ => ih _
    | some page =>
      dsimp only
      cases page.flags.segType with
      | notUsed => exact preserves_bind (hK.keeps_nandErase eu) fun _ => ih _
      | used => exact ih _
      | reserve =>
        refine preserves_bind (frame_getSegMap.preserves K) fun m => preserves_ite (fun _ => ih _)
          fun _ => ?_
        exact preserves_bind (preserves_modify fun _ hs => hs) fun _ => ih _

/-- A scan of an erased chip finds no reserve segment. -/
theorem scanReserveSlots_spec {m : SegMap} (slots : List Nat) (found : Doubly) {s : World}
    (hs : Blank m s) :
    wp (scanReserveSlots slots found) (fun r t => r.2 = found ∧ Blank m t) (fun _ _ => True) s := by
  induction slots generalizing s with
  | nil => exact ⟨rfl, hs⟩
  | cons slotId slots ih =>
    refine (Blank.keeps_of_frame (frame_getValidEuAddrInLocation _ _)).wp_bind hs
      (fun eu t ht => wp_ite (fun _ => ih ht) fun _ => ?_) fun _ _ _ => trivial
    rw [wp_bind]
    refine wp_nandReadPageTotal (fun _ => ?_) (fun _ => ?_) trivial
    · rw [ht.1 eu]
      exact (Blank.keeps_nandErase eu).wp_bind ht (fun _ u hu => ih hu) fun _ _ _ => trivial
    · refine (Blank.keeps_nandErase eu).wp_bind ht (fun res u hu => ?_) fun _ _ _ => trivial
      exact wp_ite (fun _ => ⟨rfl, hu⟩) fun _ => ih hu

theorem nthValidEu_spec (location : Nat) (eus : List Nat) (s : World) :
    wp (nthValidEu location eus) (fun eu t => t = s ∧ (eu = phyAddressEmpty ∨ eu ∈ eus))
      (fun _ _ => True) s := by
  induction eus generalizing location with
  | nil => exact ⟨rfl, .inl rfl⟩
  | cons eu eus ih =>
    have hrest : ∀ location, wp (nthValidEu location eus)
        (fun a t => t = s ∧ (a = phyAddressEmpty ∨ a ∈ eu :: eus)) (fun _ _ => True) s :=
      fun location => wp_mono (ih location)
        (fun _ _ h => ⟨h.1, h.2.imp_right (List.mem_cons_of_mem _)⟩) fun _ _ h => h
    unfold nthValidEu
    rw [wp_bind]
    refine wp_nandCheckEuStatus (fun _ => wp_ite (fun _ => ?_) fun _ => hrest _) trivial
    exact wp_ite (fun _ => ⟨rfl, .inr List.mem_cons_self⟩) fun _ => hrest _

/-- A valid erase unit is looked for in its slot. -/
theorem getValidEuAddrInLocation_spec (slotId euLocation : Nat) (s : World) :
    wp (getValidEuAddrInLocation slotId euLocation)
      (fun eu t => t = s ∧ (eu = phyAddressEmpty ∨ getSlot eu = slotId ∧ calcOffsetInEu eu = 0))
      (fun _ _ => True) s := by
  unfold getValidEuAddrInLocation
  rw [wp_bind]
  refine wp_assert (fun _ => wp_mono (nthValidEu_spec _ _ s) ?_ fun _ _ h => h) trivial
  rintro eu t ⟨rfl, hempty | hmem⟩
  · exact ⟨rfl, .inl hempty⟩
  · obtain ⟨k, hk, rfl⟩ := List.mem_map.mp hmem
    have hlt := offset_lt (List.mem_range.mp hk) pagesPerEu_pos
    refine ⟨rfl, .inr ⟨getSlot_calcAddress hlt, ?_⟩⟩
    rw [calcOffsetInEu, calcAddress, pagesPerSlot_eq, Nat.add_zero, ← Nat.mul_assoc,
      ← Nat.add_mul, Nat.mul_mod_left]

theorem FormattingWith.wp_writeReserveSegmentHeader {K : Flash → Prop}
    (hK : FormatInvariant K) {owned : Nat → Prop} {a : Nat} (hoff : calcOffsetInEu a = 0)
    (hslot : getSlot a ∈ reserveSegments) {s : World} (hs : FormattingWith K owned s)
    (hvalid : s.flash.validEuAt (getSlot a) 1 = a) :
    wp (writeReserveSegmentHeader a) (fun _ t => FormattingWith K owned t)
      (fun _ t => FormattingWith K owned t) s := by
  have hloop : ∀ (page : Page), page.flags.slotEuOffset = reserveEuIsHeader →
      (∀ obsolete, Page.IsFresh { page with flags := { page.flags with obsolete := obsolete } }) →
      ∀ n a (s : World), (a < pageCount → calcOffsetInEu a = 0 ∧ getSlot a ∈ reserveSegments ∧
        s.flash.validEuAt (getSlot a) 1 = a) → FormattingWith K owned s →
        wp (writeReserveHeaderLoop page n a) (fun _ t => FormattingWith K owned t)
          (fun _ t => FormattingWith K owned t) s := by
    intro page hflag hpage n
    cases n with
    | zero => exact fun _ _ _ hs => hs
    | succ n =>
      intro a s ha hs
      have hprog : Preserves (Formatting owned) (nandProgramTotalPage page a) :=
        Formatting.keeps (preserves_nandProgramTotalPage hpage a) (frame_nandProgramTotalPage _ _)
      have hmap := (frame_nandProgramTotalPage page a).preserves
        (fun m => m.isEuReserve = false ∧ m.reserveEuAddr = phyAddressEmpty) s hs.1.2
      have hboth := wp_and (wp_and (hK.keeps_nandProgramTotalPage hflag ha hs.1.1) hmap)
        (hprog s hs.2)
      unfold writeReserveHeaderLoop
      refine wp_seq (wp_mono hboth (fun _ _ h => h) fun _ _ h => h) fun res t ht => ?_
      obtain ⟨⟨⟨hKt, hfar⟩, hres⟩, hform⟩ := ht
      refine wp_ite (fun hres' => ?_) fun _ => ⟨⟨hKt, hres⟩, hform⟩
      -- a program fails beyond the chip only, where the driver asserts on a bad mark
      obtain ⟨e, he⟩ := nandCheckEuStatus_far (hfar hres') t
      have hmark : markEuAsBad a t = .error e t := bind_error he
      rw [wp_bind]
      exact (wp_error_iff hmark).mpr ⟨⟨hKt, hres⟩, hform⟩
  unfold writeReserveSegmentHeader
  rw [wp_bind, wp_modifySegMap, wp_bind, wp_getSegMap]
  refine hloop _ ?_ (fun obsolete => ?_) _ _ _ (fun _ => ⟨hoff, hslot, hvalid⟩) hs
  · simp [Flags.setSlotEuOffset, reserveEuIsHeader]
  · simp [Page.IsFresh, Flags.setSlotEuOffset, initFlags, reserveEuIsHeader]

/-- A reserve header is written only where there is a valid erase unit. -/
theorem writeReserveSegmentHeader_empty (s : World) :
    wp (writeReserveSegmentHeader phyAddressEmpty) (fun _ _ => False) (fun _ _ => True) s := by
  have hfar := Nat.not_lt_of_le simulatedPages_le
  have hpage : ∀ page total (t : World), wp (nandProgramPageA page phyAddressEmpty total)
      (fun _ _ => False) (fun _ _ => True) t := by
    intro page total t
    unfold nandProgramPageA
    rw [wp_bind]
    exact wp_getFp (fun h => absurd h hfar) trivial
  have hprog : ∀ page (t : World), wp (nandProgramTotalPage page phyAddressEmpty)
      (fun _ _ => False) (fun _ _ => True) t := fun page t =>
    wp_ite (fun _ => wp_seq (hpage page true t) fun _ _ h => h.elim)
      fun _ => wp_seq (hpage page false t) fun _ _ h => h.elim
  unfold writeReserveSegmentHeader
  rw [wp_bind, wp_modifySegMap, wp_bind, wp_getSegMap]
  exact wp_seq (hprog _ _) fun _ _ h => h.elim

omit [Config] in
/-- A reserve segment gets the slot of its own number. -/
theorem SegMap.Owns.set {m : SegMap} {owned : Nat → Prop} (h : m.Owns owned) (seg : Nat) :
    (m.setSlotForSeg seg seg).Owns fun i => owned i ∨ i = seg := by
  intro i
  show _ ∧ Function.update m.segToSlot seg seg i = i ∨
    _ ∧ Function.update m.segToSlot seg seg i = noSlot
  by_cases hi : i = seg
  · rw [hi, Function.update_self]
    exact .inl ⟨.inr rfl, rfl⟩
  · rw [Function.update_of_ne hi]
    rcases h i with ⟨ho, hv⟩ | ⟨ho, hv⟩
    · exact .inl ⟨.inl ho, hv⟩
    · exact .inr ⟨fun h => h.elim ho hi, hv⟩

theorem mem_reserveSegments {seg : Nat} :
    seg ∈ reserveSegments ↔ firstReserveSegment ≤ seg ∧ seg < nSlots := by
  have := firstReserveSegment_eq
  have := segmentsCount_add
  unfold reserveSegments kReserveSlots
  rw [List.mem_range'_1]
  omega

section Reserves
variable {K : Flash → Prop} (hK : FormatInvariant K)
include hK

theorem handleReservesAreEmpty_spec (segs : List Nat) (hsegs : ∀ i ∈ segs, i ∈ reserveSegments)
    {owned : Nat → Prop} {s : World} (hs : FormattingWith K owned s) :
    wp (handleReservesAreEmpty segs)
      (fun res t => res = 0 → FormattingWith K (fun i => owned i ∨ i ∈ segs) t)
      (fun _ _ => True) s := by
  induction segs generalizing owned s with
  | nil => exact fun _ => by simpa using hs
  | cons i segs ih =>
    have hrest : ∀ {owned' : Nat → Prop} {t : World}, (∀ j, owned' j ↔ owned j ∨ j = i) →
        FormattingWith K owned' t → wp (handleReservesAreEmpty segs)
          (fun res t => res = 0 → FormattingWith K (fun j => owned j ∨ j ∈ i :: segs) t)
          (fun _ _ => True) t := by
      intro owned' t howned ht
      refine wp_mono (ih (fun j hj => hsegs j (List.mem_cons_of_mem _ hj)) ht)
        (fun res u hu hres => ?_) fun _ _ h => h
      have hset : (fun j => owned' j ∨ j ∈ segs) = fun j => owned j ∨ j ∈ i :: segs := by
        funext j
        rw [howned, List.mem_cons, or_assoc]
      rw [← hset]
      exact hu hres
    unfold handleReservesAreEmpty
    rw [wp_bind, wp_getSegMap]
    refine wp_ite (fun hslot => ?_) fun hslot => ?_
    · -- its header was found, so it is owned already
      rcases hs.2.2 i with ⟨ho, -⟩ | ⟨-, hno⟩
      · refine hrest (fun j => ⟨.inl, fun h => h.elim id fun h => h ▸ ho⟩) hs
      · exact absurd hno hslot
    · have hi := hsegs i List.mem_cons_self
      have hrun := getValidEuAddrInLocation_run (s := s) (mem_reserveSegments.mp hi).2 Nat.one_pos
      obtain ⟨-, heu⟩ := of_wp_ok (getValidEuAddrInLocation_spec i 1 s) hrun
      rw [wp_bind, wp_ok_iff hrun]
      rcases heu with hempty | ⟨heu, hoff⟩
      · rw [hempty]
        exact wp_seq (writeReserveSegmentHeader_empty s) fun _ _ h => h.elim
      · refine wp_seq (wp_mono (FormattingWith.wp_writeReserveSegmentHeader hK hoff
          (by rw [heu]; exact hi) hs (by rw [heu])) (fun _ _ hu => hu) fun _ _ _ => trivial)
          fun res u hu => ?_
        refine wp_ite (fun _ h => absurd h Nat.one_ne_zero) fun _ => ?_
        rw [wp_bind, wp_modifySegMap, heu]
        exact hrest (fun j => Iff.rfl) ⟨hu.1, hu.2.1, hu.2.2.set i⟩

theorem handleReserveSegments_spec {s : World} (hs : Blank initSegMap s) (hKs : K s.flash) :
    wp handleReserveSegments
      (fun r t => r.1 = 0 → r.2.segment = noSegmentNum ∧
        FormattingWith K (· ∈ reserveSegments) t)
      (fun _ _ => True) s := by
  refine wp_seq (wp_mono (wp_and (scanReserveSlots_spec _ _ hs)
    (preserves_scanReserveSlots hK _ _ s hKs)) (fun _ _ h => h) fun _ _ _ => trivial) ?_
  rintro ⟨res, found⟩ t ⟨⟨rfl, hpages, hmap⟩, hKt⟩
  refine wp_ite (fun hres h => absurd h hres) fun _ => ?_
  have ht : FormattingWith K (fun _ => False) t := by
    refine ⟨⟨hKt, by rw [hmap]; rfl, by rw [hmap]; rfl⟩, fun a => ?_, fun seg =>
      .inr ⟨not_false, by rw [hmap]; rfl⟩⟩
    rw [hpages a]
    exact isFresh_initBuf
  rw [wp_bind, wp_getSegMap, hmap]
  have hcount : initSegMap.countSegments true = 0 := by
    simp [SegMap.countSegments, initSegMap]
  refine wp_ite (fun _ => ?_) fun h => absurd (by rw [hcount]; decide) h
  rw [wp_bind]
  refine wp_seqVerify (wp_mono (handleReservesAreEmpty_spec hK _ (fun _ hi => hi) ht)
    (fun res u hu => ?_) fun _ _ h => h)
  by_cases hres : res = 0
  · rw [if_neg (not_not_intro hres)]
    exact fun _ => ⟨rfl, by simpa using hu hres⟩
  · rw [if_pos hres]
    exact fun h => absurd h Nat.one_ne_zero

end Reserves

/-! ## The counters -/

/-- What counts the obsolete pages of each segment. -/
def World.levels (w : World) : Nat → UInt8 := w.obsCountersMap.counters

theorem frame_levels_scanReserveSlots (slots : List Nat) (found : Doubly) :
    Frame World.levels (scanReserveSlots slots found) := by
  induction slots generalizing found with
  | nil => exact frame_pure _
  | cons slotId slots ih =>
    have herase : ∀ eu, Frame World.levels (nandErase eu) := frame_nandErase_of fun _ _ => rfl
    refine frame_bind (frame_getValidEuAddrInLocation _ _) fun eu => frame_ite (ih _) ?_
    refine frame_bind (frame_nandReadPageTotal eu) fun page => ?_
    cases page with
    | none => exact frame_bind (herase _) fun _ => frame_ite (frame_pure _) (ih _)
    | some page =>
      dsimp only
      cases page.flags.segType with
      | notUsed => exact frame_bind (herase _) fun _ => ih _
      | used => exact ih _
      | reserve =>
        refine frame_bind frame_getSegMap fun m => frame_ite (ih _) ?_
        exact frame_bind (frame_modify fun _ => rfl) fun _ => ih _

theorem frame_levels_writeReserveSegmentHeader (a : Nat) :
    Frame World.levels (writeReserveSegmentHeader a) := by
  have hloop : ∀ page n a, Frame World.levels (writeReserveHeaderLoop page n a) := by
    intro page n
    induction n with
    | zero => exact fun _ => frame_throw _
    | succ n ih =>
      intro a
      refine frame_bind (frame_nandProgramTotalPage_of (fun _ _ => rfl) page a) fun _ => ?_
      refine frame_ite (frame_bind (frame_markEuAsBad_of (fun _ _ => rfl) a) fun _ => ih _) ?_
      exact frame_pure _
  exact frame_bind (frame_modify fun _ => rfl) fun _ => frame_bind frame_getSegMap fun _ =>
    hloop _ _ _

theorem frame_levels_handleReservesAreEmpty (segs : List Nat) :
    Frame World.levels (handleReservesAreEmpty segs) := by
  induction segs with
  | nil => exact frame_pure _
  | cons i segs ih =>
    refine frame_bind frame_getSegMap fun _ => frame_ite ih ?_
    refine frame_bind (frame_getValidEuAddrInLocation _ _) fun eu => ?_
    refine frame_seqVerify (frame_levels_writeReserveSegmentHeader eu) ?_
    exact frame_bind (frame_modify fun _ => rfl) fun _ => ih

theorem frame_levels_handleReserveSegments : Frame World.levels handleReserveSegments := by
  refine frame_bind (frame_levels_scanReserveSlots _ _) fun r => frame_ite (frame_pure _) ?_
  refine frame_bind frame_getSegMap fun _ => frame_ite ?_ (frame_pure _)
  refine frame_bind (frame_seqVerify (frame_levels_handleReservesAreEmpty _) (frame_pure _)) ?_
  exact fun _ => frame_pure _

/-! ## The data segments -/

/-- There is a copy-back erase unit, and it holds no copy. -/
theorem handleCopyBack_spec {owned : Nat → Prop} {s : World} (hs : Formatting owned s) :
    wp handleCopyBack
      (fun _ t => t = s ∧ ∃ eu, getCopybackEu s = .ok eu s ∧ eu ≠ phyAddressEmpty)
      (fun _ _ => True) s := by
  cases hrun : getCopybackEu s with
  | error e t =>
    refine (wp_bind _ _).mpr ?_
    exact (wp_error_iff hrun).mpr trivial
  | ok eu t =>
    have ht : t = s := (frame_getCopybackEu : Frame id getCopybackEu).ok hrun
    subst ht
    refine (wp_bind _ _).mpr ((wp_ok_iff hrun).mpr ?_)
    rw [wp_bind]
    refine wp_assert (fun hne => ?_) trivial
    have hne : eu ≠ phyAddressEmpty := of_decide_eq_true hne
    rw [wp_bind]
    refine wp_nandReadPageTotal (fun _ => wp_ite (fun hcb => ?_) fun _ => ?_)
      (fun _ => ⟨rfl, eu, rfl, hne⟩) trivial
    · rw [(hs.1 eu).2.1] at hcb
      exact absurd hcb Bool.false_ne_true
    · exact ⟨rfl, eu, rfl, hne⟩

/-- No erase unit of a chip that is being formatted stands for another. -/
theorem logicalAddressToReservePhysical_spec {owned : Nat → Prop} {s : World} {a : Nat}
    (ha : a < pageCount) (hs : Formatting owned s) :
    wp (logicalAddressToReservePhysical a) (fun eu t => eu = phyAddressEmpty ∧ t = s)
      (fun _ _ => True) s := by
  have hfind : ∀ eus : List Nat, wp (findReserveEu (calculateSlotIdAndEuOffset a) eus)
      (fun eu t => eu = none ∧ t = s) (fun _ _ => True) s := by
    intro eus
    induction eus with
    | nil => exact ⟨rfl, rfl⟩
    | cons eu eus ih =>
      unfold findReserveEu
      rw [wp_bind]
      refine wp_nandCheckEuStatus (fun _ => wp_ite (fun _ => ?_) fun _ => ih) trivial
      rw [wp_bind]
      refine wp_nandReadPageFlags (fun _ => wp_ite (fun hfound => ?_) fun _ => ih) trivial
      have hlt := calculateSlotIdAndEuOffset_lt ha
      have hge := (hs.1 eu).2.2
      rw [hfound.1] at hge
      omega
  unfold logicalAddressToReservePhysical
  rw [wp_bind, wp_getSegMap]
  refine wp_seq (hfind _) ?_
  rintro eu t ⟨rfl, rfl⟩
  exact ⟨rfl, rfl⟩

theorem scanRegularSlots_spec {K : Flash → Prop} (hK : FormatInvariant K) (nBytes : Nat)
    {owned : Nat → Prop} (slots : List Nat) (hslots : ∀ slot ∈ slots, slot < nSlots) {s : World}
    (hs : FormattingWith K owned s) :
    wp (scanRegularSlots nBytes slots)
      (fun _ t => FormattingWith K owned t ∧ t.segMap = s.segMap ∧ t.levels = s.levels)
      (fun _ _ => True) s := by
  induction slots generalizing s with
  | nil => exact ⟨hs, rfl, rfl⟩
  | cons slot slots ih =>
    have hrest : ∀ t : World, FormattingWith K owned t → t.segMap = s.segMap →
        t.levels = s.levels → wp (scanRegularSlots nBytes slots)
          (fun _ t => FormattingWith K owned t ∧ t.segMap = s.segMap ∧ t.levels = s.levels)
          (fun _ _ => True) t := by
      intro t ht hmap hlevels
      rw [← hmap, ← hlevels]
      exact ih (fun i hi => hslots i (List.mem_cons_of_mem _ hi)) ht
    have hlt : calcAddress slot 0 0 < pageCount :=
      calcAddress_lt (hslots slot List.mem_cons_self) (offset_lt eusPerSlot_pos pagesPerEu_pos)
    refine wp_seq (getValidEuAddrInLocation_spec slot 1 s) ?_
    rintro eu t ⟨rfl, -⟩
    rw [wp_bind]
    refine wp_assert (fun _ => ?_) trivial
    rw [wp_bind]
    refine wp_nandReadPageTotal (fun _ => ?_) (fun hge => absurd hge (by omega)) trivial
    refine wp_ite (fun _ => hrest t hs rfl rfl) fun hfirst => ?_
    -- the page is neither a reserve header nor data: it is blank
    have hblank : isPageUsed (t.flash.page (calcAddress slot 0 0)).flags = false := by
      cases htype : (t.flash.page (calcAddress slot 0 0)).flags.segType with
      | reserve => exact absurd htype hfirst
      | used => exact absurd htype (hs.2.1 _).1
      | notUsed => rw [isPageUsed, htype]; decide
    have hvalid : wp (validOrReserveEu (calcAddress slot 0 0))
        (fun a u => (a = phyAddressEmpty ∨ a = calcAddress slot 0 0) ∧ u = t)
        (fun _ _ => True) t := by
      unfold validOrReserveEu
      rw [wp_bind]
      refine wp_nandCheckEuStatus (fun _ => wp_ite (fun _ => ⟨.inr rfl, rfl⟩) fun _ => ?_) trivial
      exact wp_mono (logicalAddressToReservePhysical_spec hlt hs.2)
        (fun _ _ h => ⟨.inl h.1, h.2⟩) fun _ _ h => h
    refine wp_seq hvalid ?_
    rintro a u ⟨ha, rfl⟩
    refine wp_ite (fun _ => hrest u hs rfl rfl) fun hne => ?_
    obtain rfl := ha.resolve_left hne
    rw [wp_bind]
    refine wp_nandReadPageTotal (fun _ => ?_) (fun hge => absurd hge (by omega)) trivial
    refine wp_ite (fun hused => ?_) fun _ => ?_
    · rw [hblank] at hused
      exact absurd hused Bool.false_ne_true
    · have herase : Preserves (fun w => FormattingWith K owned w ∧ w.segMap = u.segMap ∧
          w.levels = u.levels) (nandErase (calcAddress slot 0 0)) :=
        preserves_and (FormattingWith.keeps_nandErase hK _)
          (preserves_and (frame_nandErase _ _) (frame_nandErase_of (fun _ _ => rfl) _ _))
      exact herase.wp_bind ⟨hs, rfl, rfl⟩ (fun _ v hv => hrest v hv.1 hv.2.1 hv.2.2)
        fun _ _ _ => trivial

/-! ## The first segment -/

theorem handleFlashIsEmpty_spec {cpWriter : CheckpointWriter}
    (hcp : Frame World.mapping (cpWriter true)) {s : World}
    (hs : s.segMap.Owns (· ∈ reserveSegments)) (hn : s.segMap.nSegments = 0) :
    wp (handleFlashIsEmpty cpWriter) (fun res t => res = 0 → t.mapping.Growing)
      (fun _ _ => True) s := by
  have hseg := segmentsCount_add
  have hslots := nSlots_ge
  have hgrow : Mapping.Growing ⟨Function.update s.segMap.segToSlot 0 0, 0, 0, 1⟩ := by
    refine ⟨by show 1 ≤ segmentsCount; omega, rfl, rfl, fun seg hmem => ?_, ?_⟩
    · show Function.update s.segMap.segToSlot 0 0 seg = seg
      by_cases h0 : seg = 0
      · rw [h0, Function.update_self]
      · rw [Function.update_of_ne h0]
        have hres : seg ∈ reserveSegments := by
          rcases Mapping.mem_existing.mp hmem with h | h
          · have h : seg < 1 := h
            omega
          · exact mem_reserveSegments.mpr h
        exact ((hs seg).resolve_right fun h => h.1 hres).2
    · have := newSegment_eq
      have := firstReserveSegment_eq
      show Function.update s.segMap.segToSlot 0 0 newSegment = noSlot
      rw [Function.update_of_ne (by omega)]
      refine ((hs newSegment).resolve_left fun h => ?_).2
      have := mem_reserveSegments.mp h.1
      omega
  have hfirst : Frame World.mapping firstEu := by
    refine frame_bind (frame_nandCheckEuStatus _) fun _ => frame_ite (frame_pure _) ?_
    refine frame_bind (frame_allocReserveEU _) fun _ => frame_bind (frame_assert _) fun _ => ?_
    exact frame_bind (frame_modifySegMap fun _ => rfl) fun _ => frame_pure _
  unfold handleFlashIsEmpty
  rw [wp_bind, wp_modifySegMap, wp_bind, wp_modifySegMap]
  refine hfirst.wp_bind (fun eu t ht => ?_) fun _ _ _ => trivial
  refine wp_seqVerify ((frame_mapping (frame_nandErase eu)).wp (fun res u hu => ?_)
    fun _ _ _ => trivial)
  by_cases hres : res ≠ 0
  · rw [if_pos hres]; exact fun h => absurd h Nat.one_ne_zero
  rw [if_neg hres]
  refine wp_seqVerify ((frame_writeSegmentHeader hcp).wp (fun res v hv => ?_) fun _ _ _ => trivial)
  by_cases hres : res ≠ 0
  · rw [if_pos hres]; exact fun h => absurd h Nat.one_ne_zero
  rw [if_neg hres, wp_bind, wp_modifySegMap, wp_pure]
  intro _
  have hmap : v.mapping = ⟨Function.update s.segMap.segToSlot 0 0, 0, 0, s.segMap.nSegments⟩ := by
    rw [hv, hu, ht]
    rfl
  show Mapping.Growing { v.mapping with nSegments := v.mapping.nSegments + 1 }
  rw [hmap, hn]
  exact hgrow

/-- Booting an erased chip comes to `handleFlashIsEmpty` in a state that is formatted but for
the first segment; a copy-back erase unit was found before. -/
theorem sequencingBooting_formatting {K : Flash → Prop} (hK : FormatInvariant K)
    (data : Nat → UInt8) (nBytes : Nat) {cpWriter : CheckpointWriter} {s : World}
    (hs : AllPages (· = initBuf) s) (hKs : K s.flash) {P : World → Prop}
    (hempty : ∀ t u, FormattingWith K (· ∈ reserveSegments) t →
      (∃ eu, getCopybackEu t = .ok eu t ∧ eu ≠ phyAddressEmpty) →
      FormattingWith K (· ∈ reserveSegments) u → u.segMap = { t.segMap with nSegments := 0 } →
      u.levels = (fun _ => 0) →
      wp (handleFlashIsEmpty cpWriter) (fun res v => res = 0 → P v) (fun _ _ => True) u) :
    wp (sequencingBooting data nBytes cpWriter) (fun r t => r.1 = 0 → P t)
      (fun _ _ => True) s := by
  unfold sequencingBooting
  rw [wp_bind, wp_modifySegMap, wp_bind]
  have hblank : Blank initSegMap { s with
      segMap := initSegMap, obsCountersMap := initObsCounters s.obsCountersMap } := ⟨hs, rfl⟩
  refine wp_seq (wp_mono (wp_and (handleReserveSegments_spec hK hblank hKs)
    (frame_levels_handleReserveSegments _ _ rfl)) (fun _ _ h => h) fun _ _ _ => trivial) ?_
  rintro ⟨res, found⟩ t ⟨ht, hlevels⟩
  refine wp_ite (fun _ h => absurd h Nat.one_ne_zero) fun hres => ?_
  obtain ⟨hfound, ht⟩ := ht (not_not.mp hres)
  have hdoubly : handleDoubly found = pure 0 := if_neg (not_not_intro hfound)
  rw [hdoubly, wp_bind, wp_pure]
  refine wp_ite (fun _ h => absurd h Nat.one_ne_zero) fun _ => ?_
  refine wp_seq (handleCopyBack_spec ht.2) ?_
  rintro r u ⟨rfl, hcb⟩
  refine wp_ite (fun _ h => absurd h Nat.one_ne_zero) fun _ => ?_
  unfold handleRegularSegments
  rw [wp_bind, wp_bind, wp_modifySegMap]
  have hu : FormattingWith K (· ∈ reserveSegments) { u with
      segMap := { u.segMap with nSegments := 0 } } := ht
  refine wp_mono (scanRegularSlots_spec hK nBytes (List.range nSlots)
    (fun slot hslot => List.mem_range.mp hslot) hu) (fun res v hv => ?_) fun _ _ h => h
  refine wp_ite (fun _ h => absurd h Nat.one_ne_zero) fun _ => ?_
  obtain ⟨hform, hmap, hkept⟩ := hv
  have hzero : v.levels = fun _ => 0 := hkept.trans hlevels
  rw [wp_bind, wp_getSegMap]
  refine wp_ite (fun _ => ?_) fun hcount => absurd ?_ hcount
  · have hobs : ∀ n, Preserves (fun w => FormattingWith K (· ∈ reserveSegments) w ∧
        w.segMap = v.segMap ∧ w.levels = fun _ => 0) (setObsCount n) :=
      fun _ => preserves_modify fun _ h => h
    have hfree : ∀ n, Preserves (fun w => FormattingWith K (· ∈ reserveSegments) w ∧
        w.segMap = v.segMap ∧ w.levels = fun _ => 0) (setFreeCounter n) :=
      fun _ => preserves_modify fun _ h => h
    refine (hobs _).wp_bind ⟨hform, rfl, hzero⟩ (fun _ x hx => ?_) fun _ _ _ => trivial
    refine (hfree _).wp_bind hx (fun _ y hy => ?_) fun _ _ _ => trivial
    rw [wp_bind]
    exact hempty u y ht hcb hy.1 (hy.2.1.trans hmap) hy.2.2
  · refine List.countP_eq_zero.mpr fun seg hseg => ?_
    have hlt : seg < segmentsCount := List.mem_range.mp hseg
    have := firstReserveSegment_eq
    rcases hform.2.2 seg with ⟨hmem, -⟩ | ⟨-, hno⟩
    · have := mem_reserveSegments.mp hmem
      omega
    · rw [hno]
      decide

/-- Formatting leaves the segment map in its growing phase. -/
theorem sequencingBooting_erased (data : Nat → UInt8) (nBytes : Nat) {cpWriter : CheckpointWriter}
    (hcp : Frame World.mapping (cpWriter true)) {s : World} (hs : AllPages (· = initBuf) s) :
    wp (sequencingBooting data nBytes cpWriter) (fun r t => r.1 = 0 → t.mapping.Growing)
      (fun _ _ => True) s := by
  have hK : FormatInvariant fun _ => True :=
    ⟨fun _ _ _ => trivial, fun _ _ _ => trivial, fun _ _ _ _ _ _ _ _ _ => trivial⟩
  exact sequencingBooting_formatting hK data nBytes hs trivial fun t u _ _ hu hmap _ =>
    handleFlashIsEmpty_spec hcp hu.2.2 (by rw [hmap])

end NandFs
