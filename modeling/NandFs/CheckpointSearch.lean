import NandFs.LastValidPage
import NandFs.LogCheckpoint

/-! # Finding a checkpoint on the chip

The pages of a checkpoint lie in one segment, in their order, and between them there may be pages
that were copied there.  `findCheckpointInSegment` finds the last page of the newest one, and
`readCheckpointToMemory` goes from there back to its first page and reads on.
-/
namespace NandFs

open Program

/-- From the offset `o` on there are the pages of a checkpoint of `p` pages from page `i` on, the last
one at the offset `k`. -/
inductive CheckpointPages (flag : Nat → CpLocation) (p : Nat) : Nat → Nat → Nat → Prop
  | last {o : Nat} (h : flag o = setCpPageFlag (p - 1) (p - 1)) : CheckpointPages flag p o (p - 1) o
  | page {o i k : Nat} (hi : i + 1 < p) (h : flag o = setCpPageFlag i (p - 1))
      (rest : CheckpointPages flag p (o + 1) (i + 1) k) : CheckpointPages flag p o i k
  | skip {o i k : Nat} (hi : 0 < i) (h : flag o = .notPart)
      (rest : CheckpointPages flag p (o + 1) i k) : CheckpointPages flag p o i k

section CheckpointPages
variable {flag flag' : Nat → CpLocation} {p o i k : Nat}

theorem CheckpointPages.lt (h : CheckpointPages flag p o i k) (hp : 0 < p) : i < p := by
  induction h with
  | last => omega
  | page hi => omega
  | skip _ _ _ ih => exact ih

/-- There are at least as many pages as the checkpoint has left. -/
theorem CheckpointPages.le (h : CheckpointPages flag p o i k) : o + (p - 1 - i) ≤ k := by
  induction h with
  | last => omega
  | page hi _ _ ih => omega
  | skip _ _ _ ih => omega

theorem CheckpointPages.flag_last (h : CheckpointPages flag p o i k) :
    flag k = setCpPageFlag (p - 1) (p - 1) := by
  induction h with
  | last h => exact h
  | page _ _ _ ih => exact ih
  | skip _ _ _ ih => exact ih

/-- The search depends on the pages up to the last one only. -/
theorem CheckpointPages.congr (h : CheckpointPages flag p o i k)
    (hflag : ∀ o' ≤ k, flag' o' = flag o') : CheckpointPages flag' p o i k := by
  induction h with
  | last h => exact .last ((hflag _ (Nat.le_refl _)).trans h)
  | page hi h rest ih =>
    have := rest.le
    exact .page hi ((hflag _ (by omega)).trans h) (ih hflag)
  | skip hi h rest ih =>
    have := rest.le
    exact .skip hi ((hflag _ (by omega)).trans h) (ih hflag)

/-- Behind the first page there is no first page up to the last one. -/
theorem CheckpointPages.not_first (h : CheckpointPages flag p o i k) (hi : 0 < i) :
    ∀ o', o ≤ o' → o' ≤ k → flag o' ≠ .first := by
  induction h with
  | last h =>
    intro o' hge hle
    obtain rfl := Nat.le_antisymm hle hge
    rw [h, setCpPageFlag, if_neg (by omega), if_pos rfl]
    exact CpLocation.noConfusion
  | page hlt h rest ih =>
    intro o' hge hle
    rcases Nat.eq_or_lt_of_le hge with rfl | hgt
    · rw [h, setCpPageFlag, if_neg (by omega), if_neg (by omega)]
      exact CpLocation.noConfusion
    · exact ih (by omega) o' hgt hle
  | skip _ h rest ih =>
    intro o' hge hle
    rcases Nat.eq_or_lt_of_le hge with rfl | hgt
    · rw [h]
      exact CpLocation.noConfusion
    · exact ih hi o' hgt hle

/-- A checkpoint of several pages begins with a first page, and no other one follows. -/
theorem CheckpointPages.first (h : CheckpointPages flag p o i k) (hi : i = 0) (hp : 1 < p) :
    flag o = .first ∧ ∀ o', o < o' → o' ≤ k → flag o' ≠ .first := by
  cases h with
  | last => omega
  | page _ h rest =>
    subst hi
    exact ⟨h, fun o' hlt hle => rest.not_first Nat.one_pos o' hlt hle⟩
  | skip => omega

/-- A checkpoint of one page. -/
theorem CheckpointPages.eq_of_one (h : CheckpointPages flag p o i k) (hi : i = 0) (hp : p = 1) :
    o = k := by
  cases h with
  | last => rfl
  | page => omega
  | skip => omega

/-- Pages one behind the other. -/
theorem CheckpointPages.of_consecutive {n : Nat} (hp : i + n + 1 = p)
    (h : ∀ j ≤ n, flag (o + j) = setCpPageFlag (i + j) (p - 1)) :
    CheckpointPages flag p o i (o + n) := by
  induction n generalizing o i with
  | zero =>
    obtain rfl : p - 1 = i := by omega
    exact .last (h 0 (Nat.le_refl 0))
  | succ n ih =>
    refine .page (by omega) (h 0 (Nat.zero_le _)) ?_
    have hrest := ih (o := o + 1) (i := i + 1) (by omega) fun j hj => by
      have hpage := h (j + 1) (by omega)
      rwa [show o + 1 + j = o + (j + 1) by omega, show i + 1 + j = i + (j + 1) by omega]
    rwa [show o + (n + 1) = o + 1 + n by omega]

end CheckpointPages

variable [Config]

/-! ## Slots with checkpoints -/

/-- The checkpoint bits of a page of a slot. -/
def Contents.flagAt (c : Contents) (slot o : Nat) : CpLocation :=
  match c slot o with
  | some st => st.checkpoint
  | none => .notPart

/-- A complete checkpoint ends at the offset `k` of the slot. -/
def Contents.CheckpointAt (c : Contents) (nBytes slot k : Nat) : Prop :=
  ∃ j, 0 < j ∧ CheckpointPages (c.flagAt slot) (checkpointPages nBytes) j 0 k

/-- The slot is written up to `n`, as the log writes it: a header with the first checkpoint comes
first, and a last page of a checkpoint stands at the end of one. -/
structure Contents.Logged (c : Contents) (nBytes slot n : Nat) : Prop where
  written : c.WrittenTo slot n
  header : ∀ i < checkpointPages nBytes, i + 1 < n →
    c.flagAt slot (i + 1) = setCpPageFlag i (checkpointPages nBytes - 1)
  complete : ∀ k < n, 0 < k → c.flagAt slot k = .last → c.CheckpointAt nBytes slot k

/-- The checkpoint that ends at `k` is the newest of the slot, which is written up to `n`. -/
def Contents.NewestAt (c : Contents) (nBytes slot n k : Nat) : Prop :=
  k < n ∧ c.CheckpointAt nBytes slot k ∧ ∀ k', k < k' → k' < n → ¬c.CheckpointAt nBytes slot k'

section Logged
variable {c : Contents} {nBytes slot n k : Nat}

theorem Contents.CheckpointAt.pages_le (h : c.CheckpointAt nBytes slot k) :
    checkpointPages nBytes ≤ k := by
  obtain ⟨j, hj, hpages⟩ := h
  have := hpages.le
  have := checkpointPages_pos nBytes
  omega

/-- The header, once it is complete, holds a checkpoint. -/
theorem Contents.Logged.header_checkpoint (h : c.Logged nBytes slot n)
    (hn : headerPages nBytes ≤ n) : c.CheckpointAt nBytes slot (checkpointPages nBytes) := by
  have hpos := checkpointPages_pos nBytes
  rw [headerPages_eq] at hn
  refine ⟨1, Nat.one_pos, ?_⟩
  have hpages : CheckpointPages (c.flagAt slot) (checkpointPages nBytes) 1 0
      (1 + (checkpointPages nBytes - 1)) :=
    .of_consecutive (by omega) fun j hj => by
      have hpage := h.header j (by omega) (by omega)
      rwa [Nat.add_comm 1 j, Nat.zero_add]
  rwa [show 1 + (checkpointPages nBytes - 1) = checkpointPages nBytes by omega] at hpages

/-- A slot has a checkpoint exactly when its header is complete. -/
theorem Contents.Logged.exists_checkpoint_iff (h : c.Logged nBytes slot n) :
    (∃ k < n, c.CheckpointAt nBytes slot k) ↔ headerPages nBytes ≤ n := by
  have hpages := headerPages_eq nBytes
  constructor
  · rintro ⟨k, hk, hcp⟩
    have := hcp.pages_le
    omega
  · intro hn
    exact ⟨_, by omega, h.header_checkpoint hn⟩

/-- Then it has a newest one. -/
theorem Contents.Logged.exists_newest_iff (h : c.Logged nBytes slot n) :
    (∃ k, c.NewestAt nBytes slot n k) ↔ headerPages nBytes ≤ n := by
  classical
  rw [← h.exists_checkpoint_iff]
  constructor
  · rintro ⟨k, hk, hcp, -⟩
    exact ⟨k, hk, hcp⟩
  · rintro ⟨k, hk, hcp⟩
    have hle := Nat.le_sub_one_of_lt hk
    have hgreatest := Nat.findGreatest_le (P := c.CheckpointAt nBytes slot) (n - 1)
    refine ⟨_, by omega, Nat.findGreatest_spec hle hcp, fun k' hgt hlt => ?_⟩
    exact Nat.findGreatest_is_greatest hgt (by omega)

/-- The flag that ends a checkpoint, as the search expects it. -/
def endFlag (nBytes : Nat) : CpLocation :=
  if isCheckpointMoreThanOnePage nBytes then .last else .first

/-- The size of a checkpoint is not one page exactly. -/
def Fitting (nBytes : Nat) : Prop := seqCheckpointSize + nBytes ≠ pageSize

theorem lt_checkpointPages_iff (nBytes i : Nat) :
    i < checkpointPages nBytes ↔ i * pageSize < seqCheckpointSize + nBytes := by
  have hdiv := Nat.div_add_mod (seqCheckpointSize + nBytes) pageSize
  have hmod := Nat.mod_lt (seqCheckpointSize + nBytes) pageSize_pos
  unfold checkpointPages calculateInPages
  rw [Nat.mul_comm] at hdiv
  constructor
  · intro hi
    by_cases hzero : (seqCheckpointSize + nBytes) % pageSize = 0
    · rw [if_pos hzero, Nat.add_zero] at hi
      have := (Nat.mul_lt_mul_right pageSize_pos).mpr hi
      omega
    · rw [if_neg hzero] at hi
      have := Nat.mul_le_mul_right pageSize (Nat.le_of_lt_succ hi)
      omega
  · intro hi
    by_contra hno
    have hle := Nat.le_of_not_lt hno
    have hmul := Nat.mul_le_mul_right pageSize hle
    by_cases hzero : (seqCheckpointSize + nBytes) % pageSize = 0
    · rw [if_pos hzero, Nat.add_zero] at hmul
      omega
    · rw [if_neg hzero, Nat.add_mul, Nat.one_mul] at hmul
      omega

theorem one_lt_checkpointPages_iff (hfit : Fitting nBytes) :
    1 < checkpointPages nBytes ↔ isCheckpointMoreThanOnePage nBytes = true := by
  unfold Fitting at hfit
  rw [lt_checkpointPages_iff, Nat.one_mul, isCheckpointMoreThanOnePage, decide_eq_true_iff]
  omega

/-- The last page of a checkpoint has the flag that the search expects. -/
theorem setCpPageFlag_last (hfit : Fitting nBytes) :
    setCpPageFlag (checkpointPages nBytes - 1) (checkpointPages nBytes - 1) = endFlag nBytes := by
  have hpos := checkpointPages_pos nBytes
  have hmore := one_lt_checkpointPages_iff hfit
  unfold setCpPageFlag endFlag
  by_cases hone : 1 < checkpointPages nBytes
  · rw [if_neg (by omega), if_pos rfl, if_pos (hmore.mp hone)]
  · rw [if_pos (by omega), if_neg fun h => hone (hmore.mpr h)]

/-- The search finds the ends of the checkpoints, and nothing else. -/
theorem Contents.Logged.checkpointAt_iff (h : c.Logged nBytes slot n) (hfit : Fitting nBytes)
    (hpos : 0 < k) (hk : k < n) :
    c.CheckpointAt nBytes slot k ↔ c.flagAt slot k = endFlag nBytes := by
  constructor
  · rintro ⟨j, -, hpages⟩
    rw [hpages.flag_last, setCpPageFlag_last hfit]
  · intro hflag
    by_cases hone : 1 < checkpointPages nBytes
    · rw [endFlag, if_pos ((one_lt_checkpointPages_iff hfit).mp hone)] at hflag
      exact h.complete k hk hpos hflag
    · have hpages := checkpointPages_pos nBytes
      obtain hp : checkpointPages nBytes = 1 := by omega
      rw [← setCpPageFlag_last hfit] at hflag
      have hlast := CheckpointPages.last hflag
      rw [hp] at hlast
      refine ⟨k, hpos, ?_⟩
      rw [hp]
      exact hlast

end Logged

/-! ## Reading them -/

/-- Up to the offset `n` the pages of the segment are looked up in the slot. -/
structure SegMap.LooksUp (m : SegMap) (segment slot n : Nat) : Prop where
  mapped : m.segToSlot segment ≠ noSlot
  page : ∀ o < n, m.expectedPage ⟨segment, o⟩ = calcAddress slot 0 o

/-- What a search in the slot leaves in the map of the place of the head: a checkpoint in a bad erase
unit sets it to where that is replaced; nothing takes it back. -/
inductive FoundIn (w : World) (slot : Nat) : Option Nat → Bool → Nat → Prop
  | none : FoundIn w slot none w.segMap.isEuReserve w.segMap.reserveEuAddr
  | good {k : Nat} (good : w.flash.good (euAt slot (k / pagesPerEu)) = true) :
      FoundIn w slot (some k) w.segMap.isEuReserve w.segMap.reserveEuAddr
  | bad {k home : Nat} (bad : w.flash.good (euAt slot (k / pagesPerEu)) = false)
      (isHome : IsHome w.flash w.segMap slot (k / pagesPerEu) home) :
      FoundIn w slot (some k) true home

section Reads
variable {w : World} {c : Contents} {nBytes segment slot n : Nat} (h : Layout w.flash w.segMap c)
  (hslot : w.segMap.IsDataSlot slot) (hlook : w.segMap.LooksUp segment slot n)
  (hw : c.WrittenTo slot n) (hle : n ≤ pagesPerSlot)
include h hslot hlook hw hle

omit h hslot hlook hw hle in
/-- There is one newest checkpoint only. -/
theorem Contents.NewestAt.unique {k k' : Nat} (hk : c.NewestAt nBytes slot n k)
    (hk' : c.NewestAt nBytes slot n k') : k = k' := by
  obtain ⟨hlt, hat, hafter⟩ := hk
  obtain ⟨hlt', hat', hafter'⟩ := hk'
  rcases Nat.lt_trichotomy k k' with hl | heq | hg
  · exact absurd hat' (hafter k' hl hlt')
  · exact heq
  · exact absurd hat (hafter' k hg hlt)

/-- Where a page that is written is found. -/
theorem Layout.written_run {o : Nat} (ho : o < n) :
    ∃ home, IsHome w.flash w.segMap slot (o / pagesPerEu) home ∧
      logicalAddressToPhysical ⟨segment, o⟩ w = .ok (home + o % pagesPerEu) w := by
  have hlt : o < pagesPerSlot := by omega
  obtain ⟨home, hh⟩ := h.exists_home hslot hlt ((hw o hlt).mpr ho)
  exact ⟨home, hh, h.logicalAddressToPhysical_run hslot hlook.mapped hlt (hlook.page o ho) hh⟩

/-- What a page that is written says of checkpoints. -/
theorem Layout.flagAt_run {o : Nat} (ho : o < n) :
    ∃ a, logicalAddressToPhysical ⟨segment, o⟩ w = .ok a w ∧ a < pageCount ∧
      (w.flash.page a).flags.checkpoint = c.flagAt slot o := by
  have hlt : o < pagesPerSlot := by omega
  obtain ⟨home, hh, hrun⟩ := h.written_run hslot hlook hw hle ho
  have hpage := h.holds_at hslot hlt hh
  refine ⟨_, hrun, ?_, ?_⟩
  · exact (h.isEu_home hslot (div_lt_eusPerSlot hlt) hh).add_lt (Nat.mod_lt _ pagesPerEu_pos)
  · cases hst : c slot o with
    | none => exact absurd hst ((hw o hlt).mpr ho)
    | some st =>
      rw [hst] at hpage
      rw [Contents.flagAt, hst]
      exact congrArg Stored.checkpoint hpage.1

omit h hslot hlook hw hle in
theorem SegMap.isAddressReserve_iff {m : SegMap} {a : Nat} :
    m.isAddressReserve a = true ↔ ∃ seg ∈ reserveSegments, getSlot a = m.segToSlot seg := by
  unfold SegMap.isAddressReserve
  rw [List.any_eq_true]
  exact exists_congr fun seg => and_congr_right fun _ => beq_iff_eq

omit h hslot hlook hw hle in
/-- The pages of a reserve erase unit. -/
theorem SegMap.IsReserveEu.isAddressReserve_add {m : SegMap} {eu i : Nat} (h : m.IsReserveEu eu)
    (hi : i < pagesPerEu) : m.isAddressReserve (eu + i) = true := by
  obtain ⟨seg, hseg, k, hk, rfl⟩ := h
  exact SegMap.isAddressReserve_iff.mpr ⟨seg, hseg, getSlot_euAt hk hi⟩

omit h hslot hlook hw hle in
theorem SegMap.IsReserveEu.isAddressReserve {m : SegMap} {eu : Nat} (h : m.IsReserveEu eu) :
    m.isAddressReserve eu = true :=
  h.isAddressReserve_add pagesPerEu_pos

omit h hslot hlook hw hle in
/-- The pages of a data slot. -/
theorem SegMap.IsDataSlot.isAddressReserve_euAt {m : SegMap} {e i : Nat} (h : m.IsDataSlot slot)
    (he : e < eusPerSlot) (hi : i < pagesPerEu) : m.isAddressReserve (euAt slot e + i) = false := by
  refine Bool.eq_false_iff.mpr fun hres => ?_
  obtain ⟨seg, hseg, hslot⟩ := SegMap.isAddressReserve_iff.mp hres
  rw [getSlot_euAt he hi] at hslot
  exact h.data seg hseg hslot.symm

/-- Where a page that is written is found in a bad erase unit, it is in a reserve one. -/
theorem Layout.written_isReserve {o a : Nat} (ho : o < n)
    (hrun : logicalAddressToPhysical ⟨segment, o⟩ w = .ok a w) :
    if w.flash.good (euAt slot (o / pagesPerEu)) then w.segMap.isAddressReserve a = false
    else w.segMap.isAddressReserve a = true ∧
      IsHome w.flash w.segMap slot (o / pagesPerEu) (calcEuStart a) := by
  obtain ⟨home, hh, hfound⟩ := h.written_run hslot hlook hw hle ho
  have he : o / pagesPerEu < eusPerSlot := div_lt_eusPerSlot (by omega)
  have hin := Nat.mod_lt o pagesPerEu_pos
  obtain rfl : a = home + o % pagesPerEu := (EStateM.Result.ok.inj (hrun.symm.trans hfound)).1
  rw [(h.isEu_home hslot he hh).calcEuStart_add hin]
  cases hh with
  | self good =>
    rw [if_pos good]
    exact hslot.isAddressReserve_euAt he hin
  | reserve bad mem stands =>
    rw [bad, if_neg Bool.false_ne_true]
    exact ⟨mem.isAddressReserve_add hin, .reserve bad mem stands⟩

/-- `findCheckpointInSegment` returns the last offset up to `o` with the flag it looks for. -/
theorem findCheckpointInSegment_run (more : Bool) {o : Nat} (ho : o < n) :
    ∃ found x y, findCheckpointInSegment segment more o w =
        .ok found { w with segMap := w.segMap.placing x y } ∧
      (∀ k, found = some k → 0 < k ∧ k ≤ o ∧
        c.flagAt slot k = (if more then .last else .first)) ∧
      (∀ k, 0 < k → k ≤ o → (∀ k', found = some k' → k' < k) →
        c.flagAt slot k ≠ if more then .last else .first) ∧
      FoundIn w slot found x y := by
  induction o with
  | zero =>
    refine ⟨none, w.segMap.isEuReserve, w.segMap.reserveEuAddr, rfl, fun k hk => ?_,
      fun k hpos hk => ?_, .none⟩
    · exact absurd hk (Option.some_ne_none k).symm
    · exact absurd hpos (by omega)
  | succ o ih =>
    obtain ⟨a, hrun, hlt, hflag⟩ := h.flagAt_run hslot hlook hw hle ho
    have hne := ne_empty_of_lt hlt
    unfold findCheckpointInSegment
    rw [bind_ok hrun, bind_ok (assert_run (decide_eq_true hne)),
      bind_ok (nandReadPageFlags_run hlt), hflag]
    by_cases hfound : c.flagAt slot (o + 1) = if more then .last else .first
    · rw [if_pos hfound, bind_ok (show getSegMap w = .ok w.segMap w from rfl)]
      have hsome : ∀ k, some (o + 1) = some k → 0 < k ∧ k ≤ o + 1 ∧
          c.flagAt slot k = (if more then .last else .first) := by
        intro k hk
        obtain rfl := Option.some.inj hk
        exact ⟨Nat.succ_pos o, Nat.le_refl _, hfound⟩
      have hlast : ∀ k, 0 < k → k ≤ o + 1 → (∀ k', some (o + 1) = some k' → k' < k) →
          c.flagAt slot k ≠ if more then .last else .first := by
        intro k _ hk hno
        have := hno (o + 1) rfl
        omega
      have hplace := h.written_isReserve hslot hlook hw hle ho hrun
      cases hgood : w.flash.good (euAt slot ((o + 1) / pagesPerEu)) with
      | true =>
        rw [if_pos hgood] at hplace
        rw [hplace]
        exact ⟨some (o + 1), w.segMap.isEuReserve, w.segMap.reserveEuAddr, rfl, hsome, hlast,
          .good hgood⟩
      | false =>
        rw [hgood, if_neg Bool.false_ne_true] at hplace
        rw [hplace.1]
        exact ⟨some (o + 1), true, calcEuStart a, rfl, hsome, hlast, .bad hgood hplace.2⟩
    · rw [if_neg hfound]
      obtain ⟨found, x, y, hrest, hsome, hlast, hplace⟩ := ih (by omega)
      refine ⟨found, x, y, hrest, fun k hk => ?_, fun k hpos hk hno => ?_, hplace⟩
      · obtain ⟨hpos, hle, hflag⟩ := hsome k hk
        exact ⟨hpos, by omega, hflag⟩
      · rcases Nat.eq_or_lt_of_le hk with rfl | hlt
        · exact hfound
        · exact hlast k hpos (by omega) hno

/-- In a slot as the log writes it, the search from the last page back finds the newest checkpoint. -/
theorem Contents.Logged.search_run (hlog : c.Logged nBytes slot n) (hpos : 0 < n)
    (hfit : Fitting nBytes) :
    ∃ found x y, findCheckpointInSegment segment (isCheckpointMoreThanOnePage nBytes) (n - 1) w =
        .ok found { w with segMap := w.segMap.placing x y } ∧
      (∀ k, found = some k ↔ c.NewestAt nBytes slot n k) ∧ FoundIn w slot found x y := by
  obtain ⟨found, x, y, hrun, hsome, hlast, hplace⟩ := findCheckpointInSegment_run h hslot hlook hw hle
    (isCheckpointMoreThanOnePage nBytes) (Nat.sub_lt hpos Nat.one_pos)
  have hcp : ∀ k, 0 < k → k < n → (c.CheckpointAt nBytes slot k ↔ c.flagAt slot k =
      if isCheckpointMoreThanOnePage nBytes then .last else .first) :=
    fun k hk hlt => hlog.checkpointAt_iff hfit hk hlt
  have hnewest : ∀ k, found = some k → c.NewestAt nBytes slot n k := by
    intro k hk
    obtain ⟨hkpos, hkn, hflag⟩ := hsome k hk
    refine ⟨by omega, (hcp k hkpos (by omega)).mpr hflag, fun k' hgt hlt hat => ?_⟩
    refine hlast k' (by omega) (by omega) (fun k0 hk0 => ?_) ((hcp k' (by omega) hlt).mp hat)
    rw [hk] at hk0
    obtain rfl := Option.some.inj hk0
    exact hgt
  refine ⟨found, x, y, hrun, fun k => ⟨hnewest k, fun hk => ?_⟩, hplace⟩
  obtain ⟨hlt, hat, hafter⟩ := hk
  have hkpos : 0 < k := Nat.lt_of_lt_of_le (checkpointPages_pos nBytes) hat.pages_le
  cases hf : found with
  | none =>
    have hno := hlast k hkpos (by omega) fun k' hk' => absurd (hf ▸ hk') (Option.some_ne_none k').symm
    exact absurd ((hcp k hkpos hlt).mp hat) hno
  | some k0 =>
    rw [(hnewest k0 hf).unique ⟨hlt, hat, hafter⟩]

/-- From the last page of a checkpoint the search for the first one goes back to it. -/
theorem findCheckpointStart_run {j k : Nat} (hj : c.flagAt slot j = .first) (hpos : 0 < j)
    (hjk : j ≤ k) (hk : k < n) (hno : ∀ o, j < o → o ≤ k → c.flagAt slot o ≠ .first) :
    findCheckpointStart segment k w = .ok j w := by
  induction k with
  | zero => omega
  | succ k ih =>
    obtain ⟨a, hrun, hlt, hflag⟩ := h.flagAt_run hslot hlook hw hle hk
    unfold findCheckpointStart
    rw [bind_ok hrun, bind_ok (nandReadPageFlags_run hlt), hflag]
    rcases Nat.eq_or_lt_of_le hjk with rfl | hgt
    · rw [if_pos hj]
      rfl
    · rw [if_neg (hno _ hgt (Nat.le_refl _))]
      exact ih (by omega) (by omega) fun o hlo hle => hno o hlo (by omega)

omit h hslot hlook hw in
/-- Reading on from a page of a checkpoint to its last one: nothing but the counters in memory
changes. -/
theorem readCheckpointLoop_spec {o i k : Nat}
    (hpages : CheckpointPages (c.flagAt slot) (checkpointPages nBytes) o i k) (hk : k < n)
    {fuel : Nat} (hfuel : k < o + fuel) (data : Nat → UInt8) {w : World}
    (h : Layout w.flash w.segMap c) (hslot : w.segMap.IsDataSlot slot)
    (hlook : w.segMap.LooksUp segment slot n) (hw : c.WrittenTo slot n) :
    wp (readCheckpointLoop nBytes fuel (i * pageSize) data ⟨segment, o⟩)
      (fun r t => r.1 = 0 ∧ r.2.2.checkpoint =
          setCpPageFlag (checkpointPages nBytes - 1) (checkpointPages nBytes - 1) ∧
        t.flash = w.flash ∧ t.segMap = w.segMap) (fun _ _ => False) w := by
  have hpos := checkpointPages_pos nBytes
  have hsmall := pagesPerSlot_le
  induction fuel generalizing o i w data with
  | zero =>
    have := hpages.le
    omega
  | succ fuel ih =>
    have hok : o ≤ k := by
      have := hpages.le
      omega
    obtain ⟨a, hrun, hlt, hflag⟩ := h.flagAt_run hslot hlook hw hle (o := o) (by omega)
    have hnext : (⟨segment, o⟩ : LogAddr).setOffset (o + 1) = ⟨segment, o + 1⟩ := by
      rw [LogAddr.setOffset, Nat.mod_eq_of_lt (by omega)]
    have hbytes : i * pageSize + pageSize = (i + 1) * pageSize := by
      rw [Nat.add_mul, Nat.one_mul]
    have hmore := lt_checkpointPages_iff nBytes (i + 1)
    unfold readCheckpointLoop
    rw [wp_bind, wp_ok_iff hrun, wp_bind, wp_ok_iff (nandReadPageTotal_run hlt)]
    dsimp only
    rw [hflag, hnext, hbytes]
    have hpart : ∀ j, setCpPageFlag j (checkpointPages nBytes - 1) ≠ .notPart := by
      intro j
      unfold setCpPageFlag
      split_ifs <;> exact CpLocation.noConfusion
    cases hpages with
    | last hlast =>
      -- a page of the checkpoint changes the counters in memory only
      rw [if_neg (by rw [hlast]; exact hpart _), wp_bind]
      show wp (if (checkpointPages nBytes - 1 + 1) * pageSize < _ then _ else _) _ _ _
      rw [if_neg fun hno => by have := hmore.mpr hno; omega]
      exact ⟨rfl, hflag.trans hlast, rfl, rfl⟩
    | page hi hthis rest =>
      rw [if_neg (by rw [hthis]; exact hpart _), wp_bind]
      show wp (if (i + 1) * pageSize < _ then _ else _) _ _ _
      rw [if_pos (hmore.mp hi)]
      exact ih rest (by omega) _ h hslot hlook
    | skip hi hthis rest =>
      rw [if_pos hthis]
      exact ih rest (by omega) data h hslot hlook

/-- `readCheckpointToMemory` of a checkpoint that is complete. -/
theorem readCheckpointToMemory_spec (hfit : Fitting nBytes) {k : Nat}
    (hcp : c.CheckpointAt nBytes slot k) (hk : k < n) (data : Nat → UInt8) :
    wp (readCheckpointToMemory data nBytes ⟨segment, k⟩)
      (fun r t => r.1 = 0 ∧ t.flash = w.flash ∧ t.segMap = w.segMap) (fun _ _ => False) w := by
  obtain ⟨j, hpos, hpages⟩ := hcp
  have hjk := hpages.le
  have hcount := checkpointPages_pos nBytes
  have hone := one_lt_checkpointPages_iff hfit
  -- the rest, once the first page is known
  have hread : ∀ mem, wp (do
      let read ← readCheckpointLoop nBytes (pagesPerSlot + 1) 0 mem ⟨segment, j⟩
      if read.1 ≠ 0 then pure (1, read.2.1)
      else do
        assert (read.2.2.checkpoint == .last || !isCheckpointMoreThanOnePage nBytes)
        pure (0, read.2.1)) (fun r t => r.1 = 0 ∧ t.flash = w.flash ∧ t.segMap = w.segMap)
        (fun _ _ => False) w := by
    intro mem
    have hloop := readCheckpointLoop_spec hle hpages hk (show k < j + (pagesPerSlot + 1) by omega) mem
      h hslot hlook hw
    rw [Nat.zero_mul] at hloop
    refine wp_seq hloop ?_
    rintro ⟨res, mem', flags⟩ t ⟨hres, hlast, hflash, hmap⟩
    dsimp only at hres hlast ⊢
    rw [if_neg (not_not_intro hres), wp_bind]
    have htest : (flags.checkpoint == .last || !isCheckpointMoreThanOnePage nBytes) = true := by
      by_cases hmore : isCheckpointMoreThanOnePage nBytes = true
      · rw [hlast, setCpPageFlag_last hfit, endFlag, if_pos hmore]
        rfl
      · rw [Bool.eq_false_of_not_eq_true hmore, Bool.not_false, Bool.or_true]
    rw [wp_ok_iff (assert_run htest)]
    exact ⟨rfl, hflash, hmap⟩
  unfold readCheckpointToMemory
  by_cases hmore : isCheckpointMoreThanOnePage nBytes = true
  · have hp := hone.mpr hmore
    rw [if_pos hmore, wp_bind]
    obtain ⟨hfirst, hno⟩ := hpages.first rfl hp
    rw [wp_ok_iff (findCheckpointStart_run h hslot hlook hw hle hfirst hpos (by omega) hk hno)]
    exact hread _
  · have hp : checkpointPages nBytes = 1 := by
      by_contra hno
      exact hmore (hone.mp (by omega))
    rw [if_neg hmore]
    obtain rfl := hpages.eq_of_one rfl hp
    exact hread _

end Reads

end NandFs
