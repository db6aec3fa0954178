import NandFs.EuLookup
import NandFs.Format

/-! # Is a checkpoint read back as it was written?

`commit` writes the data of the layer above, the counters and, where there are several pages,
the state of the random generator.  `readCheckpointToMemory` counts the last as part of the
counters: it copies eight bytes more to the memory of `obs_counters_map` than there are, and
nothing to the state of the generator.  From a checkpoint of one page the data and the
counters do come back (`readCheckpointToMemory_single`).
-/
namespace NandFs

open Program

section RoundTrip
variable [Config]

open Config

/-! ## The counters as bytes -/

omit [Config] in
theorem getUint32_byte (mem : Nat → UInt8) (i : Nat) {k : Nat} (hk : k < 4) :
    uint32Byte (getUint32 mem i) k = mem (i + k) := by
  have h0 := (mem i).toNat_lt
  have h1 := (mem (i + 1)).toNat_lt
  have h2 := (mem (i + 2)).toNat_lt
  have h3 := (mem (i + 3)).toNat_lt
  rw [← UInt8.toNat_inj, uint32Byte, UInt8.toNat_ofNat', getUint32]
  rcases (show k = 0 ∨ k = 1 ∨ k = 2 ∨ k = 3 by omega) with rfl | rfl | rfl | rfl
  · simp only [Nat.add_zero]; omega
  · omega
  · omega
  · omega

/-- The object made of some bytes has those bytes. -/
@[simp] theorem ObsCounters.byte_ofBytes (mem : Nat → UInt8) (i : Nat) :
    (ObsCounters.ofBytes mem).byte i = mem i := by
  unfold ObsCounters.byte ObsCounters.ofBytes sizeofObsCountersMap
  by_cases h1 : i < obsCountersArraySize
  · rw [if_pos h1]
  rw [if_neg h1]
  by_cases h2 : i < obsCountersArraySize + 4
  · rw [if_pos h2, getUint32_byte _ _ (by omega)]
    congr 1
    omega
  rw [if_neg h2]
  by_cases h3 : i < obsCountersArraySize + 8
  · rw [if_pos h3, getUint32_byte _ _ (by omega)]
    congr 1
    omega
  · rw [if_neg h3]
    show mem _ = _
    congr 1
    omega

/-! ## What reading a checkpoint leaves alone -/

theorem frame_lfsr_findCheckpointInSegment (segment : Nat) (cpMoreThanOnePage : Bool)
    (offset : Nat) :
    Frame World.lfsrState (findCheckpointInSegment segment cpMoreThanOnePage offset) := by
  induction offset with
  | zero => exact frame_pure _
  | succ offset ih =>
    refine frame_bind (frame_logicalAddressToPhysical _) fun _ => frame_bind (frame_assert _)
      fun _ => frame_bind (frame_nandReadPageFlags _) fun _ => frame_ite ?_ ih
    refine frame_bind frame_getSegMap fun _ => frame_ite ?_ (frame_pure _)
    exact frame_bind (frame_modify fun _ => rfl) fun _ => frame_pure _

theorem frame_lfsr_findCheckpointStart (segment offset : Nat) :
    Frame World.lfsrState (findCheckpointStart segment offset) := by
  induction offset with
  | zero => exact frame_pure _
  | succ offset ih =>
    exact frame_bind (frame_logicalAddressToPhysical _) fun _ =>
      frame_bind (frame_nandReadPageFlags _) fun _ => frame_ite (frame_pure _) ih

theorem frame_lfsr_readCheckpointLoop (nBytes n i : Nat) (data : Nat → UInt8) (logAddr : LogAddr) :
    Frame World.lfsrState (readCheckpointLoop nBytes n i data logAddr) := by
  induction n generalizing i data logAddr with
  | zero => exact frame_throw _
  | succ n ih =>
    refine frame_bind (frame_logicalAddressToPhysical _) fun _ =>
      frame_bind (frame_nandReadPageTotal _) fun page => ?_
    cases page with
    | none => exact frame_pure _
    | some page =>
      refine frame_ite (ih _ _ _) (frame_bind (frame_modify fun _ => rfl) fun _ => ?_)
      exact frame_ite (ih _ _ _) (frame_pure _)

/-- The state of the random generator is not restored. -/
theorem frame_lfsr_readCheckpointToMemory (data : Nat → UInt8) (nBytes : Nat) (logAddr : LogAddr) :
    Frame World.lfsrState (readCheckpointToMemory data nBytes logAddr) := by
  have hrest : ∀ offset, Frame World.lfsrState (do
      let data := fun k => if k < nBytes then 0xff else data k
      let read ←
        readCheckpointLoop nBytes (pagesPerSlot + 1) 0 data { logAddr with offset := offset }
      if read.1 ≠ 0 then pure (1, read.2.1)
      else do
        assert (read.2.2.checkpoint == .last || !isCheckpointMoreThanOnePage nBytes)
        pure (0, read.2.1)) := by
    intro offset
    refine frame_bind (frame_lfsr_readCheckpointLoop _ _ _ _ _) fun _ => frame_ite (frame_pure _) ?_
    exact frame_bind (frame_assert _) fun _ => frame_pure _
  exact frame_ite (frame_bind (frame_lfsr_findCheckpointStart _ _) fun _ => hrest _)
    (frame_bind (frame_pure _) fun _ => hrest _)

/-! ## A checkpoint of one page -/

theorem readCheckpointLoop_last {s : World} {nBytes n i a : Nat} {data : Nat → UInt8}
    {logAddr : LogAddr} (haddr : logicalAddressToPhysical logAddr s = .ok a s) (ha : a < pageCount)
    (hcp : (s.flash.page a).flags.checkpoint ≠ .notPart)
    (hlast : seqCheckpointSize + nBytes ≤ i + pageSize) :
    readCheckpointLoop nBytes (n + 1) i data logAddr s =
      .ok (0, readToData data (s.flash.page a) nBytes i, (s.flash.page a).flags)
        { s with obsCountersMap := readToCounters s.obsCountersMap (s.flash.page a) nBytes i } := by
  unfold readCheckpointLoop
  rw [bind_ok haddr, bind_ok (nandReadPageTotal_run ha)]
  show (if (s.flash.page a).flags.checkpoint = .notPart then _ else _ : SeqM _) s = _
  rw [if_neg hcp]
  show (if i + pageSize < seqCheckpointSize + nBytes then _ else _ : SeqM _) _ = _
  rw [if_neg (by omega)]
  rfl

/-- A checkpoint of one page, read from where it was written: the data of the layer above and
the counters are those of `w`, the eight bytes of memory after the counters are overwritten
with ones, and the random state is what it was. -/
theorem readCheckpointToMemory_single {w s : World} {data mem : Nat → UInt8} {nBytes a : Nat}
    {logAddr : LogAddr} (hsize : seqCheckpointSize + nBytes < pageSize)
    (haddr : logicalAddressToPhysical logAddr s = .ok a s) (ha : a < pageCount)
    (hpage : s.flash.page a = singleCheckpointPage w data nBytes) :
    ∃ mem' t, readCheckpointToMemory mem nBytes logAddr s = .ok (0, mem') t ∧
      (∀ k, mem' k = if k < nBytes then data k else mem k) ∧
      (∀ k < sizeofObsCountersMap, t.obsCountersMap.byte k = w.obsCountersMap.byte k) ∧
      (∀ k < 8, t.obsCountersMap.beyond k = 0xff) ∧ t.lfsrState = s.lfsrState := by
  have hsz : seqCheckpointSize = sizeofObsCountersMap + 8 := rfl
  have hone : isCheckpointMoreThanOnePage nBytes = false := decide_eq_false (by omega)
  have hcp : (s.flash.page a).flags.checkpoint ≠ .notPart := by
    rw [hpage]
    exact CpLocation.noConfusion
  have hloop : readCheckpointLoop nBytes (pagesPerSlot + 1) 0
      (fun k => if k < nBytes then 0xff else mem k) logAddr s = _ :=
    readCheckpointLoop_last haddr ha hcp (by omega)
  rw [hpage] at hloop
  have hbyte : ∀ k < pageSize, (singleCheckpointPage w data nBytes).main.byte k =
      if k < nBytes then data k
      else if k < nBytes + sizeofObsCountersMap then w.obsCountersMap.byte (k - nBytes)
      else 0xff := fun k hk => by rw [Block.byte, dif_pos hk]; rfl
  have hcounters : ∀ k < seqCheckpointSize,
      (readToCounters s.obsCountersMap (singleCheckpointPage w data nBytes) nBytes 0).byte k =
        (singleCheckpointPage w data nBytes).main.byte (k + nBytes) := by
    intro k hk
    rw [readToCounters, ObsCounters.byte_ofBytes, if_pos (by omega), Nat.sub_zero]
  have hrun : readCheckpointToMemory mem nBytes logAddr s =
      .ok (0, readToData (fun k => if k < nBytes then 0xff else mem k)
          (singleCheckpointPage w data nBytes) nBytes 0)
        { s with obsCountersMap :=
            readToCounters s.obsCountersMap (singleCheckpointPage w data nBytes) nBytes 0 } := by
    unfold readCheckpointToMemory
    rw [hone, if_neg Bool.false_ne_true]
    show (readCheckpointLoop nBytes (pagesPerSlot + 1) 0 _ logAddr >>= _) s = _
    rw [bind_ok hloop]
    rfl
  refine ⟨_, _, hrun, fun k => ?_, fun k hk => ?_, fun k hk => ?_, rfl⟩
  · show (if 0 ≤ k ∧ k < 0 + pageSize ∧ k < nBytes then _ else _) = _
    by_cases hk : k < nBytes
    · rw [if_pos ⟨Nat.zero_le k, by omega, hk⟩, if_pos hk, Nat.sub_zero, hbyte k (by omega),
        if_pos hk]
    · rw [if_neg (fun h => hk h.2.2), if_neg hk]
      exact if_neg hk
  · rw [hcounters k (by omega), hbyte _ (by omega), if_neg (by omega), if_pos (by omega),
      Nat.add_sub_cancel]
  · have hbeyond := hcounters (sizeofObsCountersMap + k) (by omega)
    rw [hbyte _ (by omega), if_neg (by omega), if_neg (by omega)] at hbeyond
    rw [← hbeyond]
    have h1 : ¬ sizeofObsCountersMap + k < obsCountersArraySize := by
      unfold sizeofObsCountersMap; omega
    have h2 : ¬ sizeofObsCountersMap + k < obsCountersArraySize + 4 := by
      unfold sizeofObsCountersMap; omega
    rw [ObsCounters.byte, if_neg h1, if_neg h2, if_neg (by omega), Nat.add_sub_cancel_left]

/-! ## The round trip -/

/-- After the commit that left `t`: whatever the memory holds at the boot, the checkpoint is
found from the last page written back, and some fixed counters and random state, with the
data of the layer above, are read from it and nothing else in memory is touched. -/
def CheckpointRestored (data : Nat → UInt8) (nBytes : Nat) (t : World) : Prop :=
  ∃ (counters : Nat → UInt8) (lfsrState : UInt32), ∀ (ram : World) (mem : Nat → UInt8),
    ram.flash = t.flash → ram.segMap = t.segMap → ∃ offset u mem' u',
      findCheckpointInSegment t.segMap.reclaimed.segment (isCheckpointMoreThanOnePage nBytes)
        (t.segMap.reclaimed.offset - 1) ram = .ok (some offset) u ∧
      readCheckpointToMemory mem nBytes ⟨t.segMap.reclaimed.segment, offset⟩ u
        = .ok (0, mem') u' ∧
      (∀ i, mem' i = if i < nBytes then data i else mem i) ∧
      (∀ i < sizeofObsCountersMap, u'.obsCountersMap.byte i = counters i) ∧
      u'.lfsrState = lfsrState ∧
      u'.obsCountersMap.beyond = ram.obsCountersMap.beyond ∧ u'.afterLfsr = ram.afterLfsr

/-- Every commit that returns success can be read back. -/
def CheckpointRoundTrip (cpWriter : CheckpointWriter) (data : Nat → UInt8) (nBytes : Nat)
    (isPartOfHeader : Bool) (w : World) : Prop :=
  ∀ t, commit cpWriter data nBytes isPartOfHeader w = .ok 0 t → CheckpointRestored data nBytes t

/-- No checkpoint restores the random state: it is after the reading what it was before. -/
theorem not_checkpointRestored (data : Nat → UInt8) (nBytes : Nat) (t : World) :
    ¬ CheckpointRestored data nBytes t := by
  rintro ⟨counters, lfsrState, hread⟩
  have hkept : ∀ ram : World, ram.flash = t.flash → ram.segMap = t.segMap →
      ram.lfsrState = lfsrState := by
    intro ram hflash hmap
    obtain ⟨offset, u, mem', u', hfind, hrun, -, -, hlfsr, -⟩ := hread ram data hflash hmap
    rw [← (frame_lfsr_findCheckpointInSegment _ _ _).ok hfind,
      ← (frame_lfsr_readCheckpointToMemory _ _ _).ok hrun, hlfsr]
  have h0 : 0 = lfsrState := hkept { t with lfsrState := 0 } rfl rfl
  have h1 : 1 = lfsrState := hkept { t with lfsrState := 1 } rfl rfl
  exact absurd (h0.trans h1.symm) (by decide)

/-- The round trip holds only where `commit` does not return success. -/
theorem checkpointRoundTrip_iff (cpWriter : CheckpointWriter) (data : Nat → UInt8) (nBytes : Nat)
    (isPartOfHeader : Bool) (w : World) :
    CheckpointRoundTrip cpWriter data nBytes isPartOfHeader w ↔
      ∀ t, commit cpWriter data nBytes isPartOfHeader w ≠ .ok 0 t :=
  ⟨fun h t hrun => not_checkpointRestored data nBytes t (h t hrun),
    fun h t hrun => absurd hrun (h t)⟩

end RoundTrip

section SmallPage
attribute [local instance] smallPage

/-- The small-page chip with the first segment open: two pages of it hold its header and the
checkpoint that goes with it, the reserve segments have their headers. -/
def openSegmentWorld : World :=
  let w := erasedWorld fun _ => false
  { w with
    flash := { w.flash with
      page := fun a =>
        if a < 2 then ⟨fun _ => 0, { initFlags with segType := .used }⟩
        else if a = 65280 ∨ a = 65408 then
          ⟨fun _ => 0xff, { initFlags with segType := .reserve }.setSlotEuOffset reserveEuIsHeader⟩
        else initBuf
      mainAreaWrites := fun a => decide (a < 2) || a == 65280 || a == 65408 }
    segMap := { w.segMap with
      segToSlot := fun seg => if seg = 0 ∨ seg = 510 ∨ seg = 511 then seg else noSlot
      reclaimed := ⟨0, 2⟩
      newSlotId := 0
      nSegments := 1 } }

/-- The checkpoint of sixteen bytes that is committed there is not read back. -/
theorem checkpoint_not_restored : ¬ ∀ (cpWriter : CheckpointWriter) (data : Nat → UInt8)
    (nBytes : Nat) (isPartOfHeader : Bool) (w : World),
    CheckpointRoundTrip cpWriter data nBytes isPartOfHeader w := by
  intro hall
  have hcode : (match commit (fun _ => pure 0) UInt8.ofNat 16 false openSegmentWorld with
    | .ok res _ => res == 0
    | .error _ _ => false) = true := by decide +kernel
  cases hrun : commit (fun _ => pure 0) UInt8.ofNat 16 false openSegmentWorld with
  | ok res t =>
    rw [hrun] at hcode
    have hres : res = 0 := beq_iff_eq.mp hcode
    rw [hres] at hrun
    exact not_checkpointRestored _ _ t (hall _ _ _ _ _ t hrun)
  | error e t =>
    rw [hrun] at hcode
    exact Bool.false_ne_true hcode

end SmallPage

end NandFs
