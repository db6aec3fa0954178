import NandFs.FileBlocks

/-! # Where the search for the next block goes on

`findNextNonEmptySparseBlock` told in block numbers: what it finds from the entries of the
inode, from under the indirect, the double and the triple entry.  Under each the search ends
with an error where no later block hangs in the subtree it resumes in, also if there are
blocks after it, and under the triple entry it starts anew from the first block there.
-/
namespace NandFs

variable [FsConfig]

namespace StoredFiles
variable {m : StoredFiles} {a b : LogAddr}

@[simp] theorem fsReadBlock_empty : m.fsReadBlock LogAddr.empty = initBuf.main := rfl

theorem logAddrAt_initBuf (j : Nat) : logAddrAt initBuf.main j = LogAddr.empty := by
  have hbyte : ∀ k, Block.byte initBuf.main k = 0xff := by
    intro k
    rw [Block.byte]
    split <;> rfl
  rw [logAddrAt, hbyte, hbyte, hbyte]
  rfl

@[simp] theorem entry_empty (i : Nat) : m.entry LogAddr.empty i = LogAddr.empty := by
  rw [entry, fsReadBlock_empty, blockGetIndex, logAddrAt_initBuf]

theorem ne_empty_of_entry {i : Nat} (h : m.entry b i ≠ LogAddr.empty) : b ≠ LogAddr.empty := by
  rintro rfl
  exact h (entry_empty i)

/-- What lies past the end of a block reads as erased. -/
theorem lt_of_entry {i : Nat} (h : m.entry b i ≠ LogAddr.empty) : i < logAddressesPerBlock := by
  by_contra hge
  have hl := four_mul_logAddressesPerBlock
  have hbyte : ∀ k, 4 * i ≤ k → (m.fsReadBlock b).byte k = 0xff := fun k hk =>
    dif_neg (by omega)
  refine h ?_
  rw [entry, blockGetIndex, logAddrAt, hbyte _ (by omega), hbyte _ (by omega), hbyte _ (by omega)]
  rfl

variable (m) in
/-- A stored block of addresses holds one. -/
def Used (b : LogAddr) : Prop :=
  b ≠ LogAddr.empty → ∃ i < logAddressesPerBlock, m.entry b i ≠ LogAddr.empty

variable (m) (a) in
/-- The tree of a file.  No block of addresses in it is without an address
(`allocAndWriteBlockTid` writes none, and gives an empty address in its place), and all of its
blocks lie within its size. -/
structure IsTree : Prop where
  indirect : m.Used (inodeGetIndirect (m.fsReadBlock a))
  double : m.Used (inodeGetDouble (m.fsReadBlock a))
  underDouble : ∀ i, m.Used (m.entry (inodeGetDouble (m.fsReadBlock a)) i)
  triple : m.Used (inodeGetTriple (m.fsReadBlock a))
  underTriple : ∀ i, m.Used (m.entry (inodeGetTriple (m.fsReadBlock a)) i)
  underBoth : ∀ i j, m.Used (m.entry (m.entry (inodeGetTriple (m.fsReadBlock a)) i) j)
  within : ∀ n, m.blockAddr a n ≠ LogAddr.empty →
    blockOffset (n + 1) ≤ (inodeGetNbytes (m.fsReadBlock a)).toNat
  size_le : (inodeGetNbytes (m.fsReadBlock a)).toNat ≤ fsMaxFilesize

variable (m) (a) in
/-- The file has a block `n`. -/
def Has (n : Nat) : Prop := m.blockAddr a n ≠ LogAddr.empty

variable (m) (a) in
/-- `n` is the first block from `c` on. -/
def FirstFrom (c n : Nat) : Prop := c ≤ n ∧ m.Has a n ∧ ∀ k, c ≤ k → k < n → ¬m.Has a k

variable (m) (a) in
/-- The search answers with block `n`. -/
def Finds (s : Search) (n : Nat) : Prop := s = .ok (m.blockAddr a n, blockOffset n)

/-- The search ends with an error. -/
def Fails (s : Search) : Prop := ∃ e, s = .error e

/-! ## One block of addresses -/

omit [FsConfig] in
theorem firstEntry_eq_some {entry : Nat → LogAddr} {i j n : Nat} (hij : i ≤ j) (hj : j < n)
    (hne : entry j ≠ LogAddr.empty) (hbefore : ∀ k, i ≤ k → k < j → entry k = LogAddr.empty) :
    firstEntry entry i n = some j := by
  rw [firstEntry, List.find?_range'_eq_some]
  refine ⟨by simpa using hne, List.mem_range'_1.mpr ⟨hij, by omega⟩, fun k hk hkj => ?_⟩
  simpa using hbefore k hk hkj

omit [FsConfig] in
theorem firstEntry_eq_none {entry : Nat → LogAddr} {i n : Nat}
    (h : ∀ k, i ≤ k → k < n → entry k = LogAddr.empty) : firstEntry entry i n = none := by
  rw [firstEntry, List.find?_eq_none]
  intro k hk
  obtain ⟨hik, hkn⟩ := List.mem_range'_1.mp hk
  simpa using h k hik (by omega)

section Find
variable {e j n s : Nat}

/-- The search in a block of addresses whose first address from `e` on is in entry `j`. -/
theorem find_first (he : e ≤ j) (hne : m.entry b j ≠ LogAddr.empty)
    (hbefore : ∀ k, e ≤ k → k < j → m.entry b k = LogAddr.empty) :
    m.findNonEmptyDirectEntry b e (blockOffset n) (s * fsBlockSize) =
      if blockOffset (n + (j - e) * s) < fsMaxFilesize then
        .ok (m.entry b j, blockOffset (n + (j - e) * s))
      else .error (-1) := by
  have hoff : blockOffset n + ((j : Int) - e) * (s * fsBlockSize)
      = blockOffset (n + (j - e) * s) := by
    rw [blockOffset_add]
    push_cast [Nat.cast_sub he]
    ring
  have hfirst : firstEntry (blockGetIndex (m.fsReadBlock b)) e logAddressesPerBlock = some j :=
    firstEntry_eq_some he (lt_of_entry hne) hne hbefore
  rw [findNonEmptyDirectEntry, Int.toNat_natCast]
  simp only [hfirst, hoff, entry]

theorem find_none {offset size : Int} (h : ∀ k, e ≤ k → m.entry b k = LogAddr.empty) :
    m.findNonEmptyDirectEntry b e offset size = .error (-1) := by
  have hfirst : firstEntry (blockGetIndex (m.fsReadBlock b)) e logAddressesPerBlock = none :=
    firstEntry_eq_none fun k hk _ => h k hk
  rw [findNonEmptyDirectEntry, Int.toNat_natCast]
  simp only [hfirst]

/-- The search goes on in the block it found. -/
theorem find_first_bind {next : LogAddr × Int → Search} {res : Search} (he : e ≤ j)
    (hne : m.entry b j ≠ LogAddr.empty)
    (hbefore : ∀ k, e ≤ k → k < j → m.entry b k = LogAddr.empty)
    (hpast : fsMaxFilesize ≤ blockOffset (n + (j - e) * s) → res = .error (-1))
    (hnext : next (m.entry b j, blockOffset (n + (j - e) * s)) = res) :
    (m.findNonEmptyDirectEntry b e (blockOffset n) (s * fsBlockSize) >>= next) = res := by
  rw [find_first he hne hbefore]
  split
  · exact hnext
  · rename_i hmax
    rw [hpast (not_lt.mp hmax)]
    rfl

end Find

/-! ## Under the triple entry -/

section Stages
variable {n : Nat}

/-- A search resumed under the triple entry takes a place in bytes for the number of an entry. -/
theorem findFromTriple_resumed {t : Nat}
    (ht : t % (logAddressesPerBlock * logAddressesPerBlock) ≠ 0) :
    Fails (m.findFromTriple (m.fsReadBlock a) (blockOffset (firstTriple + t))) := by
  rw [findFromTriple]
  by_cases hempty : isAddrEmpty (inodeGetTriple (m.fsReadBlock a)) = true
  · rw [if_pos hempty]
    exact ⟨_, rfl⟩
  · have htemp := calcOffsetFromTriple_eq t 0
    rw [Nat.cast_zero, add_zero] at htemp
    have hpast : ∀ k, t % (logAddressesPerBlock * logAddressesPerBlock) * pageSize + 0 ≤ k →
        m.entry (inodeGetTriple (m.fsReadBlock a)) k = LogAddr.empty := by
      intro k hk
      by_contra hne
      have hlt := lt_of_entry hne
      have hl := four_mul_logAddressesPerBlock
      have := Nat.le_mul_of_pos_left pageSize (Nat.pos_of_ne_zero ht)
      omega
    rw [if_neg hempty]
    dsimp only
    rw [htemp, calcOffsetInDoubleSize_eq t pageSize_pos, find_none hpast]
    exact ⟨_, rfl⟩

/-- The entries on the way to the first block under the triple entry are the first of their
blocks that are not empty. -/
theorem FirstFrom.triple_path (h : m.IsTree a) {i j k : Nat} (hj : j < logAddressesPerBlock)
    (hk : k < logAddressesPerBlock)
    (hn : m.FirstFrom a firstTriple (firstTriple +
      (i * (logAddressesPerBlock * logAddressesPerBlock) + (j * logAddressesPerBlock + k)))) :
    (∀ i' < i, m.entry (inodeGetTriple (m.fsReadBlock a)) i' = LogAddr.empty) ∧
    (∀ j' < j, m.entry (m.entry (inodeGetTriple (m.fsReadBlock a)) i) j' = LogAddr.empty) ∧
    ∀ k' < k, m.entry (m.entry (m.entry (inodeGetTriple (m.fsReadBlock a)) i) j) k'
      = LogAddr.empty := by
  obtain ⟨-, -, hbefore⟩ := hn
  refine ⟨fun i' hlt => ?_, fun j' hlt => ?_, fun k' hlt => ?_⟩
  · by_contra hne
    obtain ⟨j', hj', hne'⟩ := h.underTriple i' hne
    obtain ⟨k', hk', hne''⟩ := h.underBoth i' j' hne'
    rw [← blockAddr_triple_at hj' hk'] at hne''
    have hi := Nat.mul_le_mul_right (logAddressesPerBlock * logAddressesPerBlock)
      (Nat.succ_le_of_lt hlt)
    have hj := Nat.mul_le_mul_right logAddressesPerBlock (Nat.succ_le_of_lt hj')
    rw [Nat.succ_mul] at hi hj
    exact hbefore _ (Nat.le_add_right ..) (by omega) hne''
  · by_contra hne
    obtain ⟨k', hk', hne'⟩ := h.underBoth i j' hne
    rw [← blockAddr_triple_at (hlt.trans hj) hk'] at hne'
    have hj := Nat.mul_le_mul_right logAddressesPerBlock (Nat.succ_le_of_lt hlt)
    rw [Nat.succ_mul] at hj
    exact hbefore _ (Nat.le_add_right ..) (by omega) hne'
  · by_contra hne
    rw [← blockAddr_triple_at hj (hlt.trans hk)] at hne
    exact hbefore _ (Nat.le_add_right ..) (by omega) hne

/-- A search at the start of a range of a double entry finds the first block under the triple
entry, wherever it comes from. -/
theorem findFromTriple_again (h : m.IsTree a) (hn : m.FirstFrom a firstTriple n) {t : Nat}
    (ht : t % (logAddressesPerBlock * logAddressesPerBlock) = 0) :
    m.findFromTriple (m.fsReadBlock a) (blockOffset (firstTriple + t)) =
      if blockOffset (n + t) < fsMaxFilesize then .ok (m.blockAddr a n, blockOffset (n + t))
      else .error (-1) := by
  obtain ⟨u, rfl⟩ := Nat.exists_eq_add_of_le hn.1
  obtain ⟨i, j, k, hj, hk, rfl⟩ := exists_triple_path u
  obtain ⟨hi_before, hj_before, hk_before⟩ := hn.triple_path h hj hk
  have hleaf : m.entry (m.entry (m.entry (inodeGetTriple (m.fsReadBlock a)) i) j) k
      ≠ LogAddr.empty := by
    rw [← blockAddr_triple_at hj hk]
    exact hn.2.1
  have hTij := ne_empty_of_entry hleaf
  have hTi := ne_empty_of_entry hTij
  have hT := ne_empty_of_entry hTi
  -- each of the three searches starts with entry 0
  have htemp := calcOffsetFromTriple_eq t 0
  have hsize := calcOffsetInDoubleSize_eq t pageSize_pos
  rw [Nat.cast_zero, add_zero] at htemp
  rw [ht, Nat.zero_mul, Nat.zero_add] at hsize
  have hzero : calcOffsetInIndirectSize ((0 : Nat) : Int) = (0 : Nat) := by
    simp [calcOffsetInIndirectSize]
  have hzero' : calcInBlocks ((0 : Nat) : Int) = (0 : Nat) := by simp [calcInBlocks]
  have hone : fsBlockSize = ((1 : Nat) : Int) * fsBlockSize := by rw [Nat.cast_one, one_mul]
  have hpast : ∀ v, v ≤ firstTriple + (i * (logAddressesPerBlock * logAddressesPerBlock)
      + (j * logAddressesPerBlock + k)) + t → fsMaxFilesize ≤ blockOffset v →
      ¬blockOffset (firstTriple + (i * (logAddressesPerBlock * logAddressesPerBlock)
        + (j * logAddressesPerBlock + k)) + t) < fsMaxFilesize := by
    intro v hv hmax
    have := blockOffset_le_iff.mpr hv
    omega
  rw [findFromTriple, if_neg (by simpa using hT)]
  dsimp only
  rw [htemp, hsize, inodeDoubleDataSize_eq]
  refine find_first_bind (Nat.zero_le i) hTi (fun i' _ => hi_before i')
    (fun hmax => if_neg (hpast _ (by rw [Nat.sub_zero]; omega) hmax)) ?_
  dsimp only
  rw [hzero, hzero', inodeIndirectDataSize_eq]
  refine find_first_bind (Nat.zero_le j) hTij (fun j' _ => hj_before j')
    (fun hmax => if_neg (hpast _ (by rw [Nat.sub_zero, Nat.sub_zero]; omega) hmax)) ?_
  dsimp only
  rw [hone, find_first (Nat.zero_le k) hleaf fun k' _ => hk_before k', blockAddr_triple_at hj hk]
  have hsum : firstTriple + t + (i - 0) * (logAddressesPerBlock * logAddressesPerBlock)
      + (j - 0) * logAddressesPerBlock + (k - 0) * 1 =
      firstTriple + (i * (logAddressesPerBlock * logAddressesPerBlock)
        + (j * logAddressesPerBlock + k)) + t := by
    rw [Nat.sub_zero, Nat.sub_zero, Nat.sub_zero]
    omega
  rw [hsum]

theorem findFromTriple_empty (hT : inodeGetTriple (m.fsReadBlock a) = LogAddr.empty)
    (offset : Int) : Fails (m.findFromTriple (m.fsReadBlock a) offset) := by
  rw [findFromTriple, if_pos (by simpa using hT)]
  exact ⟨_, rfl⟩

/-! ## Under the double entry -/

theorem IsTree.lt_max (h : m.IsTree a) (hn : m.Has a n) : blockOffset n < fsMaxFilesize := by
  have hin := h.within n hn
  have hsize := h.size_le
  have hlt := (blockOffset_lt_iff (n := n) (k := n + 1) pageSize_pos).mpr (Nat.lt_succ_self n)
  omega

section Double
variable {i₀ j₀ : Nat}

/-- The two searches under the double entry, the one in the block of addresses found from where
the search before ended in its own. -/
theorem findFromDouble_eq (hD : inodeGetDouble (m.fsReadBlock a) ≠ LogAddr.empty)
    (hj₀ : j₀ < logAddressesPerBlock) :
    m.findFromDouble (m.fsReadBlock a)
        (blockOffset (firstDouble + (i₀ * logAddressesPerBlock + j₀))) =
      (m.findNonEmptyDirectEntry (inodeGetDouble (m.fsReadBlock a)) i₀
        (blockOffset (firstDouble + (i₀ * logAddressesPerBlock + j₀)))
        (logAddressesPerBlock * fsBlockSize) >>= fun found =>
      m.findNonEmptyDirectEntry found.1 j₀ found.2 ((1 : Nat) * fsBlockSize)) := by
  obtain ⟨hdiv, hmod⟩ := div_mod_at (i := i₀) hj₀
  have htemp := calcOffsetFromDouble_eq (i₀ * logAddressesPerBlock + j₀) 0
  rw [Nat.cast_zero, add_zero] at htemp
  rw [findFromDouble, if_neg (by simpa using hD)]
  dsimp only
  rw [htemp, calcOffsetInDoubleBlock_eq _ pageSize_pos, calcOffsetInIndirectSize_eq _ pageSize_pos,
    calcInBlocks_eq _ pageSize_pos, hdiv, hmod, inodeIndirectDataSize_eq, Nat.cast_one, one_mul]

theorem findFromDouble_first (h : m.IsTree a) (hj₀ : j₀ < logAddressesPerBlock) {i j : Nat}
    (hi : i < logAddressesPerBlock) (hj : j < logAddressesPerBlock)
    (hn : m.FirstFrom a (firstDouble + (i₀ * logAddressesPerBlock + j₀))
      (firstDouble + (i * logAddressesPerBlock + j))) (hsame : j₀ = 0 ∨ i = i₀) :
    m.Finds a (m.findFromDouble (m.fsReadBlock a)
      (blockOffset (firstDouble + (i₀ * logAddressesPerBlock + j₀))))
      (firstDouble + (i * logAddressesPerBlock + j)) := by
  obtain ⟨hle, hhas, hbefore⟩ := hn
  have hmax := h.lt_max hhas
  have hleaf : m.entry (m.entry (inodeGetDouble (m.fsReadBlock a)) i) j ≠ LogAddr.empty := by
    rw [← blockAddr_double_at hi hj]
    exact hhas
  have hDi := ne_empty_of_entry hleaf
  have hi₀ : i₀ ≤ i := by
    by_contra hlt
    have := Nat.mul_le_mul_right logAddressesPerBlock (Nat.succ_le_of_lt (Nat.lt_of_not_le hlt))
    rw [Nat.succ_mul] at this
    omega
  have hj₀j : j₀ ≤ j := by
    rcases hsame with rfl | rfl
    · exact Nat.zero_le j
    · omega
  have hi_before : ∀ i', i₀ ≤ i' → i' < i →
      m.entry (inodeGetDouble (m.fsReadBlock a)) i' = LogAddr.empty := by
    intro i' hle' hlt
    by_contra hne
    obtain ⟨j', hj', hne'⟩ := h.underDouble i' hne
    rw [← blockAddr_double_at (hlt.trans hi) hj'] at hne'
    have hmul := Nat.mul_le_mul_right logAddressesPerBlock (Nat.succ_le_of_lt hlt)
    rw [Nat.succ_mul] at hmul
    refine hbefore _ ?_ (by omega) hne'
    rcases hsame with rfl | rfl
    · have := Nat.mul_le_mul_right logAddressesPerBlock hle'
      omega
    · omega
  have hj_before : ∀ j', j₀ ≤ j' → j' < j →
      m.entry (m.entry (inodeGetDouble (m.fsReadBlock a)) i) j' = LogAddr.empty := by
    intro j' hle' hlt
    by_contra hne
    rw [← blockAddr_double_at hi (hlt.trans hj)] at hne
    have := Nat.mul_le_mul_right logAddressesPerBlock hi₀
    exact hbefore _ (by omega) (by omega) hne
  have hmul : i * logAddressesPerBlock
      = i₀ * logAddressesPerBlock + (i - i₀) * logAddressesPerBlock := by
    rw [← Nat.add_mul]
    congr 1
    omega
  have hsum : firstDouble + (i₀ * logAddressesPerBlock + j₀) + (i - i₀) * logAddressesPerBlock
      + (j - j₀) * 1 = firstDouble + (i * logAddressesPerBlock + j) := by omega
  rw [Finds, findFromDouble_eq (ne_empty_of_entry hDi) hj₀]
  refine find_first_bind hi₀ hDi hi_before (fun hpast => ?_) ?_
  · have := blockOffset_le_iff.mpr (show firstDouble + (i₀ * logAddressesPerBlock + j₀)
      + (i - i₀) * logAddressesPerBlock ≤ firstDouble + (i * logAddressesPerBlock + j) by omega)
    omega
  · dsimp only
    rw [find_first hj₀j hleaf hj_before, hsum, if_pos hmax, blockAddr_double_at hi hj]

/-- Where nothing more hangs in the block of addresses that the search resumes in, it does not
go on to the next one. -/
theorem findFromDouble_gap (hi₀ : i₀ < logAddressesPerBlock) (hj₀ : j₀ < logAddressesPerBlock)
    (hDi : m.entry (inodeGetDouble (m.fsReadBlock a)) i₀ ≠ LogAddr.empty)
    (hgap : ∀ j, j₀ ≤ j → j < logAddressesPerBlock →
      ¬m.Has a (firstDouble + (i₀ * logAddressesPerBlock + j))) :
    Fails (m.findFromDouble (m.fsReadBlock a)
      (blockOffset (firstDouble + (i₀ * logAddressesPerBlock + j₀)))) := by
  have hempty : ∀ j, j₀ ≤ j →
      m.entry (m.entry (inodeGetDouble (m.fsReadBlock a)) i₀) j = LogAddr.empty := by
    intro j hle
    by_contra hne
    have hj := lt_of_entry hne
    rw [← blockAddr_double_at hi₀ hj] at hne
    exact hgap j hle hj hne
  refine ⟨-1, ?_⟩
  rw [findFromDouble_eq (ne_empty_of_entry hDi) hj₀]
  refine find_first_bind (Nat.le_refl i₀) hDi (fun k hk hlt => by omega) (fun _ => rfl) ?_
  exact find_none hempty

theorem findFromDouble_none (h : m.IsTree a) (hi₀ : i₀ < logAddressesPerBlock)
    (hj₀ : j₀ < logAddressesPerBlock)
    (hD : inodeGetDouble (m.fsReadBlock a) ≠ LogAddr.empty)
    (hnone : ∀ k, firstDouble + (i₀ * logAddressesPerBlock + j₀) ≤ k → k < firstTriple →
      ¬m.Has a k) :
    Fails (m.findFromDouble (m.fsReadBlock a)
      (blockOffset (firstDouble + (i₀ * logAddressesPerBlock + j₀)))) := by
  by_cases hDi : m.entry (inodeGetDouble (m.fsReadBlock a)) i₀ = LogAddr.empty
  · have hempty : ∀ i, i₀ ≤ i → m.entry (inodeGetDouble (m.fsReadBlock a)) i = LogAddr.empty := by
      intro i hle
      by_contra hne
      have hi := lt_of_entry hne
      obtain ⟨j, hj, hne'⟩ := h.underDouble i hne
      rw [← blockAddr_double_at hi hj] at hne'
      have hlt : i₀ < i := lt_of_le_of_ne hle fun heq => hne (heq ▸ hDi)
      have hmul := Nat.mul_le_mul_right logAddressesPerBlock (Nat.succ_le_of_lt hlt)
      rw [Nat.succ_mul] at hmul
      have := at_lt hi hj
      exact hnone _ (by omega) (by rw [firstTriple]; omega) hne'
    rw [findFromDouble_eq hD hj₀, find_none hempty]
    exact ⟨_, rfl⟩
  · refine findFromDouble_gap hi₀ hj₀ hDi fun j hle hj => ?_
    have := at_lt hi₀ hj
    exact hnone _ (by omega) (by rw [firstTriple]; omega)

end Double

/-! ## Under the indirect entry -/

section Indirect
variable {c c' : Nat}

theorem findFromIndirect_eq (hI : inodeGetIndirect (m.fsReadBlock a) ≠ LogAddr.empty) :
    m.findFromIndirect (m.fsReadBlock a) (blockOffset (directIndexEntries + c)) =
      m.findNonEmptyDirectEntry (inodeGetIndirect (m.fsReadBlock a)) c
        (blockOffset (directIndexEntries + c)) ((1 : Nat) * fsBlockSize) := by
  have htemp := calcOffsetFromIndirect_eq c 0
  rw [Nat.cast_zero, add_zero] at htemp
  rw [findFromIndirect, if_neg (by simpa using hI), htemp, calcInBlocks_eq c pageSize_pos,
    Nat.cast_one, one_mul]

theorem findFromIndirect_first (h : m.IsTree a) (hc' : c' < logAddressesPerBlock)
    (hn : m.FirstFrom a (directIndexEntries + c) (directIndexEntries + c')) :
    m.Finds a (m.findFromIndirect (m.fsReadBlock a) (blockOffset (directIndexEntries + c)))
      (directIndexEntries + c') := by
  obtain ⟨hle, hhas, hbefore⟩ := hn
  have hmax := h.lt_max hhas
  have hleaf : m.entry (inodeGetIndirect (m.fsReadBlock a)) c' ≠ LogAddr.empty := by
    rw [← blockAddr_indirect hc']
    exact hhas
  have hc_before : ∀ k, c ≤ k → k < c' →
      m.entry (inodeGetIndirect (m.fsReadBlock a)) k = LogAddr.empty := by
    intro k hk hlt
    by_contra hne
    rw [← blockAddr_indirect (hlt.trans hc')] at hne
    exact hbefore _ (by omega) (by omega) hne
  have hsum : directIndexEntries + c + (c' - c) * 1 = directIndexEntries + c' := by omega
  rw [Finds, findFromIndirect_eq (ne_empty_of_entry hleaf),
    find_first (by omega) hleaf hc_before, hsum, if_pos hmax, blockAddr_indirect hc']

theorem findFromIndirect_none (hI : inodeGetIndirect (m.fsReadBlock a) ≠ LogAddr.empty)
    (hnone : ∀ k, directIndexEntries + c ≤ k → k < firstDouble → ¬m.Has a k) :
    Fails (m.findFromIndirect (m.fsReadBlock a) (blockOffset (directIndexEntries + c))) := by
  have hempty : ∀ k, c ≤ k →
      m.entry (inodeGetIndirect (m.fsReadBlock a)) k = LogAddr.empty := by
    intro k hk
    by_contra hne
    have hlt := lt_of_entry hne
    rw [← blockAddr_indirect hlt] at hne
    exact hnone _ (by omega) (by rw [firstDouble]; omega) hne
  rw [findFromIndirect_eq hI, find_none hempty]
  exact ⟨_, rfl⟩

end Indirect

end Stages

end StoredFiles

end NandFs
