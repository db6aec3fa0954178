import NandFs.SparseSearch

/-! # The next block of a file

The whole of `findNextNonEmptySparseBlock`, by the number of the block it starts after.  At the
start of a range it finds the first block there is from there on.  Elsewhere it looks no
further than the `window` of the place it resumes at, and under the triple entry not even
that.
-/
namespace NandFs

variable [FsConfig]

/-- How far the search looks that resumes at block `c`: everywhere at the start of the direct
blocks or of what is under an entry of the inode, up to the end of the indirect range within
it, within a block of addresses under the double entry up to the end of its range, and from
the start of one of these up to the end of the double range. -/
def window (c : Nat) : Option Nat :=
  if c ≤ directIndexEntries ∨ c = firstDouble ∨ firstTriple ≤ c then none
  else if c < firstDouble then some firstDouble
  else if (c - firstDouble) % logAddressesPerBlock ≠ 0 then
    some (firstDouble + ((c - firstDouble) / logAddressesPerBlock + 1) * logAddressesPerBlock)
  else some firstTriple

/-- Block `k` is not past what the search that resumes at `c` looks at. -/
def InWindow (c k : Nat) : Prop := ∀ e ∈ window c, k < e

theorem InWindow.mono {c k k' : Nat} (h : InWindow c k) (hle : k' ≤ k) : InWindow c k' :=
  fun e he => Nat.lt_of_le_of_lt hle (h e he)

section Windows

theorem inWindow_start {c k : Nat} (h : c ≤ directIndexEntries ∨ c = firstDouble ∨ firstTriple ≤ c) :
    InWindow c k := by
  intro e he
  rw [window, if_pos h] at he
  cases he

theorem inWindow_indirect {c k : Nat} (hpos : 0 < c) (hc : c < logAddressesPerBlock) :
    InWindow (directIndexEntries + c) k ↔ k < firstDouble := by
  have hstart : ¬(directIndexEntries + c ≤ directIndexEntries ∨
      directIndexEntries + c = firstDouble ∨ firstTriple ≤ directIndexEntries + c) := by
    rw [firstTriple, firstDouble]
    omega
  have hlt : directIndexEntries + c < firstDouble := by
    rw [firstDouble]
    omega
  rw [InWindow, window, if_neg hstart, if_pos hlt]
  simp

variable {i j k : Nat}

theorem not_start_double (hi : i < logAddressesPerBlock) (hj : j < logAddressesPerBlock)
    (h : 0 < i * logAddressesPerBlock + j) :
    ¬(firstDouble + (i * logAddressesPerBlock + j) ≤ directIndexEntries ∨
      firstDouble + (i * logAddressesPerBlock + j) = firstDouble ∨
      firstTriple ≤ firstDouble + (i * logAddressesPerBlock + j)) := by
  have hat := at_lt hi hj
  rw [firstTriple, firstDouble]
  omega

theorem inWindow_within (hi : i < logAddressesPerBlock) (hj : j < logAddressesPerBlock)
    (hpos : 0 < j) :
    InWindow (firstDouble + (i * logAddressesPerBlock + j)) k ↔
      k < firstDouble + (i + 1) * logAddressesPerBlock := by
  obtain ⟨hdiv, hmod⟩ := div_mod_at (i := i) hj
  have hstart := not_start_double hi hj (by omega)
  have hge : ¬firstDouble + (i * logAddressesPerBlock + j) < firstDouble := by omega
  rw [InWindow, window, if_neg hstart, if_neg hge, Nat.add_sub_cancel_left, hdiv, hmod,
    if_pos (Nat.ne_of_gt hpos)]
  simp

theorem inWindow_next (hi : i < logAddressesPerBlock) (hpos : 0 < i) :
    InWindow (firstDouble + (i * logAddressesPerBlock + 0)) k ↔ k < firstTriple := by
  have hl : 0 < logAddressesPerBlock := Nat.lt_of_le_of_lt (Nat.zero_le i) hi
  obtain ⟨hdiv, hmod⟩ := div_mod_at (i := i) hl
  have hstart := not_start_double hi hl (Nat.add_pos_left (Nat.mul_pos hpos hl) 0)
  have hge : ¬firstDouble + (i * logAddressesPerBlock + 0) < firstDouble := by omega
  rw [InWindow, window, if_neg hstart, if_neg hge, Nat.add_sub_cancel_left, hmod, if_neg (by simp)]
  simp

end Windows

namespace StoredFiles
variable {m : StoredFiles} {a : LogAddr} {n n' p : Nat}

/-! ## From the start of a range -/

theorem FirstFrom.mono {c c' : Nat} (h : m.FirstFrom a c n) (hle : c ≤ c') (hn : c' ≤ n) :
    m.FirstFrom a c' n := ⟨hn, h.2.1, fun k hk => h.2.2 k (hle.trans hk)⟩

theorem IsTree.indirect_empty (h : m.IsTree a)
    (hnone : ∀ k, directIndexEntries ≤ k → k < firstDouble → ¬m.Has a k) :
    inodeGetIndirect (m.fsReadBlock a) = LogAddr.empty := by
  by_contra hne
  obtain ⟨c, hc, hleaf⟩ := h.indirect hne
  rw [← blockAddr_indirect hc] at hleaf
  exact hnone _ (by omega) (by rw [firstDouble]; omega) hleaf

theorem IsTree.double_empty (h : m.IsTree a)
    (hnone : ∀ k, firstDouble ≤ k → k < firstTriple → ¬m.Has a k) :
    inodeGetDouble (m.fsReadBlock a) = LogAddr.empty := by
  by_contra hne
  obtain ⟨i, hi, hi'⟩ := h.double hne
  obtain ⟨j, hj, hleaf⟩ := h.underDouble i hi'
  rw [← blockAddr_double_at hi hj] at hleaf
  have := at_lt hi hj
  exact hnone _ (by omega) (by rw [firstTriple]; omega) hleaf

theorem IsTree.triple_empty (h : m.IsTree a) (hnone : ∀ k, firstTriple ≤ k → ¬m.Has a k) :
    inodeGetTriple (m.fsReadBlock a) = LogAddr.empty := by
  by_contra hne
  obtain ⟨i, -, hi⟩ := h.triple hne
  obtain ⟨j, hj, hj'⟩ := h.underTriple i hi
  obtain ⟨k, hk, hleaf⟩ := h.underBoth i j hj'
  rw [← blockAddr_triple_at hj hk] at hleaf
  exact hnone _ (by omega) hleaf

theorem fromTriple_start (h : m.IsTree a) (hn : m.FirstFrom a firstTriple n) :
    m.Finds a (m.findFromTriple (m.fsReadBlock a) (blockOffset firstTriple)) n := by
  have hfind := findFromTriple_again h hn (Nat.zero_mod _)
  rw [Nat.add_zero, Nat.add_zero, if_pos (h.lt_max hn.2.1)] at hfind
  exact hfind

theorem fromTriple_end (h : m.IsTree a) (hnone : ∀ k, firstTriple ≤ k → ¬m.Has a k)
    (offset : Int) : Fails (m.findFromTriple (m.fsReadBlock a) offset) :=
  findFromTriple_empty (h.triple_empty hnone) offset

theorem fromDouble_of_empty (hD : inodeGetDouble (m.fsReadBlock a) = LogAddr.empty) (offset : Int) :
    m.findFromDouble (m.fsReadBlock a) offset =
      m.findFromTriple (m.fsReadBlock a) (blockOffset firstTriple) := by
  rw [findFromDouble, if_pos (by simpa using hD), tripleDataOffset_eq]

theorem fromDouble_start (h : m.IsTree a) (hn : m.FirstFrom a firstDouble n) :
    m.Finds a (m.findFromDouble (m.fsReadBlock a) (blockOffset firstDouble)) n := by
  have hl : 0 < logAddressesPerBlock := Nat.lt_of_lt_of_le (by decide) logAddressesPerBlock_ge
  by_cases hlt : n < firstTriple
  · obtain ⟨d, rfl⟩ := Nat.exists_eq_add_of_le hn.1
    have hd : d < logAddressesPerBlock * logAddressesPerBlock := by
      rw [firstTriple] at hlt
      omega
    obtain ⟨i, j, hi, hj, rfl⟩ := exists_double_path hd
    have hfirst : m.FirstFrom a (firstDouble + (0 * logAddressesPerBlock + 0))
        (firstDouble + (i * logAddressesPerBlock + j)) := by rwa [Nat.zero_mul]
    have hfind := findFromDouble_first h hl hi hj hfirst (.inl rfl)
    rwa [Nat.zero_mul] at hfind
  · have hD := h.double_empty fun k hk hk' => hn.2.2 k hk (by omega)
    rw [fromDouble_of_empty hD]
    exact fromTriple_start h (hn.mono (by rw [firstTriple]; omega) (by omega))

theorem fromDouble_end (h : m.IsTree a) (hnone : ∀ k, firstDouble ≤ k → ¬m.Has a k) (offset : Int) :
    Fails (m.findFromDouble (m.fsReadBlock a) offset) := by
  rw [fromDouble_of_empty (h.double_empty fun k hk _ => hnone k hk)]
  exact fromTriple_end h (fun k hk => hnone k (by rw [firstTriple] at hk; omega)) _

theorem fromIndirect_of_empty (hI : inodeGetIndirect (m.fsReadBlock a) = LogAddr.empty)
    (offset : Int) : m.findFromIndirect (m.fsReadBlock a) offset =
      m.findFromDouble (m.fsReadBlock a) (blockOffset firstDouble) := by
  rw [findFromIndirect, if_pos (by simpa using hI), doubleDataOffset_eq]

theorem fromIndirect_start (h : m.IsTree a) (hn : m.FirstFrom a directIndexEntries n) :
    m.Finds a (m.findFromIndirect (m.fsReadBlock a) (blockOffset directIndexEntries)) n := by
  by_cases hlt : n < firstDouble
  · obtain ⟨c, rfl⟩ := Nat.exists_eq_add_of_le hn.1
    have hc : c < logAddressesPerBlock := by
      rw [firstDouble] at hlt
      omega
    exact findFromIndirect_first (c := 0) h hc hn
  · have hI := h.indirect_empty fun k hk hk' => hn.2.2 k hk (by omega)
    rw [fromIndirect_of_empty hI]
    exact fromDouble_start h (hn.mono (by rw [firstDouble]; omega) (by omega))

theorem fromIndirect_end (h : m.IsTree a) (hnone : ∀ k, directIndexEntries ≤ k → ¬m.Has a k)
    (offset : Int) : Fails (m.findFromIndirect (m.fsReadBlock a) offset) := by
  rw [fromIndirect_of_empty (h.indirect_empty fun k hk _ => hnone k hk)]
  exact fromDouble_end h (fun k hk => hnone k (by rw [firstDouble] at hk; omega)) _

/-! ## From anywhere -/

variable (m) (a) in
/-- The search after block `n`, at which the stream's offset may be anywhere. -/
def nextAfter (n p : Nat) : Search := m.findNextNonEmptySparseBlock a (blockOffset n + p)

theorem nextAfter_eq (hp : p < pageSize) : m.nextAfter a n p =
    if n + 1 < directIndexEntries then
      match firstEntry (inodeGetDirect (m.fsReadBlock a)) (n + 1) directIndexEntries with
      | some i => .ok (inodeGetDirect (m.fsReadBlock a) i,
          blockOffset (n + 1) + (i - (n + 1 : Nat)) * fsBlockSize)
      | none => m.findFromIndirect (m.fsReadBlock a) (blockOffset directIndexEntries)
    else if n + 1 < firstDouble then
      m.findFromIndirect (m.fsReadBlock a) (blockOffset (n + 1))
    else if n + 1 < firstTriple then m.findFromDouble (m.fsReadBlock a) (blockOffset (n + 1))
    else m.findFromTriple (m.fsReadBlock a) (blockOffset (n + 1)) := by
  have hstart : blockOffset n + p - calcOffsetInFileBlock (blockOffset n + p) + fsBlockSize
      = blockOffset (n + 1) := by
    rw [calcOffsetInFileBlock_eq n hp, blockOffset_add, Nat.cast_one, one_mul]
    ring
  have hlt : ∀ c k, blockOffset c < blockOffset k ↔ c < k := by
    intro c k
    simpa using blockOffset_lt_iff (n := c) (k := k) pageSize_pos
  have hblocks : calcInBlocks (blockOffset (n + 1) - inodeFileDataSize) = (n + 1 : Nat) := by
    rw [blockOffset, show inodeFileDataSize + (n + 1 : Nat) * fsBlockSize - inodeFileDataSize
      = ((n + 1) * pageSize + 0 : Nat) by rw [cast_offset]; simp, calcInBlocks_eq _ pageSize_pos]
  have hsearch := findNextNonEmptySparseBlock.eq_def m a (blockOffset n + p)
  simp only [hstart, indirectDataOffset_eq, doubleDataOffset_eq, tripleDataOffset_eq, hlt, hblocks,
    Int.toNat_natCast] at hsearch
  exact hsearch

/-- The search finds the next block there is, if it is within the window. -/
theorem nextAfter_first (h : m.IsTree a) (hp : p < pageSize) (hc : n + 1 ≤ firstTriple)
    (hn : m.FirstFrom a (n + 1) n') (hwin : InWindow (n + 1) n') :
    m.Finds a (m.nextAfter a n p) n' := by
  rw [nextAfter_eq hp]
  have hl : 0 < logAddressesPerBlock := Nat.lt_of_lt_of_le (by decide) logAddressesPerBlock_ge
  by_cases hdirect : n + 1 < directIndexEntries
  · rw [if_pos hdirect]
    by_cases hn' : n' < directIndexEntries
    · have hfirst : firstEntry (inodeGetDirect (m.fsReadBlock a)) (n + 1) directIndexEntries
          = some n' := by
        refine firstEntry_eq_some hn.1 hn' ?_ fun k hk hlt => ?_
        · rw [← blockAddr_direct hn']
          exact hn.2.1
        · rw [← blockAddr_direct (hlt.trans hn')]
          exact not_not.mp (hn.2.2 k hk hlt)
      rw [hfirst, Finds, blockAddr_direct hn']
      have hoff : blockOffset (n + 1) + ((n' : Int) - (n + 1 : Nat)) * fsBlockSize
          = blockOffset n' := by
        rw [blockOffset, blockOffset]
        ring
      simp only [hoff]
    · have hnone : firstEntry (inodeGetDirect (m.fsReadBlock a)) (n + 1) directIndexEntries
          = none := by
        refine firstEntry_eq_none fun k hk hlt => ?_
        rw [← blockAddr_direct hlt]
        exact not_not.mp (hn.2.2 k hk (by omega))
      rw [hnone]
      exact fromIndirect_start h (hn.mono (by omega) (by omega))
  rw [if_neg hdirect]
  by_cases hindirect : n + 1 < firstDouble
  · rw [if_pos hindirect]
    obtain ⟨c, hc⟩ := Nat.exists_eq_add_of_le (Nat.le_of_not_lt hdirect)
    rw [hc] at hn hwin ⊢
    rcases Nat.eq_zero_or_pos c with rfl | hpos
    · exact fromIndirect_start h hn
    · have hcl : c < logAddressesPerBlock := by
        rw [firstDouble] at hindirect
        omega
      rw [inWindow_indirect hpos hcl, firstDouble] at hwin
      obtain ⟨c', rfl⟩ := Nat.exists_eq_add_of_le (show directIndexEntries ≤ n' by
        have := hn.1
        omega)
      exact findFromIndirect_first h (by omega) hn
  rw [if_neg hindirect]
  by_cases hdouble : n + 1 < firstTriple
  · rw [if_pos hdouble]
    obtain ⟨d, hd⟩ := Nat.exists_eq_add_of_le (Nat.le_of_not_lt hindirect)
    rw [hd] at hn hwin hdouble ⊢
    rcases Nat.eq_zero_or_pos d with rfl | hpos
    · exact fromDouble_start h hn
    · have hdl : d < logAddressesPerBlock * logAddressesPerBlock := by
        rw [firstTriple] at hdouble
        omega
      obtain ⟨i, j, hi, hj, rfl⟩ := exists_double_path hdl
      obtain ⟨d', rfl⟩ := Nat.exists_eq_add_of_le (show firstDouble ≤ n' by
        have := hn.1
        omega)
      have hwin' : d' < logAddressesPerBlock * logAddressesPerBlock ∧
          (j = 0 ∨ d' < i * logAddressesPerBlock + logAddressesPerBlock) := by
        rcases Nat.eq_zero_or_pos j with rfl | hj'
        · have hi' : 0 < i := by
            by_contra hzero
            rw [Nat.eq_zero_of_not_pos hzero, Nat.zero_mul] at hpos
            omega
          rw [inWindow_next hi hi', firstTriple] at hwin
          exact ⟨by omega, .inl rfl⟩
        · rw [inWindow_within hi hj hj', Nat.succ_mul] at hwin
          have hle := Nat.mul_le_mul_right logAddressesPerBlock (Nat.succ_le_of_lt hi)
          rw [Nat.succ_mul] at hle
          exact ⟨by omega, .inr (by omega)⟩
      obtain ⟨i', j', hi', hj', rfl⟩ := exists_double_path hwin'.1
      refine findFromDouble_first h hj hi' hj' hn (hwin'.2.imp_right fun hlt => ?_)
      have hle := hn.1
      have hii' : ¬i' < i := fun hlt' => by
        have := Nat.mul_le_mul_right logAddressesPerBlock (Nat.succ_le_of_lt hlt')
        rw [Nat.succ_mul] at this
        omega
      have hi'i : ¬i < i' := fun hlt' => by
        have := Nat.mul_le_mul_right logAddressesPerBlock (Nat.succ_le_of_lt hlt')
        rw [Nat.succ_mul] at this
        omega
      omega
  · have hstart : n + 1 = firstTriple := by omega
    rw [if_neg hdouble, hstart]
    exact fromTriple_start h (hstart ▸ hn)

/-- The search fails where the window holds no block. -/
theorem nextAfter_fails (h : m.IsTree a) (hp : p < pageSize) (hc : n + 1 ≤ firstTriple)
    (hn : m.Has a n ∨ n = 0) (hnone : ∀ k, n + 1 ≤ k → InWindow (n + 1) k → ¬m.Has a k) :
    Fails (m.nextAfter a n p) := by
  rw [nextAfter_eq hp]
  have hl : 0 < logAddressesPerBlock := Nat.lt_of_lt_of_le (by decide) logAddressesPerBlock_ge
  by_cases hdirect : n + 1 < directIndexEntries
  · rw [if_pos hdirect]
    have hall : ∀ k, n + 1 ≤ k → ¬m.Has a k := fun k hk =>
      hnone k hk (inWindow_start (.inl (by omega)))
    have hfirst : firstEntry (inodeGetDirect (m.fsReadBlock a)) (n + 1) directIndexEntries
        = none := by
      refine firstEntry_eq_none fun k hk hlt => ?_
      rw [← blockAddr_direct hlt]
      exact not_not.mp (hall k hk)
    rw [hfirst]
    exact fromIndirect_end h (fun k hk => hall k (by omega)) _
  rw [if_neg hdirect]
  by_cases hindirect : n + 1 < firstDouble
  · rw [if_pos hindirect]
    obtain ⟨c, hc⟩ := Nat.exists_eq_add_of_le (Nat.le_of_not_lt hdirect)
    rw [hc] at hnone ⊢
    rcases Nat.eq_zero_or_pos c with rfl | hpos
    · exact fromIndirect_end h (fun k hk => hnone k hk (inWindow_start (.inl (Nat.le_refl _)))) _
    · have hcl : c < logAddressesPerBlock := by
        rw [firstDouble] at hindirect
        omega
      -- block `n` hangs under the indirect entry
      have hI : inodeGetIndirect (m.fsReadBlock a) ≠ LogAddr.empty := by
        have hprev : n = directIndexEntries + (c - 1) := by omega
        have hhas := hn.resolve_right (by rw [directIndexEntries] at hprev; omega)
        rw [hprev, Has, blockAddr_indirect (by omega)] at hhas
        exact ne_empty_of_entry hhas
      exact findFromIndirect_none hI fun k hk hlt =>
        hnone k hk ((inWindow_indirect hpos hcl).mpr hlt)
  rw [if_neg hindirect]
  by_cases hdouble : n + 1 < firstTriple
  · rw [if_pos hdouble]
    obtain ⟨d, hd⟩ := Nat.exists_eq_add_of_le (Nat.le_of_not_lt hindirect)
    rw [hd] at hnone hdouble ⊢
    rcases Nat.eq_zero_or_pos d with rfl | hpos
    · exact fromDouble_end h (fun k hk => hnone k hk (inWindow_start (.inr (.inl rfl)))) _
    · have hdl : d < logAddressesPerBlock * logAddressesPerBlock := by
        rw [firstTriple] at hdouble
        omega
      obtain ⟨i, j, hi, hj, rfl⟩ := exists_double_path hdl
      -- block `n` hangs under the double entry
      have hprev : n = firstDouble + (i * logAddressesPerBlock + j - 1) := by omega
      have hhas := hn.resolve_right (by rw [firstDouble] at hprev; omega)
      rcases Nat.eq_zero_or_pos j with rfl | hj'
      · have hi' : 0 < i := by
          by_contra hzero
          rw [Nat.eq_zero_of_not_pos hzero, Nat.zero_mul] at hpos
          omega
        rw [hprev, Has, blockAddr_double (by omega)] at hhas
        have hD := ne_empty_of_entry (ne_empty_of_entry hhas)
        exact findFromDouble_none h hi hl hD fun k hk hlt =>
          hnone k hk ((inWindow_next hi hi').mpr hlt)
      · rw [hprev, show i * logAddressesPerBlock + j - 1 = i * logAddressesPerBlock + (j - 1) by
          omega, Has, blockAddr_double_at hi (by omega)] at hhas
        refine findFromDouble_gap hi hj (ne_empty_of_entry hhas) fun j'' hle hlt => ?_
        refine hnone _ (by omega) ((inWindow_within hi hj hj').mpr ?_)
        rw [Nat.succ_mul]
        omega
  · have hstart : n + 1 = firstTriple := by omega
    rw [if_neg hdouble, hstart]
    rw [hstart] at hnone
    exact fromTriple_end h (fun k hk =>
      hnone k hk (inWindow_start (.inr (.inr (Nat.le_refl _))))) _

/-- After a block under the triple entry the search fails or finds the first of them again. -/
theorem nextAfter_triple (h : m.IsTree a) (hp : p < pageSize) {t : Nat}
    (hn : m.FirstFrom a firstTriple n) :
    if (t + 1) % (logAddressesPerBlock * logAddressesPerBlock) = 0 ∧
        blockOffset (n + (t + 1)) < fsMaxFilesize then
      m.nextAfter a (firstTriple + t) p = .ok (m.blockAddr a n, blockOffset (n + (t + 1)))
    else Fails (m.nextAfter a (firstTriple + t) p) := by
  have hdirect : ¬firstTriple + t + 1 < directIndexEntries := by
    rw [firstTriple, firstDouble]
    omega
  have hindirect : ¬firstTriple + t + 1 < firstDouble := by
    rw [firstTriple]
    omega
  have hdouble : ¬firstTriple + t + 1 < firstTriple := by omega
  rw [nextAfter_eq hp, if_neg hdirect, if_neg hindirect, if_neg hdouble, Nat.add_assoc]
  by_cases hmod : (t + 1) % (logAddressesPerBlock * logAddressesPerBlock) = 0
  · rw [findFromTriple_again h hn hmod]
    by_cases hmax : blockOffset (n + (t + 1)) < fsMaxFilesize
    · rw [if_pos ⟨hmod, hmax⟩, if_pos hmax]
    · rw [if_neg fun hand => hmax hand.2, if_neg hmax]
      exact ⟨_, rfl⟩
  · rw [if_neg fun hand => hmod hand.1]
    exact findFromTriple_resumed hmod

end StoredFiles

end NandFs
