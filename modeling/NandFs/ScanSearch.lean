import NandFs.ReadDirectory

/-! # The blocks that `scandir` visits

From each block `nandfs_scandir` goes on to the one at the offset that
`findNextNonEmptySparseBlock` leaves, and it takes the error `FS_ERROR_OFST_OVRFLW` alone for
the end of the directory.  The search gives this error where it resumes at the start of a range
and nothing follows; where it resumes within a range it gives -1.  Under the triple entry it
takes strides as long as the way to the first block there (`stride`), and what ends the scan is
the size of the directory.
-/
namespace NandFs

open Cursor (Follows upTo)

variable [FsConfig]

/-- The entries of a directory by the number of the block they are in, each there once. -/
structure Listing where
  records : Nat → List Record
  bounded : ∀ n, pageCount ≤ n → records n = []
  distinct : (upTo records pageCount).Nodup

/-- The tree under the inode at `a` holds the entries. -/
structure StoredFiles.StoresListing (m : StoredFiles) (a : LogAddr) (l : Listing) : Prop
    extends m.IsTree a where
  inode : isAddressEmpty a = false
  has_iff : ∀ n, m.Has a n ↔ l.records n ≠ []
  holds : ∀ n, l.records n ≠ [] → HoldsEntries (m.fsReadBlock (m.blockAddr a n)) 0 (l.records n)

namespace Listing
variable (l : Listing)

/-- All entries, in the order of the blocks. -/
def entries : List Record := upTo l.records pageCount

/-- Block `n` is the first one or has entries. -/
def Reached (n : Nat) : Prop := l.records n ≠ [] ∨ n = 0

/-- Block `t` under the triple entry is the first there that has entries. -/
def FirstUnderTriple (t : Nat) : Prop :=
  l.records (firstTriple + t) ≠ [] ∧
    ∀ k, firstTriple ≤ k → k < firstTriple + t → l.records k = []

/-- The scan comes to block `n`, if it ends: under the triple entry to the blocks at a stride from
the first one only. -/
def IsRead (n : Nat) : Prop :=
  ∀ t, l.FirstUnderTriple t → firstTriple ≤ n → (t + 1) ∣ (n + 1 - firstTriple)

end Listing

/-- Where the search is that has come to the first block under the triple entry, `t`, and gone on
from there `i` times. -/
def stride (t i : Nat) : Nat := firstTriple + (t + i * (t + 1))

/-- From each block before the triple entry the search gets to the next one, or the last one is
the last of its range.  The strides under the triple entry are whole double ranges, and one of
them ends past the directory and within the largest file. -/
structure Listing.ScannedThrough (l : Listing) (size : Int) : Prop where
  reaches : ∀ n n', l.Reached n → n < firstTriple → Follows l.records n n' → InWindow (n + 1) n'
  ends : ∀ n, l.Reached n → n < firstTriple → (∀ k, n < k → l.records k = []) →
    window (n + 1) = none
  strides : ∀ t, l.FirstUnderTriple t →
    (t + 1) % (logAddressesPerBlock * logAddressesPerBlock) = 0 ∧
      ∃ j, size ≤ blockOffset (stride t j) ∧ blockOffset (stride t j) < fsMaxFilesize

/-- The blocks of the scan from block `n` on, of a directory of `size` bytes, if it ends without
an error. -/
inductive StoredFiles.Visits (m : StoredFiles) (a : LogAddr) (size : Int) : Nat → List Nat → Prop
  | past {n : Nat} (h : size ≤ blockOffset n) : Visits m a size n []
  | last {n : Nat} (h : blockOffset n < size) (hend : m.nextAfter a n 0 = .error fsErrorOfstOvrflw) :
      Visits m a size n [n]
  | step {n n' : Nat} {blockAddr : LogAddr} {ns : List Nat} (h : blockOffset n < size)
      (hnext : m.nextAfter a n 0 = .ok (blockAddr, blockOffset n')) (rest : Visits m a size n' ns) :
      Visits m a size n (n :: ns)

/-! ## The errors of the search -/

section Errors
variable {m : StoredFiles} {a : LogAddr} {n p : Nat}

namespace StoredFiles

theorem findNonEmptyDirectEntry_error {blockAddr : LogAddr} {entryOffset offset size res : Int}
    (h : m.findNonEmptyDirectEntry blockAddr entryOffset offset size = .error res) : res = -1 := by
  unfold findNonEmptyDirectEntry at h
  dsimp only at h
  split at h
  · exact (Except.error.inj h).symm
  · split at h
    · cases h
    · exact (Except.error.inj h).symm

omit [FsConfig] in
theorem search_bind_error {s : Search} {next : LogAddr × Int → Search} {res : Int}
    (hs : ∀ e, s = .error e → e = -1) (hnext : ∀ found e, next found = .error e → e = -1)
    (h : (s >>= next) = .error res) : res = -1 := by
  cases s with
  | error e =>
    obtain rfl := Except.error.inj h
    exact hs _ rfl
  | ok found => exact hnext found res h

theorem findFromTriple_error {inode : Block} {offset res : Int}
    (hT : inodeGetTriple inode ≠ LogAddr.empty)
    (h : m.findFromTriple inode offset = .error res) : res = -1 := by
  rw [findFromTriple, if_neg (by simpa using hT)] at h
  exact search_bind_error (fun _ => findNonEmptyDirectEntry_error)
    (fun _ _ => search_bind_error (fun _ => findNonEmptyDirectEntry_error)
      fun _ _ => findNonEmptyDirectEntry_error) h

theorem findFromDouble_error {inode : Block} {offset res : Int}
    (hD : inodeGetDouble inode ≠ LogAddr.empty)
    (h : m.findFromDouble inode offset = .error res) : res = -1 := by
  rw [findFromDouble, if_neg (by simpa using hD)] at h
  exact search_bind_error (fun _ => findNonEmptyDirectEntry_error)
    (fun _ _ => findNonEmptyDirectEntry_error) h

theorem findFromIndirect_error {inode : Block} {offset res : Int}
    (hI : inodeGetIndirect inode ≠ LogAddr.empty)
    (h : m.findFromIndirect inode offset = .error res) : res = -1 := by
  rw [findFromIndirect, if_neg (by simpa using hI)] at h
  exact findNonEmptyDirectEntry_error h

theorem fromTriple_overflow (h : m.IsTree a) (hnone : ∀ k, firstTriple ≤ k → ¬m.Has a k)
    (offset : Int) : m.findFromTriple (m.fsReadBlock a) offset = .error fsErrorOfstOvrflw := by
  rw [findFromTriple, if_pos (by simpa using h.triple_empty hnone)]

theorem fromDouble_overflow (h : m.IsTree a) (hnone : ∀ k, firstDouble ≤ k → ¬m.Has a k)
    (offset : Int) : m.findFromDouble (m.fsReadBlock a) offset = .error fsErrorOfstOvrflw := by
  rw [fromDouble_of_empty (h.double_empty fun k hk _ => hnone k hk)]
  exact fromTriple_overflow h (fun k hk => hnone k (by rw [firstTriple] at hk; omega)) _

theorem fromIndirect_overflow (h : m.IsTree a) (hnone : ∀ k, directIndexEntries ≤ k → ¬m.Has a k)
    (offset : Int) : m.findFromIndirect (m.fsReadBlock a) offset = .error fsErrorOfstOvrflw := by
  rw [fromIndirect_of_empty (h.indirect_empty fun k hk _ => hnone k hk)]
  exact fromDouble_overflow h (fun k hk => hnone k (by rw [firstDouble] at hk; omega)) _

/-- At the start of a range after which nothing is left, the search finds the end. -/
theorem nextAfter_overflow (h : m.IsTree a) (hp : p < pageSize) (hstart : window (n + 1) = none)
    (hc : n + 1 ≤ firstTriple) (hnone : ∀ k, n + 1 ≤ k → ¬m.Has a k) :
    m.nextAfter a n p = .error fsErrorOfstOvrflw := by
  have hranges : n + 1 ≤ directIndexEntries ∨ n + 1 = firstDouble ∨ firstTriple ≤ n + 1 := by
    by_contra hin
    rw [window, if_neg hin] at hstart
    split_ifs at hstart
  rw [nextAfter_eq hp]
  by_cases hdirect : n + 1 < directIndexEntries
  · have hfirst : firstEntry (inodeGetDirect (m.fsReadBlock a)) (n + 1) directIndexEntries
        = none := by
      refine firstEntry_eq_none fun k hk hlt => ?_
      rw [← blockAddr_direct hlt]
      exact not_not.mp (hnone k hk)
    rw [if_pos hdirect, hfirst]
    exact fromIndirect_overflow h (fun k hk => hnone k (by omega)) _
  rw [if_neg hdirect]
  rcases hranges with heq | heq | hge
  · have heq : n + 1 = directIndexEntries := by omega
    rw [if_pos (by rw [firstDouble]; have := logAddressesPerBlock_ge; omega)]
    exact fromIndirect_overflow h (fun k hk => hnone k (by omega)) _
  · have hlt : n + 1 < firstTriple := by
      have hl := logAddressesPerBlock_ge
      have := Nat.mul_le_mul hl hl
      rw [firstTriple]
      omega
    rw [if_neg (by omega), if_pos hlt]
    exact fromDouble_overflow h (fun k hk => hnone k (by omega)) _
  · have hle : firstDouble ≤ firstTriple := Nat.le_add_right _ _
    rw [if_neg (by omega), if_neg (by omega)]
    exact fromTriple_overflow h (fun k hk => hnone k (by omega)) _

/-- Within a range the search fails as if it could not read. -/
theorem nextAfter_error_within (hp : p < pageSize) (hin : window (n + 1) ≠ none)
    (hn : m.Has a n) {res : Int} (h : m.nextAfter a n p = .error res) : res = -1 := by
  have hranges : ¬(n + 1 ≤ directIndexEntries ∨ n + 1 = firstDouble ∨ firstTriple ≤ n + 1) := by
    intro hstart
    rw [window, if_pos hstart] at hin
    exact hin rfl
  rw [nextAfter_eq hp, if_neg (by omega)] at h
  by_cases hindirect : n + 1 < firstDouble
  · rw [if_pos hindirect] at h
    obtain ⟨c, rfl⟩ := Nat.exists_eq_add_of_le (show directIndexEntries ≤ n by omega)
    rw [Has, blockAddr_indirect (by rw [firstDouble] at hindirect; omega)] at hn
    exact findFromIndirect_error (ne_empty_of_entry hn) h
  · rw [if_neg hindirect, if_pos (by omega)] at h
    obtain ⟨d, rfl⟩ := Nat.exists_eq_add_of_le (show firstDouble ≤ n by omega)
    rw [Has, blockAddr_double (by rw [firstTriple] at hranges; omega)] at hn
    exact findFromDouble_error (ne_empty_of_entry (ne_empty_of_entry hn)) h

/-- Under the triple entry the search goes on by a stride or fails. -/
theorem nextAfter_stride (h : m.IsTree a) (hp : p < pageSize) {t : Nat}
    (hfirst : m.FirstFrom a firstTriple (firstTriple + t)) (i : Nat) :
    if (i + 1) * (t + 1) % (logAddressesPerBlock * logAddressesPerBlock) = 0 ∧
        blockOffset (stride t (i + 1)) < fsMaxFilesize then
      m.nextAfter a (stride t i) p =
        .ok (m.blockAddr a (firstTriple + t), blockOffset (stride t (i + 1)))
    else m.nextAfter a (stride t i) p = .error (-1) := by
  have hmul : t + i * (t + 1) + 1 = (i + 1) * (t + 1) := by ring
  have hto : firstTriple + t + (i + 1) * (t + 1) = stride t (i + 1) := by
    rw [stride]
    omega
  have hsearch := nextAfter_triple h hp (t := t + i * (t + 1)) hfirst
  rw [hmul, hto] at hsearch
  have hT : inodeGetTriple (m.fsReadBlock a) ≠ LogAddr.empty := by
    have hleaf := hfirst.2.1
    rw [Has, blockAddr_triple] at hleaf
    exact ne_empty_of_entry (ne_empty_of_entry (ne_empty_of_entry hleaf))
  split
  · rename_i hgo
    rw [if_pos hgo] at hsearch
    exact hsearch
  · rename_i hgo
    rw [if_neg hgo] at hsearch
    obtain ⟨res, hres⟩ := hsearch
    have hcode := hres
    have hge : ¬stride t i + 1 < firstTriple := by
      rw [stride]
      omega
    have hdouble : firstDouble ≤ firstTriple := Nat.le_add_right _ _
    have hdirect : directIndexEntries ≤ firstDouble := Nat.le_add_right _ _
    rw [← stride, nextAfter_eq hp, if_neg (by omega), if_neg (by omega), if_neg hge] at hcode
    rw [← findFromTriple_error hT hcode]
    exact hres

/-! ## The search goes forward -/

theorem findNonEmptyDirectEntry_ge {blockAddr found : LogAddr} {e offset size offset' : Int}
    (hsize : 0 ≤ size) (h : m.findNonEmptyDirectEntry blockAddr e offset size = .ok (found, offset')) :
    offset ≤ offset' := by
  unfold findNonEmptyDirectEntry at h
  dsimp only at h
  split at h
  · cases h
  rename_i i hi
  have hmem := List.mem_range'_1.mp (List.mem_of_find?_eq_some hi)
  split at h
  swap
  · cases h
  obtain ⟨-, rfl⟩ := Prod.mk.inj (Except.ok.inj h)
  have := mul_nonneg (show (0 : Int) ≤ i - e by omega) hsize
  omega

omit [FsConfig] in
theorem search_bind_ge {s : Search} {next : LogAddr × Int → Search} {found : LogAddr}
    {offset offset' : Int} (hs : ∀ b o, s = .ok (b, o) → offset ≤ o)
    (hnext : ∀ b o c o', next (b, o) = .ok (c, o') → o ≤ o')
    (h : (s >>= next) = .ok (found, offset')) : offset ≤ offset' := by
  cases s with
  | error e => cases h
  | ok r => exact (hs r.1 r.2 rfl).trans (hnext r.1 r.2 found offset' h)

theorem findFromTriple_ge {inode : Block} {found : LogAddr} {offset offset' : Int}
    (h : m.findFromTriple inode offset = .ok (found, offset')) : offset ≤ offset' := by
  have hsize := fsBlockSize_pos.le
  rw [findFromTriple] at h
  split at h
  · cases h
  · refine search_bind_ge (fun _ _ => findNonEmptyDirectEntry_ge ?_)
      (fun _ _ _ _ => search_bind_ge (fun _ _ => findNonEmptyDirectEntry_ge ?_)
        fun _ _ _ _ => findNonEmptyDirectEntry_ge hsize) h
    · rw [inodeDoubleDataSize_eq]
      exact mul_nonneg (Int.natCast_nonneg _) hsize
    · rw [inodeIndirectDataSize_eq]
      exact mul_nonneg (Int.natCast_nonneg _) hsize

theorem findFromDouble_ge {inode : Block} {found : LogAddr} {offset offset' : Int}
    (hle : offset ≤ tripleDataOffset)
    (h : m.findFromDouble inode offset = .ok (found, offset')) : offset ≤ offset' := by
  rw [findFromDouble] at h
  split at h
  · exact hle.trans (findFromTriple_ge h)
  · refine search_bind_ge (fun _ _ => findNonEmptyDirectEntry_ge ?_)
      (fun _ _ _ _ => findNonEmptyDirectEntry_ge fsBlockSize_pos.le) h
    rw [inodeIndirectDataSize_eq]
    exact mul_nonneg (Int.natCast_nonneg _) fsBlockSize_pos.le

theorem findFromIndirect_ge {inode : Block} {found : LogAddr} {offset offset' : Int}
    (hle : offset ≤ doubleDataOffset)
    (h : m.findFromIndirect inode offset = .ok (found, offset')) : offset ≤ offset' := by
  rw [findFromIndirect] at h
  split at h
  · refine hle.trans (findFromDouble_ge ?_ h)
    rw [doubleDataOffset_eq, tripleDataOffset_eq]
    exact blockOffset_le_iff.mpr (Nat.le_add_right _ _)
  · exact findNonEmptyDirectEntry_ge fsBlockSize_pos.le h

/-- The search answers with an offset in a later block. -/
theorem nextAfter_ge (hp : p < pageSize) {found : LogAddr} {offset : Int}
    (h : m.nextAfter a n p = .ok (found, offset)) : blockOffset (n + 1) ≤ offset := by
  rw [nextAfter_eq hp] at h
  by_cases hdirect : n + 1 < directIndexEntries
  · rw [if_pos hdirect] at h
    split at h
    · rename_i i hi
      have hmem := List.mem_range'_1.mp (List.mem_of_find?_eq_some hi)
      obtain ⟨-, rfl⟩ := Prod.mk.inj (Except.ok.inj h)
      have := mul_nonneg (show (0 : Int) ≤ i - (n + 1 : Nat) by omega) fsBlockSize_pos.le
      omega
    · refine (blockOffset_le_iff.mpr hdirect.le).trans (findFromIndirect_ge ?_ h)
      rw [doubleDataOffset_eq]
      exact blockOffset_le_iff.mpr (Nat.le_add_right _ _)
  rw [if_neg hdirect] at h
  by_cases hindirect : n + 1 < firstDouble
  · rw [if_pos hindirect] at h
    refine findFromIndirect_ge ?_ h
    rw [doubleDataOffset_eq]
    exact blockOffset_le_iff.mpr hindirect.le
  rw [if_neg hindirect] at h
  by_cases hdouble : n + 1 < firstTriple
  · rw [if_pos hdouble] at h
    refine findFromDouble_ge ?_ h
    rw [tripleDataOffset_eq]
    exact blockOffset_le_iff.mpr hdouble.le
  · rw [if_neg hdouble] at h
    exact findFromTriple_ge h

end StoredFiles

end Errors

/-! ## From block to block -/

theorem blockOffset_inj {n k : Nat} (h : blockOffset n = blockOffset k) : n = k :=
  Nat.le_antisymm (blockOffset_le_iff.mp h.le) (blockOffset_le_iff.mp h.ge)

theorem stride_zero (t : Nat) : stride t 0 = firstTriple + t := by
  rw [stride, Nat.zero_mul, Nat.add_zero]

theorem stride_lt_stride {t i j : Nat} (h : i < j) : stride t i < stride t j := by
  have : i * (t + 1) < j * (t + 1) := Nat.mul_lt_mul_of_pos_right h (Nat.succ_pos t)
  rw [stride, stride]
  omega

/-- A block under the triple entry that is at a stride from the first one. -/
theorem eq_stride_iff {t n : Nat} (hn : firstTriple ≤ n) :
    (∃ i, n = stride t i) ↔ (t + 1) ∣ (n + 1 - firstTriple) := by
  constructor
  · rintro ⟨i, rfl⟩
    refine ⟨i + 1, ?_⟩
    have hmul : (t + 1) * (i + 1) = t + i * (t + 1) + 1 := by ring
    rw [stride, hmul]
    omega
  · rintro ⟨q, hq⟩
    obtain ⟨i, rfl⟩ : ∃ i, q = i + 1 := by
      refine Nat.exists_eq_succ_of_ne_zero ?_
      rintro rfl
      omega
    have hmul : (t + 1) * (i + 1) = t + i * (t + 1) + 1 := by ring
    refine ⟨i, ?_⟩
    rw [stride]
    omega

section Visits
variable {m : StoredFiles} {a : LogAddr} {l : Listing} {size : Int} {n t : Nat} {ns : List Nat}

theorem StoredFiles.Visits.ge (hv : m.Visits a size n ns) : ∀ k ∈ ns, n ≤ k := by
  induction hv with
  | past h => exact fun k hk => absurd hk List.not_mem_nil
  | last h hend => exact fun k hk => (List.mem_singleton.mp hk).ge
  | step h hnext rest ih =>
    intro k hk
    rcases List.mem_cons.mp hk with rfl | hk
    · exact Nat.le_refl k
    · have hlt := blockOffset_le_iff.mp (nextAfter_ge pageSize_pos hnext)
      have := ih k hk
      omega

/-- The scan comes to each block once, the lower numbers first. -/
theorem StoredFiles.Visits.pairwise (hv : m.Visits a size n ns) : ns.Pairwise (· < ·) := by
  induction hv with
  | past h => exact List.Pairwise.nil
  | last h hend => exact List.pairwise_singleton _ _
  | step h hnext rest ih =>
    refine List.pairwise_cons.mpr ⟨fun k hk => ?_, ih⟩
    have hlt := blockOffset_le_iff.mp (nextAfter_ge pageSize_pos hnext)
    have := rest.ge k hk
    omega

theorem StoredFiles.Visits.lt_size (hv : m.Visits a size n ns) : ∀ k ∈ ns, blockOffset k < size := by
  induction hv with
  | past h => exact fun k hk => absurd hk List.not_mem_nil
  | last h hend => exact fun k hk => List.mem_singleton.mp hk ▸ h
  | step h hnext rest ih =>
    intro k hk
    rcases List.mem_cons.mp hk with rfl | hk
    · exact h
    · exact ih k hk

/-- What is left of a scan at a block it has come to. -/
theorem StoredFiles.Visits.suffix (hv : m.Visits a size n ns) {k : Nat} (hk : k ∈ ns) :
    ∃ ns', m.Visits a size k ns' := by
  induction hv with
  | past h => exact absurd hk List.not_mem_nil
  | last h hend =>
    obtain rfl := List.mem_singleton.mp hk
    exact ⟨_, .last h hend⟩
  | step h hnext rest ih =>
    rcases List.mem_cons.mp hk with rfl | hk
    · exact ⟨_, .step h hnext rest⟩
    · exact ih hk

/-- A scan that ends well has gone on from a block to the one that follows, or was at the end of
the directory at the start of a range. -/
theorem StoredFiles.Visits.next (hd : m.StoresListing a l) (hv : m.Visits a size n ns)
    (hn : l.Reached n) (hlt : blockOffset n < size) (hc : n < firstTriple) :
    (∃ n' ns', Follows l.records n n' ∧ InWindow (n + 1) n' ∧ ns = n :: ns' ∧
      m.Visits a size n' ns') ∨
    (∀ k, n < k → l.records k = []) ∧ window (n + 1) = none ∧ ns = [n] := by
  have hp : 0 < pageSize := pageSize_pos
  by_cases hex : ∃ n', Follows l.records n n' ∧ InWindow (n + 1) n'
  · obtain ⟨n', hf, hwin⟩ := hex
    have hfinds := nextAfter_first hd.toIsTree hp hc
      ((firstFrom_iff_follows hd.has_iff).mpr hf) hwin
    cases hv with
    | past h => exact absurd hlt (not_lt.mpr h)
    | last _ hend =>
      rw [Finds, hend] at hfinds
      cases hfinds
    | step _ hnext rest =>
      rw [Finds, hnext] at hfinds
      obtain rfl := blockOffset_inj (Prod.mk.inj (Except.ok.inj hfinds)).2
      exact .inl ⟨_, _, hf, hwin, rfl, rest⟩
  · have hnone : ∀ k, n + 1 ≤ k → InWindow (n + 1) k → ¬m.Has a k := by
      intro k hk hwin hhas
      obtain ⟨n', hf, hle⟩ := exists_firstFrom hk hhas
      exact hex ⟨n', (firstFrom_iff_follows hd.has_iff).mp hf, hwin.mono hle⟩
    have hat : m.Has a n ∨ n = 0 := hn.imp_left (hd.has_iff n).mpr
    obtain ⟨res, hres⟩ := nextAfter_fails hd.toIsTree hp hc hat hnone
    cases hv with
    | past h => exact absurd hlt (not_lt.mpr h)
    | step _ hnext =>
      rw [hnext] at hres
      cases hres
    | last _ hend =>
      have hstart : window (n + 1) = none := by
        by_contra hin
        have hzero : n ≠ 0 := by
          rintro rfl
          exact hin (if_pos (.inl (by decide)))
        have hcode := nextAfter_error_within hp hin (hat.resolve_right hzero) hend
        exact absurd hcode (by decide)
      refine .inr ⟨fun k hk => ?_, hstart, rfl⟩
      by_contra hne
      refine hnone k hk (fun e he => ?_) ((hd.has_iff k).mpr hne)
      rw [hstart] at he
      cases he

theorem Listing.FirstUnderTriple.firstFrom (hd : m.StoresListing a l) (ht : l.FirstUnderTriple t) :
    m.FirstFrom a firstTriple (firstTriple + t) :=
  ⟨Nat.le_add_right _ _, (hd.has_iff _).mpr ht.1, fun k hk hlt hhas =>
    (hd.has_iff k).mp hhas (ht.2 k hk hlt)⟩

/-- What the strides under the triple entry come to. -/
theorem StoredFiles.Visits.strides (hd : m.StoresListing a l) (ht : l.FirstUnderTriple t)
    (hv : m.Visits a size n ns) {i : Nat} (hi : n = stride t i)
    (hmax : blockOffset n < fsMaxFilesize) :
    ∃ j, i ≤ j ∧ size ≤ blockOffset (stride t j) ∧ blockOffset (stride t j) < fsMaxFilesize ∧
      (i < j → (i + 1) * (t + 1) % (logAddressesPerBlock * logAddressesPerBlock) = 0) ∧
      (∀ k, k ∈ ns ↔ ∃ q, i ≤ q ∧ q < j ∧ k = stride t q) := by
  have hp : 0 < pageSize := pageSize_pos
  induction hv generalizing i with
  | past h =>
    subst hi
    refine ⟨i, Nat.le_refl i, h, hmax, fun hlt => absurd hlt (Nat.lt_irrefl i), fun k => ?_⟩
    refine iff_of_false List.not_mem_nil ?_
    rintro ⟨q, hle, hlt, -⟩
    omega
  | last _ hend =>
    subst hi
    have hsearch := nextAfter_stride hd.toIsTree hp (ht.firstFrom hd) i
    rw [hend] at hsearch
    split at hsearch
    · cases hsearch
    · exact absurd (Except.error.inj hsearch) (by decide)
  | @step n n' blockAddr ns h hnext rest ih =>
    subst hi
    have hsearch := nextAfter_stride hd.toIsTree hp (ht.firstFrom hd) i
    rw [hnext] at hsearch
    split at hsearch
    swap
    · cases hsearch
    rename_i hgo
    obtain rfl := blockOffset_inj (Prod.mk.inj (Except.ok.inj hsearch)).2
    obtain ⟨j, hle, hsize, hj, -, hmem⟩ := ih rfl hgo.2
    refine ⟨j, by omega, hsize, hj, fun _ => hgo.1, fun k => ?_⟩
    rw [List.mem_cons, hmem]
    constructor
    · rintro (rfl | ⟨q, hq, hlt, rfl⟩)
      · exact ⟨i, Nat.le_refl i, hle, rfl⟩
      · exact ⟨q, by omega, hlt, rfl⟩
    · rintro ⟨q, hq, hlt, rfl⟩
      rcases Nat.eq_or_lt_of_le hq with rfl | hgt
      · exact .inl rfl
      · exact .inr ⟨q, hgt, hlt, rfl⟩

/-- A scan by strides, where they pass the end of the directory within the largest file. -/
theorem exists_visits_stride (hd : m.StoresListing a l) (ht : l.FirstUnderTriple t)
    (hround : (t + 1) % (logAddressesPerBlock * logAddressesPerBlock) = 0) {j : Nat}
    (hsize : size ≤ blockOffset (stride t j)) (hmax : blockOffset (stride t j) < fsMaxFilesize) :
    ∀ d i, j ≤ i + d → i ≤ j → ∃ ns, m.Visits a size (stride t i) ns := by
  intro d
  induction d with
  | zero =>
    intro i hji hij
    obtain rfl : i = j := by omega
    exact ⟨[], .past hsize⟩
  | succ d ih =>
    intro i hji hij
    by_cases hlt : blockOffset (stride t i) < size
    swap
    · exact ⟨[], .past (not_lt.mp hlt)⟩
    have hbefore : i < j := by
      by_contra hge
      obtain rfl : i = j := by omega
      omega
    obtain ⟨ns, hns⟩ := ih (i + 1) (by omega) hbefore
    have hsearch := StoredFiles.nextAfter_stride hd.toIsTree pageSize_pos (ht.firstFrom hd) i
    rw [if_pos] at hsearch
    · exact ⟨_, .step hlt hsearch hns⟩
    refine ⟨?_, ?_⟩
    · rw [Nat.mul_mod, hround, Nat.mul_zero, Nat.zero_mod]
    · have hle : stride t (i + 1) ≤ stride t j := by
        rcases Nat.eq_or_lt_of_le hbefore with heq | hlt'
        · rw [← heq]
        · exact (stride_lt_stride hlt').le
      have := blockOffset_le_iff.mpr hle
      omega

/-- The first block after one before the triple entry that is under it is the first there. -/
theorem Listing.firstUnderTriple_of_follows {n' : Nat} (hf : Follows l.records n n')
    (hc : n < firstTriple) (hn' : firstTriple ≤ n') :
    ∃ t, n' = firstTriple + t ∧ l.FirstUnderTriple t := by
  obtain ⟨t, rfl⟩ := Nat.exists_eq_add_of_le hn'
  exact ⟨t, rfl, hf.2.1, fun k hk hlt => hf.2.2 k (by omega) hlt⟩

theorem Listing.FirstUnderTriple.unique {t' : Nat} (h : l.FirstUnderTriple t)
    (h' : l.FirstUnderTriple t') : t = t' := by
  rcases Nat.lt_trichotomy t t' with hlt | heq | hgt
  · exact absurd (h'.2 _ (Nat.le_add_right _ _) (by omega)) h.1
  · exact heq
  · exact absurd (h.2 _ (Nat.le_add_right _ _) (by omega)) h'.1

theorem Listing.isRead_of_lt (hc : n < firstTriple) : l.IsRead n :=
  fun _ _ hge => absurd hge (Nat.not_le_of_lt hc)

theorem Listing.FirstUnderTriple.isRead_iff (ht : l.FirstUnderTriple t) (hn : firstTriple ≤ n) :
    l.IsRead n ↔ ∃ i, n = stride t i := by
  rw [eq_stride_iff hn]
  constructor
  · exact fun h => h t ht hn
  · intro h t' ht' _
    rwa [← ht.unique ht']

/-- Where a scan can be. -/
def Listing.OnPath (l : Listing) (n : Nat) : Prop :=
  l.Reached n ∧ n < firstTriple ∨ ∃ t i, l.FirstUnderTriple t ∧ n = stride t i

/-- From where a scan can be the search answers with such a place. -/
theorem Listing.OnPath.next (hd : m.StoresListing a l) (hn : l.OnPath n) {blockAddr : LogAddr}
    {offset : Int} (h : m.nextAfter a n 0 = .ok (blockAddr, offset)) :
    ∃ n', offset = blockOffset n' ∧ l.OnPath n' := by
  have hp : 0 < pageSize := pageSize_pos
  rcases hn with ⟨hat, hc⟩ | ⟨t, i, ht, rfl⟩
  · by_cases hex : ∃ n', Follows l.records n n' ∧ InWindow (n + 1) n'
    · obtain ⟨n', hf, hwin⟩ := hex
      have hfinds := StoredFiles.nextAfter_first hd.toIsTree hp hc
        ((firstFrom_iff_follows hd.has_iff).mpr hf) hwin
      rw [StoredFiles.Finds, h] at hfinds
      refine ⟨n', (Prod.mk.inj (Except.ok.inj hfinds)).2, ?_⟩
      rcases Nat.lt_or_ge n' firstTriple with hlt | hge
      · exact .inl ⟨.inl hf.2.1, hlt⟩
      · obtain ⟨t, rfl, ht⟩ := Listing.firstUnderTriple_of_follows hf hc hge
        exact .inr ⟨t, 0, ht, (stride_zero t).symm⟩
    · obtain ⟨res, hres⟩ := StoredFiles.nextAfter_fails hd.toIsTree hp hc
        (hat.imp_left (hd.has_iff n).mpr) fun k hk hwin hhas => by
          obtain ⟨n', hf, hle⟩ := exists_firstFrom hk hhas
          exact hex ⟨n', (firstFrom_iff_follows hd.has_iff).mp hf, hwin.mono hle⟩
      rw [h] at hres
      cases hres
  · have hsearch := StoredFiles.nextAfter_stride hd.toIsTree hp (ht.firstFrom hd) i
    rw [h] at hsearch
    split at hsearch
    · exact ⟨_, (Prod.mk.inj (Except.ok.inj hsearch)).2, .inr ⟨t, i + 1, ht, rfl⟩⟩
    · cases hsearch

variable (hd : m.StoresListing a l) (hsize : ∀ n, l.records n ≠ [] → blockOffset n < size)
include hd hsize

/-- A scan that ends well comes to the blocks with entries that are read. -/
theorem StoredFiles.Visits.mem_iff_of_triple (ht : l.FirstUnderTriple t)
    (hv : m.Visits a size (firstTriple + t) ns) {k : Nat} (hk : firstTriple + t ≤ k)
    (hne : l.records k ≠ []) : k ∈ ns ↔ l.IsRead k := by
  have hmax := hd.lt_max ((hd.has_iff _).mpr ht.1)
  obtain ⟨j, -, hend, -, -, hmem⟩ := hv.strides hd ht (i := 0) (stride_zero t).symm hmax
  rw [ht.isRead_iff (by omega), hmem]
  constructor
  · rintro ⟨q, -, -, rfl⟩
    exact ⟨q, rfl⟩
  · rintro ⟨q, rfl⟩
    refine ⟨q, Nat.zero_le q, ?_, rfl⟩
    by_contra hge
    have hle : stride t j ≤ stride t q := by
      rcases Nat.eq_or_lt_of_le (Nat.le_of_not_lt hge) with rfl | hlt
      · exact Nat.le_refl _
      · exact (stride_lt_stride hlt).le
    have := blockOffset_le_iff.mpr hle
    have := hsize _ hne
    omega

theorem StoredFiles.Visits.mem_iff (hn : l.Reached n) (hlt : blockOffset n < size)
    (hc : n < firstTriple) (hv : m.Visits a size n ns) {k : Nat} (hk : n ≤ k)
    (hne : l.records k ≠ []) : k ∈ ns ↔ l.IsRead k := by
  induction ns generalizing n with
  | nil =>
    cases hv with
    | past h => exact absurd hlt (not_lt.mpr h)
  | cons n₀ ns ih =>
    rcases hv.next hd hn hlt hc with ⟨n', ns', hf, -, heq, hrest⟩ | ⟨hlast, -, heq⟩
    · obtain ⟨rfl, rfl⟩ := List.cons.inj heq
      rcases Nat.eq_or_lt_of_le hk with rfl | hgt
      · exact iff_of_true List.mem_cons_self (Listing.isRead_of_lt hc)
      have hge : n' ≤ k := by
        by_contra hbefore
        exact hne (hf.2.2 k hgt (by omega))
      have hto : k ∈ ns ↔ l.IsRead k := by
        rcases Nat.lt_or_ge n' firstTriple with hlt' | hge'
        · exact ih (.inl hf.2.1) (hsize _ hf.2.1) hlt' hrest hge
        · obtain ⟨t, rfl, ht⟩ := Listing.firstUnderTriple_of_follows hf hc hge'
          exact hrest.mem_iff_of_triple hd hsize ht hge hne
      rw [List.mem_cons, ← hto]
      exact ⟨fun h => h.resolve_left (by omega), .inr⟩
    · obtain ⟨rfl, rfl⟩ := List.cons.inj heq
      rcases Nat.eq_or_lt_of_le hk with rfl | hgt
      · exact iff_of_true List.mem_cons_self (Listing.isRead_of_lt hc)
      · exact absurd (hlast k hgt) hne

/-- The scan from block `n` on ends, if the search gets from block to block. -/
theorem Listing.ScannedThrough.exists_visits (h : l.ScannedThrough size) :
    ∀ d n, pageCount ≤ n + d → l.Reached n → blockOffset n < size → n < firstTriple →
      ∃ ns, m.Visits a size n ns := by
  have hp : 0 < pageSize := pageSize_pos
  intro d
  induction d using Nat.strong_induction_on with
  | _ d ih =>
    intro n hn hat hlt hc
    by_cases hex : ∃ n', Follows l.records n n'
    · obtain ⟨n', hf⟩ := hex
      have hfinds := StoredFiles.nextAfter_first hd.toIsTree hp hc
        ((firstFrom_iff_follows hd.has_iff).mpr hf) (h.reaches n n' hat hc hf)
      have hgt := hf.1
      rcases Nat.lt_or_ge n' firstTriple with hlt' | hge'
      · have hbound : n' < pageCount := by
          by_contra hge
          exact hf.2.1 (l.bounded n' (by omega))
        obtain ⟨ns, hns⟩ := ih (d - (n' - n)) (by omega) n' (by omega) (.inl hf.2.1)
          (hsize _ hf.2.1) hlt'
        exact ⟨_, .step hlt hfinds hns⟩
      · obtain ⟨t, rfl, ht⟩ := Listing.firstUnderTriple_of_follows hf hc hge'
        obtain ⟨hround, j, hpast, hmax⟩ := h.strides t ht
        obtain ⟨ns, hns⟩ := exists_visits_stride hd ht hround hpast hmax j 0 (by omega)
          (Nat.zero_le j)
        rw [stride_zero] at hns
        exact ⟨_, .step hlt hfinds hns⟩
    · have hlast : ∀ k, n < k → l.records k = [] := fun k hk => by
        by_contra hne
        exact hex (Cursor.exists_follows ⟨k, hk, hne⟩)
      refine ⟨_, .last hlt (StoredFiles.nextAfter_overflow hd.toIsTree hp
        (h.ends n hat hc hlast) hc fun k hk hhas => ?_)⟩
      exact (hd.has_iff k).mp hhas (hlast k hk)

/-- The scan ends well if and only if the search gets from block to block and to the end. -/
theorem exists_visits_iff (h0 : blockOffset 0 < size) :
    (∃ ns, m.Visits a size 0 ns) ↔ l.ScannedThrough size := by
  have hzero : 0 < firstTriple := by
    have := logAddressesPerBlock_ge
    rw [firstTriple, firstDouble]
    omega
  constructor
  · rintro ⟨ns, hv⟩
    have hat : ∀ n, l.Reached n → l.IsRead n → blockOffset n < size ∧
        ∃ ns', m.Visits a size n ns' := by
      intro n hn hread
      by_cases hn0 : n = 0
      · subst hn0
        exact ⟨h0, ns, hv⟩
      · have hne := hn.resolve_right hn0
        exact ⟨hsize n hne, hv.suffix
          ((hv.mem_iff hd hsize (.inr rfl) h0 hzero (Nat.zero_le n) hne).mpr hread)⟩
    refine ⟨fun n n' hn hc hf => ?_, fun n hn hc hlast => ?_, fun t ht => ?_⟩
    · obtain ⟨hlt, ns', hv'⟩ := hat n hn (Listing.isRead_of_lt hc)
      rcases hv'.next hd hn hlt hc with ⟨n'', _, hf', hwin, -, -⟩ | ⟨hlast, -, -⟩
      · rwa [hf.unique hf']
      · exact absurd (hlast n' hf.1) hf.2.1
    · obtain ⟨hlt, ns', hv'⟩ := hat n hn (Listing.isRead_of_lt hc)
      rcases hv'.next hd hn hlt hc with ⟨n', _, hf', -, -, -⟩ | ⟨-, hstart, -⟩
      · exact absurd (hlast n' hf'.1) hf'.2.1
      · exact hstart
    · have hread : l.IsRead (firstTriple + t) :=
        (ht.isRead_iff (Nat.le_add_right _ _)).mpr ⟨0, (stride_zero t).symm⟩
      obtain ⟨hlt, ns', hv'⟩ := hat _ (.inl ht.1) hread
      have hmax := hd.lt_max ((hd.has_iff _).mpr ht.1)
      obtain ⟨j, -, hpast, hj, hround, -⟩ := hv'.strides hd ht (i := 0) (stride_zero t).symm hmax
      have hpos : 0 < j := by
        by_contra hzero
        obtain rfl : j = 0 := by omega
        rw [stride_zero] at hpast
        omega
      have hround := hround hpos
      rw [Nat.zero_add, Nat.one_mul] at hround
      exact ⟨hround, j, hpast, hj⟩
  · exact fun h => h.exists_visits hd hsize pageCount 0 (by omega) (.inr rfl) h0 hzero

end Visits

end NandFs
