import NandFs.DirectoryReads

/-! # What `readdir` enumerates

A directory is a sequence of blocks with entries, some of them empty.  Read from the start, a
stream gives each entry once and then the end if and only if from each block the search gets
to the next one (`ReadsOn`): the next block lies in the window of the search, and a search
that starts anew under the triple entry overruns the largest file.
-/
namespace NandFs

open Cursor (Follows Yields Enumerates upTo RightAt)

variable [FsConfig]

/-- The blocks of a directory with the entries of each.  The first holds those for itself and
for its parent, and no entry is there twice. -/
structure Directory where
  records : Nat → List Record
  first : records 0 ≠ []
  bounded : ∀ n, pageCount ≤ n → records n = []
  distinct : (upTo records pageCount).Nodup

/-- All entries of a directory, in the order of its blocks. -/
def Directory.entries (d : Directory) : List Record := upTo d.records pageCount

/-- From each block of the directory that is not empty the search gets to the next, and after
the only one under the triple entry it does not come back to it. -/
structure Directory.ReadsOn (d : Directory) : Prop where
  reaches : ∀ n n', d.records n ≠ [] → Follows d.records n n' →
    n + 1 ≤ firstTriple ∧ InWindow (n + 1) n'
  beyond : ∀ t, d.records (firstTriple + t) ≠ [] →
    (t + 1) % (logAddressesPerBlock * logAddressesPerBlock) = 0 →
      fsMaxFilesize ≤ blockOffset (firstTriple + t + (t + 1))

/-- The tree under the inode at `a` is that of the directory. -/
structure StoredFiles.StoresDirectory (m : StoredFiles) (a : LogAddr) (d : Directory) : Prop
    extends m.IsTree a where
  inode : isAddressEmpty a = false
  has_iff : ∀ n, m.Has a n ↔ d.records n ≠ []
  holds : ∀ n, d.records n ≠ [] → HoldsEntries (m.fsReadBlock (m.blockAddr a n)) 0 (d.records n)

namespace Directory
variable (d : Directory)

/-- The bytes that the entries of a block take. -/
def used (n : Nat) : Nat := ((d.records n).map List.length).sum

/-- The offset of the stream when it has given the last entry of block `n`. -/
def stop (n : Nat) : Int := blockOffset n + d.used n

end Directory

section Reads
variable {m : StoredFiles} {after : Nat → UInt8} {inoNum : BitVec 32} {a : LogAddr} {d : Directory}

/-- What is left of a block after the entries it holds. -/
theorem HoldsEntries.rest {b : Block} {p : Nat} {es : List Record} (h : HoldsEntries b p es) :
    p + (es.map List.length).sum < pageSize ∧
      ∀ k, p + (es.map List.length).sum ≤ k → k < pageSize → b.byte k = 0xff := by
  induction h with
  | erased hp h =>
    simp only [List.map_nil, List.sum_nil, Nat.add_zero]
    exact ⟨hp, h⟩
  | entry _ _ _ _ _ ih =>
    rw [List.map_cons, List.sum_cons, length_recordOf, ← Nat.add_assoc]
    exact ih

variable (hd : m.StoresDirectory a d) (hino : inoNum ≠ 0) (hidle : inoNum ∉ m.involved)
include hd hino hidle

theorem readFileBlock_of_has {n p : Nat} (hn : d.records n ≠ []) (hp : p < pageSize) :
    m.readFileBlock inoNum (blockOffset n + p) a = ⟨0, m.fsReadBlock (m.blockAddr a n), a⟩ := by
  have hin := hd.within n ((hd.has_iff n).mpr hn)
  have hmax := hd.size_le
  have hlt := (blockOffset_lt_iff (k := n + 1) hp).mpr (Nat.lt_succ_self n)
  exact StoredFiles.readFileBlock_eq hino hidle hp (by omega) (by omega) hd.inode

variable (after) in
/-- Within a block the stream gives one entry after the other. -/
theorem yields_within {n p : Nat} {es : List Record} (hn : d.records n ≠ [])
    (h : HoldsEntries (m.fsReadBlock (m.blockAddr a n)) p es) :
    Yields (m.nextEntry after inoNum a) (blockOffset n + p) es
      (blockOffset n + (p + (es.map List.length).sum : Nat)) := by
  induction h with
  | erased hp h =>
    simp only [List.map_nil, List.sum_nil, Nat.add_zero]
    exact .refl _
  | @entry p es hne hpos hlen hp hrest ih =>
    have hroom : p + 256 ≤ pageSize := Nat.le_of_lt hp
    have hfull : ¬isDirentBlockFull (blockOffset n + p) = true := by
      rw [isDirentBlockFull, calcOffsetInFileBlock_eq n (by omega), decide_eq_true_iff, fsBlockSize]
      omega
    rw [List.map_cons, List.sum_cons, length_recordOf, ← Nat.add_assoc]
    refine .step ?_ ih
    rw [StoredFiles.nextEntry, if_neg hfull, readFileBlock_of_has hd hino hidle hn (by omega),
      calcOffsetInFileBlock_eq n (by omega)]
    simp only [ne_eq, not_true_eq_false, if_false,
      isDirentEmpty_direntAt (show p + 5 ≤ pageSize by omega), hne,
      Bool.false_eq_true, recordOf_direntAt after hroom hlen,
      direntGetLen_direntAt after hroom]
    push_cast
    rw [Int.add_assoc]

/-- At the end of a block the stream looks for the next one. -/
theorem nextEntry_stop {n : Nat} (hn : d.records n ≠ []) :
    m.nextEntry after inoNum a (d.stop n) = m.fromNextBlock after a (d.stop n) := by
  obtain ⟨hlt, herased⟩ := (hd.holds n hn).rest
  rw [Nat.zero_add] at hlt herased
  rw [StoredFiles.nextEntry, Directory.stop, Directory.used]
  by_cases hfull : isDirentBlockFull
      (blockOffset n + (((d.records n).map List.length).sum : Nat)) = true
  · rw [if_pos hfull]
  · have hroom : ((d.records n).map List.length).sum + 256 ≤ pageSize := by
      rw [isDirentBlockFull, calcOffsetInFileBlock_eq n hlt, decide_eq_true_iff,
        fsBlockSize] at hfull
      omega
    rw [if_neg hfull, readFileBlock_of_has hd hino hidle hn hlt, calcOffsetInFileBlock_eq n hlt]
    have hseen : ((d.records n).map List.length).sum + 5 ≤ pageSize := by omega
    simp only [ne_eq, not_true_eq_false, if_false, isDirentEmpty_direntAt hseen,
      isDirentEmpty_erased herased, if_true]

/-- The search from the end of block `n` -/
theorem nextEntry_stop_eq {n : Nat} (hn : d.records n ≠ []) :
    m.nextEntry after inoNum a (d.stop n) =
      match m.nextAfter a n (d.used n) with
      | .error _ => none
      | .ok (blockAddr, offset) =>
        some (recordOf (direntAt (m.fsReadBlock blockAddr) after 0),
          offset + direntGetLen (direntAt (m.fsReadBlock blockAddr) after 0)) :=
  nextEntry_stop hd hino hidle hn

theorem nextEntry_of_fails {n : Nat} (hn : d.records n ≠ [])
    (h : StoredFiles.Fails (m.nextAfter a n (d.used n))) :
    m.nextEntry after inoNum a (d.stop n) = none := by
  obtain ⟨res, hres⟩ := h
  rw [nextEntry_stop_eq hd hino hidle hn, hres]

variable (after) in
/-- When the search finds a block of the directory, the stream goes on with its first entry. -/
theorem nextEntry_of_ok {n k : Nat} {offset : Int} (hn : d.records n ≠ [])
    (hk : d.records k ≠ [])
    (h : m.nextAfter a n (d.used n) = .ok (m.blockAddr a k, offset)) :
    ∃ r rest, d.records k = r :: rest ∧
      HoldsEntries (m.fsReadBlock (m.blockAddr a k)) r.length rest ∧
      m.nextEntry after inoNum a (d.stop n) = some (r, offset + r.length) := by
  have hholds := hd.holds k hk
  rw [nextEntry_stop_eq hd hino hidle hn, h]
  generalize hes : d.records k = es at hholds
  cases hholds with
  | erased => exact absurd hes hk
  | @entry _ es hne hpos hlen hp hrest =>
    have hroom : 0 + 256 ≤ pageSize := Nat.le_of_lt hp
    rw [Nat.zero_add, ← length_recordOf] at hrest
    refine ⟨_, es, rfl, hrest, ?_⟩
    have hrecord := recordOf_direntAt after hroom hlen
    have hlength := direntGetLen_direntAt (b := m.fsReadBlock (m.blockAddr a k)) after hroom
    rw [Nat.cast_zero] at hrecord hlength
    simp only [hrecord, hlength, length_recordOf]

theorem yields_of_finds {n n' : Nat} (hn : d.records n ≠ []) (hn' : d.records n' ≠ [])
    (h : m.Finds a (m.nextAfter a n (d.used n)) n') :
    Yields (m.nextEntry after inoNum a) (d.stop n) (d.records n') (d.stop n') := by
  obtain ⟨r, rest, hrec, hrest, hnext⟩ := nextEntry_of_ok after hd hino hidle hn hn' h
  have hy := yields_within after hd hino hidle hn' hrest
  have hstop : d.stop n' = blockOffset n' + (r.length + (rest.map List.length).sum : Nat) := by
    rw [Directory.stop, Directory.used, hrec, List.map_cons, List.sum_cons]
  rw [hstop, hrec]
  exact .step hnext hy

end Reads

/-! ## From block to block -/

section Blocks
variable {m : StoredFiles} {after : Nat → UInt8} {inoNum : BitVec 32} {a : LogAddr} {d : Directory}

theorem used_lt (hd : m.StoresDirectory a d) {n : Nat} (hn : d.records n ≠ []) :
    d.used n < pageSize := by
  have h := (hd.holds n hn).rest.1
  rwa [Nat.zero_add] at h

theorem firstFrom_iff_follows {records : Nat → List Record} (hhas : ∀ n, m.Has a n ↔ records n ≠ [])
    {n n' : Nat} : m.FirstFrom a (n + 1) n' ↔ Follows records n n' := by
  constructor
  · rintro ⟨hlt, hn', hbefore⟩
    exact ⟨hlt, (hhas n').mp hn', fun k hk hk' =>
      not_not.mp fun hne => hbefore k hk hk' ((hhas k).mpr hne)⟩
  · rintro ⟨hlt, hne, hbefore⟩
    exact ⟨hlt, (hhas n').mpr hne, fun k hk hk' hk'' =>
      (hhas k).mp hk'' (hbefore k hk hk')⟩

theorem firstFrom_iff (hd : m.StoresDirectory a d) {n n' : Nat} :
    m.FirstFrom a (n + 1) n' ↔ Follows d.records n n' := firstFrom_iff_follows hd.has_iff

theorem Directory.mem_upTo (d : Directory) {k n : Nat} {r : Record} (h : r ∈ d.records k)
    (hk : k < n) : r ∈ upTo d.records n :=
  List.mem_flatMap.mpr ⟨k, List.mem_range.mpr hk, h⟩

theorem exists_firstFrom {c n : Nat} (hle : c ≤ n) (h : m.Has a n) :
    ∃ k, m.FirstFrom a c k ∧ k ≤ n := by
  classical
  have hex : ∃ k, c ≤ k ∧ m.Has a k := ⟨n, hle, h⟩
  obtain ⟨hck, hhas⟩ := Nat.find_spec hex
  exact ⟨Nat.find hex, ⟨hck, hhas, fun k hk hlt hk' => Nat.find_min hex hlt ⟨hk, hk'⟩⟩,
    Nat.find_min' hex ⟨hle, h⟩⟩

section Steps
variable (hd : m.StoresDirectory a d) (hino : inoNum ≠ 0) (hidle : inoNum ∉ m.involved)
  {n : Nat} (hn : d.records n ≠ [])
include hd hino hidle hn

/-- The next block is in the window of the search. -/
theorem rightAt_of_window {n' : Nat} (hc : n + 1 ≤ firstTriple) (hf : Follows d.records n n')
    (hwin : InWindow (n + 1) n') : RightAt (m.nextEntry after inoNum a) d.records d.stop n := by
  have hfinds := StoredFiles.nextAfter_first hd.toIsTree (used_lt hd hn) hc
    ((firstFrom_iff hd).mpr hf) hwin
  exact .inl ⟨n', hf, yields_of_finds hd hino hidle hn hf.2.1 hfinds⟩

/-- The window of the search has no block. -/
theorem none_of_window (hc : n + 1 ≤ firstTriple)
    (hwin : ∀ n', Follows d.records n n' → ¬InWindow (n + 1) n') :
    m.nextEntry after inoNum a (d.stop n) = none := by
  refine nextEntry_of_fails hd hino hidle hn ?_
  refine StoredFiles.nextAfter_fails hd.toIsTree (used_lt hd hn) hc
    (.inl ((hd.has_iff n).mpr hn)) fun k hk hink hhas => ?_
  obtain ⟨n', hf, hle⟩ := exists_firstFrom hk hhas
  exact hwin n' ((firstFrom_iff hd).mp hf) (hink.mono hle)

variable (after) in
/-- Under the triple entry the search comes back to the first block there, or fails. -/
theorem triple_cases {t : Nat} (ht : n = firstTriple + t) : ∃ k, firstTriple ≤ k ∧ k ≤ n ∧
    d.records k ≠ [] ∧
    if (t + 1) % (logAddressesPerBlock * logAddressesPerBlock) = 0 ∧
        blockOffset (k + (t + 1)) < fsMaxFilesize then
      ∃ r s, m.nextEntry after inoNum a (d.stop n) = some (r, s) ∧ r ∈ d.records k
    else m.nextEntry after inoNum a (d.stop n) = none := by
  obtain ⟨k, hf, hle⟩ := exists_firstFrom (c := firstTriple) (by omega) ((hd.has_iff n).mpr hn)
  have hk := (hd.has_iff k).mp hf.2.1
  refine ⟨k, hf.1, hle, hk, ?_⟩
  have hsearch := StoredFiles.nextAfter_triple hd.toIsTree (used_lt hd hn) (t := t) hf
  rw [← ht] at hsearch
  split
  · rename_i hagain
    rw [if_pos hagain] at hsearch
    obtain ⟨r, rest, hrec, -, hnext⟩ :=
      nextEntry_of_ok after hd hino hidle hn hk hsearch
    exact ⟨r, _, hnext, by rw [hrec]; exact List.mem_cons_self⟩
  · rename_i hagain
    rw [if_neg hagain] at hsearch
    exact nextEntry_of_fails hd hino hidle hn hsearch

/-- Where the search gets from the end of a block: to the next one, nowhere, or back. -/
theorem stop_cases : RightAt (m.nextEntry after inoNum a) d.records d.stop n ∨
    m.nextEntry after inoNum a (d.stop n) = none ∨
    ∃ r s, m.nextEntry after inoNum a (d.stop n) = some (r, s) ∧ r ∈ upTo d.records (n + 1) := by
  by_cases hc : n + 1 ≤ firstTriple
  · by_cases hex : ∃ n', Follows d.records n n' ∧ InWindow (n + 1) n'
    · obtain ⟨n', hf, hwin⟩ := hex
      exact .inl (rightAt_of_window hd hino hidle hn hc hf hwin)
    · exact .inr (.inl (none_of_window hd hino hidle hn hc fun n' hf hwin => hex ⟨n', hf, hwin⟩))
  · obtain ⟨t, ht⟩ := Nat.exists_eq_add_of_le (show firstTriple ≤ n by omega)
    obtain ⟨k, -, hle, -, hcase⟩ := triple_cases after hd hino hidle hn ht
    split at hcase
    · obtain ⟨r, s, hnext, hr⟩ := hcase
      exact .inr (.inr ⟨r, s, hnext, d.mem_upTo hr (by omega)⟩)
    · exact .inr (.inl hcase)

end Steps

theorem RightAt.of_follows {next : Int → Option (Record × Int)} {n n' : Nat}
    (h : RightAt next d.records d.stop n) (hf : Follows d.records n n') :
    ∃ r s, next (d.stop n) = some (r, s) ∧ r ∈ d.records n' := by
  rcases h with ⟨k, hk, hy⟩ | ⟨hlast, -⟩
  · obtain rfl := hf.unique hk
    generalize hes : d.records n' = es at hy
    generalize d.stop n' = s' at hy
    cases hy with
    | refl => exact absurd hes hf.2.1
    | step hs _ => exact ⟨_, _, hs, List.mem_cons_self⟩
  · exact absurd (hlast n' hf.1) hf.2.1

/-- A stream that is right at the end of a block does not come back to one before. -/
theorem RightAt.not_again {next : Int → Option (Record × Int)} {n k : Nat} {r : Record} {s : Int}
    (h : RightAt next d.records d.stop n) (hnext : next (d.stop n) = some (r, s))
    (hr : r ∈ d.records k) (hk : k ≤ n) : False := by
  rcases h with ⟨n', hf, hy⟩ | ⟨-, hnone⟩
  · obtain ⟨r', s', hnext', hr'⟩ := RightAt.of_follows (.inl ⟨n', hf, hy⟩) hf
    obtain ⟨rfl, -⟩ := Prod.mk.inj (Option.some.inj (hnext'.symm.trans hnext))
    have := Cursor.block_unique d.bounded d.distinct hr hr'
    have := hf.1
    omega
  · rw [hnone] at hnext
    cases hnext

variable (after) in
theorem rightAt_iff (hd : m.StoresDirectory a d) (hino : inoNum ≠ 0)
    (hidle : inoNum ∉ m.involved) :
    (∀ n, d.records n ≠ [] → RightAt (m.nextEntry after inoNum a) d.records d.stop n) ↔
      d.ReadsOn := by
  constructor
  · intro h
    have hthere : ∀ n n', d.records n ≠ [] → Follows d.records n n' →
        m.nextEntry after inoNum a (d.stop n) ≠ none := by
      intro n n' hn hf hnone
      obtain ⟨r, s, hnext, -⟩ := RightAt.of_follows (h n hn) hf
      rw [hnone] at hnext
      cases hnext
    constructor
    · intro n n' hn hf
      by_cases hc : n + 1 ≤ firstTriple
      · refine ⟨hc, ?_⟩
        by_contra hwin
        refine hthere n n' hn hf (none_of_window hd hino hidle hn hc fun k hk => ?_)
        rwa [hk.unique hf]
      · obtain ⟨t, ht⟩ := Nat.exists_eq_add_of_le (show firstTriple ≤ n by omega)
        obtain ⟨k, -, hle, -, hcase⟩ := triple_cases after hd hino hidle hn ht
        split at hcase
        · obtain ⟨r, s, hnext, hr⟩ := hcase
          exact (RightAt.not_again (h n hn) hnext hr hle).elim
        · exact absurd hcase (hthere n n' hn hf)
    · intro t hn hmod
      by_contra hlt
      obtain ⟨k, -, hle, -, hcase⟩ := triple_cases after hd hino hidle hn rfl
      have hoff := blockOffset_le_iff.mpr (show k + (t + 1) ≤ firstTriple + t + (t + 1) by omega)
      rw [if_pos ⟨hmod, by omega⟩] at hcase
      obtain ⟨r, s, hnext, hr⟩ := hcase
      exact RightAt.not_again (h _ hn) hnext hr hle
  · intro h n hn
    by_cases hex : ∃ n', Follows d.records n n'
    · obtain ⟨n', hf⟩ := hex
      obtain ⟨hc, hwin⟩ := h.reaches n n' hn hf
      exact rightAt_of_window hd hino hidle hn hc hf hwin
    · have hlast : ∀ k, n < k → d.records k = [] := fun k hk => by
        by_contra hne
        exact hex (Cursor.exists_follows ⟨k, hk, hne⟩)
      refine .inr ⟨hlast, ?_⟩
      by_cases hc : n + 1 ≤ firstTriple
      · exact none_of_window hd hino hidle hn hc fun n' hf => absurd ⟨n', hf⟩ hex
      · obtain ⟨t, ht⟩ := Nat.exists_eq_add_of_le (show firstTriple ≤ n by omega)
        obtain ⟨k, hge, hle, hk, hcase⟩ := triple_cases after hd hino hidle hn ht
        have hkn : k = n := by
          by_contra hne
          obtain ⟨n', hf⟩ : ∃ n', Follows d.records k n' :=
            Cursor.exists_follows ⟨n, lt_of_le_of_ne hle hne, hn⟩
          have := (h.reaches k n' hk hf).1
          omega
        rw [if_neg fun hand => ?_] at hcase
        · exact hcase
        · subst hkn ht
          exact absurd (h.beyond t hn hand.1) (not_le.mpr hand.2)

/-- From its start the stream gives each entry of the directory once and then the end, if and
only if the search gets from block to block. -/
theorem enumerates_iff_readsOn (hd : m.StoresDirectory a d) (hino : inoNum ≠ 0)
    (hidle : inoNum ∉ m.involved) :
    Enumerates (m.nextEntry after inoNum a) (blockOffset 0) d.entries ↔ d.ReadsOn := by
  have hall : ∀ n, d.records n ≠ [] ∨ n = 0 → d.records n ≠ [] := by
    rintro n (hn | rfl)
    · exact hn
    · exact d.first
  have hstart := yields_within after hd hino hidle d.first (hd.holds 0 d.first)
  rw [Nat.cast_zero, add_zero, Nat.zero_add] at hstart
  rw [Directory.entries, Cursor.enumerates_blocks_iff d.bounded d.distinct hstart
    fun n hn => stop_cases hd hino hidle (hall n hn), ← rightAt_iff after hd hino hidle]
  exact ⟨fun h n hn => h n (.inl hn), fun h n hn => h n (hall n hn)⟩

end Blocks

end NandFs
