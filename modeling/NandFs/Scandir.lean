import NandFs.ScanSearch
import Mathlib.Data.List.Sort

/-! # What `scandir` collects

The record loop of `nandfs_scandir` over a block that leaves five bytes behind its last entry
copies the entries that the filter accepts; where it leaves fewer the loop reads on in the
memory behind the buffer.  `insertion_sort` is called for an empty list only.  So the call
returns the accepted entries in the order of the blocks, if the search gets to the end of the
directory.
-/
namespace NandFs

open Program

variable [FsConfig]

/-- The callbacks for a filter that looks at the bytes of an entry. -/
def ScandirCallbacks.accepting (accepts : Record → Bool) (reallocator : Nat → Bool) :
    ScandirCallbacks := ⟨fun de => accepts (recordOf de), reallocator⟩

/-- `nandfs_scandir` with its call of `insertion_sort`, which is made `if(!de_idx)`. -/
def scandirSorting {σ : Type} [Storage σ] (sort : List Record → List Record) (rounds : Nat)
    (dir : Path) (cb : ScandirCallbacks) : FsM σ (Int × List Record) := do
  let (deIdx, names) ← nandfsScandir rounds dir cb
  if deIdx = 0 then return (deIdx, sort names) else return (deIdx, names)

/-! ## Collecting -/

section Collect
variable {accepts : Record → Bool} {reallocator : Nat → Bool} {list list' : Namelist}
  {es es' : List Record}

/-- The accepted ones of these entries are copied, each after two allocations. -/
def Namelist.collect (accepts : Record → Bool) (list : Namelist) (es : List Record) : Namelist :=
  ⟨(es.filter accepts).reverse ++ list.names, list.allocations + 2 * (es.filter accepts).length⟩

/-- The allocations from number `i` on up to number `j` succeed. -/
def Allocates (reallocator : Nat → Bool) (i j : Nat) : Prop :=
  ∀ k, i ≤ k → k < j → reallocator k = true

omit [FsConfig] in
theorem Namelist.collect_nil : list.collect accepts [] = list := rfl

omit [FsConfig] in
theorem Namelist.collect_append :
    list.collect accepts (es ++ es') = (list.collect accepts es).collect accepts es' := by
  simp only [Namelist.collect, List.filter_append, List.reverse_append, List.append_assoc,
    List.length_append, Nat.mul_add, Nat.add_assoc]

omit [FsConfig] in
theorem Namelist.collect_accepted {e : Record} (h : accepts e = true) :
    list.collect accepts (e :: es) =
      Namelist.collect accepts ⟨e :: list.names, list.allocations + 2⟩ es := by
  rw [Namelist.collect, List.filter_cons_of_pos h, List.reverse_cons, List.append_assoc,
    List.length_cons, Nat.mul_succ, Nat.add_comm _ 2, ← Nat.add_assoc]
  rfl

omit [FsConfig] in
theorem Namelist.collect_refused {e : Record} (h : ¬accepts e = true) :
    list.collect accepts (e :: es) = list.collect accepts es := by
  rw [Namelist.collect, List.filter_cons_of_neg h]
  rfl

omit [FsConfig] in
theorem Namelist.allocations_le_collect :
    list.allocations ≤ (list.collect accepts es).allocations := Nat.le_add_right _ _

omit [FsConfig] in
theorem Allocates.trans {i j k : Nat} (h : Allocates reallocator i j)
    (h' : Allocates reallocator j k) : Allocates reallocator i k := by
  intro n hi hk
  rcases Nat.lt_or_ge n j with hj | hj
  · exact h n hi hj
  · exact h' n hj hk

omit [FsConfig] in
theorem Allocates.mono {i j i' j' : Nat} (h : Allocates reallocator i j) (hi : i ≤ i')
    (hj : j' ≤ j) : Allocates reallocator i' j' :=
  fun k hk hlt => h k (hi.trans hk) (Nat.lt_of_lt_of_le hlt hj)

end Collect

/-! ## The entries of a block -/

section Block
variable {accepts : Record → Bool} {reallocator : Nat → Bool} {list list' : Namelist}
  {b : Block} {p : Nat} {es : List Record} {after : Nat → UInt8} {n : Nat}
  {σ : Type} {s t : FileSystem σ}

/-- Behind the last entry the loop sees that there is none. -/
theorem isDirentEmpty_end (hp : p + 5 ≤ pageSize)
    (h : ∀ k, p ≤ k → k < pageSize → b.byte k = 0xff) :
    isDirentEmpty (direntAt b after p) = true := by
  rw [isDirentEmpty_direntAt hp]
  exact isDirentEmpty_erased h

theorem direntAt_entry (after : Nat → UInt8) (hlen : direntGetLen (blockAt b p) ≤ 256)
    (hp : p + 256 < pageSize) :
    isDirentEmpty (direntAt b after p) = isDirentEmpty (blockAt b p) ∧
      recordOf (direntAt b after p) = recordOf (blockAt b p) ∧
      ((p : Int) + direntGetLen (direntAt b after p)) = (p + direntGetLen (blockAt b p) : Nat) := by
  have hroom : p + 256 ≤ pageSize := hp.le
  refine ⟨isDirentEmpty_direntAt (by omega), recordOf_direntAt after hroom hlen, ?_⟩
  rw [direntGetLen_direntAt after hroom]
  push_cast
  rfl

/-- The record loop copies the accepted entries. -/
theorem scanBlock_collects (h : HoldsEntries b p es)
    (hroom : p + es.flatten.length + 5 ≤ pageSize) (hn : es.length < n)
    (halloc : Allocates reallocator list.allocations (list.collect accepts es).allocations) :
    scanBlock (.accepting accepts reallocator) b after n p list =
      (pure (some (list.collect accepts es)) : FsM σ _) := by
  induction h generalizing n list with
  | @erased p hp herased =>
    obtain ⟨n, rfl⟩ := Nat.exists_eq_succ_of_ne_zero (Nat.ne_of_gt hn)
    rw [List.flatten_nil, List.length_nil] at hroom
    unfold scanBlock
    dsimp only
    rw [if_pos (isDirentEmpty_end hroom herased), Namelist.collect_nil]
  | @entry p es hne hpos hlen hp hrest ih =>
    obtain ⟨n, rfl⟩ := Nat.exists_eq_succ_of_ne_zero (show n ≠ 0 by omega)
    rw [List.flatten_cons, List.length_append, length_recordOf, ← Nat.add_assoc] at hroom
    obtain ⟨hempty, hrec, hnext⟩ := direntAt_entry after hlen hp
    unfold scanBlock
    dsimp only
    rw [if_neg (by rw [hempty, hne]; exact Bool.false_ne_true), hnext]
    have hfilter : (ScandirCallbacks.accepting accepts reallocator).filter (direntAt b after p) =
        accepts (recordOf (blockAt b p)) := congrArg accepts hrec
    rw [hfilter]
    by_cases hacc : accepts (recordOf (blockAt b p)) = true
    · rw [Namelist.collect_accepted hacc] at halloc ⊢
      have hle : (⟨recordOf (blockAt b p) :: list.names, list.allocations + 2⟩ : Namelist).allocations ≤
          (Namelist.collect accepts
            ⟨recordOf (blockAt b p) :: list.names, list.allocations + 2⟩ es).allocations :=
        Namelist.allocations_le_collect
      dsimp only at hle
      have hone : (ScandirCallbacks.accepting accepts reallocator).reallocator list.allocations =
          true := halloc _ (Nat.le_refl _) (by omega)
      have htwo : (ScandirCallbacks.accepting accepts reallocator).reallocator
          (list.allocations + 1) = true := halloc _ (Nat.le_succ _) (by omega)
      rw [if_pos hacc, hone, htwo, Bool.not_true, if_neg Bool.false_ne_true,
        if_neg Bool.false_ne_true]
      have hname : (List.range (direntGetLen (direntAt b after p))).map (direntAt b after p) =
          recordOf (blockAt b p) := hrec
      rw [hname]
      exact ih hroom (Nat.lt_of_succ_lt_succ hn) (halloc.mono (Nat.le_add_right _ 2) (Nat.le_refl _))
    · rw [Namelist.collect_refused hacc] at halloc ⊢
      rw [if_neg hacc]
      exact ih hroom (Nat.lt_of_succ_lt_succ hn) halloc

/-- What is known when the loop has come to the end of a block. -/
theorem scanBlock_ok (h : HoldsEntries b p es) (hroom : p + es.flatten.length + 5 ≤ pageSize)
    (hrun : scanBlock (.accepting accepts reallocator) b after n p list s = .ok (some list') t) :
    t = s ∧ list' = list.collect accepts es ∧
      Allocates reallocator list.allocations list'.allocations := by
  induction h generalizing n list with
  | @erased p hp herased =>
    rw [List.flatten_nil, List.length_nil] at hroom
    cases n with
    | zero => cases hrun
    | succ n =>
      unfold scanBlock at hrun
      dsimp only at hrun
      rw [if_pos (isDirentEmpty_end hroom herased)] at hrun
      cases hrun
      exact ⟨rfl, rfl, fun k hk hlt => absurd hlt (Nat.not_lt_of_le hk)⟩
  | @entry p es hne hpos hlen hp hrest ih =>
    rw [List.flatten_cons, List.length_append, length_recordOf, ← Nat.add_assoc] at hroom
    obtain ⟨hempty, hrec, hnext⟩ := direntAt_entry after hlen hp
    have hfilter : (ScandirCallbacks.accepting accepts reallocator).filter (direntAt b after p) =
        accepts (recordOf (blockAt b p)) := congrArg accepts hrec
    have hname : (List.range (direntGetLen (direntAt b after p))).map (direntAt b after p) =
        recordOf (blockAt b p) := hrec
    cases n with
    | zero => cases hrun
    | succ n =>
      unfold scanBlock at hrun
      dsimp only at hrun
      rw [if_neg (by rw [hempty, hne]; exact Bool.false_ne_true), hnext, hfilter, hname] at hrun
      by_cases hacc : accepts (recordOf (blockAt b p)) = true
      · rw [if_pos hacc] at hrun
        rw [Namelist.collect_accepted hacc]
        cases hone : (ScandirCallbacks.accepting accepts reallocator).reallocator
            list.allocations with
        | false =>
          rw [hone, Bool.not_false, if_pos rfl] at hrun
          cases hrun
        | true =>
          rw [hone, Bool.not_true, if_neg Bool.false_ne_true] at hrun
          cases htwo : (ScandirCallbacks.accepting accepts reallocator).reallocator
              (list.allocations + 1) with
          | false =>
            rw [htwo, Bool.not_false, if_pos rfl] at hrun
            cases hrun
          | true =>
            rw [htwo, Bool.not_true, if_neg Bool.false_ne_true] at hrun
            obtain ⟨hst, hlist, halloc⟩ := ih hroom hrun
            refine ⟨hst, hlist, fun k hk hlt => ?_⟩
            rcases Nat.lt_or_ge k (list.allocations + 2) with hbefore | hge
            · rcases (show k = list.allocations ∨ k = list.allocations + 1 by omega) with rfl | rfl
              · exact hone
              · exact htwo
            · exact halloc k hge hlt
      · rw [if_neg hacc] at hrun
        rw [Namelist.collect_refused hacc]
        exact ih hroom hrun

/-- Past the end of the buffer, in memory that is all zeros, is an entry of no length. -/
theorem direntAt_past (hp : pageSize < p + 5) :
    isDirentEmpty (direntAt b (fun _ => 0) p) = false ∧
      direntGetLen (direntAt b (fun _ => 0) p) = 0 := by
  have hzero : ∀ j : Nat, pageSize ≤ p + j → direntAt b (fun _ => 0) p j = 0 := by
    intro j hj
    have hk : ((p : Int) + j).toNat = p + j := by omega
    simp only [direntAt, hk, if_neg (Nat.not_lt_of_le hj)]
  constructor
  · have hlt : ∀ v : UInt8, v.toNat < 256 := fun v => v.toNat_lt
    have h1 := hlt (direntAt b (fun _ => 0) p 1)
    have h2 := hlt (direntAt b (fun _ => 0) p 2)
    have h3 := hlt (direntAt b (fun _ => 0) p 3)
    have hsmall : getUint32 (direntAt b (fun _ => 0) p) 1 < 2 ^ 24 := by
      rw [getUint32, hzero (1 + 3) (by omega)]
      simp only [Nat.reduceAdd, UInt8.toNat_zero, Nat.zero_mul, Nat.add_zero]
      omega
    rw [isDirentEmpty, beq_eq_false_iff_ne]
    intro heq
    have hval := congrArg BitVec.toNat heq
    rw [direntGetInoNum, BitVec.toNat_ofNat, Nat.mod_eq_of_lt (by omega)] at hval
    rw [hval] at hsmall
    exact absurd hsmall (by decide)
  · rw [direntGetLen, getUint32, hzero 5 (by omega), hzero (5 + 1) (by omega),
      hzero (5 + 2) (by omega), hzero (5 + 3) (by omega)]
    rfl

/-- There the loop stays. -/
theorem scanBlock_past (hp : pageSize < p + 5) :
    scanBlock (.accepting accepts reallocator) b (fun _ => 0) n p list s ≠ .ok (some list') t := by
  obtain ⟨hne, hlen⟩ := direntAt_past (b := b) hp
  induction n generalizing list with
  | zero =>
    intro hrun
    cases hrun
  | succ n ih =>
    intro hrun
    unfold scanBlock at hrun
    dsimp only at hrun
    rw [if_neg (by rw [hne]; exact Bool.false_ne_true), hlen, Nat.cast_zero, Int.add_zero] at hrun
    split at hrun
    · split at hrun
      · cases hrun
      · split at hrun
        · cases hrun
        · exact ih hrun
    · exact ih hrun

/-- Where fewer than five bytes are left behind the entries, the loop does not end for every
memory behind the buffer. -/
theorem scanBlock_endless (h : HoldsEntries b p es)
    (hroom : pageSize < p + es.flatten.length + 5) :
    scanBlock (.accepting accepts reallocator) b (fun _ => 0) n p list s ≠ .ok (some list') t := by
  induction h generalizing n list with
  | erased hp herased =>
    rw [List.flatten_nil, List.length_nil] at hroom
    exact scanBlock_past hroom
  | @entry p es hne hpos hlen hp hrest ih =>
    rw [List.flatten_cons, List.length_append, length_recordOf, ← Nat.add_assoc] at hroom
    obtain ⟨hempty, -, hnext⟩ := direntAt_entry (fun _ => 0) hlen hp
    intro hrun
    cases n with
    | zero => cases hrun
    | succ n =>
      unfold scanBlock at hrun
      dsimp only at hrun
      rw [if_neg (by rw [hempty, hne]; exact Bool.false_ne_true), hnext] at hrun
      split at hrun
      · split at hrun
        · cases hrun
        · split at hrun
          · cases hrun
          · exact ih hroom hrun
      · exact ih hroom hrun

end Block

/-! ## The blocks of a directory -/

/-- The store has the directory, no transaction has it, and `size` is the size of its file. -/
structure StoredFiles.Scannable (m : StoredFiles) (inoNum : BitVec 32) (a : LogAddr) (l : Listing)
    (size : Int) : Prop where
  stores : m.StoresListing a l
  inoNum_ne : inoNum ≠ 0
  idle : inoNum ∉ m.involved
  getInode : m.readFileBlock 0 (inodeFileDataSize + (inoNum.toInt - 1) * fsBlockSize)
    LogAddr.empty = ⟨0, m.fsReadBlock a, a⟩
  size_eq : size = (inodeGetNbytes (m.fsReadBlock a)).toNat

section Blocks
variable {accepts : Record → Bool} {reallocator : Nat → Bool} {list : Namelist}
  {m : StoredFiles} {inoNum : BitVec 32} {a addr : LogAddr} {l : Listing} {size : Int} {n : Nat}
  {ns : List Nat} {s t : FileSystem StoredFiles}

namespace StoredFiles.Scannable

theorem lt_size (h : m.Scannable inoNum a l size) (hn : l.records n ≠ []) : blockOffset n < size := by
  have hin := h.stores.within n ((h.stores.has_iff n).mpr hn)
  have hlt := (blockOffset_lt_iff (n := n) (k := n + 1) pageSize_pos).mpr (Nat.lt_succ_self n)
  rw [h.size_eq]
  omega

/-- The inode is found by its number, or at its address. -/
theorem readFileBlock (h : m.Scannable inoNum a l size) (haddr : addr = LogAddr.empty ∨ addr = a)
    (hn : blockOffset n < size) : m.readFileBlock inoNum (blockOffset n) addr =
      ⟨0, m.fsReadBlock (m.blockAddr a n), a⟩ := by
  have hsize := h.size_eq
  have hmax := h.stores.size_le
  have hread := StoredFiles.readFileBlock_eq (n := n) (p := 0) h.inoNum_ne h.idle pageSize_pos
    (by rw [Nat.cast_zero]; omega) (by rw [Nat.cast_zero]; omega) h.stores.inode
  rw [Nat.cast_zero, Int.add_zero] at hread
  have hinode : m.readInodeBlock inoNum addr = m.readInodeBlock inoNum a := by
    rcases haddr with rfl | rfl
    · have hfound : m.readFileBlockOf m.readIno0 0
          (inodeFileDataSize + (inoNum.toInt - 1) * fsBlockSize) = ⟨0, m.fsReadBlock a, a⟩ :=
        h.getInode
      rw [StoredFiles.readInodeBlock, if_neg h.inoNum_ne, if_pos (by decide), hfound,
        StoredFiles.readInodeBlock, if_neg h.inoNum_ne, h.stores.inode, if_neg Bool.false_ne_true]
    · rfl
  rw [StoredFiles.readFileBlock, hinode]
  exact hread

/-- A block holds its entries; one that is not there reads as erased. -/
theorem holds (h : m.Scannable inoNum a l size) (n : Nat) :
    HoldsEntries (m.fsReadBlock (m.blockAddr a n)) 0 (l.records n) := by
  by_cases hn : l.records n = []
  · have hnot : m.blockAddr a n = LogAddr.empty :=
      not_not.mp fun hne => (h.stores.has_iff n).mp hne hn
    rw [hn, hnot]
    refine .erased pageSize_pos fun k _ hk => ?_
    rw [Block.byte, dif_pos hk]
    rfl
  · exact h.stores.holds n hn

end StoredFiles.Scannable

/-- There are no more entries than bytes of them. -/
theorem HoldsEntries.length_le {b : Block} {p : Nat} {es : List Record} (h : HoldsEntries b p es) :
    es.length ≤ es.flatten.length := by
  induction h with
  | erased => exact Nat.le_refl _
  | entry hne hpos hlen hp hrest ih =>
    rw [List.length_cons, List.flatten_cons, List.length_append, length_recordOf]
    omega

/-- A turn of the loop over the blocks reads the block at the offset. -/
theorem scanBlocks_read {cb : ScandirCallbacks} {rounds : Nat}
    (h : s.storage.Scannable inoNum a l size) (haddr : addr = LogAddr.empty ∨ addr = a)
    (hlt : blockOffset n < size) :
    scanBlocks cb inoNum size (rounds + 1) addr (blockOffset n) list s =
      (scanBlock cb (s.storage.fsReadBlock (s.storage.blockAddr a n)) s.afterFsBuffer rounds 0 list
        >>= fun (found : Option Namelist) => match found with
        | none => (sysReturn (-1, []) (-1, []) : FsM StoredFiles (Int × List Record))
        | some list => do
          let next ← onStorage (Storage.findNextNonEmptySparseBlock a (blockOffset n))
          if next.res = fsErrorOfstOvrflw then
            sysReturn (-1, []) ((list.names.length : Int), list.names.reverse)
          else if next.res ≠ 0 then sysReturn (-1, []) (-1, [])
          else
            let reread ← onStorage (Storage.fsReadBlock next.blockAddr)
            sysVerify (-1, []) (reread.1 == 0) do
            scanBlocks cb inoNum size rounds a next.offset list) s := by
  have hread : onStorage (Storage.readFileBlock inoNum (blockOffset n) addr tidEmpty) s =
      .ok ⟨0, s.storage.fsReadBlock (s.storage.blockAddr a n), a⟩ s :=
    congrArg (fun read => EStateM.Result.ok read s) (h.readFileBlock haddr hlt)
  rw [scanBlocks, if_pos hlt, bind_ok hread]
  rfl

/-- What a turn does when it has come to the end of a block. -/
theorem scanBlocks_turn {cb : ScandirCallbacks} {rounds : Nat} {list' : Namelist}
    (h : s.storage.Scannable inoNum a l size) (haddr : addr = LogAddr.empty ∨ addr = a)
    (hlt : blockOffset n < size)
    (hblock : scanBlock cb (s.storage.fsReadBlock (s.storage.blockAddr a n)) s.afterFsBuffer rounds
      0 list s = .ok (some list') s) :
    scanBlocks cb inoNum size (rounds + 1) addr (blockOffset n) list s =
      match s.storage.nextAfter a n 0 with
      | .ok (_, offset) => scanBlocks cb inoNum size rounds a offset list' s
      | .error res =>
        if res = fsErrorOfstOvrflw then
          sysReturn (-1, []) ((list'.names.length : Int), list'.names.reverse) s
        else sysReturn (-1, []) (-1, []) s := by
  have hsearch : onStorage (Storage.findNextNonEmptySparseBlock a (blockOffset n)) s =
      .ok (s.storage.nextAfter a n 0).result s := by
    rw [StoredFiles.nextAfter, Nat.cast_zero, Int.add_zero]
    rfl
  rw [scanBlocks_read h haddr hlt, bind_ok hblock]
  dsimp only
  rw [bind_ok hsearch]
  cases hnext : s.storage.nextAfter a n 0 with
  | error res =>
    have hres : res ≠ 0 := by
      rw [StoredFiles.nextAfter] at hnext
      exact StoredFiles.error_ne_zero hnext
    by_cases hend : res = fsErrorOfstOvrflw
    · exact (congrFun (if_pos hend) s).trans (if_pos hend).symm
    · exact (congrFun (if_neg hend) s).trans ((congrFun (if_pos hres) s).trans (if_neg hend).symm)
  | ok found => rfl

/-- The loop over the blocks collects the accepted entries of those it visits. -/
theorem scanBlocks_collects (h : s.storage.Scannable inoNum a l size) (hmutex : s.mutex = true)
    (hv : s.storage.Visits a size n ns) (haddr : addr = LogAddr.empty ∨ addr = a)
    (hroom : ∀ k ∈ ns, (l.records k).flatten.length + 5 ≤ pageSize)
    (halloc : Allocates reallocator list.allocations
      (list.collect accepts (ns.flatMap l.records)).allocations) :
    ∀ rounds, ns.length + pageSize < rounds →
      scanBlocks (.accepting accepts reallocator) inoNum size rounds addr (blockOffset n) list s =
        .ok (((list.collect accepts (ns.flatMap l.records)).names.length : Int),
          (list.collect accepts (ns.flatMap l.records)).names.reverse)
          { s with mutex := false } := by
  -- a block on the way is read to its end
  have hblock : ∀ {k rounds list}, (l.records k).flatten.length + 5 ≤ pageSize →
      pageSize < rounds →
      Allocates reallocator list.allocations (list.collect accepts (l.records k)).allocations →
      scanBlock (.accepting accepts reallocator)
        (s.storage.fsReadBlock (s.storage.blockAddr a k)) s.afterFsBuffer rounds 0 list s =
          .ok (some (list.collect accepts (l.records k))) s := by
    intro k rounds list hk hrounds halloc
    have hle := (h.holds k).length_le
    have hrun : scanBlock (.accepting accepts reallocator) _ s.afterFsBuffer rounds (0 : Nat) list =
        (pure _ : FsM StoredFiles _) :=
      scanBlock_collects (h.holds k) (by omega) (by omega) halloc
    exact congrFun hrun s
  induction hv generalizing addr list with
  | past hpast =>
    intro rounds hrounds
    obtain ⟨rounds, rfl⟩ := Nat.exists_eq_succ_of_ne_zero (Nat.ne_of_gt (Nat.zero_lt_of_lt hrounds))
    rw [scanBlocks, if_neg (not_lt.mpr hpast)]
    exact fsMutexUnlock_held hmutex
  | @last n hlt hend =>
    intro rounds hrounds
    obtain ⟨rounds, rfl⟩ := Nat.exists_eq_succ_of_ne_zero (Nat.ne_of_gt (Nat.zero_lt_of_lt hrounds))
    rw [List.length_singleton] at hrounds
    rw [List.flatMap_singleton] at halloc ⊢
    rw [scanBlocks_turn h haddr hlt (hblock (hroom n List.mem_cons_self) (by omega) halloc), hend]
    exact (if_pos rfl).trans (fsMutexUnlock_held hmutex)
  | @step n n' blockAddr ns hlt hnext rest ih =>
    intro rounds hrounds
    obtain ⟨rounds, rfl⟩ := Nat.exists_eq_succ_of_ne_zero (Nat.ne_of_gt (Nat.zero_lt_of_lt hrounds))
    rw [List.length_cons] at hrounds
    rw [List.flatMap_cons, Namelist.collect_append] at halloc ⊢
    have hfirst : Allocates reallocator list.allocations
        (list.collect accepts (l.records n)).allocations :=
      halloc.mono (Nat.le_refl _) Namelist.allocations_le_collect
    rw [scanBlocks_turn h haddr hlt (hblock (hroom n List.mem_cons_self) (by omega) hfirst), hnext]
    exact ih (.inr rfl) (fun k hk => hroom k (List.mem_cons_of_mem _ hk))
      (halloc.mono Namelist.allocations_le_collect (Nat.le_refl _)) rounds (by omega)

theorem sysReturn_failure {u : FileSystem StoredFiles} {r : Int} {names : List Record}
    (hrun : (sysReturn (-1, []) (-1, []) : FsM StoredFiles (Int × List Record)) u =
      .ok (r, names) t) : r = -1 := by
  cases hmutex : u.mutex with
  | true =>
    rw [sysReturn, fsMutexUnlock_held hmutex] at hrun
    cases hrun
    rfl
  | false =>
    have hstray : (sysReturn (-1, []) (-1, []) : FsM StoredFiles (Int × List Record)) u =
        .ok (-1, []) { u with strayUnlock := true } := by
      show (if u.mutex = true then _ else _ : FsM StoredFiles _) u = _
      rw [if_neg (by rw [hmutex]; exact Bool.false_ne_true)]
      rfl
    rw [hstray] at hrun
    cases hrun
    rfl

/-- What is known when the loop over the blocks ends without an error, if the memory behind the
buffer is all zeros. -/
theorem scanBlocks_ok (h : s.storage.Scannable inoNum a l size) (hmutex : s.mutex = true)
    (hafter : s.afterFsBuffer = fun _ => 0) (hn : l.OnPath n)
    (haddr : addr = LogAddr.empty ∨ addr = a) {r : Int} {names : List Record} (hr : r ≠ -1)
    {rounds : Nat} (hrun : scanBlocks (.accepting accepts reallocator) inoNum size rounds addr
      (blockOffset n) list s = .ok (r, names) t) :
    ∃ ns, s.storage.Visits a size n ns ∧
      names = (list.collect accepts (ns.flatMap l.records)).names.reverse ∧
      Allocates reallocator list.allocations
        (list.collect accepts (ns.flatMap l.records)).allocations ∧
      ∀ k ∈ ns, (l.records k).flatten.length + 5 ≤ pageSize := by
  induction rounds generalizing n addr list with
  | zero => cases hrun
  | succ rounds ih =>
    by_cases hlt : blockOffset n < size
    swap
    · rw [scanBlocks, if_neg hlt, sysReturn, fsMutexUnlock_held hmutex] at hrun
      cases hrun
      exact ⟨[], .past (not_lt.mp hlt), rfl, fun k hk hlt => absurd hlt (Nat.not_lt_of_le hk),
        fun k hk => absurd hk List.not_mem_nil⟩
    cases hb : scanBlock (.accepting accepts reallocator)
        (s.storage.fsReadBlock (s.storage.blockAddr a n)) s.afterFsBuffer rounds 0 list s with
    | error e u =>
      rw [scanBlocks_read h haddr hlt, bind_error hb] at hrun
      cases hrun
    | ok found u =>
      cases found with
      | none =>
        rw [scanBlocks_read h haddr hlt, bind_ok hb] at hrun
        exact absurd (sysReturn_failure hrun) hr
      | some list' =>
        have hroom : (l.records n).flatten.length + 5 ≤ pageSize := by
          by_contra hfew
          rw [hafter] at hb
          exact scanBlock_endless (h.holds n) (by omega) hb
        obtain ⟨rfl, rfl, halloc⟩ := scanBlock_ok (h.holds n) (by omega) hb
        rw [scanBlocks_turn h haddr hlt hb] at hrun
        cases hnext : u.storage.nextAfter a n 0 with
        | error res =>
          rw [hnext] at hrun
          dsimp only at hrun
          by_cases hend : res = fsErrorOfstOvrflw
          · subst hend
            rw [if_pos rfl, sysReturn, fsMutexUnlock_held hmutex] at hrun
            cases hrun
            refine ⟨[n], .last hlt hnext, ?_, ?_, fun k hk => ?_⟩
            · rw [List.flatMap_singleton]
            · rwa [List.flatMap_singleton]
            · rwa [List.mem_singleton.mp hk]
          · rw [if_neg hend] at hrun
            exact absurd (sysReturn_failure hrun) hr
        | ok found =>
          obtain ⟨blockAddr, offset⟩ := found
          rw [hnext] at hrun
          obtain ⟨n', rfl, hn'⟩ := hn.next h.stores hnext
          obtain ⟨ns, hv, hnames, halloc', hrooms⟩ := ih hn' (.inr rfl) hrun
          refine ⟨n :: ns, .step hlt hnext hv, ?_, ?_, fun k hk => ?_⟩
          · rw [List.flatMap_cons, Namelist.collect_append]
            exact hnames
          · rw [List.flatMap_cons, Namelist.collect_append]
            exact halloc.trans halloc'
          · rcases List.mem_cons.mp hk with rfl | hk
            · exact hroom
            · exact hrooms k hk

end Blocks

/-! ## The accepted entries -/

section Accepted
variable {accepts : Record → Bool} {l : Listing} {ns : List Nat}

omit [FsConfig] in
theorem flatMap_eq_of_sorted {f : Nat → List Record} {N : Nat} (hns : ns.Pairwise (· < ·))
    (hbound : ∀ n, N ≤ n → f n = []) (hmem : ∀ n, f n ≠ [] → n ∈ ns) :
    ns.flatMap f = (List.range N).flatMap f := by
  have hskip : ∀ xs : List Nat, xs.flatMap f = (xs.filter fun n => f n ≠ []).flatMap f := by
    intro xs
    induction xs with
    | nil => rfl
    | cons x xs ih =>
      by_cases hx : f x = []
      · rw [List.flatMap_cons, hx, List.nil_append, List.filter_cons_of_neg (by simpa using hx), ih]
      · rw [List.flatMap_cons, List.filter_cons_of_pos (by simpa using hx), List.flatMap_cons, ih]
  have hsame : (ns.filter fun n => f n ≠ []) = (List.range N).filter fun n => f n ≠ [] := by
    refine (hns.filter _).eq_of_mem_iff (List.pairwise_lt_range.filter _) fun n => ?_
    simp only [List.mem_filter, List.mem_range, decide_eq_true_eq]
    constructor
    · rintro ⟨-, hne⟩
      exact ⟨Nat.lt_of_not_le fun hle => hne (hbound n hle), hne⟩
    · exact fun h => ⟨hmem n h.2, h.2⟩
  rw [hskip ns, hsame, ← hskip]

theorem Listing.mem_entries {e : Record} : e ∈ l.entries ↔ ∃ n, e ∈ l.records n := by
  constructor
  · intro h
    obtain ⟨n, -, hn⟩ := List.mem_flatMap.mp h
    exact ⟨n, hn⟩
  · rintro ⟨n, hn⟩
    refine List.mem_flatMap.mpr ⟨n, List.mem_range.mpr ?_, hn⟩
    by_contra hge
    rw [l.bounded n (by omega)] at hn
    cases hn

theorem filter_visited_eq (hns : ns.Pairwise (· < ·))
    (hall : ∀ n, (∃ e ∈ l.records n, accepts e = true) → n ∈ ns) :
    (ns.flatMap l.records).filter accepts = l.entries.filter accepts := by
  rw [Listing.entries, Cursor.upTo, List.filter_flatMap, List.filter_flatMap]
  refine flatMap_eq_of_sorted hns (fun n hn => by rw [l.bounded n hn]; rfl) fun n hne => ?_
  obtain ⟨e, he⟩ := List.exists_mem_of_ne_nil _ hne
  exact hall n ⟨e, List.mem_filter.mp he⟩

/-- The blocks with an accepted entry are visited: then what is collected is the accepted entries,
and only then. -/
theorem filter_visited_perm_iff (hns : ns.Pairwise (· < ·)) :
    ((ns.flatMap l.records).filter accepts).Perm (l.entries.filter accepts) ↔
      ∀ n, (∃ e ∈ l.records n, accepts e = true) → n ∈ ns := by
  constructor
  · rintro hperm n ⟨e, he, hacc⟩
    have hmem := hperm.mem_iff.mpr (List.mem_filter.mpr ⟨Listing.mem_entries.mpr ⟨n, he⟩, hacc⟩)
    obtain ⟨n', hn', he'⟩ := List.mem_flatMap.mp (List.mem_filter.mp hmem).1
    rwa [Cursor.block_unique l.bounded l.distinct he he']
  · intro hall
    rw [filter_visited_eq hns hall]

end Accepted

end NandFs
