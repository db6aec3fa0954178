import NandFs.ReaddirRuns
import NandFs.TreeIndices

/-! # The votes of a removed file

`votFile` walks the tree of a file with two buffers and votes the blocks it meets; `writeVot`
gathers the votes and writes them to the chip, a block of addresses at a time.  Both are told
over the chip as the file system sees it: pages by logical address, and the addresses that the
sequencing layer will write to next.  A page that is written leaves all others as they are.
-/
namespace NandFs

open Program

section Removal
variable [FsConfig]

/-! ## The votes -/

/-- An address of twelve and twelve bits. -/
def IsAddr (a : LogAddr) : Prop := a.segment < 4096 ∧ a.offset < 4096

/-- The bytes that `BLOCK_SET_INDEX` writes of the twelve and twelve bits of an address.  The byte
behind them, which is copied from the address with the flag of a hole, is not looked at. -/
def logAddrByte (a : LogAddr) : Nat → UInt8
  | 0 => UInt8.ofNat (a.offset % 256)
  | 1 => UInt8.ofNat (a.offset / 256 + a.segment % 16 * 16)
  | 2 => UInt8.ofNat (a.segment / 16)
  | _ => 0

/-- The votes' buffer of a transaction with these votes in it. -/
def votsBlock (vots : List LogAddr) : Block := fun j =>
  match vots[(j : Nat) / 4]? with
  | some a => logAddrByte a (j % 4)
  | none => 0xff

/-- The votes that `performVOTs` finds in a block. -/
def votsOfBlock (vots : Block) : List LogAddr :=
  ((List.range logAddressesPerBlock).map (blockGetIndex vots)).takeWhile (!isAddrEmpty ·)

/-- The transaction that removes a file, and the chip: the stored files, the addresses that
`allocAndWriteBlock` gives next, `fs_buffer`, the buffers of the transaction, the votes that are
not written yet and the addresses of those that are. -/
structure VotState where
  files : StoredFiles
  free : List LogAddr
  fsBuffer : Block
  dataBuf : Block
  indirectBuf : Block
  votsBuf : List LogAddr
  votsCount : Nat
  votPages : List LogAddr

abbrev VotM := EStateM Int VotState

/-- `allocAndWriteBlockTid` of the votes' buffer.  The transaction is of the type
`T_TYPE_UNLINK`, so `handleMinPages` lets it write and aborts none, and votes are not cached. -/
def allocAndWriteVots : VotM Unit := do
  let s ← get
  match s.free with
  | [] => throw fsErrorIo
  | logAddr :: free =>
    set { s with
      files.page := Function.update s.files.page logAddr (votsBlock s.votsBuf)
      free
      votPages := s.votPages ++ [logAddr] }

/-- `writeVot`, with no buffers to cache in.  The votes' offset is the number of those in the
buffer. -/
def writeVot (votLogAddr : LogAddr) : VotM Unit := do
  let s ← get
  if isAddrEmpty votLogAddr then return
  else if s.votsBuf.contains votLogAddr then return
  else
    -- `TRANSACTION_ADD_VOT`, `TRANSACTION_INC_VOTS_OFFSET` and `TRANSACTION_INC_VOTS_COUNT`
    set { s with votsBuf := s.votsBuf ++ [votLogAddr], votsCount := s.votsCount + 1 }
    if s.votsBuf.length + 1 = logAddressesPerBlock then
      allocAndWriteVots
      modify fun s => { s with votsBuf := [] }
    else return

/-! ## The walk -/

/-- `fsReadBlock` to `fs_buffer` -/
def readToFsBuffer (logAddr : LogAddr) : VotM Unit :=
  modify fun s => { s with fsBuffer := s.files.fsReadBlock logAddr }

/-- `fsReadBlock` to the data buffer of the transaction -/
def readToDataBuf (logAddr : LogAddr) : VotM Unit :=
  modify fun s => { s with dataBuf := s.files.fsReadBlock logAddr }

/-- `votFile`'s loop over the direct entries of the inode -/
def votDirectEntries : VotM Unit :=
  (List.range directIndexEntries).forM fun i => do
    let s ← get
    writeVot (inodeGetDirect s.indirectBuf i)

/-- What `votFile` does with an indirect block, in three places: it is read to `fs_buffer`, its
entries are voted, and then it is. -/
def votIndirect (indirectAddr : LogAddr) : VotM Unit := do
  readToFsBuffer indirectAddr
  (List.range logAddressesPerBlock).forM fun i => do
    let s ← get
    writeVot (blockGetIndex s.fsBuffer i)
  writeVot indirectAddr

/-- What `votFile` does with a double block, which is read to the data buffer. -/
def votDouble (doubleAddr : LogAddr) : VotM Unit := do
  readToDataBuf doubleAddr
  (List.range logAddressesPerBlock).forM fun j => do
    let s ← get
    let indirectAddr := blockGetIndex s.dataBuf j
    if isAddrEmpty indirectAddr then return
    else votIndirect indirectAddr
  writeVot doubleAddr

/-- What `votFile` does with the triple block, which is read anew for each entry. -/
def votTriple (tripleAddr : LogAddr) : VotM Unit := do
  (List.range logAddressesPerBlock).forM fun k => do
    readToFsBuffer tripleAddr
    let s ← get
    let doubleAddr := blockGetIndex s.fsBuffer k
    if isAddrEmpty doubleAddr then return
    else votDouble doubleAddr
  writeVot tripleAddr

/-- `votFile` once the inode is in the transaction's buffer.  The size is an `int32_t`. -/
def votBlocks (inode : Block) (inoAddr : LogAddr) : VotM Unit := do
  let fSize := (inodeGetNbytes inode).toInt
  writeVot inoAddr
  if fSize ≤ inodeFileDataSize then return
  else
    votDirectEntries
    if fSize ≤ indirectDataOffset then return
    else
      votIndirect (inodeGetIndirect inode)
      if fSize ≤ doubleDataOffset then return
      else
        votDouble (inodeGetDouble inode)
        if fSize ≤ tripleDataOffset then return
        else votTriple (inodeGetTriple inode)

/-- `votFile` of the file with this inode number -/
def votFile (inoNum : BitVec 32) : VotM Unit := do
  let s ← get
  -- `getInode`
  let inode := s.files.readFileBlock 0 (inodeFileDataSize + (inoNum.toInt - 1) * fsBlockSize)
    LogAddr.empty
  if inode.res ≠ 0 then throw (-1)
  else
    set { s with indirectBuf := inode.block }
    votBlocks inode.block inode.inoAddr

/-! ## The tree of a file -/

namespace StoredFiles
variable (m : StoredFiles)

/-- The allocated blocks of a tree of index blocks of height `h`. -/
def treeAddrs : Nat → LogAddr → List LogAddr
  | 0, a => if isAddrEmpty a then [] else [a]
  | h + 1, a =>
    if isAddrEmpty a then []
    else a :: (List.range logAddressesPerBlock).flatMap fun i => treeAddrs h (m.entry a i)

/-- The allocated blocks of the file whose inode is at `inoAddr`: the inode, the data blocks and
the index blocks. -/
def fileAddrs (inoAddr : LogAddr) : List LogAddr :=
  let inode := m.fsReadBlock inoAddr
  inoAddr :: ((List.range directIndexEntries).flatMap (fun i => m.treeAddrs 0 (inodeGetDirect inode i))
    ++ m.treeAddrs 1 (inodeGetIndirect inode) ++ m.treeAddrs 2 (inodeGetDouble inode)
    ++ m.treeAddrs 3 (inodeGetTriple inode))

/-- A committed file, with its inode at `inoAddr`: no block is there twice or free, and the size
reaches the blocks that hang in each of the inode's entries. -/
structure Committed (inoNum : BitVec 32) (inoAddr : LogAddr) (free : List LogAddr) : Prop where
  inode : m.readFileBlock 0 (inodeFileDataSize + (inoNum.toInt - 1) * fsBlockSize) LogAddr.empty
    = ⟨0, m.fsReadBlock inoAddr, inoAddr⟩
  inode_ne : inoAddr ≠ LogAddr.empty
  isAddr : IsAddr inoAddr
  nodup : (m.fileAddrs inoAddr).Nodup
  used : ∀ a ∈ m.fileAddrs inoAddr, a ∉ free
  direct : ∀ i < directIndexEntries, inodeGetDirect (m.fsReadBlock inoAddr) i ≠ LogAddr.empty →
    inodeFileDataSize < (inodeGetNbytes (m.fsReadBlock inoAddr)).toInt
  indirect : inodeGetIndirect (m.fsReadBlock inoAddr) ≠ LogAddr.empty →
    indirectDataOffset < (inodeGetNbytes (m.fsReadBlock inoAddr)).toInt
  double : inodeGetDouble (m.fsReadBlock inoAddr) ≠ LogAddr.empty →
    doubleDataOffset < (inodeGetNbytes (m.fsReadBlock inoAddr)).toInt
  triple : inodeGetTriple (m.fsReadBlock inoAddr) ≠ LogAddr.empty →
    tripleDataOffset < (inodeGetNbytes (m.fsReadBlock inoAddr)).toInt

end StoredFiles

/-! ## The votes in a block -/

theorem isAddr_logAddrAt (b : Block) (j : Nat) : IsAddr (logAddrAt b j) := by
  have h0 := (b.byte j).toNat_lt
  have h1 := (b.byte (j + 1)).toNat_lt
  have h2 := (b.byte (j + 2)).toNat_lt
  constructor
  · show (b.byte (j + 2)).toNat * 16 + (b.byte (j + 1)).toNat / 16 < 4096
    omega
  · show (b.byte j).toNat + (b.byte (j + 1)).toNat % 16 * 256 < 4096
    omega

theorem byte_votsBlock (vots : List LogAddr) {i k : Nat} (hi : i < logAddressesPerBlock)
    (hk : k < 4) : (votsBlock vots).byte (4 * i + k) =
      match vots[i]? with
      | some a => logAddrByte a k
      | none => 0xff := by
  have hl := four_mul_logAddressesPerBlock
  rw [Block.byte, dif_pos (show 4 * i + k < pageSize by omega), votsBlock,
    show (4 * i + k) / 4 = i by omega, show (4 * i + k) % 4 = k by omega]

theorem blockGetIndex_votsBlock {vots : List LogAddr} {i : Nat} (hi : i < logAddressesPerBlock)
    (hvots : ∀ a ∈ vots, IsAddr a) :
    blockGetIndex (votsBlock vots) i = vots[i]?.getD LogAddr.empty := by
  have h0 := byte_votsBlock vots (k := 0) hi (by decide)
  have h1 := byte_votsBlock vots (k := 1) hi (by decide)
  have h2 := byte_votsBlock vots (k := 2) hi (by decide)
  rw [Nat.add_zero] at h0
  rw [blockGetIndex, logAddrAt, h0, h1, h2]
  cases hget : vots[i]? with
  | none => rfl
  | some a =>
    obtain ⟨hseg, hoff⟩ := hvots a (List.mem_of_getElem? hget)
    obtain ⟨segment, offset⟩ := a
    dsimp only at hseg hoff
    simp only [logAddrByte, UInt8.toNat_ofNat', Option.getD_some, LogAddr.mk.injEq]
    constructor <;> omega

/-- The votes that are written to a block are those that are found in it. -/
theorem votsOfBlock_votsBlock {vots : List LogAddr} (hlen : vots.length ≤ logAddressesPerBlock)
    (hvots : ∀ a ∈ vots, IsAddr a ∧ a ≠ LogAddr.empty) : votsOfBlock (votsBlock vots) = vots := by
  have hget : ∀ i < logAddressesPerBlock, blockGetIndex (votsBlock vots) i
      = vots[i]?.getD LogAddr.empty := fun i hi =>
    blockGetIndex_votsBlock hi fun a ha => (hvots a ha).1
  have hsplit : (List.range logAddressesPerBlock).map (blockGetIndex (votsBlock vots))
      = vots ++ List.replicate (logAddressesPerBlock - vots.length) LogAddr.empty := by
    refine List.ext_getElem (by simp; omega) fun i hi hi' => ?_
    rw [List.length_map, List.length_range] at hi
    rw [List.getElem_map, List.getElem_range, hget i hi]
    by_cases hlt : i < vots.length
    · rw [List.getElem_append_left hlt, List.getElem?_eq_getElem hlt, Option.getD_some]
    · rw [List.getElem_append_right (Nat.le_of_not_lt hlt), List.getElem_replicate,
        List.getElem?_eq_none (Nat.le_of_not_lt hlt), Option.getD_none]
  rw [votsOfBlock, hsplit, List.takeWhile_append_of_pos fun a ha => by simpa using (hvots a ha).2,
    List.takeWhile_replicate]
  simp

/-! ## What a step of the walk votes -/

namespace VotState

/-- The votes of the transaction: those on the chip and those in the buffer. -/
def votes (s : VotState) : List LogAddr :=
  s.votPages.flatMap (fun a => votsOfBlock (s.files.page a)) ++ s.votsBuf

/-- How many pages of votes there can be. -/
def capacity (s : VotState) : Nat := s.votPages.length + s.free.length

/-- The votes' buffer has room for one, and all pages of votes are full. -/
structure Ready (s : VotState) : Prop where
  room : s.votsBuf.length < logAddressesPerBlock
  legal : ∀ a ∈ s.votsBuf, IsAddr a ∧ a ≠ LogAddr.empty
  fresh : (s.votPages ++ s.free).Nodup
  full : ∀ a ∈ s.votPages, (votsOfBlock (s.files.page a)).length = logAddressesPerBlock

/-- The transaction has made the votes `v` of the `cap` pages there are for them.  The stored
files are those of `m` but for the addresses of `free`. -/
structure At (m : StoredFiles) (free : List LogAddr) (cap : Nat) (v : List LogAddr)
    (s : VotState) : Prop extends Ready s where
  votes : s.votes = v
  capacity : s.capacity = cap
  keeps : ∀ a ∉ free, s.files.page a = m.page a
  subset : ∀ a ∈ s.free, a ∈ free

theorem length_votes {s : VotState} (h : s.Ready) :
    s.votes.length = s.votPages.length * logAddressesPerBlock + s.votsBuf.length := by
  have hfull : ∀ pages ⊆ s.votPages,
      (pages.flatMap fun a => votsOfBlock (s.files.page a)).length
        = pages.length * logAddressesPerBlock := by
    intro pages
    induction pages with
    | nil => simp
    | cons a pages ih =>
      intro hsub
      rw [List.flatMap_cons, List.length_append, h.full a (hsub List.mem_cons_self),
        ih fun b hb => hsub (List.mem_cons_of_mem _ hb), List.length_cons, Nat.succ_mul, Nat.add_comm]
  rw [VotState.votes, List.length_append, hfull _ (List.Subset.refl _)]

end VotState

section Walk
variable {m : StoredFiles} {free : List LogAddr} {cap : Nat}

/-- From a state whose buffers (`fs_buffer`, the data buffer and the inode's) are as `P` says,
`k` votes the addresses of `l`, if none of them is voted already, and leaves the buffers as `Q`
says.  It fails only where there are more votes than pages for them. -/
def Votes (m : StoredFiles) (free : List LogAddr) (cap : Nat) (P : Block → Block → Block → Prop)
    (k : VotM Unit) (l : List LogAddr) (Q : Block → Block → Block → Prop) : Prop :=
  ∀ v s, s.At m free cap v → P s.fsBuffer s.dataBuf s.indirectBuf → (v ++ l).Nodup →
    (∀ a ∈ l, IsAddr a ∧ a ∉ free) →
    wp k (fun _ t => t.At m free cap (v ++ l) ∧ Q t.fsBuffer t.dataBuf t.indirectBuf)
      (fun _ _ => (cap + 1) * logAddressesPerBlock ≤ v.length + l.length) s

variable {P Q R : Block → Block → Block → Prop} {k k' : VotM Unit} {l l' : List LogAddr}

theorem votes_return : Votes m free cap P (pure ()) [] P := by
  intro v s hat hp _ _
  rw [wp_pure, List.append_nil]
  exact ⟨hat, hp⟩

theorem Votes.seq (hk : Votes m free cap P k l Q) (hk' : Votes m free cap Q k' l' R) :
    Votes m free cap P (k >>= fun _ => k') (l ++ l') R := by
  intro v s hat hp hnodup hl
  rw [← List.append_assoc] at hnodup ⊢
  rw [wp_bind]
  refine wp_mono (hk v s hat hp hnodup.of_append_left fun a ha => hl a (List.mem_append_left _ ha))
    (fun _ t ht => ?_) fun _ _ he => by rw [List.length_append]; omega
  refine wp_mono (hk' _ t ht.1 ht.2 hnodup fun a ha => hl a (List.mem_append_right _ ha))
    (fun _ _ hu => hu) fun _ _ he => ?_
  simp only [List.length_append] at he ⊢
  omega

theorem Votes.mono {P' Q' : Block → Block → Block → Prop} (h : Votes m free cap P k l Q)
    (hp : ∀ f d i, P' f d i → P f d i) (hq : ∀ f d i, Q f d i → Q' f d i) :
    Votes m free cap P' k l Q' := fun v s hat hs hnodup hl =>
  wp_mono (h v s hat (hp _ _ _ hs) hnodup hl) (fun _ _ ht => ⟨ht.1, hq _ _ _ ht.2⟩) fun _ _ he => he

/-- The addresses that are voted are those of blocks of the file. -/
theorem votes_of_used (h : (∀ a ∈ l, a ∉ free) → Votes m free cap P k l Q) :
    Votes m free cap P k l Q := fun v s hat hs hnodup hl =>
  h (fun a ha => (hl a ha).2) v s hat hs hnodup hl

theorem votes_get {f : VotState → VotM Unit}
    (h : ∀ s, P s.fsBuffer s.dataBuf s.indirectBuf → Votes m free cap P (f s) l Q) :
    Votes m free cap P (get >>= f) l Q := by
  intro v s hat hs hnodup hl
  rw [wp_bind, wp_get]
  exact h s hs v s hat hs hnodup hl

theorem votes_forM {is : List Nat} {f : Nat → VotM Unit} {g : Nat → List LogAddr}
    (h : ∀ i ∈ is, Votes m free cap P (f i) (g i) P) :
    Votes m free cap P (is.forM f) (is.flatMap g) P := by
  induction is with
  | nil => exact votes_return
  | cons i is ih =>
    rw [List.flatMap_cons]
    show Votes m free cap P (f i >>= fun _ => is.forM f) _ P
    exact (h i List.mem_cons_self).seq (ih fun j hj => h j (List.mem_cons_of_mem _ hj))

theorem VotState.At.fsReadBlock {v : List LogAddr} {s : VotState} {a : LogAddr}
    (h : s.At m free cap v) (ha : a ∉ free ∨ isAddressEmpty a = true) :
    s.files.fsReadBlock a = m.fsReadBlock a := by
  rw [StoredFiles.fsReadBlock, StoredFiles.fsReadBlock]
  rcases ha with ha | ha
  · rw [h.keeps a ha]
  · rw [if_pos ha, if_pos ha]

/-! ## One vote -/

theorem not_voted {s : VotState} {a : LogAddr} (h : (s.votes ++ [a]).Nodup) : a ∉ s.votsBuf :=
  fun hmem => (List.nodup_append.mp h).2.2 a (List.mem_append_right _ hmem) a
    (List.mem_singleton_self a) rfl

/-- The state after a page of votes is written. -/
theorem VotState.At.written {v : List LogAddr} {s : VotState} {a b : LogAddr} {rest : List LogAddr}
    (h : s.At m free cap v) (hfree : s.free = b :: rest)
    (hlen : s.votsBuf.length + 1 = logAddressesPerBlock) (ha : IsAddr a ∧ a ≠ LogAddr.empty) :
    VotState.At m free cap (v ++ [a])
      { s with
        files.page := Function.update s.files.page b (votsBlock (s.votsBuf ++ [a]))
        free := rest
        votPages := s.votPages ++ [b]
        votsBuf := []
        votsCount := s.votsCount + 1 } := by
  have hfresh : (s.votPages ++ b :: rest).Nodup := hfree ▸ h.fresh
  have hb : b ∉ s.votPages := fun hmem =>
    (List.nodup_append.mp hfresh).2.2 b hmem b List.mem_cons_self rfl
  have hbfree : b ∈ free := h.subset b (by rw [hfree]; exact List.mem_cons_self)
  have hlegal : ∀ c ∈ s.votsBuf ++ [a], IsAddr c ∧ c ≠ LogAddr.empty := by
    intro c hc
    rcases List.mem_append.mp hc with hc | hc
    · exact h.legal c hc
    · rw [List.mem_singleton.mp hc]
      exact ha
  have hvots : votsOfBlock (votsBlock (s.votsBuf ++ [a])) = s.votsBuf ++ [a] :=
    votsOfBlock_votsBlock (by rw [List.length_append, List.length_singleton, hlen]) hlegal
  have hpage : ∀ c ∈ s.votPages,
      Function.update s.files.page b (votsBlock (s.votsBuf ++ [a])) c = s.files.page c :=
    fun c hc => Function.update_of_ne (by rintro rfl; exact hb hc) _ _
  constructor
  · constructor
    · exact logAddressesPerBlock_pos
    · intro c hc
      simp at hc
    · show (s.votPages ++ [b] ++ rest).Nodup
      rwa [List.append_assoc, List.singleton_append]
    · intro c hc
      rcases List.mem_append.mp hc with hc | hc
      · dsimp only
        rw [hpage c hc]
        exact h.full c hc
      · rw [List.mem_singleton.mp hc]
        dsimp only
        rw [Function.update_self, hvots, List.length_append, List.length_singleton, hlen]
  · have hpages : s.votPages.flatMap (fun c => votsOfBlock
        (Function.update s.files.page b (votsBlock (s.votsBuf ++ [a])) c))
          = s.votPages.flatMap fun c => votsOfBlock (s.files.page c) := by
      rw [List.flatMap_def, List.flatMap_def]
      exact congrArg List.flatten (List.map_congr_left fun c hc => by rw [hpage c hc])
    rw [← h.votes, VotState.votes, VotState.votes]
    dsimp only
    rw [List.flatMap_append, hpages, List.flatMap_singleton, Function.update_self, hvots,
      List.append_nil, List.append_assoc]
  · rw [← h.capacity, VotState.capacity, VotState.capacity, hfree]
    simp only [List.length_append, List.length_cons, List.length_nil]
    omega
  · intro c hc
    dsimp only
    rw [Function.update_of_ne (by rintro rfl; exact hc hbfree)]
    exact h.keeps c hc
  · intro c hc
    exact h.subset c (by rw [hfree]; exact List.mem_cons_of_mem _ hc)

/-- The state after a vote that only goes to the buffer. -/
theorem VotState.At.gathered {v : List LogAddr} {s : VotState} {a : LogAddr}
    (h : s.At m free cap v) (hlen : s.votsBuf.length + 1 ≠ logAddressesPerBlock)
    (ha : IsAddr a ∧ a ≠ LogAddr.empty) :
    VotState.At m free cap (v ++ [a])
      { s with votsBuf := s.votsBuf ++ [a], votsCount := s.votsCount + 1 } := by
  constructor
  · constructor
    · have := h.room
      dsimp only
      rw [List.length_append, List.length_singleton]
      omega
    · intro c hc
      rcases List.mem_append.mp hc with hc | hc
      · exact h.legal c hc
      · rw [List.mem_singleton.mp hc]
        exact ha
    · exact h.fresh
    · exact h.full
  · rw [← h.votes, VotState.votes, VotState.votes, List.append_assoc]
  · exact h.capacity
  · exact h.keeps
  · exact h.subset

/-- `writeVot` votes an address that is not empty. -/
theorem votes_writeVot (a : LogAddr) :
    Votes m free cap P (writeVot a) (m.treeAddrs 0 a) P := by
  intro v s hat hp hnodup hl
  unfold writeVot
  rw [wp_bind, wp_get]
  rw [StoredFiles.treeAddrs] at hnodup hl ⊢
  by_cases hempty : isAddrEmpty a = true
  · rw [if_pos hempty, if_pos hempty, wp_pure, List.append_nil]
    exact ⟨hat, hp⟩
  rw [if_neg hempty] at hnodup hl
  have ha : IsAddr a ∧ a ≠ LogAddr.empty :=
    ⟨(hl a (List.mem_singleton_self a)).1, by simpa using hempty⟩
  have hnew : s.votsBuf.contains a = false := by
    rw [← hat.votes] at hnodup
    simpa using not_voted hnodup
  rw [if_neg hempty, if_neg hempty, if_neg (by rw [hnew]; exact Bool.false_ne_true), wp_bind, wp_set]
  by_cases hlen : s.votsBuf.length + 1 = logAddressesPerBlock
  · rw [if_pos hlen, wp_bind, allocAndWriteVots, wp_bind, wp_get]
    dsimp only
    cases hfree : s.free with
    | nil =>
      rw [wp_throw]
      have hcount := VotState.length_votes hat.toReady
      have hcap := hat.capacity
      rw [VotState.capacity, hfree, List.length_nil, Nat.add_zero] at hcap
      rw [hat.votes, hcap] at hcount
      rw [List.length_singleton, hcount, Nat.succ_mul]
      omega
    | cons b rest =>
      rw [wp_set, wp_modify]
      exact ⟨hat.written hfree hlen ha, hp⟩
  · rw [if_neg hlen, wp_pure]
    exact ⟨hat.gathered hlen ha, hp⟩

/-! ## The walk votes the tree -/

theorem votes_readToFsBuffer {P : Block → Block → Prop} {a : LogAddr}
    (ha : a ∉ free ∨ isAddressEmpty a = true) :
    Votes m free cap (fun _ d i => P d i) (readToFsBuffer a) []
      (fun f d i => f = m.fsReadBlock a ∧ P d i) := by
  intro v s hat hp _ _
  rw [readToFsBuffer, wp_modify, List.append_nil]
  exact ⟨⟨⟨hat.room, hat.legal, hat.fresh, hat.full⟩, hat.votes, hat.capacity, hat.keeps,
    hat.subset⟩, hat.fsReadBlock ha, hp⟩

theorem votes_readToDataBuf {P : Block → Prop} {a : LogAddr}
    (ha : a ∉ free ∨ isAddressEmpty a = true) :
    Votes m free cap (fun _ _ i => P i) (readToDataBuf a) []
      (fun _ d i => d = m.fsReadBlock a ∧ P i) := by
  intro v s hat hp _ _
  rw [readToDataBuf, wp_modify, List.append_nil]
  exact ⟨⟨⟨hat.room, hat.legal, hat.fresh, hat.full⟩, hat.votes, hat.capacity, hat.keeps,
    hat.subset⟩, hat.fsReadBlock ha, hp⟩

namespace StoredFiles

theorem treeAddrs_empty (h : Nat) : m.treeAddrs h LogAddr.empty = [] := by
  cases h <;> rfl

variable (m) in
/-- A tree of index blocks in the order in which `votFile` votes its blocks. -/
def votOrder : Nat → LogAddr → List LogAddr
  | 0, a => m.treeAddrs 0 a
  | h + 1, a =>
    (List.range logAddressesPerBlock).flatMap (fun i => votOrder h (m.entry a i)) ++ m.treeAddrs 0 a

theorem votOrder_empty (h : Nat) : m.votOrder h LogAddr.empty = [] := by
  induction h with
  | zero => rfl
  | succ h ih =>
    rw [votOrder, treeAddrs_empty, List.append_nil, List.flatMap_eq_nil_iff]
    intro i _
    rw [entry_empty, ih]

/-- All blocks of the tree are voted, each as often as it is in the tree. -/
theorem votOrder_perm (h : Nat) (a : LogAddr) : (m.votOrder h a).Perm (m.treeAddrs h a) := by
  induction h generalizing a with
  | zero => exact List.Perm.refl _
  | succ h ih =>
    by_cases hempty : isAddrEmpty a = true
    · rw [isAddrEmpty_eq_true.mp hempty, votOrder_empty, treeAddrs_empty]
    · rw [votOrder, treeAddrs, treeAddrs, if_neg hempty, if_neg hempty]
      exact (List.perm_append_singleton _ _).trans
        ((List.Perm.flatMap_left _ fun i _ => ih _).cons a)

/-- A block that is read is one of the file, or there is none to read. -/
theorem used_or_empty {a : LogAddr} (h : ∀ b ∈ m.treeAddrs 0 a, b ∉ free) :
    a ∉ free ∨ isAddressEmpty a = true := by
  by_cases hempty : isAddrEmpty a = true
  · rw [isAddrEmpty_eq_true.mp hempty]
    exact .inr rfl
  · exact .inl (h a (by rw [treeAddrs, if_neg hempty]; exact List.mem_singleton_self a))

end StoredFiles

/-- An empty entry is left out, and there is nothing under it. -/
theorem votes_unless_empty {h : Nat} {b : LogAddr} (hq : ∀ f d i, P f d i → Q f d i)
    (hk : Votes m free cap P k (m.votOrder h b) Q) :
    Votes m free cap P (if isAddrEmpty b then pure () else k) (m.votOrder h b) Q := by
  by_cases hempty : isAddrEmpty b = true
  · rw [if_pos hempty, isAddrEmpty_eq_true.mp hempty, StoredFiles.votOrder_empty]
    exact votes_return.mono (fun _ _ _ h => h) hq
  · rw [if_neg hempty]
    exact hk

theorem votes_votDirectEntries {inode : Block} :
    Votes m free cap (fun _ _ i => i = inode) votDirectEntries
      ((List.range directIndexEntries).flatMap fun i => m.treeAddrs 0 (inodeGetDirect inode i))
      (fun _ _ i => i = inode) := by
  refine votes_forM fun i _ => votes_get fun s hs => ?_
  rw [hs]
  exact votes_writeVot _

theorem votes_votIndirect {P : Block → Block → Prop} (a : LogAddr) :
    Votes m free cap (fun _ d i => P d i) (votIndirect a) (m.votOrder 1 a) (fun _ d i => P d i) := by
  refine votes_of_used fun hused => ?_
  have ha := StoredFiles.used_or_empty fun b hb => hused b (List.mem_append_right _ hb)
  have hentries : Votes m free cap (fun f d i => f = m.fsReadBlock a ∧ P d i)
      ((List.range logAddressesPerBlock).forM fun i => do
        let s ← get
        writeVot (blockGetIndex s.fsBuffer i))
      ((List.range logAddressesPerBlock).flatMap fun i => m.treeAddrs 0 (m.entry a i))
      (fun f d i => f = m.fsReadBlock a ∧ P d i) := by
    refine votes_forM fun i _ => votes_get fun s hs => ?_
    rw [hs.1]
    exact votes_writeVot _
  have hall := (votes_readToFsBuffer ha).seq (hentries.seq (votes_writeVot a))
  exact hall.mono (fun _ _ _ h => h) fun _ _ _ h => h.2

theorem votes_votDouble {P : Block → Prop} (a : LogAddr) :
    Votes m free cap (fun _ _ i => P i) (votDouble a) (m.votOrder 2 a) (fun _ _ i => P i) := by
  refine votes_of_used fun hused => ?_
  have ha := StoredFiles.used_or_empty fun b hb => hused b (List.mem_append_right _ hb)
  have hentries : Votes m free cap (fun _ d i => d = m.fsReadBlock a ∧ P i)
      ((List.range logAddressesPerBlock).forM fun j => do
        let s ← get
        let indirectAddr := blockGetIndex s.dataBuf j
        if isAddrEmpty indirectAddr then return
        else votIndirect indirectAddr)
      ((List.range logAddressesPerBlock).flatMap fun j => m.votOrder 1 (m.entry a j))
      (fun _ d i => d = m.fsReadBlock a ∧ P i) := by
    refine votes_forM fun j _ => votes_get fun s hs => ?_
    rw [hs.1]
    exact votes_unless_empty (b := m.entry a j) (fun _ _ _ h => h) (votes_votIndirect _)
  have hall := (votes_readToDataBuf ha).seq (hentries.seq (votes_writeVot a))
  exact hall.mono (fun _ _ _ h => h) fun _ _ _ h => h.2

theorem votes_votTriple {P : Block → Prop} (a : LogAddr) :
    Votes m free cap (fun _ _ i => P i) (votTriple a) (m.votOrder 3 a) (fun _ _ i => P i) := by
  refine votes_of_used fun hused => ?_
  have ha := StoredFiles.used_or_empty fun b hb => hused b (List.mem_append_right _ hb)
  refine Votes.seq (votes_forM fun k _ => ?_) (votes_writeVot a)
  refine Votes.seq (l := []) (votes_readToFsBuffer (P := fun _ i => P i) ha) ?_
  refine votes_get fun s hs => ?_
  rw [hs.1]
  exact votes_unless_empty (b := m.entry a k) (fun _ _ _ h => h.2)
    ((votes_votDouble _).mono (fun _ _ _ h => h.2) fun _ _ _ h => h)

/-- What `votBlocks` votes: the inode and what hangs in each of its entries. -/
def StoredFiles.fileVotes (m : StoredFiles) (inoAddr : LogAddr) : List LogAddr :=
  let inode := m.fsReadBlock inoAddr
  m.treeAddrs 0 inoAddr ++
    ((List.range directIndexEntries).flatMap (fun i => m.treeAddrs 0 (inodeGetDirect inode i)) ++
      (m.votOrder 1 (inodeGetIndirect inode) ++
        (m.votOrder 2 (inodeGetDouble inode) ++ m.votOrder 3 (inodeGetTriple inode))))

theorem StoredFiles.fileVotes_perm {a : LogAddr} (h : a ≠ LogAddr.empty) :
    (m.fileVotes a).Perm (m.fileAddrs a) := by
  have hindexed := (votOrder_perm (m := m) 1 (inodeGetIndirect (m.fsReadBlock a))).append
    ((votOrder_perm (m := m) 2 (inodeGetDouble (m.fsReadBlock a))).append
      (votOrder_perm (m := m) 3 (inodeGetTriple (m.fsReadBlock a))))
  rw [fileVotes, fileAddrs, treeAddrs, if_neg (by simpa using h)]
  rw [List.append_assoc, List.append_assoc, List.singleton_append]
  exact List.Perm.cons a (List.Perm.append_left _ hindexed)

/-- Where the walk ends early, what it leaves out is empty. -/
theorem votes_votBlocks {inoNum : BitVec 32} {a : LogAddr} (h : m.Committed inoNum a free) :
    Votes m free cap (fun _ _ i => i = m.fsReadBlock a) (votBlocks (m.fsReadBlock a) a)
      (m.fileVotes a) (fun _ _ _ => True) := by
  have hdata := inodeFileDataSize_lt
  have hdouble : indirectDataOffset ≤ doubleDataOffset := by
    rw [indirectDataOffset_eq, doubleDataOffset_eq]
    exact blockOffset_le_iff.mpr (Nat.le_add_right ..)
  have htriple : doubleDataOffset ≤ tripleDataOffset := by
    rw [doubleDataOffset_eq, tripleDataOffset_eq]
    exact blockOffset_le_iff.mpr (Nat.le_add_right ..)
  have hempty : ∀ {b : LogAddr} {offset : Int},
      (b ≠ LogAddr.empty → offset < (inodeGetNbytes (m.fsReadBlock a)).toInt) →
      (inodeGetNbytes (m.fsReadBlock a)).toInt ≤ offset → b = LogAddr.empty := by
    intro b offset hreach hle
    by_contra hne
    exact absurd (hreach hne) (not_lt.mpr hle)
  unfold votBlocks StoredFiles.fileVotes
  dsimp only
  refine (votes_writeVot a).seq ?_
  split
  · rename_i hle
    have hdirect : (List.range directIndexEntries).flatMap
        (fun i => m.treeAddrs 0 (inodeGetDirect (m.fsReadBlock a) i)) = [] := by
      rw [List.flatMap_eq_nil_iff]
      intro i hi
      rw [hempty (h.direct i (List.mem_range.mp hi)) hle, StoredFiles.treeAddrs_empty]
    rw [hdirect, hempty h.indirect (by omega), hempty h.double (by omega),
      hempty h.triple (by omega), StoredFiles.votOrder_empty, StoredFiles.votOrder_empty,
      StoredFiles.votOrder_empty]
    exact votes_return.mono (fun _ _ _ h => h) fun _ _ _ _ => trivial
  refine votes_votDirectEntries.seq ?_
  split
  · rename_i hle
    rw [hempty h.indirect hle, hempty h.double (by omega), hempty h.triple (by omega),
      StoredFiles.votOrder_empty, StoredFiles.votOrder_empty, StoredFiles.votOrder_empty]
    exact votes_return.mono (fun _ _ _ h => h) fun _ _ _ _ => trivial
  refine Votes.seq (votes_votIndirect (P := fun _ i => i = m.fsReadBlock a) _) ?_
  split
  · rename_i hle
    rw [hempty h.double hle, hempty h.triple (by omega), StoredFiles.votOrder_empty,
      StoredFiles.votOrder_empty]
    exact votes_return.mono (fun _ _ _ h => h) fun _ _ _ _ => trivial
  refine Votes.seq (votes_votDouble (P := fun i => i = m.fsReadBlock a) _) ?_
  split
  · rename_i hle
    rw [hempty h.triple hle, StoredFiles.votOrder_empty]
    exact votes_return.mono (fun _ _ _ h => h) fun _ _ _ _ => trivial
  exact (votes_votTriple (P := fun i => i = m.fsReadBlock a) _).mono (fun _ _ _ h => h)
    fun _ _ _ _ => trivial

/-! ## The votes of `votFile` -/

/-- A transaction that was just given out has no votes. -/
structure VotState.New (s : VotState) : Prop where
  votsBuf : s.votsBuf = []
  votPages : s.votPages = []
  free : s.free.Nodup

theorem VotState.New.at {s : VotState} (h : s.New) : s.At s.files s.free s.free.length [] where
  room := by
    rw [h.votsBuf]
    exact logAddressesPerBlock_pos
  legal a ha := by
    rw [h.votsBuf] at ha
    simp at ha
  fresh := by
    rw [h.votPages]
    exact h.free
  full a ha := by
    rw [h.votPages] at ha
    simp at ha
  votes := by rw [VotState.votes, h.votsBuf, h.votPages, List.flatMap_nil, List.append_nil]
  capacity := by rw [VotState.capacity, h.votPages, List.length_nil, Nat.zero_add]
  keeps _ _ := rfl
  subset _ ha := ha

theorem isAddr_of_mem_treeAddrs {h : Nat} {a b : LogAddr} (ha : IsAddr a)
    (hb : b ∈ m.treeAddrs h a) : IsAddr b := by
  induction h generalizing a with
  | zero =>
    rw [StoredFiles.treeAddrs] at hb
    split at hb
    · simp at hb
    · rwa [List.mem_singleton.mp hb]
  | succ h ih =>
    rw [StoredFiles.treeAddrs] at hb
    split at hb
    · simp at hb
    · rcases List.mem_cons.mp hb with rfl | hb
      · exact ha
      · obtain ⟨i, -, hi⟩ := List.mem_flatMap.mp hb
        exact ih (isAddr_logAddrAt _ _) hi

theorem isAddr_of_mem_fileAddrs {a b : LogAddr} (ha : IsAddr a) (hb : b ∈ m.fileAddrs a) :
    IsAddr b := by
  rcases List.mem_cons.mp hb with rfl | hb
  · exact ha
  rcases List.mem_append.mp hb with hb | hb
  · rcases List.mem_append.mp hb with hb | hb
    · rcases List.mem_append.mp hb with hb | hb
      · obtain ⟨i, -, hi⟩ := List.mem_flatMap.mp hb
        exact isAddr_of_mem_treeAddrs (isAddr_logAddrAt _ _) hi
      · exact isAddr_of_mem_treeAddrs (isAddr_logAddrAt _ _) hb
    · exact isAddr_of_mem_treeAddrs (isAddr_logAddrAt _ _) hb
  · exact isAddr_of_mem_treeAddrs (isAddr_logAddrAt _ _) hb

end Walk

variable {s : VotState} {inoNum : BitVec 32} {inoAddr : LogAddr}

theorem wp_votFile (hfile : s.files.Committed inoNum inoAddr s.free) (hnew : s.New) :
    wp (votFile inoNum) (fun _ t => t.votes = s.files.fileVotes inoAddr)
      (fun _ _ => (s.free.length + 1) * logAddressesPerBlock
        ≤ (s.files.fileVotes inoAddr).length) s := by
  have hperm := StoredFiles.fileVotes_perm (m := s.files) hfile.inode_ne
  have hlegal : ∀ a ∈ s.files.fileVotes inoAddr, IsAddr a ∧ a ∉ s.free := fun a ha =>
    ⟨isAddr_of_mem_fileAddrs hfile.isAddr (hperm.mem_iff.mp ha), hfile.used a (hperm.mem_iff.mp ha)⟩
  have hat := hnew.at
  unfold votFile
  rw [wp_bind, wp_get]
  dsimp only
  rw [hfile.inode, if_neg (fun hres => hres rfl), wp_bind, wp_set]
  refine wp_mono (votes_votBlocks hfile [] { s with indirectBuf := s.files.fsReadBlock inoAddr }
    ⟨⟨hat.room, hat.legal, hat.fresh, hat.full⟩, hat.votes, hat.capacity, hat.keeps, hat.subset⟩ rfl
    (by rw [List.nil_append]; exact hperm.nodup_iff.mpr hfile.nodup) hlegal)
    (fun _ t ht => by rw [ht.1.votes, List.nil_append]) fun _ _ he => ?_
  rwa [List.length_nil, Nat.zero_add] at he

/-- Deleting a file frees its whole tree: `votFile` votes each allocated block of the file exactly
once and no other page, and fails only where the pages for the votes run out. -/
theorem votFile_votes_tree (hfile : s.files.Committed inoNum inoAddr s.free) (hnew : s.New) :
    (∀ t, votFile inoNum s = .ok () t →
      ∀ a, t.votes.count a = if a ∈ s.files.fileAddrs inoAddr then 1 else 0) ∧
    ∀ e t, votFile inoNum s = .error e t →
      (s.free.length + 1) * logAddressesPerBlock ≤ (s.files.fileAddrs inoAddr).length := by
  have hperm := StoredFiles.fileVotes_perm (m := s.files) hfile.inode_ne
  have hwp := wp_votFile hfile hnew
  refine ⟨fun t hrun a => ?_, fun e t hrun => ?_⟩
  · rw [of_wp_ok hwp hrun, hperm.count_eq]
    split
    · rename_i hmem
      exact List.count_eq_one_of_mem hfile.nodup hmem
    · rename_i hmem
      exact List.count_eq_zero_of_not_mem hmem
  · have hroom := of_wp_error hwp hrun
    rwa [hperm.length_eq] at hroom

end Removal

section SparseRoot
attribute [local instance] smallPageFs

theorem fileAddrs_sparseRoot : (sparseRoot true).fileAddrs ⟨0, 1⟩
    = [⟨0, 1⟩, ⟨0, 2⟩, ⟨0, 3⟩, ⟨0, 5⟩, ⟨0, 4⟩, ⟨0, 6⟩, ⟨0, 7⟩] := by decide +kernel

/-- A new transaction, with one free page. -/
def removesSparseRoot : VotState where
  files := sparseRoot true
  free := [⟨1, 0⟩]
  fsBuffer := initBuf.main
  dataBuf := initBuf.main
  indirectBuf := initBuf.main
  votsBuf := []
  votsCount := 0
  votPages := []

theorem committed_sparseRoot :
    removesSparseRoot.files.Committed 1 ⟨0, 1⟩ removesSparseRoot.free := by
  have hread : (sparseRoot true).readFileBlock 0
      (inodeFileDataSize + ((1 : BitVec 32).toInt - 1) * fsBlockSize) LogAddr.empty
        = ⟨0, (sparseRoot true).fsReadBlock ⟨0, 1⟩, ⟨0, 1⟩⟩ := rfl
  show (sparseRoot true).Committed 1 ⟨0, 1⟩ [⟨1, 0⟩]
  exact {
    inode := hread
    inode_ne := by decide
    isAddr := ⟨by decide, by decide⟩
    nodup := by rw [fileAddrs_sparseRoot]; decide
    used := by rw [fileAddrs_sparseRoot]; decide
    direct := by decide +kernel
    indirect := by decide +kernel
    double := by decide +kernel
    triple := by decide +kernel }

/-- The seven blocks of the directory are voted. -/
theorem votFile_votes_sparseRoot : ∃ t, votFile 1 removesSparseRoot = .ok () t ∧
    ∀ a, t.votes.count a = if a ∈ [⟨0, 1⟩, ⟨0, 2⟩, ⟨0, 3⟩, ⟨0, 5⟩, ⟨0, 4⟩, ⟨0, 6⟩, ⟨0, 7⟩] then 1
      else 0 := by
  have haddrs : removesSparseRoot.files.fileAddrs ⟨0, 1⟩
      = [⟨0, 1⟩, ⟨0, 2⟩, ⟨0, 3⟩, ⟨0, 5⟩, ⟨0, 4⟩, ⟨0, 6⟩, ⟨0, 7⟩] := fileAddrs_sparseRoot
  have hnew : removesSparseRoot.New := ⟨rfl, rfl, by decide⟩
  have hroom : ¬(removesSparseRoot.free.length + 1) * logAddressesPerBlock ≤ 7 := by decide
  obtain ⟨hvotes, hfails⟩ := votFile_votes_tree committed_sparseRoot hnew
  rw [haddrs] at hvotes hfails
  cases hrun : votFile 1 removesSparseRoot with
  | ok _ t => exact ⟨t, rfl, hvotes t hrun⟩
  | error e t => exact absurd (hfails e t hrun) hroom

end SparseRoot

end NandFs
