import NandFs.LogHeader

/-! # Checkpoints in the log

`commit` writes the pages of a checkpoint to the current segment, with the copies of live pages
between them (`Saved`).  Where it comes to the end of the segment before the last one, the header
of the next segment has a checkpoint of its own (`Reopened`).  In both cases the checkpoint is the
newest of the log: no page of a checkpoint comes after it (`Newest`).
-/
namespace NandFs

variable [Config]

/-- The number of pages of a checkpoint. -/
def checkpointPages (nBytes : Nat) : Nat := calculateInPages (seqCheckpointSize + nBytes)

/-- The first `n` pages of a checkpoint with the bytes `data` are in the current segment, page `i`
at `offs i`. -/
structure Saved (data : Nat → UInt8) (nBytes n : Nat) (offs : Nat → Nat) (m : SegMap)
    (c : Contents) : Prop where
  increasing : ∀ i j, i < j → j < n → offs i < offs j
  pos : ∀ i < n, 0 < offs i
  lt : ∀ i < n, offs i < m.headOffset
  page : ∀ i < n, ∃ st, c m.newSlotId (offs i) = some st ∧ st.IsCheckpointPage data nBytes i

/-- The current segment holds a checkpoint, and after it no page of another one. -/
structure Newest (data : Nat → UInt8) (nBytes : Nat) (offs : Nat → Nat) (m : SegMap)
    (c : Contents) : Prop where
  saved : Saved data nBytes (checkpointPages nBytes) offs m c
  after : ∀ o, offs (checkpointPages nBytes - 1) < o → o < m.headOffset →
    ∃ st, c m.newSlotId o = some st ∧ st.checkpoint = .notPart

/-- Up to `n` segments were opened after the one with the sequence number `number`, and the header
of the last one holds the newest checkpoint. -/
structure Reopened (data : Nat → UInt8) (nBytes n number : Nat) (m : SegMap) (c : Contents) :
    Prop where
  number : ∃ k, 0 < k ∧ k ≤ n ∧ m.sequenceNum = (number + k) % 2 ^ 64
  newest : Newest data nBytes (· + 1) m c

/-- What the search for the next free page comes to: the flag `moved` stays and the segment was
written further, or the flag is set and other segments were opened. -/
def Searched (data : Nat → UInt8) (nBytes n : Nat) (moved moved' : Bool) (m : SegMap)
    (c : Contents) (m' : SegMap) (c' : Contents) : Prop :=
  moved' = moved ∧ Continued m c m' c' ∨
    moved' = true ∧ Reopened data nBytes n m.sequenceNum m' c'

/-- What a commit of the bytes `data` leaves if it returns 0: the newest checkpoint is the one it
wrote, behind the head as it was, or that of a header with the bytes `header`. -/
inductive Committed (data header : Nat → UInt8) (nBytes : Nat) (m m' : SegMap) (c' : Contents) :
    Prop
  | here {offs : Nat → Nat} (number : m'.sequenceNum = m.sequenceNum)
      (behind : m.headOffset ≤ offs 0) (newest : Newest data nBytes offs m' c')
  | reopened (h : Reopened header nBytes segmentsCount m.sequenceNum m' c')

theorem headerPages_eq (nBytes : Nat) : headerPages nBytes = checkpointPages nBytes + 1 :=
  Nat.add_comm _ _

theorem checkpointPages_pos (nBytes : Nat) : 0 < checkpointPages nBytes := by
  have hdiv := Nat.div_add_mod (seqCheckpointSize + nBytes) pageSize
  unfold checkpointPages calculateInPages
  by_cases hmod : (seqCheckpointSize + nBytes) % pageSize = 0
  · rw [if_pos hmod, Nat.add_zero]
    by_contra hno
    have hz : (seqCheckpointSize + nBytes) / pageSize = 0 := Nat.eq_zero_of_not_pos hno
    rw [hz, Nat.mul_zero, hmod] at hdiv
    unfold seqCheckpointSize at hdiv
    omega
  · rw [if_neg hmod]
    exact Nat.succ_pos _

section Saved
variable {data : Nat → UInt8} {nBytes n : Nat} {offs : Nat → Nat} {m m' : SegMap}
  {c c' : Contents}

theorem Saved.nothing (offs : Nat → Nat) : Saved data nBytes 0 offs m c :=
  ⟨fun _ _ _ hj => absurd hj (Nat.not_lt_zero _), fun _ hi => absurd hi (Nat.not_lt_zero _),
    fun _ hi => absurd hi (Nat.not_lt_zero _), fun _ hi => absurd hi (Nat.not_lt_zero _)⟩

theorem Saved.continued (h : Saved data nBytes n offs m c) (hc : Continued m c m' c') :
    Saved data nBytes n offs m' c' where
  increasing := h.increasing
  pos := h.pos
  lt i hi := Nat.lt_of_lt_of_le (h.lt i hi) hc.le
  page i hi := by
    obtain ⟨st, hst, hpage⟩ := h.page i hi
    refine ⟨st, ?_, hpage⟩
    rw [hc.newSlot, hc.kept _ (h.lt i hi)]
    exact hst

/-- The next page of the checkpoint is written at the head. -/
theorem Saved.write {st : Stored} (h : Saved data nBytes n offs m c) (h0 : m.headOffset ≠ 0)
    (ho : m.headOffset < pagesPerSlot) (hst : st.IsCheckpointPage data nBytes n) :
    Saved data nBytes (n + 1) (Function.update offs n m.headOffset) m.incrementReclaimedOffset
      (c.set m.newSlotId m.headOffset st) := by
  have hold : ∀ i < n, Function.update offs n m.headOffset i = offs i := fun i hi =>
    Function.update_of_ne (by omega) _ _
  have hnew : Function.update offs n m.headOffset n = m.headOffset := Function.update_self _ _ _
  rw [incrementReclaimedOffset_eq ho]
  refine ⟨fun i j hij hj => ?_, fun i hi => ?_, fun i hi => ?_, fun i hi => ?_⟩
  · rcases Nat.lt_succ_iff_lt_or_eq.mp hj with hlt | rfl
    · rw [hold i (by omega), hold j hlt]
      exact h.increasing i j hij hlt
    · rw [hold i hij, hnew]
      exact h.lt i hij
  · rcases Nat.lt_succ_iff_lt_or_eq.mp hi with hlt | rfl
    · rw [hold i hlt]
      exact h.pos i hlt
    · rw [hnew]
      exact Nat.pos_of_ne_zero h0
  · show _ < m.headOffset + 1
    rcases Nat.lt_succ_iff_lt_or_eq.mp hi with hlt | rfl
    · rw [hold i hlt]
      exact Nat.lt_succ_of_lt (h.lt i hlt)
    · rw [hnew]
      exact Nat.lt_succ_self _
  · rcases Nat.lt_succ_iff_lt_or_eq.mp hi with hlt | rfl
    · obtain ⟨st', hst', hpage⟩ := h.page i hlt
      have hne := h.lt i hlt
      refine ⟨st', ?_, hpage⟩
      rw [hold i hlt, Contents.set_of_ne (by omega)]
      exact hst'
    · rw [hnew]
      exact ⟨st, Contents.set_self, hst⟩

theorem Newest.continued (h : Newest data nBytes offs m c) (hc : Continued m c m' c') :
    Newest data nBytes offs m' c' where
  saved := h.saved.continued hc
  after o hlt ho := by
    by_cases hold : o < m.headOffset
    · obtain ⟨st, hst, hno⟩ := h.after o hlt hold
      refine ⟨st, ?_, hno⟩
      rw [hc.newSlot, hc.kept o hold]
      exact hst
    · rw [hc.newSlot]
      exact hc.plain o (Nat.le_of_not_lt hold) ho

/-- Once its last page is written at the head, the checkpoint is the newest. -/
theorem Saved.newest {st : Stored} (h : Saved data nBytes n offs m c)
    (hn : n + 1 = checkpointPages nBytes) (h0 : m.headOffset ≠ 0)
    (ho : m.headOffset < pagesPerSlot) (hst : st.IsCheckpointPage data nBytes n) :
    Newest data nBytes (Function.update offs n m.headOffset) m.incrementReclaimedOffset
      (c.set m.newSlotId m.headOffset st) := by
  refine ⟨hn ▸ h.write h0 ho hst, fun o hlt hle => ?_⟩
  rw [← hn, Nat.add_sub_cancel, Function.update_self] at hlt
  rw [incrementReclaimedOffset_eq ho] at hle
  have hle : o < m.headOffset + 1 := hle
  omega

/-- A segment that has its header and nothing else holds the newest checkpoint in it. -/
theorem HeaderWritten.newest {number : Nat} (h : HeaderWritten data nBytes number m c) :
    Newest data nBytes (· + 1) m c := by
  have hhead := h.head
  have hpages := headerPages_eq nBytes
  have hpos := checkpointPages_pos nBytes
  refine ⟨⟨fun i j hij _ => by omega, fun i _ => Nat.succ_pos i, fun i hi => by omega,
    fun i hi => ?_⟩, fun o hlt ho => by omega⟩
  obtain ⟨st, hst, hpage⟩ := h.holds i hi
  rw [Nat.zero_add] at hpage
  rw [Nat.add_comm] at hst
  exact ⟨st, hst, hpage⟩

end Saved

section Searched
variable {data : Nat → UInt8} {nBytes n number : Nat} {moved moved' : Bool}
  {m m' m'' m''' : SegMap} {c c' c'' c''' : Contents}

theorem Reopened.mono {n' : Nat} (h : Reopened data nBytes n number m c) (hn : n ≤ n') :
    Reopened data nBytes n' number m c := by
  obtain ⟨⟨k, hpos, hle, hnumber⟩, hnewest⟩ := h
  exact ⟨⟨k, hpos, hle.trans hn, hnumber⟩, hnewest⟩

theorem Reopened.continued (h : Reopened data nBytes n number m c) (hc : Continued m c m' c') :
    Reopened data nBytes n number m' c' := by
  obtain ⟨⟨k, hpos, hle, hnumber⟩, hnewest⟩ := h
  exact ⟨⟨k, hpos, hle, hc.sequenceNum.trans hnumber⟩, hnewest.continued hc⟩

/-- A segment is opened, and further ones after it. -/
theorem Reopened.after (h : Reopened data nBytes n ((number + 1) % 2 ^ 64) m c) :
    Reopened data nBytes (n + 1) number m c := by
  obtain ⟨⟨k, hpos, hle, hnumber⟩, hnewest⟩ := h
  refine ⟨⟨k + 1, by omega, by omega, ?_⟩, hnewest⟩
  omega

theorem HeaderWritten.reopened (h : HeaderWritten data nBytes number m c) :
    Reopened data nBytes 1 number m c :=
  ⟨⟨1, Nat.one_pos, Nat.le_refl 1, h.sequenceNum⟩, h.newest⟩

/-- The segment was written further before the search. -/
theorem Continued.searched (h : Continued m c m' c')
    (hs : Searched data nBytes n moved moved' m' c' m'' c'') :
    Searched data nBytes (n + 1) moved moved' m c m'' c'' := by
  rcases hs with ⟨hmoved, hc⟩ | ⟨hmoved, hr⟩
  · exact .inl ⟨hmoved, h.trans hc⟩
  · rw [h.sequenceNum] at hr
    exact .inr ⟨hmoved, hr.mono (Nat.le_succ n)⟩

/-- A segment was opened and written further before the search. -/
theorem HeaderWritten.searched (h : HeaderWritten data nBytes m.sequenceNum m' c')
    (hc : Continued m' c' m'' c'')
    (hs : Searched data nBytes n true moved' m'' c'' m''' c''') :
    Searched data nBytes (n + 1) moved moved' m c m''' c''' := by
  rcases hs with ⟨hmoved, hc'⟩ | ⟨hmoved, hr⟩
  · exact .inr ⟨hmoved, (h.reopened.continued (hc.trans hc')).mono (by omega)⟩
  · rw [hc.sequenceNum, h.sequenceNum] at hr
    exact .inr ⟨hmoved, hr.after⟩

end Searched

end NandFs
