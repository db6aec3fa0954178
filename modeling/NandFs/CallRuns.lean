import NandFs.TableCalls

/-! # Runs of calls

A run begins when the tables have been set up by booting and goes on with one call after
another, each made by a process of some user.  What lies outside the tables is arbitrary at the
start.  A run also keeps, as history, which directory stream a descriptor was opened for:
`opendir` gives its descriptor to the stream, any other call that opens one gives it to its
caller.
-/
namespace NandFs

open Program DescriptorTable FileTables

/-! ## The tables after booting -/

/-- Every entry and vnode is initialised, and no stream points outside the entries. -/
structure FileTables.Fresh (s : FileTables) : Prop where
  openFiles : ∀ fd, isFdLegal fd = true → s.openFiles fd = initFileEntry
  vnodes : ∀ v, IsVnode v → s.vnodes v = initVnode
  dirstreams : ∀ ds, (s.dirstreams ds).fd = fdEmpty ∨ isFdLegal (s.dirstreams ds).fd = true

namespace FileTables.Fresh
variable {s : FileTables} (h : s.Fresh)
include h

/-- A stream with a stale descriptor changes `vnodes[-1]` when it is initialised. -/
theorem closeDirstream (ds : DirstreamId) : (s.closeDirstream ds).Fresh := by
  rcases h.dirstreams ds with hfd | hfd
  · have heq : s.closeDirstream ds = s.setDirstream ds initDirStream := by
      unfold FileTables.closeDirstream
      simp only [if_pos hfd]
    rw [heq]
    refine ⟨h.openFiles, h.vnodes, fun e => ?_⟩
    by_cases he : e = ds
    · exact .inl (by simp [he, initDirStream])
    · simpa [he] using h.dirstreams e
  · have hvnode : (s.openFiles (s.dirstreams ds).fd).vnode = vnodeEmpty := by
      rw [h.openFiles _ hfd]
      rfl
    obtain ⟨vn, heq⟩ := closeDirstream_writes hfd
    rw [hvnode, setOpenFile_of_ne (ne_fentryMax hfd)] at heq
    rw [heq]
    refine ⟨fun fd hlegal => ?_, fun v hv => ?_, fun e => ?_⟩
    · by_cases he : fd = (s.dirstreams ds).fd
      · simp [he]
      · simpa [he] using h.openFiles fd hlegal
    · simpa [hv.ne_empty] using h.vnodes v hv
    · by_cases he : e = ds
      · exact .inl (by simp [he, initDirStream])
      · simpa [he] using h.dirstreams e

theorem closeDirstreams (streams : List DirstreamId) :
    (streams.foldl FileTables.closeDirstream s).Fresh ∧
      ∀ ds, ds ∈ streams ∨ (s.dirstreams ds).fd = fdEmpty →
        ((streams.foldl FileTables.closeDirstream s).dirstreams ds).fd = fdEmpty := by
  induction streams generalizing s with
  | nil => exact ⟨h, fun ds hds => hds.resolve_left (List.not_mem_nil)⟩
  | cons e rest ih =>
    obtain ⟨hf, hclosed⟩ := ih (h.closeDirstream e)
    refine ⟨hf, fun ds hds => hclosed ds ?_⟩
    rw [dirstreams_closeDirstream]
    by_cases he : ds = e
    · exact .inr (by rw [he, Function.update_self]; rfl)
    · rw [Function.update_of_ne he]
      exact hds.imp_left fun hmem => (List.mem_cons.mp hmem).resolve_left he

theorem opens_eq_none (fd : Int) : s.opens fd = none := by
  refine FileTables.opens_eq_none.mpr fun hfd => ?_
  unfold isOpenFileEntryEmpty
  rw [h.openFiles fd hfd]
  rfl

theorem consistent : s.Consistent where
  vnode_of_open fd o ho := by
    rw [h.opens_eq_none fd] at ho
    cases ho
  nReferences v hv := by
    rw [h.vnodes v hv]
    refine (refs_eq_zero.mpr fun fd _ => ?_).symm
    rw [h.opens_eq_none fd]
    exact isOn_none v
  inoNum_empty v hv := by
    rw [h.vnodes v hv]
    exact ⟨fun _ => rfl, fun _ => rfl⟩
  inoNum_inj v w hv _ hne := by
    rw [h.vnodes v hv] at hne
    exact absurd rfl hne

end FileTables.Fresh

/-- Booting leaves every stream without a descriptor, and the tables fresh. -/
theorem FileTables.fresh_initializeRamStructs {before : FileTables}
    (hzero : ∀ ds, (before.dirstreams ds).fd = 0) :
    before.initializeRamStructs.Fresh ∧
      ∀ ds, (before.initializeRamStructs.dirstreams ds).fd = fdEmpty := by
  have hfresh : before.initFileEntries.initVnodes.Fresh := by
    refine ⟨fun fd hfd => if_pos hfd, fun v hv => ?_, fun ds => .inr ?_⟩
    · exact if_pos (by simp [hv.1, hv.2])
    · show isFdLegal (before.dirstreams ds).fd = true
      rw [hzero ds]
      rfl
  obtain ⟨hf, hclosed⟩ := hfresh.closeDirstreams (List.finRange fsMaxOpenDirestreams)
  exact ⟨hf, fun ds => hclosed ds (.inl (List.mem_finRange ds))⟩

/-! ## Runs -/

/-- The stream each descriptor was opened for, if it was opened for one. -/
abbrev Owners := Int → Option DirstreamId

/-- Whose the descriptors are after a call that gave this reply and left these tables. -/
def Owners.after (owner : Owners) (c : Call) (r : Reply) (t : FileTables) : Owners := fun fd =>
  if t.opens fd = none then none
  else
    match c, r with
    | .opendir _, .ptr (.stream ds) => if fd = (t.dirstreams ds).fd then some ds else owner fd
    | .dup2 _ newFd, .int res => if fd = newFd ∧ res = newFd then none else owner fd
    | _, _ => owner fd

section
variable {σ : Type} [Config] [Storage σ]

/-- The states that calls lead to, each of which is `allowed` where it is made. -/
inductive Run (allowed : FileTables → Owners → Call → Prop) : FileSystem σ → Owners → Prop
  /-- the tables have been set up, from globals that were zero -/
  | booted {s : FileSystem σ} (before : FileTables) (hmutex : s.mutex = false)
      (hzero : ∀ ds, (before.dirstreams ds).fd = 0) (htables : s.tables = before.initializeRamStructs) :
      Run allowed s fun _ => none
  /-- a process of the user makes a call, which returns -/
  | call {s t : FileSystem σ} {owner : Owners} (h : Run allowed s owner) (user : UserId) (c : Call)
      (r : Reply) (hallowed : allowed { s.tables with currentUser := user } owner c)
      (hrun : c.runBy user s = .ok r t) : Run allowed t (owner.after c r t.tables)

theorem returns_runBy {user : UserId} {c : Call} {s : FileSystem σ}
    {Q : Reply → FileSystem σ → Prop} : Returns (c.runBy user) s Q ↔
      Returns c.run { s with tables := { s.tables with currentUser := user } } Q := by
  unfold Call.runBy
  rw [returns_bind, returns_modifyTables]

omit [Config] [Storage σ] in
theorem returns_map {α β : Type} {m : FsM σ α} {g : α → β} {s : FileSystem σ}
    {Q : β → FileSystem σ → Prop} (h : Returns m s fun a t => Q (g a) t) :
    Returns (g <$> m) s Q := by
  rw [← bind_pure_comp, returns_bind]
  exact h

/-! ## Running the calls -/

/-- The state after a call. -/
def afterCall (user : UserId) (c : Call) (s : FileSystem σ) : FileSystem σ :=
  match c.runBy user s with
  | .ok _ t => t
  | .error _ t => t

/-- What the call returns, if it does. -/
def replyTo (user : UserId) (c : Call) (s : FileSystem σ) : Option Reply :=
  match c.runBy user s with
  | .ok r _ => some r
  | .error _ _ => none

theorem runBy_of_reply {user : UserId} {c : Call} {s : FileSystem σ} {r : Reply}
    (h : replyTo user c s = some r) : c.runBy user s = .ok r (afterCall user c s) := by
  unfold replyTo at h
  unfold afterCall
  cases hrun : c.runBy user s with
  | ok a t =>
    rw [hrun] at h
    cases h
    rfl
  | error e t =>
    rw [hrun] at h
    cases h

end

end NandFs
