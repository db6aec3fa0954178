import NandFs.CursorQueries
import NandFs.ReaddirRuns

/-! # Directory streams side by side

`telldir`, `seekdir` and `rewinddir` beside `readdir`, on several streams that are open at a time.
A stream is a cursor over its directory: where it is told and set, and what it reads, is its own
matter, whatever is done with the other streams meanwhile.
-/
namespace NandFs

open Program FileTables

/-! ## The calls -/

section Calls
variable {σ : Type} [Config] [Storage σ]

def nandfsTelldir (dirs : Option DirstreamId) : FsM σ Int :=
  fsMutexLock (-1) do
  let s ← getTables
  match dirs, s.verifyDirstream dirs with
  | some ds, true => sysReturn (-1) (s.openFiles (s.dirstreams ds).fd).offset
  | _, _ => sysReturn (-1) (-1)

/-- It returns nothing, also where the macros return `-1`. -/
def nandfsSeekdir (dirs : Option DirstreamId) (offset : Int) : FsM σ Unit :=
  fsMutexLock () do
  let s ← getTables
  match dirs, s.verifyDirstream dirs with
  | some ds, true =>
    modifyTables fun s => s.openFileSetOffset (s.dirstreams ds).fd offset
    fsMutexUnlock () (pure ())
  | _, _ => fsMutexUnlock () (pure ())

def nandfsRewinddir (dirs : Option DirstreamId) : FsM σ Unit :=
  nandfsSeekdir dirs directoryFirstEntryOffset

end Calls

section Streams
variable [FsConfig]

/-- A call on a directory stream -/
inductive DirCall
  | readdir
  | telldir
  | seekdir (offset : Int)
  | rewinddir

namespace DirCall

def exec (ds : DirstreamId) : DirCall → FsM StoredFiles (Cursor.Response Int Record)
  | readdir => do return .element (← readdirRecord ds)
  | telldir => do return .place (← nandfsTelldir (some ds))
  | seekdir offset => do
    nandfsSeekdir (some ds) offset
    return .done
  | rewinddir => do
    nandfsRewinddir (some ds)
    return .done

/-- What the call asks of a cursor. -/
def query : DirCall → Cursor.Query Int
  | readdir => .next
  | telldir => .tell
  | seekdir offset => .set offset
  | rewinddir => .set directoryFirstEntryOffset

end DirCall

/-- Calls on several streams, one after the other -/
def dirCalls : List (DirstreamId × DirCall) → FsM StoredFiles (List (Cursor.Response Int Record)) :=
  Machines.runAll DirCall.exec

/-! ## What a call on a stream leaves alone -/

/-- From `s` to `t` nothing was changed but what the stream has read and where it is. -/
structure OnlyMoves (ds : DirstreamId) (s t : FileSystem StoredFiles) : Prop where
  storage : t.storage = s.storage
  afterFsBuffer : t.afterFsBuffer = s.afterFsBuffer
  currentUser : t.tables.currentUser = s.tables.currentUser
  vnodes : t.tables.vnodes = s.tables.vnodes
  fd : (t.tables.dirstreams ds).fd = (s.tables.dirstreams ds).fd
  dirstreams : ∀ ds' ≠ ds, t.tables.dirstreams ds' = s.tables.dirstreams ds'
  openFiles : ∀ fd ≠ (s.tables.dirstreams ds).fd, t.tables.openFiles fd = s.tables.openFiles fd

section Moves
variable {ds : DirstreamId} {s t : FileSystem StoredFiles}

namespace OnlyMoves

theorem refl (ds : DirstreamId) (s : FileSystem StoredFiles) : OnlyMoves ds s s :=
  ⟨rfl, rfl, rfl, rfl, rfl, fun _ _ => rfl, fun _ _ => rfl⟩

theorem mutex (h : OnlyMoves ds s t) (b : Bool) : OnlyMoves ds s { t with mutex := b } :=
  { h with }

/-- Another stream is where it was. -/
theorem atOffset {m : StoredFiles} {after : Nat → UInt8} {inoNum : BitVec 32} {a : LogAddr}
    {ds' : DirstreamId} {offset : Int} (h : OnlyMoves ds s t) (hne : ds' ≠ ds)
    (hfd : (s.tables.dirstreams ds').fd ≠ (s.tables.dirstreams ds).fd)
    (hat : AtOffset m after inoNum a ds' offset s) : AtOffset m after inoNum a ds' offset t := by
  have hstream := h.dirstreams ds' hne
  have hfile := h.openFiles _ hfd
  refine ⟨h.storage.trans hat.storage, h.afterFsBuffer.trans hat.afterFsBuffer, ?_, ?_, ?_, ?_⟩
  · rw [← hat.verified]
    simp only [verifyDirstream, isUserLegal, hstream, hfile, h.currentUser]
  · rw [← hat.fileId]
    unfold getFileIdByFd isOpenFileEntryEmpty
    rw [hstream, hfile, h.vnodes]
  · rw [hstream, hat.inoAddr]
  · rw [hstream, hfile, hat.at_offset]

end OnlyMoves

/-- Begun at `s`, the routine changes nothing but the stream. -/
abbrev Moves (ds : DirstreamId) (s : FileSystem StoredFiles) {α : Type}
    (m : FsM StoredFiles α) : Prop := Preserves (OnlyMoves ds s) m

theorem moves_setDirstream (f : DirStream → DirStream) (hf : ∀ d, (f d).fd = d.fd) :
    Moves ds s (modifyTables fun s => s.setDirstream ds (f (s.dirstreams ds))) := by
  refine preserves_modify fun t h => ⟨h.storage, h.afterFsBuffer, h.currentUser, h.vnodes, ?_,
    fun ds' hne => ?_, h.openFiles⟩
  · simpa [setDirstream, hf] using h.fd
  · simpa [setDirstream, hne] using h.dirstreams ds' hne

/-- The descriptor of the stream does not lie over the vnodes. -/
theorem moves_setOffset (hfd : (s.tables.dirstreams ds).fd ≠ fsErrorFentryMax)
    (offset : FileTables → Int) : Moves ds s (modifyTables fun s =>
      s.openFileSetOffset (s.dirstreams ds).fd (offset s)) := by
  refine preserves_modify fun t h => ?_
  show OnlyMoves ds s { t with tables := t.tables.openFileSetOffset _ _ }
  rw [openFileSetOffset_of_ne (h.fd ▸ hfd)]
  refine ⟨h.storage, h.afterFsBuffer, h.currentUser, h.vnodes, h.fd, h.dirstreams,
    fun fd hne => ?_⟩
  have hne' : fd ≠ (t.tables.dirstreams ds).fd := by rwa [h.fd]
  exact (Function.update_of_ne hne' ..).trans (h.openFiles fd hne)

theorem moves_onStorage {α : Type} {m : EStateM Halt StoredFiles α}
    (hm : ∀ st, ∃ a, m st = .ok a st) : Moves ds s (onStorage m) := by
  intro t h
  obtain ⟨a, ha⟩ := hm t.storage
  have hrun : onStorage m t = .ok a t := by
    unfold onStorage
    rw [ha]
  rw [wp_ok_iff hrun]
  exact h

section Open
variable (hfd : (s.tables.dirstreams ds).fd ≠ fsErrorFentryMax)
include hfd

theorem moves_setDirstreamDirEntry (de : Nat → UInt8) (offset : Int) :
    Moves ds s (setDirstreamDirEntry ds de offset) :=
  preserves_bind (moves_setDirstream (fun d => { d with de := de }) fun _ => rfl) fun _ =>
    moves_setOffset hfd fun _ => offset + direntGetLen de

theorem moves_readNextBlockEntry (offset : Int) : Moves ds s (readNextBlockEntry ds offset) :=
  preserves_bind preserves_get fun _ =>
    preserves_bind (moves_onStorage fun _ => ⟨_, rfl⟩) fun _ =>
      preserves_ite (fun _ => preserves_pure _) fun _ =>
        preserves_bind (moves_onStorage fun _ => ⟨_, rfl⟩) fun _ =>
          preserves_ite (fun _ => preserves_pure _) fun _ =>
            preserves_bind (moves_setDirstreamDirEntry hfd _ _) fun _ => preserves_pure _

theorem moves_readDirStreamNextEntry : Moves ds s (readDirStreamNextEntry ds) :=
  preserves_bind preserves_get fun _ =>
    preserves_ite (fun _ => moves_readNextBlockEntry hfd _) fun _ =>
      preserves_bind (moves_onStorage fun _ => ⟨_, rfl⟩) fun read =>
        preserves_bind (moves_setDirstream (fun d => { d with inoAddr := read.inoAddr })
          fun _ => rfl) fun _ =>
          preserves_ite (fun _ => preserves_pure _) fun _ =>
            preserves_ite (fun _ => moves_readNextBlockEntry hfd _) fun _ =>
              preserves_bind (moves_setDirstreamDirEntry hfd _ _) fun _ => preserves_pure _

end Open

section Mutex
variable {α : Type} {err : α} {next : FsM StoredFiles α}

theorem moves_fsMutexLock (h : Moves ds s next) : Moves ds s (fsMutexLock err next) :=
  preserves_bind preserves_get fun _ => preserves_ite (fun _ => preserves_pure _) fun _ =>
    preserves_bind (preserves_modify fun _ ht => ht.mutex true) fun _ => h

theorem moves_fsMutexUnlock (h : Moves ds s next) : Moves ds s (fsMutexUnlock err next) :=
  preserves_bind preserves_get fun _ => preserves_ite
    (fun _ => preserves_bind (preserves_modify fun _ ht => ht.mutex false) fun _ => h) fun _ =>
    preserves_bind (preserves_modify fun _ ht => { ht with }) fun _ => preserves_pure _

theorem moves_sysReturn (res : α) : Moves ds s (sysReturn err res) :=
  moves_fsMutexUnlock (preserves_pure _)

end Mutex

section Calls
variable (hfd : (s.tables.dirstreams ds).fd ≠ fsErrorFentryMax)
include hfd

theorem moves_nandfsReaddir : Moves ds s (nandfsReaddir (some ds)) := by
  refine moves_fsMutexLock (preserves_bind (preserves_bind preserves_get fun _ =>
    preserves_pure _) fun tables => ?_)
  cases hv : tables.verifyDirstream (some ds) with
  | true =>
    exact preserves_bind (moves_readDirStreamNextEntry hfd) fun _ =>
      preserves_ite (fun _ => moves_sysReturn _) fun _ => moves_sysReturn _
  | false => exact moves_sysReturn _

theorem moves_exec (c : DirCall) : Moves ds s (c.exec ds) := by
  have hgetTables : Moves ds s (getTables : FsM StoredFiles _) :=
    preserves_bind preserves_get fun _ => preserves_pure _
  have hseekdir : ∀ offset, Moves ds s (nandfsSeekdir (some ds) offset) := by
    intro offset
    refine moves_fsMutexLock (preserves_bind hgetTables fun tables => ?_)
    cases hv : tables.verifyDirstream (some ds) with
    | true =>
      exact preserves_bind (moves_setOffset hfd fun _ => offset) fun _ =>
        moves_fsMutexUnlock (preserves_pure _)
    | false => exact moves_fsMutexUnlock (preserves_pure _)
  cases c with
  | readdir =>
    refine preserves_bind (preserves_bind (moves_nandfsReaddir hfd) fun ptr => ?_) fun _ =>
      preserves_pure _
    cases ptr with
    | stream ds' => exact preserves_bind hgetTables fun _ => preserves_pure _
    | null => exact preserves_pure _
    | minusOne => exact preserves_pure _
  | telldir =>
    refine preserves_bind (moves_fsMutexLock (preserves_bind hgetTables fun tables => ?_)) fun _ =>
      preserves_pure _
    cases hv : tables.verifyDirstream (some ds) with
    | true => exact moves_sysReturn _
    | false => exact moves_sysReturn _
  | seekdir offset => exact preserves_bind (hseekdir offset) fun _ => preserves_pure _
  | rewinddir => exact preserves_bind (hseekdir _) fun _ => preserves_pure _

end Calls

end Moves

/-! ## What a call on a stream responds -/

section Exec
variable {m : StoredFiles} {after : Nat → UInt8} {inoNum : BitVec 32} {a : LogAddr}
  {ds : DirstreamId} {offset : Int} {s : FileSystem StoredFiles}

theorem AtOffset.setOffset (h : AtOffset m after inoNum a ds offset s) (offset' : Int) :
    AtOffset m after inoNum a ds offset'
      { s with tables := s.tables.openFileSetOffset (s.tables.dirstreams ds).fd offset' } := by
  rw [openFileSetOffset_of_ne (ne_fentryMax_of_verifyDirstream h.verified)]
  have hf := h.fileId
  refine ⟨h.storage, h.afterFsBuffer, ?_, ?_, h.inoAddr, ?_⟩
  · rw [← h.verified]
    simp [verifyDirstream, isUserLegal]
  · simpa [getFileIdByFd, isOpenFileEntryEmpty] using hf
  · simp

theorem AtOffset.seekdir (h : AtOffset m after inoNum a ds offset s) (hfree : s.mutex = false)
    (offset' : Int) : ∃ t, nandfsSeekdir (some ds) offset' s = .ok () t ∧ t.mutex = false ∧
      AtOffset m after inoNum a ds offset' t := by
  refine ⟨_, ?_, rfl, ((h.mutex true).setOffset offset').mutex false⟩
  rw [nandfsSeekdir, fsMutexLock_free hfree,
    bind_ok (show (getTables : FsM StoredFiles _) _ = .ok _ _ from rfl)]
  simp only [h.verified]
  exact (bind_ok (show (modifyTables _ : FsM StoredFiles Unit) _ = .ok () _ from rfl)).trans
    (fsMutexUnlock_held rfl)

theorem AtOffset.telldir (h : AtOffset m after inoNum a ds offset s) (hfree : s.mutex = false) :
    ∃ t, nandfsTelldir (some ds) s = .ok offset t ∧ t.mutex = false ∧
      AtOffset m after inoNum a ds offset t := by
  refine ⟨_, ?_, rfl, (h.mutex true).mutex false⟩
  rw [nandfsTelldir, fsMutexLock_free hfree,
    bind_ok (show (getTables : FsM StoredFiles _) _ = .ok _ _ from rfl)]
  simp only [h.verified, h.at_offset]
  exact fsMutexUnlock_held rfl

/-- A call on a stream is a query of the cursor. -/
theorem AtOffset.exec (h : AtOffset m after inoNum a ds offset s) (hfree : s.mutex = false)
    (hino : inoNum ≠ 0) (ha : isAddressEmpty a = false) (c : DirCall) :
    ∃ t, c.exec ds s = .ok (c.query.ask (m.nextEntry after inoNum a) offset).1 t ∧
      t.mutex = false ∧
      AtOffset m after inoNum a ds (c.query.ask (m.nextEntry after inoNum a) offset).2 t := by
  cases c with
  | readdir =>
    obtain ⟨t, hrun, hfree', hat⟩ := h.readdirRecord hfree hino ha
    exact ⟨t, bind_ok hrun, hfree', hat⟩
  | telldir =>
    obtain ⟨t, hrun, hfree', hat⟩ := h.telldir hfree
    exact ⟨t, bind_ok hrun, hfree', hat⟩
  | seekdir offset' =>
    obtain ⟨t, hrun, hfree', hat⟩ := h.seekdir hfree offset'
    exact ⟨t, bind_ok hrun, hfree', hat⟩
  | rewinddir =>
    obtain ⟨t, hrun, hfree', hat⟩ := h.seekdir hfree directoryFirstEntryOffset
    exact ⟨t, bind_ok hrun, hfree', hat⟩

end Exec

/-! ## Streams side by side -/

/-- A directory that a stream reads: its inode's number and address -/
structure DirInode where
  inoNum : BitVec 32
  inoAddr : LogAddr

/-- The streams that have a directory are open on it, each with a descriptor of its own, and are at
these places. -/
structure SideBySide (m : StoredFiles) (after : Nat → UInt8) (dirs : DirstreamId → Option DirInode)
    (at_ : DirstreamId → Int) (s : FileSystem StoredFiles) : Prop where
  free : s.mutex = false
  inode : ∀ ds, ∀ d ∈ dirs ds, d.inoNum ≠ 0 ∧ isAddressEmpty d.inoAddr = false
  atOffset : ∀ ds, ∀ d ∈ dirs ds, AtOffset m after d.inoNum d.inoAddr ds (at_ ds) s
  apart : ∀ ds ds', (dirs ds).isSome → (dirs ds').isSome → ds ≠ ds' →
    (s.tables.dirstreams ds).fd ≠ (s.tables.dirstreams ds').fd

/-- The cursor over a stream's directory -/
def cursorOf (m : StoredFiles) (after : Nat → UInt8) (dirs : DirstreamId → Option DirInode)
    (ds : DirstreamId) (offset : Int) : Option (Record × Int) :=
  (dirs ds).bind fun d => m.nextEntry after d.inoNum d.inoAddr offset

/-- The streams as machines -/
def asksOf (m : StoredFiles) (after : Nat → UInt8) (dirs : DirstreamId → Option DirInode)
    (ds : DirstreamId) (offset : Int) (c : DirCall) : Cursor.Response Int Record × Int :=
  c.query.ask (cursorOf m after dirs ds) offset

section Side
variable {m : StoredFiles} {after : Nat → UInt8} {dirs : DirstreamId → Option DirInode}
  {at_ : DirstreamId → Int} {s : FileSystem StoredFiles} {ds : DirstreamId}

theorem SideBySide.exec (ds : DirstreamId) (c : DirCall) (at_ : DirstreamId → Int)
    (s : FileSystem StoredFiles) (hds : (dirs ds).isSome) (h : SideBySide m after dirs at_ s) :
    ∃ t, c.exec ds s = .ok (asksOf m after dirs ds (at_ ds) c).1 t ∧
      SideBySide m after dirs (Function.update at_ ds (asksOf m after dirs ds (at_ ds) c).2) t := by
  obtain ⟨d, hd⟩ := Option.isSome_iff_exists.mp hds
  have hcursor : cursorOf m after dirs ds = m.nextEntry after d.inoNum d.inoAddr := by
    funext offset
    simp [cursorOf, hd]
  obtain ⟨hino, ha⟩ := h.inode ds d hd
  obtain ⟨t, hrun, hfree, hat⟩ := (h.atOffset ds d hd).exec h.free hino ha c
  have hfd := ne_fentryMax_of_verifyDirstream (h.atOffset ds d hd).verified
  have hmoves : OnlyMoves ds s t := (wp_ok_iff hrun).mp (moves_exec hfd c s (.refl ds s))
  rw [asksOf, hcursor]
  refine ⟨t, hrun, hfree, h.inode, fun ds' d' hd' => ?_, fun ds₁ ds₂ h₁ h₂ hne => ?_⟩
  · by_cases heq : ds' = ds
    · subst heq
      obtain rfl : d = d' := Option.some.inj (hd.symm.trans hd')
      rw [Function.update_self]
      exact hat
    · rw [Function.update_of_ne heq]
      exact hmoves.atOffset heq
        (h.apart ds' ds (Option.isSome_of_mem hd') hds heq) (h.atOffset ds' d' hd')
  · have hfd : ∀ ds', (t.tables.dirstreams ds').fd = (s.tables.dirstreams ds').fd := by
      intro ds'
      by_cases heq : ds' = ds
      · rw [heq, hmoves.fd]
      · rw [hmoves.dirstreams ds' heq]
    rw [hfd, hfd]
    exact h.apart ds₁ ds₂ h₁ h₂ hne

/-- What a stream reads from where it is. -/
theorem SideBySide.readdirs (h : SideBySide m after dirs at_ s) (hds : (dirs ds).isSome)
    (n : Nat) : ∃ t, dirCalls (List.replicate n (ds, .readdir)) s =
      .ok ((Cursor.answers (cursorOf m after dirs ds) n (at_ ds)).map .element) t := by
  have hcalls : List.replicate n (ds, DirCall.readdir) =
      (List.replicate n DirCall.readdir).map (ds, ·) := List.map_replicate.symm
  have hopen : ∀ call ∈ List.replicate n (ds, DirCall.readdir), (dirs call.1).isSome := by
    intro call hcall
    rwa [List.eq_of_mem_replicate hcall]
  obtain ⟨t, hrun, -⟩ := Machines.runAll_replies SideBySide.exec hopen h
  rw [hcalls, Machines.repliesOf_one] at hrun
  refine ⟨t, ?_⟩
  rw [hcalls, ← Cursor.replies_next (cursorOf m after dirs ds)
    (show DirCall.readdir.query = .next from rfl)]
  exact hrun

/-- A stream responds to the calls on it as if no call were made on another. -/
theorem dirCalls_independent (h : SideBySide m after dirs at_ s)
    {calls : List (DirstreamId × DirCall)} (hopen : ∀ call ∈ calls, (dirs call.1).isSome)
    (ds : DirstreamId) : ∃ rs t own u, dirCalls calls s = .ok rs t ∧
      dirCalls (calls.filter fun call => call.1 = ds) s = .ok own u ∧
      Machines.ownOf ds calls rs = own :=
  Machines.runAll_own SideBySide.exec hopen h ds

/-- After it was set to a place, a stream is there. -/
theorem SideBySide.seekdir (h : SideBySide m after dirs at_ s) (hds : (dirs ds).isSome)
    {calls : List (DirstreamId × DirCall)} (hopen : ∀ call ∈ calls, (dirs call.1).isSome)
    {c : DirCall} {offset : Int} (hc : c.query = .set offset) :
    ∃ rs t at', NandFs.dirCalls (calls ++ [(ds, c)]) s = .ok rs t ∧
      SideBySide m after dirs at' t ∧ at' ds = offset := by
  have hopen' : ∀ call ∈ calls ++ [(ds, c)], (dirs call.1).isSome := by
    intro call hcall
    rcases List.mem_append.mp hcall with hcall | hcall
    · exact hopen call hcall
    · rw [List.mem_singleton.mp hcall]
      exact hds
  obtain ⟨t, hrun, ht⟩ := Machines.runAll_replies SideBySide.exec hopen' h
  refine ⟨_, t, _, hrun, ht, ?_⟩
  have hlast : (Machines.callsTo ds (calls ++ [(ds, c)])).map Prod.snd =
      (Machines.callsTo ds calls).map Prod.snd ++ [c] := by
    simp [Machines.callsTo]
  rw [Machines.statesOf_self, hlast]
  exact Cursor.stateAfter_set _ hc _

/-- Set to the place that it told, a stream reads what it would have read there at once, whatever
was done with all streams in between. -/
theorem seekdir_resumes (h : SideBySide m after dirs at_ s) (hds : (dirs ds).isSome)
    {calls : List (DirstreamId × DirCall)} (hopen : ∀ call ∈ calls, (dirs call.1).isSome)
    (n : Nat) : ∃ place t rs u reads v w,
      DirCall.telldir.exec ds s = .ok (.place place) t ∧
      dirCalls (calls ++ [(ds, .seekdir place)]) t = .ok rs u ∧
      dirCalls (List.replicate n (ds, .readdir)) u = .ok reads v ∧
      dirCalls (List.replicate n (ds, .readdir)) t = .ok reads w := by
  obtain ⟨t, htell, ht⟩ := SideBySide.exec ds .telldir at_ s hds h
  obtain ⟨rs, u, at', hseek, hu, hplace⟩ := ht.seekdir hds hopen
    (show (DirCall.seekdir (at_ ds)).query = .set (at_ ds) from rfl)
  obtain ⟨v, hagain⟩ := hu.readdirs hds n
  obtain ⟨w, hreads⟩ := ht.readdirs hds n
  rw [hplace] at hagain
  rw [Function.update_self] at hreads
  exact ⟨at_ ds, t, rs, u, _, v, w, htell, hseek, hagain, hreads⟩

/-- Rewound, whatever was done with all streams before, a stream gives each entry of its directory
once and then `NULL` if and only if no transaction has the directory and the search gets from each
of its blocks to the next. -/
theorem rewinddir_enumerates (h : SideBySide m after dirs at_ s) {i : DirInode} {d : Directory}
    (hds : dirs ds = some i) (hd : m.StoresDirectory i.inoAddr d)
    {calls : List (DirstreamId × DirCall)} (hopen : ∀ call ∈ calls, (dirs call.1).isSome) :
    ∃ rs t, dirCalls (calls ++ [(ds, .rewinddir)]) s = .ok rs t ∧
      ((∃ (es : List Record) (u : FileSystem StoredFiles), es.Perm d.entries ∧
          dirCalls (List.replicate (d.entries.length + 1) (ds, .readdir)) t =
            .ok ((es.map some ++ [none]).map .element) u) ↔
        i.inoNum ∉ m.involved ∧ d.ReadsOn) := by
  have hsome : (dirs ds).isSome := by simp [hds]
  have hcursor : cursorOf m after dirs ds = m.nextEntry after i.inoNum i.inoAddr := by
    funext offset
    simp [cursorOf, hds]
  obtain ⟨rs, t, at', hrun, ht, hplace⟩ := h.seekdir hsome hopen
    (show DirCall.rewinddir.query = .set directoryFirstEntryOffset from rfl)
  obtain ⟨u, hreads⟩ := ht.readdirs hsome (d.entries.length + 1)
  have hstart : directoryFirstEntryOffset = blockOffset 0 := by
    simp [directoryFirstEntryOffset, blockOffset]
  rw [hplace, hcursor, hstart] at hreads
  obtain ⟨hino, -⟩ := h.inode ds i hds
  have helement : Function.Injective (Cursor.Response.element : Option Record →
      Cursor.Response Int Record) := fun _ _ hab => Cursor.Response.element.inj hab
  have hanswers : (∃ (es : List Record) (u : FileSystem StoredFiles), es.Perm d.entries ∧
      dirCalls (List.replicate (d.entries.length + 1) (ds, .readdir)) t =
        .ok ((es.map some ++ [none]).map .element) u) ↔
      Cursor.Enumerates (m.nextEntry after i.inoNum i.inoAddr) (blockOffset 0) d.entries := by
    constructor
    · rintro ⟨es, v, hperm, hes⟩
      have hsame := (EStateM.Result.ok.inj (hreads.symm.trans hes)).1
      exact ⟨es, hperm, List.map_injective_iff.mpr helement hsame⟩
    · rintro ⟨es, hperm, hes⟩
      exact ⟨es, u, hperm, by rw [hreads, hes]⟩
  refine ⟨rs, t, hrun, hanswers.trans ?_⟩
  by_cases hidle : i.inoNum ∈ m.involved
  · exact iff_of_false (not_enumerates_of_involved hidle) fun hboth => hboth.1 hidle
  · rw [enumerates_iff_readsOn hd hino hidle]
    exact (and_iff_right hidle).symm

end Side

end Streams

/-! ## Two streams on the root directory -/

section SparseRoot
attribute [local instance] smallPageFs

def bothOnRoot (_ : DirstreamId) : Option DirInode := some ⟨1, ⟨0, 1⟩⟩

theorem sideBySide_sparseRoot : ∃ (s : FileSystem StoredFiles) (after : Nat → UInt8),
    SideBySide (sparseRoot false) after bothOnRoot (fun _ => blockOffset 0) s := by
  have hopen : ∃ t, (nandfsOpendir [47] >>= fun _ => nandfsOpendir [47])
      (FileSystem.booted (sparseRoot false)) = .ok (.stream (1 : Fin 2)) t ∧
      SideBySide (sparseRoot false) (FileSystem.booted (sparseRoot false)).afterFsBuffer bothOnRoot
        (fun _ => blockOffset 0) t := by
    refine ⟨_, rfl, ?_⟩
    refine ⟨rfl, ?_, ?_, ?_⟩
    · rintro ds d ⟨⟩
      decide
    · rintro ds d ⟨⟩
      refine ⟨rfl, rfl, ?_, ?_, ?_, ?_⟩ <;> revert ds <;> decide
    · decide
  obtain ⟨t, -, ht⟩ := hopen
  exact ⟨t, _, ht⟩

def firstStream : DirstreamId := (0 : Fin 2)

def secondStream : DirstreamId := (1 : Fin 2)

/-- One stream reads and tells its place while the other one reads and is rewound. -/
def turnsOnRoot : List (DirstreamId × DirCall) :=
  [(firstStream, .readdir), (secondStream, .readdir), (firstStream, .telldir),
    (secondStream, .rewinddir), (firstStream, .readdir)]

theorem turnsOnRoot_open : ∀ call ∈ turnsOnRoot, (bothOnRoot call.1).isSome := fun _ _ => rfl

theorem dirCalls_independent_sparseRoot : ∃ (s : FileSystem StoredFiles)
    (rs own : List (Cursor.Response Int Record)) (t u : FileSystem StoredFiles),
    dirCalls turnsOnRoot s = .ok rs t ∧
      dirCalls [(firstStream, .readdir), (firstStream, .telldir), (firstStream, .readdir)] s =
        .ok own u ∧
      Machines.ownOf firstStream turnsOnRoot rs = own := by
  obtain ⟨s, after, h⟩ := sideBySide_sparseRoot
  obtain ⟨rs, t, own, u, hrun, halone, hown⟩ :=
    dirCalls_independent h turnsOnRoot_open firstStream
  exact ⟨s, rs, own, t, u, hrun, halone, hown⟩

theorem seekdir_resumes_sparseRoot : ∃ (s : FileSystem StoredFiles) (place : Int)
    (t u v w : FileSystem StoredFiles) (rs reads : List (Cursor.Response Int Record)),
    DirCall.telldir.exec firstStream s = .ok (.place place) t ∧
      dirCalls (turnsOnRoot ++ [(firstStream, .seekdir place)]) t = .ok rs u ∧
      dirCalls (List.replicate 3 (firstStream, .readdir)) u = .ok reads v ∧
      dirCalls (List.replicate 3 (firstStream, .readdir)) t = .ok reads w := by
  obtain ⟨s, after, h⟩ := sideBySide_sparseRoot
  have hds : (bothOnRoot firstStream).isSome := rfl
  obtain ⟨place, t, rs, u, reads, v, w, htell, hseek, hagain, hreads⟩ :=
    seekdir_resumes h hds turnsOnRoot_open 3
  exact ⟨s, place, t, u, v, w, rs, reads, htell, hseek, hagain, hreads⟩

theorem rewinddir_enumerates_sparseRoot : ∃ (s t u : FileSystem StoredFiles)
    (rs : List (Cursor.Response Int Record)) (es : List Record),
    dirCalls (turnsOnRoot ++ [(firstStream, .rewinddir)]) s = .ok rs t ∧
      es.Perm (rootDirectory false).entries ∧
      dirCalls (List.replicate ((rootDirectory false).entries.length + 1)
        (firstStream, .readdir)) t = .ok ((es.map some ++ [none]).map .element) u := by
  obtain ⟨s, after, h⟩ := sideBySide_sparseRoot
  have hds : bothOnRoot firstStream = some ⟨1, ⟨0, 1⟩⟩ := rfl
  obtain ⟨rs, t, hrun, hiff⟩ :=
    rewinddir_enumerates h hds (storesDirectory_sparseRoot false) turnsOnRoot_open
  obtain ⟨es, u, hperm, hreads⟩ := hiff.mpr ⟨List.not_mem_nil, readsOn_sparseRoot⟩
  exact ⟨s, t, u, rs, es, hrun, hperm, hreads⟩

end SparseRoot

end NandFs
