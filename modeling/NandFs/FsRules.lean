import NandFs.FileApi

/-! # Reasoning about the calls

A call is looked at when it returns: `Returns` is the weakest precondition that says nothing of
a call that stops under way.  Most routines are `Quiet`, they leave the mutex alone, and the
rules for the macros say what an exit does to it.
-/
namespace NandFs

open Program

variable {σ α β : Type}

section Rules
variable {Q : α → FileSystem σ → Prop} {s : FileSystem σ}

/-- `m` returns, if at all, with `Q`. -/
def Returns (m : FsM σ α) (s : FileSystem σ) (Q : α → FileSystem σ → Prop) : Prop :=
  wp m Q (fun _ _ => True) s

theorem Returns.of_ok {m : FsM σ α} {a : α} {t : FileSystem σ} (h : Returns m s Q)
    (hm : m s = .ok a t) : Q a t := of_wp_ok h hm

theorem Returns.mono {m : FsM σ α} {Q' : α → FileSystem σ → Prop} (h : Returns m s Q)
    (hq : ∀ a t, Q a t → Q' a t) : Returns m s Q' := wp_mono h hq fun _ _ he => he

@[simp] theorem returns_pure (a : α) : Returns (pure a) s Q ↔ Q a s := Iff.rfl

@[simp] theorem returns_throw (e : Stop) : Returns (throw e : FsM σ α) s Q := trivial

@[simp] theorem returns_get {Q : FileSystem σ → FileSystem σ → Prop} :
    Returns (get : FsM σ (FileSystem σ)) s Q ↔ Q s s := Iff.rfl

@[simp] theorem returns_modify {Q : PUnit → FileSystem σ → Prop}
    (f : FileSystem σ → FileSystem σ) : Returns (modify f) s Q ↔ Q ⟨⟩ (f s) := Iff.rfl

@[simp] theorem returns_getTables {Q : FileTables → FileSystem σ → Prop} :
    Returns getTables s Q ↔ Q s.tables s := Iff.rfl

@[simp] theorem returns_modifyTables {Q : Unit → FileSystem σ → Prop}
    (f : FileTables → FileTables) :
    Returns (modifyTables f) s Q ↔ Q () { s with tables := f s.tables } := Iff.rfl

@[simp] theorem returns_bind (m : FsM σ β) (f : β → FsM σ α) :
    Returns (m >>= f) s Q ↔ Returns m s fun b t => Returns (f b) t Q := wp_bind m f

theorem returns_ite {c : Prop} [Decidable c] {m k : FsM σ α} (hm : c → Returns m s Q)
    (hk : ¬c → Returns k s Q) : Returns (if c then m else k) s Q := wp_ite hm hk

/-- A routine under the calls may answer anything and leave anything stored. -/
theorem returns_onStorage (m : EStateM Halt σ α) (h : ∀ a st, Q a { s with storage := st }) :
    Returns (onStorage m) s Q := by
  unfold Returns wp onStorage
  cases m s.storage with
  | ok a st => exact h a st
  | error e st => trivial

end Rules

/-! ## The mutex -/

/-- The mutex, and whether it has been unlocked while it was free. -/
def FileSystem.lock (s : FileSystem σ) : Bool × Bool := (s.mutex, s.strayUnlock)

/-- `m` does not touch the mutex. -/
structure Quiet (m : FsM σ α) : Prop where
  frame : Frame FileSystem.lock m

theorem quiet_pure (a : α) : Quiet (pure a : FsM σ α) := ⟨frame_pure a⟩

theorem quiet_throw (e : Stop) : Quiet (throw e : FsM σ α) := ⟨frame_throw e⟩

theorem quiet_get : Quiet (get : FsM σ (FileSystem σ)) := ⟨frame_get⟩

theorem quiet_getTables : Quiet (getTables : FsM σ FileTables) :=
  ⟨frame_bind frame_get fun _ => frame_pure _⟩

theorem quiet_modifyTables (f : FileTables → FileTables) : Quiet (modifyTables f : FsM σ Unit) :=
  ⟨frame_modify fun _ => rfl⟩

theorem quiet_bind {m : FsM σ β} {f : β → FsM σ α} (hm : Quiet m) (hf : ∀ b, Quiet (f b)) :
    Quiet (m >>= f) := ⟨frame_bind hm.frame fun b => (hf b).frame⟩

theorem quiet_ite {c : Prop} [Decidable c] {m k : FsM σ α} (hm : Quiet m) (hk : Quiet k) :
    Quiet (if c then m else k) := ⟨frame_ite hm.frame hk.frame⟩

theorem quiet_onStorage (m : EStateM Halt σ α) : Quiet (onStorage m) := by
  refine ⟨fun c s hs => ?_⟩
  unfold wp onStorage
  cases m s.storage with
  | ok a st => exact hs
  | error e st => exact hs

/-- What is known of a quiet routine holds with the mutex as it was. -/
theorem Quiet.returns {m : FsM σ α} (h : Quiet m) {s : FileSystem σ}
    {Q : α → FileSystem σ → Prop} (hq : Returns m s Q) :
    Returns m s fun a t => Q a t ∧ t.lock = s.lock :=
  wp_mono (wp_and hq (h.frame s.lock s rfl)) (fun _ _ ht => ht) fun _ _ _ => trivial

section Lock
variable {err : α} {next : FsM σ α} {s : FileSystem σ}

theorem fsMutexLock_held (h : s.mutex = true) : fsMutexLock err next s = .ok err s := by
  show (if s.mutex = true then (pure err : FsM σ α) else _) s = _
  rw [if_pos h]
  rfl

theorem fsMutexLock_free (h : s.mutex = false) :
    fsMutexLock err next s = next { s with mutex := true } := by
  show (if s.mutex = true then (pure err : FsM σ α) else _) s = _
  rw [h, if_neg Bool.false_ne_true]
  rfl

theorem fsMutexUnlock_held (h : s.mutex = true) :
    fsMutexUnlock err next s = next { s with mutex := false } := by
  show (if s.mutex = true then _ else _ : FsM σ α) s = _
  rw [if_pos h]
  rfl

theorem returns_congr {m k : FsM σ α} {t : FileSystem σ} {Q : α → FileSystem σ → Prop}
    (h : m s = k t) : Returns m s Q ↔ Returns k t Q := by
  unfold Returns wp
  rw [h]

theorem returns_fsMutexLock {Q : α → FileSystem σ → Prop} (hheld : Q err s)
    (hnext : Returns next { s with mutex := true } Q) : Returns (fsMutexLock err next) s Q := by
  cases h : s.mutex with
  | true => exact wp_of_ok (fsMutexLock_held h) hheld
  | false => exact (returns_congr (fsMutexLock_free h)).mpr hnext

theorem returns_sysReturn {Q : α → FileSystem σ → Prop} {res : α} (h : s.mutex = true)
    (hq : Q res { s with mutex := false }) : Returns (sysReturn err res) s Q :=
  (returns_congr (fsMutexUnlock_held h)).mpr hq

end Lock

section Routines
variable [Config] [Storage σ]

theorem quiet_setOpenFentry (inoNum flags : BitVec 32) (mode fType : Nat) :
    Quiet (setOpenFentry inoNum flags mode fType : FsM σ Int) := by
  unfold setOpenFentry
  refine quiet_ite (quiet_pure _) (quiet_ite (quiet_pure _) (quiet_ite (quiet_pure _) ?_))
  refine quiet_bind quiet_getTables fun s => ?_
  refine quiet_ite (quiet_pure _) (quiet_ite (quiet_pure _) ?_)
  refine quiet_bind (quiet_modifyTables _) fun _ => quiet_ite ?_ (quiet_pure _)
  refine quiet_bind (quiet_onStorage _) fun _ => ?_
  exact quiet_bind (quiet_modifyTables _) fun _ => quiet_pure _

theorem quiet_commitWritten (fd : Int) : Quiet (commitWritten fd : FsM σ Int) := by
  unfold commitWritten
  refine quiet_bind quiet_getTables fun s => quiet_ite ?_ (quiet_pure _)
  refine quiet_bind (quiet_onStorage _) fun _ => ?_
  exact quiet_ite (quiet_pure _) (quiet_onStorage _)

theorem quiet_closeUtil (fd : Int) : Quiet (closeUtil fd : FsM σ Int) := by
  unfold closeUtil
  refine quiet_bind quiet_getTables fun s => quiet_ite (quiet_pure _) ?_
  refine quiet_bind (quiet_commitWritten fd) fun _ => quiet_ite (quiet_pure _) ?_
  exact quiet_bind (quiet_modifyTables _) fun _ => quiet_pure _

theorem quiet_dupOnto (oldFd newFd : Int) : Quiet (dupOnto oldFd newFd : FsM σ Int) := by
  have hempty : Quiet (makeEmpty newFd : FsM σ Int) :=
    quiet_bind quiet_getTables fun _ => quiet_ite (quiet_pure _) (quiet_closeUtil newFd)
  unfold dupOnto
  refine quiet_bind quiet_getTables fun s => ?_
  refine quiet_ite (quiet_pure _) (quiet_ite (quiet_pure _) (quiet_ite (quiet_pure _) ?_))
  refine quiet_bind hempty fun _ => quiet_ite (quiet_pure _) ?_
  exact quiet_bind (quiet_modifyTables _) fun _ => quiet_pure _

theorem quiet_dupUtil (oldFd newFd : Int) (isDup2 : Bool) :
    Quiet (dupUtil oldFd newFd isDup2 : FsM σ Int) := by
  unfold dupUtil
  refine quiet_ite (quiet_dupOnto oldFd newFd) ?_
  exact quiet_bind quiet_getTables fun s => quiet_ite (quiet_pure _) (quiet_dupOnto oldFd _)

theorem quiet_fsyncUtil (fd : Int) : Quiet (fsyncUtil fd : FsM σ Int) := by
  unfold fsyncUtil
  refine quiet_bind quiet_getTables fun s => quiet_ite (quiet_pure _) ?_
  refine quiet_bind (quiet_onStorage _) fun _ => quiet_ite (quiet_pure _) ?_
  exact quiet_bind (quiet_onStorage _) fun _ => quiet_ite (quiet_pure _) (quiet_pure _)

theorem quiet_emptyTrVerify (tid : Int) (test : Bool) {next : FsM σ Int} (h : Quiet next) :
    Quiet (emptyTrVerify tid test next) :=
  quiet_ite h (quiet_bind (quiet_onStorage _) fun _ => quiet_pure _)

theorem quiet_trResVerify (tid res : Int) {next : FsM σ Int} (h : Quiet next) :
    Quiet (trResVerify tid res next) :=
  quiet_ite h (quiet_bind (quiet_onStorage _) fun _ => quiet_ite (quiet_pure _) (quiet_pure _))

theorem quiet_writeNewFile (newType : Nat) (name : Path) (dirNum inoNum : BitVec 32) (tid : Int) :
    Quiet (writeNewFile newType name dirNum inoNum tid : FsM σ Int) := by
  unfold writeNewFile
  refine quiet_bind (quiet_onStorage _) fun _ => ?_
  refine quiet_bind (quiet_onStorage _) fun _ => quiet_trResVerify _ _ ?_
  refine quiet_bind (quiet_onStorage _) fun _ => quiet_trResVerify _ _ ?_
  refine quiet_bind (quiet_onStorage _) fun _ => quiet_ite (quiet_pure _) ?_
  refine quiet_bind (quiet_onStorage _) fun _ => ?_
  refine quiet_bind (quiet_onStorage _) fun _ => ?_
  refine quiet_bind (quiet_onStorage _) fun _ => quiet_trResVerify _ _ ?_
  refine quiet_bind (quiet_onStorage _) fun _ => quiet_trResVerify _ _ ?_
  refine quiet_bind (quiet_onStorage _) fun _ => quiet_trResVerify _ _ ?_
  refine quiet_bind (quiet_onStorage _) fun _ => quiet_trResVerify _ _ ?_
  exact quiet_ite (quiet_pure _) (quiet_setOpenFentry ..)

theorem quiet_createNewFile (newType : Nat) (pathname : Path) :
    Quiet (createNewFile newType pathname : FsM σ Int) := by
  unfold createNewFile
  refine quiet_bind (quiet_onStorage _) fun _ => ?_
  refine quiet_bind (quiet_onStorage _) fun _ => quiet_emptyTrVerify _ _ ?_
  refine quiet_bind (quiet_onStorage _) fun _ => quiet_emptyTrVerify _ _ ?_
  refine quiet_bind (quiet_onStorage _) fun _ => quiet_emptyTrVerify _ _ ?_
  refine quiet_emptyTrVerify _ _ ?_
  refine quiet_bind quiet_getTables fun _ => quiet_emptyTrVerify _ _ ?_
  refine quiet_bind (quiet_onStorage _) fun _ => quiet_emptyTrVerify _ _ ?_
  exact quiet_writeNewFile ..

theorem quiet_unlinkFile (newType : Nat) (dirNum inoNum : BitVec 32) (deOffset tid : Int) :
    Quiet (unlinkFile newType dirNum inoNum deOffset tid : FsM σ Int) := by
  unfold unlinkFile
  refine quiet_bind (quiet_onStorage _) fun _ => ?_
  refine quiet_bind (quiet_onStorage _) fun _ => ?_
  refine quiet_bind (quiet_onStorage _) fun _ => ?_
  refine quiet_bind (quiet_onStorage _) fun _ => quiet_trResVerify _ _ ?_
  refine quiet_bind (quiet_onStorage _) fun _ => ?_
  refine quiet_bind (quiet_onStorage _) fun _ => quiet_trResVerify _ _ ?_
  refine quiet_bind (quiet_onStorage _) fun _ => quiet_trResVerify _ _ ?_
  refine quiet_bind (quiet_onStorage _) fun _ => quiet_trResVerify _ _ ?_
  exact quiet_bind (quiet_onStorage _) fun _ => quiet_trResVerify _ _ (quiet_pure _)

theorem quiet_verifyRemovable (tid : Int) (name : Path) (inoNum : BitVec 32) {next : FsM σ Int}
    (h : Quiet next) : Quiet (verifyRemovable tid name inoNum next) := by
  unfold verifyRemovable
  refine quiet_emptyTrVerify _ _ (quiet_emptyTrVerify _ _ (quiet_emptyTrVerify _ _ ?_))
  refine quiet_bind (quiet_onStorage _) fun _ => ?_
  exact quiet_emptyTrVerify _ _ (quiet_emptyTrVerify _ _ h)

theorem quiet_removeFile (newType : Nat) (pathname : Path) :
    Quiet (removeFile newType pathname : FsM σ Int) := by
  unfold removeFile
  refine quiet_bind (quiet_onStorage _) fun _ => ?_
  refine quiet_bind (quiet_onStorage _) fun _ => ?_
  refine quiet_bind (quiet_onStorage _) fun _ => quiet_emptyTrVerify _ _ ?_
  refine quiet_bind (quiet_onStorage _) fun _ => quiet_emptyTrVerify _ _ ?_
  refine quiet_ite (quiet_verifyRemovable _ _ _ ?_) ?_
  all_goals
    refine quiet_bind quiet_getTables fun _ => ?_
    exact quiet_emptyTrVerify _ _ (quiet_emptyTrVerify _ _ (quiet_unlinkFile ..))

omit [Config] [Storage σ] in
theorem quiet_setDirstreamDirEntry (ds : DirstreamId) (de : Nat → UInt8) (offset : Int) :
    Quiet (setDirstreamDirEntry ds de offset : FsM σ Unit) :=
  quiet_bind (quiet_modifyTables _) fun _ => quiet_modifyTables _

theorem quiet_readNextBlockEntry (ds : DirstreamId) (offset : Int) :
    Quiet (readNextBlockEntry ds offset : FsM σ Int) := by
  unfold readNextBlockEntry
  refine quiet_bind quiet_get fun s => ?_
  refine quiet_bind (quiet_onStorage _) fun _ => quiet_ite (quiet_pure _) ?_
  refine quiet_bind (quiet_onStorage _) fun _ => quiet_ite (quiet_pure _) ?_
  exact quiet_bind (quiet_setDirstreamDirEntry ..) fun _ => quiet_pure _

theorem quiet_readDirStreamNextEntry (ds : DirstreamId) :
    Quiet (readDirStreamNextEntry ds : FsM σ Int) := by
  unfold readDirStreamNextEntry
  refine quiet_bind quiet_get fun s => quiet_ite (quiet_readNextBlockEntry ..) ?_
  refine quiet_bind (quiet_onStorage _) fun _ => ?_
  refine quiet_bind (quiet_modifyTables _) fun _ => quiet_ite (quiet_pure _) ?_
  refine quiet_ite (quiet_readNextBlockEntry ..) ?_
  exact quiet_bind (quiet_setDirstreamDirEntry ..) fun _ => quiet_pure _

omit [Storage σ] in
theorem quiet_scanBlock (cb : ScandirCallbacks) (block : Block) (after : Nat → UInt8)
    (rounds : Nat) : ∀ place list, Quiet (scanBlock cb block after rounds place list : FsM σ _) := by
  induction rounds with
  | zero => exact fun _ _ => quiet_throw _
  | succ rounds ih =>
    intro place list
    refine quiet_ite (quiet_pure _) (quiet_ite ?_ (ih _ _))
    refine quiet_ite (quiet_pure _) (quiet_ite (quiet_throw _) (ih _ _))

end Routines

end NandFs
