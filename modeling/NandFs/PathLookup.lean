import NandFs.DirectoryLookup

/-! # Splitting a path and resolving it

`namei` resolves a path component by component, and `verifyPrefix` splits off the last component
and resolves what is before it.  A path that `verifyPrefix` accepts consists of components with a
separator before each, with or without one at its end.  Without one the two agree; with one the
"component" that is split off is the separator, since the end of the path is looked for before
the empty component that the source means to refuse.
-/
namespace NandFs

/-! ## Path strings -/

/-- `'/'` -/
def slash : UInt8 := 47

/-- The bytes of the characters. -/
def asciiPath (cs : List Char) : Path := cs.map fun c => UInt8.ofNat c.toNat

/-- `illegal_chars` -/
def illegalChars : List UInt8 := [2]

/-- `isLegalChar` -/
def isLegalChar (c : UInt8) : Bool := !illegalChars.contains c

/-- `verifyLegalPathname` -/
def verifyLegalPathname (pathname : Path) : Bool :=
  pathname.all fun c => decide (c < 0x80) && decide (0x1f < c) && isLegalChar c

/-- `findNextSeperator`: the offset of the next separator or of the end. -/
def findNextSeperator : Path → Nat
  | [] => 0
  | c :: pathname => if c = slash then 0 else findNextSeperator pathname + 1

/-- `VALID_MOCK_FILE_NAME_1` -/
def validMockFileName1 : Path :=
  asciiPath ['/', 'v', 'a', 'l', 'i', 'd', '_', 'f', 'i', 'l', 'e', '1', '.', 'd', 'a', 't']

/-- `VALID_MOCK_FILE_NAME_2` -/
def validMockFileName2 : Path :=
  asciiPath ['/', 'v', 'a', 'l', 'i', 'd', '_', 'f', 'i', 'l', 'e', '2', '.', 'd', 'a', 't']

/-- `INVALID_MOCK_FILE_NAME_1` -/
def invalidMockFileName1 : Path :=
  asciiPath ['/', 'i', 'n', 'v', 'a', 'l', 'i', 'd', '_', 'f', 'i', 'l', 'e', '1', '.', 'd', 'a', 't']

section
variable [Config]

/-- What `namei` answers by itself in a build with `Debug`. -/
def mockFile (pathname : Path) : Option (BitVec 32) :=
  if Config.debug then
    if pathname = validMockFileName1 then some 1000
    else if pathname = validMockFileName2 then some 2000
    else if pathname = invalidMockFileName1 then some (-1)
    else none
  else none

namespace Directories
variable (d : Directories)

/-- What `namei` returns for an inode number it arrived at. -/
def nameiResult (inoNum : BitVec 32) (fType : Nat) (deOffset : Int) : NameiResult :=
  if inoNum = inoNumEmpty then ⟨-1, fType, deOffset⟩ else ⟨inoNum, fType, deOffset⟩

/-- The loop of `namei`. -/
def nameiLoop (pathname : Path) (fType : Nat) (deOffset : Int) (inoNum : BitVec 32) :
    Option NameiResult :=
  if isDirectory fType = false then some ⟨-1, fType, deOffset⟩
  else
    let offset := findNextSeperator pathname
    if _h : offset = 0 then some (nameiResult inoNum fType deOffset)
    else
      match d.compareDirectoryEntries (pathname.take offset) inoNum with
      | none => none
      | some (.error (res, deOffset)) => some ⟨BitVec.ofInt 32 res, fType, deOffset⟩
      | some (.ok found) =>
        match _hrest : pathname.drop offset with
        | [] => some (nameiResult found.inoNum found.fType found.directoryOffset)
        | _ :: pathname => nameiLoop pathname found.fType found.directoryOffset found.inoNum
termination_by pathname.length
decreasing_by
  have hlen := congrArg List.length _hrest
  rw [List.length_drop, List.length_cons] at hlen
  omega

/-- `namei` with the inode number of a working directory; the caller's `de_offset` is 0. -/
def namei (pathname : Path) (inoNum : BitVec 32) : Option NameiResult :=
  match mockFile pathname with
  | some inoNum => some ⟨inoNum, ftypeFile, 0⟩
  | none =>
    if inoNum = inoNumEmpty ∧ pathname.head? ≠ some slash then some ⟨-1, ftypeDir, 0⟩
    else
      let inoNum := if inoNum = inoNumEmpty then 1 else inoNum
      if verifyLegalPathname pathname = false then some ⟨-1, ftypeDir, 0⟩
      else if inoNum = 1 then
        match pathname with
        | [] => some ⟨inoNum, ftypeDir, 0⟩
        | _ :: pathname => d.nameiLoop pathname ftypeDir 0 inoNum
      else d.nameiLoop pathname ftypeDir 0 inoNum

/-- The loop of `verifyPrefix`: `offset1` and `*f_offset` after it, or `none` if it returns. -/
def prefixLoop (pathname : Path) (offset1 fOffset : Nat) : Option (Nat × Nat) :=
  match pathname with
  | [] => some (offset1, fOffset)
  | _ :: pathname =>
    let offset1 := findNextSeperator pathname
    if pathname.drop offset1 = [] then some (offset1, fOffset)
    else if offset1 = 0 then none
    else prefixLoop (pathname.drop offset1) offset1 (fOffset + (offset1 + 1))
termination_by pathname.length
decreasing_by
  rw [List.length_drop, List.length_cons]
  omega

/-- `verifyPrefix` -/
def verifyPrefix (pathname : Path) : Option PrefixResult :=
  match prefixLoop pathname 0 0 with
  -- the callers do not look at their variables then
  | none => some ⟨-1, 0, 0⟩
  | some (offset1, fOffset) =>
    let fOffset := if offset1 ≠ 0 then fOffset + 1 else fOffset
    match d.namei (pathname.take fOffset) inoNumEmpty with
    | none => none
    | some found =>
      if !isNegative found.inoNum && isDirectory found.fType then some ⟨0, found.inoNum, fOffset⟩
      else some ⟨-1, found.inoNum, fOffset⟩

end Directories

/-! ## Components -/

/-- A component of a path. -/
structure IsName (n : Path) : Prop where
  ne_nil : n ≠ []
  not_mem : slash ∉ n

/-- The components with a separator before each. -/
def joinPath (names : List Path) : Path := names.flatMap fun n => slash :: n

/-- What is behind the last separator. -/
def lastComponent (pathname : Path) : Path := (pathname.reverse.takeWhile (· != slash)).reverse

section Paths
omit [Config]
variable {n last y : Path} {names : List Path}

theorem findNextSeperator_append (h : slash ∉ n) :
    findNextSeperator (n ++ slash :: y) = n.length := by
  induction n with
  | nil => exact if_pos rfl
  | cons c n ih =>
    rw [List.mem_cons, not_or] at h
    rw [List.cons_append, findNextSeperator, if_neg (Ne.symm h.1), ih h.2, List.length_cons]

theorem findNextSeperator_of_not_mem (h : slash ∉ n) : findNextSeperator n = n.length := by
  induction n with
  | nil => rfl
  | cons c n ih =>
    rw [List.mem_cons, not_or] at h
    rw [findNextSeperator, if_neg (Ne.symm h.1), ih h.2, List.length_cons]

theorem lastComponent_append (h : slash ∉ last) (pre : Path) :
    lastComponent (pre ++ slash :: last) = last := by
  have hall : ∀ c ∈ last.reverse, (c != slash) = true := fun c hc =>
    bne_iff_ne.mpr fun heq => h (heq ▸ List.mem_reverse.mp hc)
  rw [lastComponent, List.reverse_append, List.reverse_cons, List.append_assoc,
    List.takeWhile_append_of_pos hall, List.singleton_append,
    List.takeWhile_cons_of_neg (by simp), List.append_nil, List.reverse_reverse]

theorem joinPath_cons (n : Path) (names : List Path) :
    joinPath (n :: names) = slash :: (n ++ joinPath names) := by
  rw [joinPath, List.flatMap_cons, List.cons_append, joinPath]

theorem joinPath_append (names : List Path) (y : Path) :
    joinPath names ++ slash :: y = slash :: (joinPath names ++ slash :: y).tail := by
  cases names with
  | nil => rfl
  | cons n names => rw [joinPath_cons, List.cons_append, List.tail_cons]

/-- A path that the loop goes to the end of. -/
theorem prefixLoop_spec {c : UInt8} {body : Path} {offset1 fOffset o f : Nat}
    (h : Directories.prefixLoop (c :: body) offset1 fOffset = some (o, f)) :
    ∃ names last, (∀ n ∈ names, IsName n) ∧ slash ∉ last ∧
      slash :: body = joinPath names ++ slash :: last ∧ o = last.length ∧
      f = fOffset + (joinPath names).length := by
  induction hlen : body.length using Nat.strong_induction_on generalizing c body offset1 fOffset with
  | _ k ih =>
    rw [Directories.prefixLoop] at h
    by_cases hmem : slash ∈ body
    · obtain ⟨n, t, rfl, hn⟩ := List.eq_append_cons_of_mem hmem
      have hdrop : (n ++ slash :: t).drop n.length = slash :: t := List.drop_left
      rw [findNextSeperator_append hn, hdrop, if_neg (List.cons_ne_nil _ _)] at h
      split_ifs at h with hzero
      have hne : n ≠ [] := fun hnil => hzero (by rw [hnil]; rfl)
      obtain ⟨names, last, hnames, hlast, heq, ho, hf⟩ := ih t.length
        (by rw [← hlen, List.length_append, List.length_cons]; omega) h rfl
      refine ⟨n :: names, last, ?_, hlast, ?_, ho, ?_⟩
      · intro x hx
        rcases List.mem_cons.mp hx with rfl | hx
        · exact ⟨hne, hn⟩
        · exact hnames x hx
      · rw [heq, joinPath_cons, List.cons_append, List.append_assoc]
      · rw [hf, joinPath_cons, List.length_cons, List.length_append]
        omega
    · have hsep := findNextSeperator_of_not_mem hmem
      rw [hsep, List.drop_length, if_pos rfl] at h
      obtain ⟨rfl, rfl⟩ := Prod.mk.inj (Option.some.inj h)
      exact ⟨[], body, fun n hn => absurd hn List.not_mem_nil, hmem, rfl, rfl, rfl⟩

end Paths

/-! ## The walk -/

omit [Config] in
/-- The errors of the look-up are no inode numbers. -/
theorem isNegative_ofInt {res : Int} (hlow : -15 ≤ res) (hneg : res < 0) :
    isNegative (BitVec.ofInt 32 res) = true := by
  interval_cases res <;> rfl

omit [Config] in
theorem fsErrorOfstOvrflw_range : -15 ≤ fsErrorOfstOvrflw ∧ fsErrorOfstOvrflw < 0 := by decide

namespace Directories
variable {d : Directories} {n : Path} {fType : Nat} {deOffset : Int} {inoNum : BitVec 32}

theorem compareBlocks_error {name : Path} {fSize : Int} {rounds : Nat} {offset res : Int}
    (h : d.compareBlocks name inoNum fSize rounds offset = some (.error (res, deOffset))) :
    -15 ≤ res ∧ res < 0 := by
  induction rounds generalizing offset with
  | zero => exact absurd h.symm (Option.some_ne_none _)
  | succ rounds ih =>
    unfold compareBlocks at h
    split at h
    · obtain ⟨rfl, -⟩ := Prod.mk.inj (Except.error.inj (Option.some.inj h))
      exact fsErrorOfstOvrflw_range
    · dsimp only at h
      split at h
      · rename_i hres
        obtain ⟨rfl, -⟩ := Prod.mk.inj (Except.error.inj (Option.some.inj h))
        have hrange := d.res_range inoNum offset
        omega
      · split at h
        · exact absurd h.symm (Option.some_ne_none _)
        · exact absurd (Option.some.inj h) (by simp)
        · exact ih h

/-- One component of the walk, with a separator behind it. -/
theorem nameiLoop_cons (hn : IsName n) (hdir : isDirectory fType = true) (pathname : Path) :
    d.nameiLoop (n ++ slash :: pathname) fType deOffset inoNum =
      match d.compareDirectoryEntries n inoNum with
      | none => none
      | some (.error (res, deOffset)) => some ⟨BitVec.ofInt 32 res, fType, deOffset⟩
      | some (.ok found) =>
        d.nameiLoop pathname found.fType found.directoryOffset found.inoNum := by
  have hzero : n.length ≠ 0 := fun h => hn.ne_nil (List.length_eq_zero_iff.mp h)
  rw [nameiLoop]
  simp only [findNextSeperator_append hn.not_mem, hdir, Bool.true_eq_false, if_false, dif_neg hzero,
    List.take_left]
  cases d.compareDirectoryEntries n inoNum with
  | none => rfl
  | some result =>
    cases result with
    | error e => rfl
    | ok found =>
      dsimp only
      split
      · rename_i hrest
        rw [findNextSeperator_append hn.not_mem, List.drop_left] at hrest
        exact absurd hrest (List.cons_ne_nil _ _)
      · rename_i hrest
        rw [findNextSeperator_append hn.not_mem, List.drop_left] at hrest
        rw [(List.cons.inj hrest).2]

/-- The last component of the walk. -/
theorem nameiLoop_last (hn : IsName n) (hdir : isDirectory fType = true) :
    d.nameiLoop n fType deOffset inoNum =
      match d.compareDirectoryEntries n inoNum with
      | none => none
      | some (.error (res, deOffset)) => some ⟨BitVec.ofInt 32 res, fType, deOffset⟩
      | some (.ok found) =>
        some (nameiResult found.inoNum found.fType found.directoryOffset) := by
  have hzero : n.length ≠ 0 := fun h => hn.ne_nil (List.length_eq_zero_iff.mp h)
  rw [nameiLoop]
  simp only [findNextSeperator_of_not_mem hn.not_mem, hdir, Bool.true_eq_false, if_false,
    dif_neg hzero, List.take_length]
  cases d.compareDirectoryEntries n inoNum with
  | none => rfl
  | some result =>
    cases result with
    | error e => rfl
    | ok found =>
      dsimp only
      split
      · rfl
      · rename_i hrest
        rw [findNextSeperator_of_not_mem hn.not_mem, List.drop_length] at hrest
        exact absurd hrest.symm (List.cons_ne_nil _ _)

/-- The result of a walk that finds a directory. -/
structure FindsDirectory (found : NameiResult) : Prop where
  inoNum : isNegative found.inoNum = false
  directory : isDirectory found.fType = true

omit [Config] in
theorem FindsDirectory.ne_error (h : FindsDirectory ⟨-1, fType, deOffset⟩) : False :=
  absurd (show isNegative (-1) = false from h.inoNum) (by decide)

/-- A walk starts at a directory. -/
theorem nameiLoop_directory {pathname : Path} {found : NameiResult} (hfound : FindsDirectory found)
    (h : d.nameiLoop pathname fType deOffset inoNum = some found) : isDirectory fType = true := by
  by_contra hno
  rw [Bool.not_eq_true] at hno
  rw [nameiLoop, if_pos hno] at h
  obtain rfl := Option.some.inj h
  exact hfound.ne_error

/-- A walk that ends behind a separator at a directory goes on from that directory. -/
theorem nameiLoop_append {names : List Path} (hnames : ∀ n ∈ names, IsName n)
    {found : NameiResult} (hfound : FindsDirectory found)
    (h : d.nameiLoop (joinPath names ++ [slash]).tail fType deOffset inoNum = some found)
    (last : Path) : d.nameiLoop (joinPath names ++ slash :: last).tail fType deOffset inoNum =
      d.nameiLoop last found.fType found.deOffset found.inoNum := by
  induction names generalizing fType deOffset inoNum with
  | nil =>
    have hdir : isDirectory fType = true := nameiLoop_directory hfound h
    have hres : nameiResult inoNum fType deOffset = found := by
      rw [nameiLoop, if_neg (by rw [hdir]; decide)] at h
      exact Option.some.inj h
    unfold nameiResult at hres
    split_ifs at hres with hempty
    · subst hres
      exact hfound.ne_error.elim
    · subst hres
      rfl
  | cons n names ih =>
    have hn := hnames n List.mem_cons_self
    have hdir : isDirectory fType = true := nameiLoop_directory hfound h
    have htail : ∀ y, (joinPath (n :: names) ++ slash :: y).tail
        = n ++ slash :: (joinPath names ++ slash :: y).tail := fun y => by
      rw [joinPath_cons, List.cons_append, List.tail_cons, List.append_assoc, joinPath_append]
      rfl
    rw [htail, nameiLoop_cons hn hdir] at h
    rw [htail, nameiLoop_cons hn hdir]
    cases hcmp : d.compareDirectoryEntries n inoNum with
    | none =>
      rw [hcmp] at h
      exact absurd h.symm (Option.some_ne_none _)
    | some result =>
      rw [hcmp] at h
      cases result with
      | error e =>
        obtain rfl := Option.some.inj h
        obtain ⟨hlow, hneg⟩ := compareBlocks_error hcmp
        have hno := hfound.inoNum
        rw [isNegative_ofInt hlow hneg] at hno
        exact absurd hno Bool.true_eq_false.mp
      | ok found' => exact ih (fun x hx => hnames x (List.mem_cons_of_mem _ hx)) h

/-- A path that names no file of the tests is resolved from the root. -/
theorem namei_root {pathname : Path} (hmock : mockFile (slash :: pathname) = none)
    (hlegal : verifyLegalPathname (slash :: pathname) = true) :
    d.namei (slash :: pathname) inoNumEmpty = d.nameiLoop pathname ftypeDir 0 1 := by
  rw [namei, hmock]
  dsimp only
  rw [if_neg (fun h => h.2 rfl), if_pos rfl, hlegal, if_neg (Bool.true_eq_false.mp ·), if_pos rfl]

/-- A path that leads to a directory begins with a separator, is legal and names no file of the
tests. -/
theorem namei_directory {pathname : Path} {found : NameiResult} (hfound : FindsDirectory found)
    (h : d.namei pathname inoNumEmpty = some found) : ∃ rest, pathname = slash :: rest ∧
      mockFile pathname = none ∧ verifyLegalPathname pathname = true ∧
      d.nameiLoop rest ftypeDir 0 1 = some found := by
  cases hmock : mockFile pathname with
  | some inoNum =>
    rw [namei, hmock] at h
    obtain rfl := Option.some.inj h
    exact absurd (show isDirectory ftypeFile = true from hfound.directory) (by decide)
  | none =>
    have hrun := h
    rw [namei, hmock] at h
    dsimp only at h
    split_ifs at h with hslash hlegal
    · obtain rfl := Option.some.inj h
      exact hfound.ne_error.elim
    · obtain rfl := Option.some.inj h
      exact hfound.ne_error.elim
    all_goals
      rw [Bool.not_eq_false] at hlegal
      cases pathname with
      | nil => exact absurd ⟨rfl, Option.some_ne_none _ ∘ Eq.symm⟩ hslash
      | cons c rest =>
        obtain rfl : c = slash := by
          by_contra hne
          exact hslash ⟨rfl, fun heq => hne (Option.some.inj heq)⟩
        rw [namei_root hmock hlegal] at hrun
        exact ⟨rest, rfl, rfl, hlegal, hrun⟩

/-- How a path is split that `verifyPrefix` accepts. -/
theorem verifyPrefix_spec {pathname : Path} {pre : PrefixResult}
    (h : d.verifyPrefix pathname = some pre) (hres : pre.res = 0) :
    ∃ names last found, (∀ n ∈ names, IsName n) ∧ slash ∉ last ∧
      pathname = joinPath names ++ slash :: last ∧
      pre.nameOffset = (joinPath names).length + (if last = [] then 0 else 1) ∧
      FindsDirectory found ∧ found.inoNum = pre.dirNum ∧
      d.namei (pathname.take pre.nameOffset) inoNumEmpty = some found := by
  unfold verifyPrefix at h
  split at h
  · obtain rfl := Option.some.inj h
    exact absurd hres (by decide)
  rename_i offset1 fOffset hloop
  dsimp only at h
  generalize hoff : (if offset1 ≠ 0 then fOffset + 1 else fOffset) = off at h
  split at h
  · exact absurd h.symm (Option.some_ne_none _)
  rename_i found hfound
  split_ifs at h with htest
  · obtain rfl := Option.some.inj h
    rw [Bool.and_eq_true, Bool.not_eq_true'] at htest
    have hdir : FindsDirectory found := ⟨htest.1, htest.2⟩
    obtain ⟨rest, hrest, -⟩ := namei_directory hdir hfound
    cases pathname with
    | nil => exact absurd (List.take_nil.symm.trans hrest) (List.cons_ne_nil _ _).symm
    | cons c body =>
      obtain ⟨names, last, hnames, hlast, heq, rfl, hf⟩ := prefixLoop_spec hloop
      obtain rfl : c = slash := by
        cases off with
        | zero => exact absurd hrest (List.cons_ne_nil _ _).symm
        | succ off => exact (List.cons.inj hrest).1
      refine ⟨names, last, found, hnames, hlast, heq, ?_, hdir, rfl, hfound⟩
      show off = _
      rw [← hoff, hf, Nat.zero_add]
      by_cases hnil : last = []
      · rw [hnil, if_pos rfl, if_neg (not_not_intro List.length_nil), Nat.add_zero]
      · rw [if_neg hnil, if_pos fun hl => hnil (List.length_eq_zero_iff.mp hl)]
  · obtain rfl := Option.some.inj h
    exact absurd (show (-1 : Int) = 0 from hres) (by decide)

end Directories

/-! ## Where the two agree -/

/-- The split of a path agrees with its resolution: the last component is one, the directory is
what the rest is resolved to, and the path is resolved to the entry of the directory with that
name and to no file if there is none. -/
structure Directories.Splits (d : Directories) (pathname : Path) (pre : PrefixResult)
    (es : List Record) : Prop where
  name : IsName (pathname.drop pre.nameOffset)
  directory : ∃ found, d.namei (pathname.take pre.nameOffset) inoNumEmpty = some found ∧
    found.inoNum = pre.dirNum
  resolves : ∃ found, d.namei pathname inoNumEmpty = some found ∧
    (isNegative found.inoNum = false ↔ ∃ e ∈ es, recordName e = pathname.drop pre.nameOffset) ∧
    ∀ e, es.find? (named (pathname.drop pre.nameOffset)) = some e →
      found.inoNum = recordInoNum e

/-- The path does not end with a separator, and the characters of its last component are legal
or the directory has no entry of that name.  For a name of the tests the directory has to say
what `namei` answers. -/
def PathFine (pathname : Path) (es : List Record) : Prop :=
  lastComponent pathname ≠ [] ∧
  match mockFile pathname with
  | some inoNum =>
    match es.find? (named (lastComponent pathname)) with
    | some e => inoNum = recordInoNum e
    | none => isNegative inoNum = true
  | none => verifyLegalPathname (lastComponent pathname) = true ∨
      ∀ e ∈ es, recordName e ≠ lastComponent pathname

end

section
variable [FsConfig] {d : Directories} {pathname : Path} {pre : PrefixResult}
  {blocks : List (List Record)}

omit [FsConfig] in
theorem find?_named_none {es : List Record} {name : Path} :
    es.find? (named name) = none ↔ ¬∃ e ∈ es, recordName e = name := by
  rw [List.find?_eq_none]
  simp only [not_exists, not_and, named_iff]

omit [FsConfig] in
/-- What `namei` answers agrees with what the directory holds. -/
theorem agrees_iff {es : List Record} {name : Path} {inoNum : BitVec 32}
    (hes : ∀ e ∈ es, isNegative (recordInoNum e) = false) :
    ((isNegative inoNum = false ↔ ∃ e ∈ es, recordName e = name) ∧
      ∀ e, es.find? (named name) = some e → inoNum = recordInoNum e) ↔
    match es.find? (named name) with
    | some e => inoNum = recordInoNum e
    | none => isNegative inoNum = true := by
  cases hfind : es.find? (named name) with
  | none =>
    have hno := find?_named_none.mp hfind
    constructor
    · rintro ⟨hiff, -⟩
      exact eq_true_of_ne_false fun hneg => hno (hiff.mp hneg)
    · intro hneg
      refine ⟨iff_of_false (by rw [hneg]; decide) hno, fun e he => ?_⟩
      exact absurd he.symm (Option.some_ne_none _)
  | some e =>
    have hmem := List.mem_of_find?_eq_some hfind
    have hname := named_iff.mp (List.find?_some hfind)
    constructor
    · rintro ⟨-, hall⟩
      exact hall e rfl
    · intro heq
      refine ⟨iff_of_true (heq ▸ hes e hmem) ⟨e, hmem, hname⟩, fun e' he' => ?_⟩
      obtain rfl := Option.some.inj he'
      exact heq

/-- Where `verifyPrefix` accepts a path, the split agrees with `namei` if and only if the path is
fine. -/
theorem Directories.verifyPrefix_splits_iff (hnul : 0 ∉ pathname)
    (h : d.verifyPrefix pathname = some pre) (hres : pre.res = 0)
    (hdir : d.Holds pre.dirNum blocks) :
    d.Splits pathname pre blocks.flatten ↔ PathFine pathname blocks.flatten := by
  obtain ⟨names, last, found, hnames, hlast, rfl, hoff, hfound, hino, hprefix⟩ :=
    verifyPrefix_spec h hres
  rw [PathFine, lastComponent_append hlast]
  by_cases hnil : last = []
  · -- the name is the separator at the end
    subst hnil
    refine iff_of_false (fun hsplit => ?_) fun hfine => hfine.1 rfl
    rw [if_pos rfl, Nat.add_zero] at hoff
    have hname := hsplit.name.not_mem
    rw [hoff, List.drop_left] at hname
    exact hname List.mem_cons_self
  rw [if_neg hnil] at hoff
  have hdrop : (joinPath names ++ slash :: last).drop pre.nameOffset = last := by
    rw [hoff, ← List.drop_drop, List.drop_left, List.drop_one, List.tail_cons]
  have htake : (joinPath names ++ slash :: last).take pre.nameOffset = joinPath names ++ [slash] := by
    rw [hoff, List.take_length_add_append, List.take_one, List.head?_cons, Option.toList_some]
  have hlastName : IsName last := ⟨hnil, hlast⟩
  have hes : ∀ e ∈ blocks.flatten, isNegative (recordInoNum e) = false :=
    fun e he => (hdir.entry e he).2
  -- what is left is the result of `namei` for the whole path
  have hsplits : ∀ {whole}, d.namei (joinPath names ++ slash :: last) inoNumEmpty = some whole →
      (d.Splits (joinPath names ++ slash :: last) pre blocks.flatten ↔
        match blocks.flatten.find? (named last) with
        | some e => whole.inoNum = recordInoNum e
        | none => isNegative whole.inoNum = true) := by
    intro whole hrun
    rw [← agrees_iff hes]
    constructor
    · rintro ⟨-, -, whole', hrun', hagrees⟩
      obtain rfl := Option.some.inj (hrun.symm.trans hrun')
      rwa [hdrop] at hagrees
    · intro hagrees
      exact ⟨by rw [hdrop]; exact ⟨hnil, hlast⟩, ⟨found, hprefix, hino⟩, whole, hrun,
        by rw [hdrop]; exact hagrees⟩
  rw [htake] at hprefix
  obtain ⟨rest, hrest, -, hlegalPre, hwalk⟩ := namei_directory hfound hprefix
  have hhead := joinPath_append names last
  cases hmock : mockFile (joinPath names ++ slash :: last) with
  | some inoNum =>
    have hrun : d.namei (joinPath names ++ slash :: last) inoNumEmpty
        = some ⟨inoNum, ftypeFile, 0⟩ := by rw [namei, hmock]
    rw [hsplits hrun]
    exact (and_iff_right hnil).symm
  | none =>
    have hlegal : verifyLegalPathname (joinPath names ++ slash :: last)
        = verifyLegalPathname last := by
      unfold verifyLegalPathname at hlegalPre ⊢
      rw [List.all_append, Bool.and_eq_true] at hlegalPre
      rw [List.all_append, List.all_cons, hlegalPre.1, Bool.true_and]
      exact Bool.true_and _
    cases hlast' : verifyLegalPathname last with
    | true =>
      rw [hhead] at hmock hlegal
      have hrun := namei_root (d := d) hmock (hlegal.trans hlast')
      have hstart : rest = (joinPath names ++ [slash]).tail := by rw [hrest, List.tail_cons]
      rw [← hhead, nameiLoop_append hnames hfound (hstart ▸ hwalk),
        nameiLoop_last hlastName hfound.directory] at hrun
      have hnulLast : 0 ∉ last := fun hmem =>
        hnul (List.mem_append_right _ (List.mem_cons_of_mem _ hmem))
      obtain ⟨offset, hcmp⟩ := hdir.compareDirectoryEntries_run hnulLast
      rw [hino, hcmp] at hrun
      refine iff_of_true ?_ ⟨hnil, .inl rfl⟩
      cases hfind : blocks.flatten.find? (named last) with
      | none =>
        rw [hfind] at hrun
        rw [hsplits hrun, hfind]
        exact isNegative_ofInt fsErrorOfstOvrflw_range.1 fsErrorOfstOvrflw_range.2
      | some e =>
        rw [hfind] at hrun
        have hne : recordInoNum e ≠ inoNumEmpty := fun heq => by
          have hneg := hes e (List.mem_of_find?_eq_some hfind)
          rw [heq] at hneg
          exact absurd hneg (by decide)
        rw [hsplits hrun, hfind]
        show (nameiResult (recordInoNum e) _ _).inoNum = _
        rw [nameiResult, if_neg hne]
    | false =>
      have hrun : d.namei (joinPath names ++ slash :: last) inoNumEmpty
          = some ⟨-1, ftypeDir, 0⟩ := by
        rw [namei, hmock, hhead]
        dsimp only
        rw [if_neg (fun h => h.2 rfl), ← hhead, hlegal, hlast', if_pos rfl]
      rw [hsplits hrun]
      have hbad : (false = true ∨ ∀ e ∈ blocks.flatten, recordName e ≠ last) ↔
          blocks.flatten.find? (named last) = none := by
        rw [find?_named_none]
        simp only [Bool.false_eq_true, false_or, not_exists, not_and, ne_eq]
      dsimp only
      rw [hbad]
      cases hfind : blocks.flatten.find? (named last) with
      | none => exact iff_of_true (by decide) ⟨hnil, rfl⟩
      | some e =>
        refine iff_of_false (fun heq => ?_) fun h => absurd h.2 (Option.some_ne_none _)
        have hneg := hes e (List.mem_of_find?_eq_some hfind)
        rw [← (show (-1 : BitVec 32) = recordInoNum e from heq)] at hneg
        exact absurd hneg (by decide)

end

section SmallPage
attribute [local instance] smallPageFs

/-- The entry of a directory `a`. -/
def entryOfA : Record := newDirentry 5#32 1 [97]

/-- A root directory that holds the directory `a`, inode 5, which is empty. -/
def rootWithA : Directories where
  getFileSize _ := inodeFileDataSize + fsBlockSize
  readFileBlock inoNum _ :=
    (0, if inoNum = 1 then setNewDirentry (fun _ => 0xff) 0 5#32 1 [97] else fun _ => 0xff)
  after _ := 0xff
  res_range _ _ := ⟨show (-15 : Int) ≤ 0 by decide, Int.le_refl 0⟩

theorem byte_blank (k : Nat) : Block.byte (fun _ => 0xff) k = 0xff := by
  unfold Block.byte
  split_ifs <;> rfl

theorem rootWithA_size {dirNum : BitVec 32} (k : Nat) :
    inodeFileDataSize + k * fsBlockSize < rootWithA.getFileSize dirNum ↔ k < 1 := by
  have hsize : fsBlockSize = 512 := rfl
  show inodeFileDataSize + k * fsBlockSize < inodeFileDataSize + fsBlockSize ↔ _
  rw [hsize]
  omega

theorem rootWithA_holds : rootWithA.Holds 1 [[entryOfA]] where
  size := rootWithA_size
  read k hk := by
    obtain rfl : k = 0 := by rw [List.length_singleton] at hk; omega
    refine ⟨rfl, ?_⟩
    show HoldsEntries (setNewDirentry (fun _ => 0xff) 0 5#32 1 [97]) 0 [entryOfA]
    obtain ⟨hino, hlen, hrec⟩ := newDirentry_read (fun _ => 0xff) 5#32 1 [97] (by decide)
      (show 0 + ([97].length + direntFlashSize) ≤ pageSize by decide)
    have hbyte := Block.byte_store (b := fun _ => 0xff)
      (show 0 + entryOfA.length ≤ pageSize by decide)
    rw [entryOfA, ← setNewDirentry_eq] at hbyte
    rw [entryOfA, ← hrec]
    refine .entry (by rw [isDirentEmpty, hino]; decide) (by rw [hlen]; decide)
      (by rw [hlen]; decide) (by decide) (.erased (by rw [hlen]; decide) fun k hk _ => ?_)
    rw [hlen] at hk
    have hge : 11 ≤ k := by unfold direntFlashSize at hk; simpa using hk
    rw [hbyte, if_neg (fun h => absurd h.2 (Nat.not_lt_of_le hge)), byte_blank]
  entry e he := by
    obtain rfl : e = entryOfA := by simpa using he
    exact ⟨by decide, by decide⟩

theorem rootWithA_empty : rootWithA.Holds 5 [[]] where
  size := rootWithA_size
  read k hk := by
    obtain rfl : k = 0 := by rw [List.length_singleton] at hk; omega
    exact ⟨rfl, .erased (by decide) fun k _ _ => byte_blank k⟩
  entry e he := by simp at he

theorem rootWithA_lookup : ∃ offset, rootWithA.compareDirectoryEntries [97] 1 =
    some (.ok ⟨5, ftypeDir, offset⟩) := by
  obtain ⟨offset, hrun⟩ := rootWithA_holds.compareDirectoryEntries_run
    (show 0 ∉ ([97] : Path) by decide)
  exact ⟨offset, hrun⟩

/-- `/a/` is split into the directory `a` itself and the name `/`. -/
theorem rootWithA_verifyPrefix : rootWithA.verifyPrefix [47, 97, 47] = some ⟨0, 5, 2⟩ := by
  obtain ⟨offset, hcmp⟩ := rootWithA_lookup
  have hloop : Directories.prefixLoop [47, 97, 47] 0 0 = some (0, 2) := by
    simp [Directories.prefixLoop, findNextSeperator, slash]
  have hnamei : rootWithA.namei [47, 97] inoNumEmpty = some ⟨5, ftypeDir, offset⟩ := by
    rw [show ([47, 97] : Path) = slash :: [97] from rfl,
      Directories.namei_root (by decide) (by decide),
      Directories.nameiLoop_last ⟨by decide, by decide⟩ (by decide), hcmp]
    rfl
  rw [Directories.verifyPrefix, hloop]
  simp only [ne_eq, not_true_eq_false, if_false, List.take_succ_cons, List.take_zero, hnamei]
  rfl

/-- The split of `/a/` does not agree with what the path is resolved to. -/
theorem verifyPrefix_splits_fails : ¬∀ (d : Directories) (pathname : Path) (pre : PrefixResult)
    (blocks : List (List Record)), 0 ∉ pathname → d.verifyPrefix pathname = some pre →
    pre.res = 0 → d.Holds pre.dirNum blocks → d.Splits pathname pre blocks.flatten := fun h =>
  (h rootWithA [47, 97, 47] ⟨0, 5, 2⟩ [[]] (by decide) rootWithA_verifyPrefix rfl
    rootWithA_empty).name.not_mem (by decide)

/-- The split of `/a` does. -/
theorem verifyPrefix_splits_smallPage : rootWithA.verifyPrefix [47, 97] = some ⟨0, 1, 1⟩ ∧
    rootWithA.Splits [47, 97] ⟨0, 1, 1⟩ [entryOfA] := by
  have hloop : Directories.prefixLoop [47, 97] 0 0 = some (1, 0) := by
    simp [Directories.prefixLoop, findNextSeperator, slash]
  have hnamei : rootWithA.namei [47] inoNumEmpty = some ⟨1, ftypeDir, 0⟩ := by
    rw [show ([47] : Path) = slash :: [] from rfl,
      Directories.namei_root (by decide) (by decide), Directories.nameiLoop]
    rfl
  have hrun : rootWithA.verifyPrefix [47, 97] = some ⟨0, 1, 1⟩ := by
    rw [Directories.verifyPrefix, hloop]
    simp only [ne_eq, one_ne_zero, not_false_eq_true, if_true, List.take_succ_cons, List.take_zero,
      hnamei]
    rfl
  refine ⟨hrun, (Directories.verifyPrefix_splits_iff (by decide) hrun rfl rootWithA_holds).mpr ?_⟩
  exact ⟨by decide, .inl (show verifyLegalPathname (lastComponent [47, 97]) = true by decide)⟩

end SmallPage

end NandFs
