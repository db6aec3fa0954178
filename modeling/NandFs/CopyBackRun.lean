import NandFs.EuLookup

/-! # A copy-back, up to the power loss

`copyBackSimple` page by page: what the two erase units hold after any number of programs
and erases.  A run either returns or stops where the power is lost, and the states in
between are those of `CopyBackState`: the copy is under way, or the original has been erased
and is being written again, or the copy-back unit has been erased, too.
-/
namespace NandFs

open Program

variable [Config]

/-! ## The contents of an erase unit -/

/-- The erase unit holds the pages `pages` up to `count`, and blank ones from there on. -/
def EuPages (f : Flash) (eu : Nat) (pages : Nat → Page) (count : Nat) : Prop :=
  ∀ i < pagesPerEu, f.page (eu + i) = if i < count then pages i else initBuf

/-- No page of the erase unit from `count` on was programmed since it was erased. -/
def EuClean (f : Flash) (eu count : Nat) : Prop :=
  ∀ i, count ≤ i → i < pagesPerEu → f.mainAreaWrites (eu + i) = false

section EuPages
variable {f t : Flash} {eu other : Nat} {pages : Nat → Page} {count : Nat}

theorem EuPages.congr (h : EuPages f eu pages count)
    (hpage : ∀ i < pagesPerEu, t.page (eu + i) = f.page (eu + i)) : EuPages t eu pages count :=
  fun i hi => (hpage i hi).trans (h i hi)

theorem EuPages.blank_of_le (h : EuPages f eu pages count) {i : Nat} (hi : i < pagesPerEu)
    (hle : count ≤ i) : f.page (eu + i) = initBuf := by
  rw [h i hi, if_neg (by omega)]

theorem EuPages.page_of_lt (h : EuPages f eu pages count) {i : Nat} (hi : i < pagesPerEu)
    (hlt : i < count) : f.page (eu + i) = pages i := by
  rw [h i hi, if_pos hlt]

/-- The first page of an erase unit that holds pages. -/
theorem EuPages.first (h : EuPages f eu pages count) (hpos : 0 < count) :
    f.page eu = pages 0 := h.page_of_lt pagesPerEu_pos hpos

/-- Another erase unit is erased. -/
theorem EuPages.erase_other (h : EuPages f eu pages count) (heu : IsEu eu) (hne : eu ≠ other)
    (ht : f.Erased other t) : EuPages t eu pages count :=
  h.congr fun i hi => by rw [ht.page_eq, heu.calcEuStart_add hi, if_neg hne]

theorem Flash.Erased.euPages (ht : f.Erased eu t) (heu : IsEu eu) (pages : Nat → Page) :
    EuPages t eu pages 0 := fun i hi => by
  rw [ht.page_eq, heu.calcEuStart_add hi, if_pos rfl, if_neg (Nat.not_lt_zero _)]

theorem Flash.Erased.euClean (ht : f.Erased eu t) (heu : IsEu eu) : EuClean t eu 0 :=
  fun i _ hi => by rw [ht.writes, heu.calcEuStart_add hi, if_pos rfl]

/-- Pages of different erase units are different. -/
theorem IsEu.add_ne {i j : Nat} (heu : IsEu eu) (hother : IsEu other) (hne : eu ≠ other)
    (hi : i < pagesPerEu) (hj : j < pagesPerEu) : eu + i ≠ other + j := fun h =>
  hne (by rw [← heu.calcEuStart_add hi, h, hother.calcEuStart_add hj])

theorem EuPages.program (h : EuPages f eu pages count)
    (ht : f.Programmed (pages count) (eu + count) t) : EuPages t eu pages (count + 1) := by
  intro i hi
  rw [ht.page_eq]
  by_cases hic : i = count
  · rw [hic, Function.update_self, if_pos (by omega)]
  · rw [Function.update_of_ne (by omega), h i hi]
    by_cases hlt : i < count
    · rw [if_pos hlt, if_pos (by omega)]
    · rw [if_neg hlt, if_neg (by omega)]

theorem EuPages.program_other {page : Page} {i : Nat} (h : EuPages f eu pages count)
    (heu : IsEu eu) (hother : IsEu other) (hne : eu ≠ other) (hi : i < pagesPerEu)
    (ht : f.Programmed page (other + i) t) : EuPages t eu pages count :=
  h.congr fun j hj => by
    rw [ht.page_eq, Function.update_of_ne (heu.add_ne hother hne hj hi)]

theorem EuClean.program {page : Page} (h : EuClean f eu count)
    (ht : f.Programmed page (eu + count) t) : EuClean t eu (count + 1) := fun i hle hi => by
  rw [ht.writes, Function.update_of_ne (by omega)]
  exact h i (by omega) hi

end EuPages

/-! ## Copying pages -/

/-- What a copy-back that works on two erase units leaves as it was. -/
structure Elsewhere (w₀ : World) (eu eu' : Nat) (w : World) : Prop where
  page : ∀ a, calcEuStart a ≠ eu → calcEuStart a ≠ eu' → w.flash.page a = w₀.flash.page a
  badEu : w.flash.badEu = w₀.flash.badEu
  segMap : w.segMap = w₀.segMap

theorem Elsewhere.symm {w₀ w : World} {eu eu' : Nat} (h : Elsewhere w₀ eu eu' w) :
    Elsewhere w₀ eu' eu w :=
  ⟨fun a h1 h2 => h.page a h2 h1, h.badEu, h.segMap⟩

theorem Elsewhere.good {w₀ w : World} {eu eu' : Nat} (h : Elsewhere w₀ eu eu' w) (a : Nat) :
    w.flash.good a = w₀.flash.good a :=
  Flash.good_congr h.badEu _

theorem Elsewhere.erase {w₀ w : World} {eu eu' : Nat} {t : Flash} (h : Elsewhere w₀ eu eu' w)
    (ht : w.flash.Erased eu t) : Elsewhere w₀ eu eu' { w with flash := t } where
  page a h1 h2 := by
    show t.page a = _
    rw [ht.page_eq, if_neg h1]
    exact h.page a h1 h2
  badEu := ht.badEu.trans h.badEu
  segMap := h.segMap

/-- `k` programs and erases lead from `w₀` to `w`. -/
def Spent (w₀ w : World) (k : Nat) : Prop := w₀.flash.power = w.flash.power.map (· + k)

theorem Spent.zero (w : World) : Spent w w 0 := by
  unfold Spent
  cases w.flash.power <;> rfl

theorem Spent.step {w₀ w : World} {k : Nat} {t : Flash} (h : Spent w₀ w k)
    (ht : t.power = w.flash.power.map (· - 1)) (hp : w.flash.power ≠ some 0) :
    Spent w₀ { w with flash := t } (k + 1) := by
  unfold Spent at h ⊢
  rw [ht, h]
  cases hpow : w.flash.power with
  | none => rfl
  | some n =>
    cases n with
    | zero => exact absurd hpow hp
    | succ n => simp only [Option.map_some]; congr 1; omega

/-- `q` of the pages `src` that `fromEu` holds have been copied to `toEu`, as `dst`. -/
structure Copying (w₀ : World) (toEu fromEu : Nat) (src dst : Nat → Page) (p q k : Nat)
    (w : World) : Prop where
  source : EuPages w.flash fromEu src p
  target : EuPages w.flash toEu dst q
  clean : EuClean w.flash toEu q
  elsewhere : Elsewhere w₀ toEu fromEu w
  spent : Spent w₀ w k

section Copy
variable {w₀ w : World} {toEu fromEu : Nat} {src : Nat → Page} {p : Nat}
  {withCopyBackFlags : Bool} {orgFrom : Nat}

/-- The pages `copyBackPage` programs for those it reads. -/
def copyBackImage (src : Nat → Page) (fromEu : Nat) (withCopyBackFlags : Bool) (orgFrom i : Nat) :
    Page :=
  { src i with flags := copyBackFlags (src i).flags (fromEu + i) withCopyBackFlags orgFrom }

variable (hto : IsEu toEu) (hfrom : IsEu fromEu) (hne : toEu ≠ fromEu)
  (hused : ∀ i < p, isPageUsed (src i).flags = true) (hp : p ≤ pagesPerEu)
include hto hfrom hne hused hp

theorem copyBackPage_used {i k : Nat} (hi : i < p)
    (h : Copying w₀ toEu fromEu src (copyBackImage src fromEu withCopyBackFlags orgFrom) p i k w) :
    wp (copyBackPage (toEu + i) (fromEu + i) withCopyBackFlags orgFrom)
      (fun res t => res = 0 ∧ Copying w₀ toEu fromEu src
        (copyBackImage src fromEu withCopyBackFlags orgFrom) p (i + 1) (k + 1) t)
      (fun e t => e = .powerLoss ∧ t = w ∧ w.flash.power = some 0) w := by
  have hlt : i < pagesPerEu := by omega
  unfold copyBackPage
  rw [wp_bind, wp_ok_iff (nandReadPageTotal_run (hfrom.add_lt hlt)), h.source.page_of_lt hlt hi]
  show wp (if isPageUsed (src i).flags = true then _ else _) _ _ w
  rw [if_pos (hused i hi)]
  refine wp_seqVerify (wp_nandProgramTotalPage (hto.add_lt hlt) (h.clean i (Nat.le_refl _) hlt)
    (h.target.blank_of_le hlt (Nat.le_refl _)) (fun t ht hpow => ?_) fun hpow => ⟨rfl, rfl, hpow⟩)
  rw [if_neg (not_not_intro rfl), wp_pure]
  refine ⟨rfl, ?_, h.target.program ht, h.clean.program ht, ?_, h.spent.step ht.power hpow⟩
  · exact h.source.program_other hfrom hto hne.symm hlt ht
  · refine ⟨fun a h1 h2 => ?_, ht.badEu.trans h.elsewhere.badEu, h.elsewhere.segMap⟩
    show t.page a = _
    have hane : a ≠ toEu + i := fun ha => h1 (by rw [ha, hto.calcEuStart_add hlt])
    rw [ht.page_eq, Function.update_of_ne hane]
    exact h.elsewhere.page a h1 h2

omit hto hne hused hp in
theorem copyBackPage_unused {dst : Nat → Page} {i q k : Nat} (hi : p ≤ i) (hlt : i < pagesPerEu)
    (h : Copying w₀ toEu fromEu src dst p q k w) :
    copyBackPage (toEu + i) (fromEu + i) withCopyBackFlags orgFrom w = .ok 0 w := by
  unfold copyBackPage
  rw [bind_ok (nandReadPageTotal_run (hfrom.add_lt hlt)), h.source.blank_of_le hlt hi]
  rfl

/-- The copying loop from page `i` on: every page that is used is copied, unless the power
goes after some of them. -/
theorem copyBackPages_spec {n i k : Nat} (hn : i + n ≤ pagesPerEu)
    (h : Copying w₀ toEu fromEu src (copyBackImage src fromEu withCopyBackFlags orgFrom) p
      (min i p) (k + min i p) w) :
    wp (copyBackPages toEu fromEu withCopyBackFlags orgFrom n i)
      (fun res t => res = 0 ∧ Copying w₀ toEu fromEu src
        (copyBackImage src fromEu withCopyBackFlags orgFrom) p (min (i + n) p)
        (k + min (i + n) p) t)
      (fun e t => e = .powerLoss ∧ t.flash.power = some 0 ∧ ∃ q < min (i + n) p,
        Copying w₀ toEu fromEu src (copyBackImage src fromEu withCopyBackFlags orgFrom) p q
          (k + q) t) w := by
  induction n generalizing i w with
  | zero => exact ⟨rfl, h⟩
  | succ n ih =>
    have hstep : i + (n + 1) = i + 1 + n := by omega
    rw [hstep]
    refine wp_seqVerify ?_
    by_cases hi : i < p
    · rw [Nat.min_eq_left (by omega)] at h
      refine wp_mono (copyBackPage_used hto hfrom hne hused hp hi h) ?_ ?_
      · rintro res t ⟨rfl, ht⟩
        rw [if_neg (not_not_intro rfl)]
        exact ih (by omega) (by rw [Nat.min_eq_left (by omega), ← Nat.add_assoc]; exact ht)
      · rintro e t ⟨rfl, rfl, hpow⟩
        exact ⟨rfl, hpow, i, by omega, h⟩
    · refine (wp_ok_iff (copyBackPage_unused hfrom (by omega) (by omega) h)).mpr ?_
      rw [if_neg (not_not_intro rfl)]
      rw [Nat.min_eq_right (by omega)] at h
      exact ih (by omega) (by rw [Nat.min_eq_right (by omega)]; exact h)

end Copy

/-! ## The whole of `copyBackSimple` -/

theorem isPageUsed_copyBackImage (src : Nat → Page) (fromEu : Nat) (withCopyBackFlags : Bool)
    (orgFrom i : Nat) :
    isPageUsed (copyBackImage src fromEu withCopyBackFlags orgFrom i).flags =
      isPageUsed (src i).flags := by
  unfold copyBackImage copyBackFlags
  split_ifs <;> rfl

/-- The copy-back is complete: `home` holds `count` pages, the copy-back unit none. -/
structure Restored (w₀ : World) (home cb : Nat) (pages : Nat → Page) (count k : Nat) (w : World) :
    Prop where
  pages_home : EuPages w.flash home pages count
  blank_cb : ∀ i < pagesPerEu, w.flash.page (cb + i) = initBuf
  elsewhere : Elsewhere w₀ home cb w
  spent : Spent w₀ w k

section Simple
variable {w₀ w : World} {home cb orgFrom : Nat} {saved : Nat → Page} {m n k : Nat}

/-- The second part of `copyBackSimple`: the erase unit `home` is erased and the `m` pages
that the copy-back unit holds are written to it. -/
theorem restore_spec (hhome : IsEu home) (hcb : IsEu cb) (hne : home ≠ cb)
    (hgood : w₀.flash.good home = true) (hgoodCb : w₀.flash.good cb = true)
    (hused : ∀ i < m, isPageUsed (saved i).flags = true) (hmn : m ≤ n) (hn : n < pagesPerEu)
    (hsaved : EuPages w.flash cb saved m) (helse : Elsewhere w₀ home cb w)
    (hspent : Spent w₀ w k) :
    wp (seqVerify (nandErase home) <|
        seqVerify (copyBackPages home cb false orgFrom n 0) (do
          let _ ← nandErase cb
          pure 0))
      (fun res t => res = 0 ∧
        Restored w₀ home cb (copyBackImage saved cb false orgFrom) m (k + m + 2) t)
      (fun e t => e = .powerLoss ∧ t.flash.power = some 0 ∧ (t = w ∨ ∃ q ≤ m,
        Copying w₀ home cb saved (copyBackImage saved cb false orgFrom) m q (k + 1 + q) t)) w := by
  refine wp_seqVerify (wp_nandErase hhome (by rw [helse.good]; exact hgood) (fun t ht hp => ?_)
    fun hp => ⟨rfl, hp, .inl rfl⟩)
  rw [if_neg (not_not_intro rfl)]
  have hstart : Copying w₀ home cb saved (copyBackImage saved cb false orgFrom) m (min 0 m)
      (k + 1 + min 0 m) { w with flash := t } := by
    rw [Nat.zero_min]
    exact ⟨hsaved.erase_other hcb hne.symm ht, ht.euPages hhome _, ht.euClean hhome,
      helse.erase ht, hspent.step ht.power hp⟩
  refine wp_seqVerify (wp_mono (copyBackPages_spec hhome hcb hne hused (by omega) (by omega) hstart)
    ?_ ?_)
  · rintro res u ⟨rfl, hu⟩
    rw [Nat.zero_add, Nat.min_eq_right hmn] at hu
    rw [if_neg (not_not_intro rfl), wp_bind]
    refine wp_nandErase hcb (by rw [hu.elsewhere.good]; exact hgoodCb) (fun v hv hpow => ?_)
      fun hpow => ⟨rfl, hpow, .inr ⟨m, Nat.le_refl _, hu⟩⟩
    have hspent' := hu.spent.step hv.power hpow
    rw [show k + 1 + m + 1 = k + m + 2 by omega] at hspent'
    exact ⟨rfl, hu.target.erase_other hhome hne hv, fun i hi => hv.euPages hcb saved i hi,
      (hu.elsewhere.symm.erase hv).symm, hspent'⟩
  · rintro e u ⟨rfl, hpow, q, hq, hu⟩
    exact ⟨rfl, hpow, .inr ⟨q, by omega, hu⟩⟩

end Simple

section Crash
variable {org cb : Nat} {src : Nat → Page} {p n : Nat}

/-- What the pages of `org` are when they have been to the copy-back unit and back. -/
def returned (src : Nat → Page) (org cb realOrgEu : Nat) : Nat → Page :=
  copyBackImage (copyBackImage src org true realOrgEu) cb false realOrgEu

/-- The states of a copy-back of `m` pages after `k` programs and erases. -/
inductive CopyBackState (w₀ : World) (org cb realOrgEu : Nat) (src : Nat → Page) (p m : Nat) :
    Nat → World → Prop
  /-- `q` pages are in the copy-back unit, the original is untouched -/
  | copying {q : Nat} {w : World} (hq : q ≤ m)
      (h : Copying w₀ cb org src (copyBackImage src org true realOrgEu) p q q w) :
      CopyBackState w₀ org cb realOrgEu src p m q w
  /-- the original was erased, and `q` pages are back -/
  | restoring {q : Nat} {w : World} (hq : q ≤ m)
      (h : Copying w₀ org cb (copyBackImage src org true realOrgEu)
        (returned src org cb realOrgEu) m q (m + 1 + q) w) :
      CopyBackState w₀ org cb realOrgEu src p m (m + 1 + q) w
  /-- the copy-back unit was erased -/
  | done {w : World} (h : Restored w₀ org cb (returned src org cb realOrgEu) m (2 * m + 2) w) :
      CopyBackState w₀ org cb realOrgEu src p m (2 * m + 2) w

/-- `copyBackSimple` from the start: it ends in the last of its states, or in the one in
which the power is lost. -/
theorem copyBackSimple_spec (w₀ : World) (realOrgEu : Nat) (horg : IsEu org) (hcb : IsEu cb)
    (hne : org ≠ cb)
    (hgood : w₀.flash.good org = true) (hgoodCb : w₀.flash.good cb = true)
    (hused : ∀ i < p, isPageUsed (src i).flags = true) (hp : p ≤ pagesPerEu)
    (hn : n < pagesPerEu) (hsrc : EuPages w₀.flash org src p)
    (hblank : EuPages w₀.flash cb src 0) (hclean : EuClean w₀.flash cb 0) :
    wp (copyBackSimple cb (org + n) false realOrgEu)
      (fun res t => res = 0 ∧ ∃ k, Spent w₀ t k ∧
        CopyBackState w₀ org cb realOrgEu src p (min n p) k t ∧ 2 * min n p + 2 ≤ k)
      (fun e t => e = .powerLoss ∧ t.flash.power = some 0 ∧ ∃ k, Spent w₀ t k ∧
        CopyBackState w₀ org cb realOrgEu src p (min n p) k t) w₀ := by
  have hstart : Copying w₀ cb org src (copyBackImage src org true realOrgEu) p (min 0 p)
      (0 + min 0 p) w₀ := by
    rw [Nat.zero_min, Nat.zero_add]
    exact ⟨hsrc, fun i hi => hblank i hi, hclean, ⟨fun _ _ _ => rfl, rfl, rfl⟩, Spent.zero w₀⟩
  unfold copyBackSimple
  rw [horg.calcOffsetInEu_add hn, horg.calcEuStart_add hn]
  refine wp_seqVerify ?_
  show wp (copyBackPages cb org true realOrgEu n 0) _ _ w₀
  refine wp_mono (copyBackPages_spec hcb horg hne.symm hused hp (by omega) hstart) ?_ ?_
  · rintro res t ⟨rfl, ht⟩
    rw [Nat.zero_add, Nat.zero_add] at ht
    rw [if_neg (not_not_intro rfl)]
    have husedSaved : ∀ i < min n p,
        isPageUsed (copyBackImage src org true realOrgEu i).flags = true := fun i hi => by
      rw [isPageUsed_copyBackImage]
      exact hused i (by omega)
    refine wp_mono (restore_spec horg hcb hne hgood hgoodCb husedSaved (Nat.min_le_left n p) hn
      ht.target ht.elsewhere.symm ht.spent) ?_ ?_
    · rintro res u ⟨rfl, hu⟩
      rw [show min n p + min n p + 2 = 2 * min n p + 2 by omega] at hu
      exact ⟨rfl, _, hu.spent, .done hu, Nat.le_refl _⟩
    · rintro e u ⟨rfl, hpow, rfl | ⟨q, hq, hu⟩⟩
      · exact ⟨rfl, hpow, _, ht.spent, .copying (Nat.le_refl _) ht⟩
      · exact ⟨rfl, hpow, _, hu.spent, .restoring hq hu⟩
  · rintro e t ⟨rfl, hpow, q, hq, ht⟩
    rw [Nat.zero_add] at hq ht
    exact ⟨rfl, hpow, q, ht.spent, .copying (by omega) ht⟩

end Crash

end NandFs
