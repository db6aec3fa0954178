import NandFs.SlotContents

/-! # Writing, erasing and marking the slots

A program at the target of a page of a slot writes that page of the contents, an erase of the
home of an erase unit erases the erase unit, and the obsolete byte of a page marks it.  Each
lemma says what the chip has to do; the other pages stay because homes are distinct.
-/
namespace NandFs

open Program

variable [Config]

/-- Where a page of a slot is to be programmed: at the home of its erase unit or, for the
first page of a bad erase unit that is not replaced yet, in a free reserve erase unit. -/
inductive IsTarget (f : Flash) (m : SegMap) (slot o : Nat) : Nat → Prop
  | home {home : Nat} (h : IsHome f m slot (o / pagesPerEu) home) :
      IsTarget f m slot o (home + o % pagesPerEu)
  | fresh {eu : Nat} (bad : f.good (euAt slot (o / pagesPerEu)) = false)
      (mem : m.IsReserveEu eu) (free : f.IsFree eu) (start : o % pagesPerEu = 0)
      (first : ∀ home, ¬IsHome f m slot (o / pagesPerEu) home) : IsTarget f m slot o eu

/-- A target depends on the reserve segments of the map only. -/
theorem IsTarget.congr {f : Flash} {m m' : SegMap} {slot o a : Nat} (h : IsTarget f m slot o a)
    (hm : ∀ seg ∈ reserveSegments, m'.segToSlot seg = m.segToSlot seg) :
    IsTarget f m' slot o a := by
  cases h with
  | home hh => exact .home (hh.congr hm)
  | fresh bad mem free start first =>
    exact .fresh bad (mem.congr hm) free start fun home hh =>
      first home (hh.congr fun seg hseg => (hm seg hseg).symm)

section Programmed
variable {f t : Flash} {page : Page} {a b : Nat} (h : f.Programmed page a t)
include h

theorem Flash.Programmed.good (b : Nat) : t.good b = f.good b :=
  Flash.good_congr h.badEu _

theorem Flash.Programmed.page_of_ne (hne : b ≠ a) : t.page b = f.page b := by
  rw [h.page_eq, Function.update_of_ne hne]

theorem Flash.Programmed.page_self : t.page a = page := by
  rw [h.page_eq, Function.update_self]

theorem Flash.Programmed.holds_of_ne {s : Option Stored} (hne : b ≠ a) (hs : PageHolds f b s) :
    PageHolds t b s := by
  cases s with
  | none => exact ⟨by rw [h.page_of_ne hne]; exact hs.1,
      by rw [h.writes, Function.update_of_ne hne]; exact hs.2⟩
  | some s => exact ⟨by rw [h.page_of_ne hne]; exact hs.1, by rw [h.page_of_ne hne]; exact hs.2⟩

theorem Flash.Programmed.standsFor_of_ne (hne : b ≠ a) (p : Nat) :
    t.standsFor p b = f.standsFor p b := by
  rw [Flash.standsFor, Flash.standsFor, h.good, h.page_of_ne hne]

theorem Flash.Programmed.isFree_of_ne (hne : b ≠ a) : t.IsFree b ↔ f.IsFree b := by
  rw [Flash.IsFree, Flash.IsFree, h.good, h.page_of_ne hne]

end Programmed

section Arithmetic
variable {e i o : Nat}

theorem div_of_eq (hi : i < pagesPerEu) (h : e * pagesPerEu + i = o) : o / pagesPerEu = e := by
  rw [← h, Nat.mul_comm, Nat.mul_add_div pagesPerEu_pos, Nat.div_eq_of_lt hi, Nat.add_zero]

theorem mod_of_eq (hi : i < pagesPerEu) (h : e * pagesPerEu + i = o) : o % pagesPerEu = i := by
  rw [← h, Nat.mul_comm, Nat.mul_add_mod, Nat.mod_eq_of_lt hi]

theorem div_mul_add_mod (o : Nat) : o / pagesPerEu * pagesPerEu + o % pagesPerEu = o := by
  rw [Nat.mul_comm]
  exact Nat.div_add_mod o pagesPerEu

end Arithmetic

/-- Pages of erase units that have the same address are the same page. -/
theorem IsEu.add_inj {eu eu' i i' : Nat} (h : IsEu eu) (h' : IsEu eu') (hi : i < pagesPerEu)
    (hi' : i' < pagesPerEu) (he : eu + i = eu' + i') : eu = eu' ∧ i = i' := by
  have heu : eu = eu' := by rw [← h.calcEuStart_add hi, he, h'.calcEuStart_add hi']
  exact ⟨heu, by omega⟩

namespace Contents
variable {c : Contents} {slot slot' e o : Nat} {stored : Stored}

/-- An erase unit with a page that is written is not blank. -/
theorem not_euBlank_set : ¬(c.set slot o stored).EuBlank slot (o / pagesPerEu) := by
  intro h
  have hno := h (o % pagesPerEu) (Nat.mod_lt _ pagesPerEu_pos)
  rw [div_mul_add_mod, set_self] at hno
  exact Option.some_ne_none _ hno

theorem euBlank_set_of_ne (h : ¬(slot' = slot ∧ e = o / pagesPerEu)) :
    (c.set slot o stored).EuBlank slot' e ↔ c.EuBlank slot' e := by
  have hsame : ∀ i < pagesPerEu,
      c.set slot o stored slot' (e * pagesPerEu + i) = c slot' (e * pagesPerEu + i) := by
    intro i hi
    by_cases hs : slot' = slot
    · subst hs
      exact set_of_ne fun ho => h ⟨rfl, (div_of_eq hi ho).symm⟩
    · exact set_of_ne_slot hs _
  constructor
  · intro hb i hi
    rw [← hsame i hi]
    exact hb i hi
  · intro hb i hi
    rw [hsame i hi]
    exact hb i hi

end Contents

section Write
variable {f t : Flash} {m : SegMap} {c : Contents} {slot o a home eu : Nat} {page : Page}
  (h : Layout f m c) (hslot : m.IsDataSlot slot) (ho : o < pagesPerSlot)
  (hnone : c slot o = none)
include h hslot ho hnone

/-- A page that is not written yet is blank at its target. -/
theorem Layout.blank_at_target (ht : IsTarget f m slot o a) : PageHolds f a none := by
  cases ht with
  | home hh =>
    have := h.holds_at hslot ho hh
    rwa [hnone] at this
  | fresh bad mem free start first =>
    have := h.free mem free 0 pagesPerEu_pos
    rwa [Nat.add_zero] at this

/-- A program at the home of the erase unit writes the page. -/
theorem Layout.program_home (hh : IsHome f m slot (o / pagesPerEu) home)
    (hp : f.Programmed page (home + o % pagesPerEu) t) (hw : page.Written) :
    Layout t m (c.set slot o page.stored) := by
  have heu := div_lt_eusPerSlot ho
  have hmod := Nat.mod_lt o pagesPerEu_pos
  have hhome := h.isEu_home hslot heu hh
  -- the first page of a reserve erase unit is not the one programmed, so it stands as before
  have hfirst : ∀ {eu}, m.IsReserveEu eu → eu ≠ home + o % pagesPerEu := by
    intro eu hmem he
    obtain ⟨rfl, hi⟩ := (h.reserves.isEu_reserve hmem).add_inj hhome pagesPerEu_pos hmod
      (by rwa [Nat.add_zero])
    have hblank := h.holds_at hslot ho hh
    rw [hnone, ← hi, Nat.add_zero] at hblank
    refine hh.not_free hslot heu hmem ⟨hh.good, ?_⟩
    rw [hblank.1]
    rfl
  have hhomes : ∀ {s e b}, IsHome t m s e b ↔ IsHome f m s e b := by
    intro s e b
    constructor
    · rintro (good | ⟨bad, mem, stands⟩)
      · exact .self (by rwa [hp.good] at good)
      · rw [hp.standsFor_of_ne (hfirst mem)] at stands
        exact .reserve (by rwa [hp.good] at bad) mem stands
    · rintro (good | ⟨bad, mem, stands⟩)
      · exact .self (by rwa [hp.good])
      · exact .reserve (by rwa [hp.good]) mem (by rwa [hp.standsFor_of_ne (hfirst mem)])
  constructor
  · exact h.reserves
  · intro s e b hs he hb i hi
    have hb := hhomes.mp hb
    by_cases hsame : s = slot ∧ e * pagesPerEu + i = o
    · obtain ⟨rfl, rfl⟩ := hsame
      rw [div_of_eq hi rfl] at hh
      obtain rfl := h.home_unique hs he hb hh
      rw [mod_of_eq hi rfl] at hp
      rw [Contents.set_self]
      exact ⟨by rw [hp.page_self], by rw [hp.page_self]; exact hw⟩
    · have hne : b + i ≠ home + o % pagesPerEu := by
        intro heq
        obtain ⟨rfl, rfl⟩ := (h.isEu_home hs he hb).add_inj hhome hi hmod heq
        obtain ⟨rfl, rfl⟩ := hb.inj hh hs hslot he heu
        exact hsame ⟨rfl, div_mul_add_mod o⟩
      have hcs : c.set slot o page.stored s (e * pagesPerEu + i) = c s (e * pagesPerEu + i) := by
        by_cases hss : s = slot
        · subst hss
          exact Contents.set_of_ne fun heq => hsame ⟨rfl, heq⟩
        · exact Contents.set_of_ne_slot hss _
      rw [hcs]
      exact hp.holds_of_ne hne (h.holds hs he hb i hi)
  · intro s e hs he hbad
    rw [hp.good] at hbad
    simp only [hhomes]
    by_cases hsame : s = slot ∧ e = o / pagesPerEu
    · obtain ⟨rfl, rfl⟩ := hsame
      exact iff_of_true ⟨home, hh⟩ Contents.not_euBlank_set
    · rw [Contents.euBlank_set_of_ne hsame]
      exact h.replaced hs he hbad
  · intro eu hmem hfree i hi
    rw [hp.isFree_of_ne (hfirst hmem)] at hfree
    refine hp.holds_of_ne (fun heq => ?_) (h.free hmem hfree i hi)
    obtain ⟨rfl, -⟩ := (h.reserves.isEu_reserve hmem).add_inj hhome hi hmod heq
    exact hh.not_free hslot heu hmem hfree
  · intro p eu eu' hlt hmem hmem' hst hst'
    rw [hp.standsFor_of_ne (hfirst hmem)] at hst
    rw [hp.standsFor_of_ne (hfirst hmem')] at hst'
    exact h.unique hlt hmem hmem' hst hst'
  · intro seg e b hseg he hbad hb
    rw [hp.good] at hbad
    exact h.unreplaced hseg he hbad (hhomes.mp hb)

/-- A program of the first page of a bad erase unit in a free reserve erase unit. -/
theorem Layout.program_fresh (bad : f.good (euAt slot (o / pagesPerEu)) = false)
    (mem : m.IsReserveEu eu) (free : f.IsFree eu) (start : o % pagesPerEu = 0)
    (first : ∀ home, ¬IsHome f m slot (o / pagesPerEu) home) (hp : f.Programmed page eu t)
    (hw : page.Written)
    (hplace : page.flags.slotEuOffset = calculateSlotIdAndEuOffset (euAt slot (o / pagesPerEu))) :
    Layout t m (c.set slot o page.stored) := by
  have heu := div_lt_eusPerSlot ho
  have hiseu := h.reserves.isEu_reserve mem
  have hstands : ∀ p, t.standsFor p eu = true ↔
      p = calculateSlotIdAndEuOffset (euAt slot (o / pagesPerEu)) := by
    intro p
    rw [Flash.standsFor_iff, hp.good, hp.page_self, hplace]
    exact ⟨fun hst => hst.2.1.symm, fun hst => ⟨free.1, hst.symm, hw.copyBack⟩⟩
  have hhomes : ∀ {s e b}, m.IsDataSlot s → e < eusPerSlot →
      (IsHome t m s e b ↔ IsHome f m s e b ∨ (s = slot ∧ e = o / pagesPerEu) ∧ b = eu) := by
    intro s e b hs he
    constructor
    · rintro (good | ⟨hbad, hmem, hst⟩)
      · exact .inl (.self (by rwa [hp.good] at good))
      · by_cases hb : b = eu
        · subst hb
          exact .inr ⟨place_inj hs.lt hslot.lt he heu ((hstands _).mp hst), rfl⟩
        · rw [hp.standsFor_of_ne hb] at hst
          exact .inl (.reserve (by rwa [hp.good] at hbad) hmem hst)
    · rintro (hb | ⟨⟨rfl, rfl⟩, rfl⟩)
      · have hne : m.IsReserveEu b → b ≠ eu := by
          rintro hmem rfl
          exact hb.not_free hs he hmem free
        rcases hb with good | ⟨hbad, hmem, hst⟩
        · exact .self (by rwa [hp.good])
        · exact .reserve (by rwa [hp.good]) hmem (by rwa [hp.standsFor_of_ne (hne hmem)])
      · exact .reserve (by rwa [hp.good]) mem ((hstands _).mpr rfl)
  constructor
  · exact h.reserves
  · intro s e b hs he hb i hi
    rcases (hhomes hs he).mp hb with hb | ⟨⟨rfl, rfl⟩, rfl⟩
    · -- a home from before is not the erase unit that was free
      have hne : b + i ≠ eu := by
        intro heq
        obtain ⟨rfl, -⟩ := (h.isEu_home hs he hb).add_inj hiseu hi pagesPerEu_pos
          (by rwa [Nat.add_zero])
        exact hb.not_free hs he mem free
      have hcs : c.set slot o page.stored s (e * pagesPerEu + i) = c s (e * pagesPerEu + i) := by
        by_cases hss : s = slot
        · subst hss
          refine Contents.set_of_ne fun heq => ?_
          rw [div_of_eq hi heq] at first
          exact first _ hb
        · exact Contents.set_of_ne_slot hss _
      rw [hcs]
      exact hp.holds_of_ne hne (h.holds hs he hb i hi)
    · by_cases hi0 : i = 0
      · subst hi0
        have ho' : o / pagesPerEu * pagesPerEu + 0 = o := by
          rw [← start]
          exact div_mul_add_mod o
        rw [ho', Contents.set_self, Nat.add_zero]
        exact ⟨by rw [hp.page_self], by rw [hp.page_self]; exact hw⟩
      · -- the other pages of the erase unit are still blank
        have hblank : c.EuBlank s (o / pagesPerEu) := by
          by_contra hnb
          obtain ⟨home, hh⟩ := (h.replaced hs he bad).mpr hnb
          exact first home hh
        have hne : o / pagesPerEu * pagesPerEu + i ≠ o := by
          intro heq
          exact hi0 ((mod_of_eq hi heq).symm.trans start)
        rw [Contents.set_of_ne hne, hblank i hi]
        exact hp.holds_of_ne (by omega) (h.free mem free i hi)
  · intro s e hs he hbad
    rw [hp.good] at hbad
    simp only [hhomes hs he]
    by_cases hsame : s = slot ∧ e = o / pagesPerEu
    · obtain ⟨rfl, rfl⟩ := hsame
      exact iff_of_true ⟨eu, .inr ⟨⟨rfl, rfl⟩, rfl⟩⟩ Contents.not_euBlank_set
    · rw [Contents.euBlank_set_of_ne hsame, ← h.replaced hs he hbad]
      simp only [hsame, false_and, or_false]
  · intro eu' hmem hfree i hi
    have hne : eu' ≠ eu := by
      rintro rfl
      have hflag := hfree.2
      rw [hp.page_self, hplace] at hflag
      exact place_ne_empty (place_lt hslot.lt heu) hflag
    rw [hp.isFree_of_ne hne] at hfree
    refine hp.holds_of_ne (fun heq => ?_) (h.free hmem hfree i hi)
    exact hne ((h.reserves.isEu_reserve hmem).add_inj hiseu hi pagesPerEu_pos
      (by rwa [Nat.add_zero])).1
  · intro p e e' hlt hmem hmem' hst hst'
    -- only the erase unit just programmed stands for its place
    have hother : ∀ {x}, m.IsReserveEu x → x ≠ eu → t.standsFor p x = true →
        t.standsFor p eu = true → False := by
      intro x hx hne hxst heust
      rw [hp.standsFor_of_ne hne, (hstands p).mp heust] at hxst
      exact first x (.reserve bad hx hxst)
    by_cases he : e = eu
    · subst he
      by_contra hne
      exact hother hmem' (Ne.symm hne) hst' hst
    · by_cases he' : e' = eu
      · subst he'
        exact (hother hmem he hst hst').elim
      · rw [hp.standsFor_of_ne he] at hst
        rw [hp.standsFor_of_ne he'] at hst'
        exact h.unique hlt hmem hmem' hst hst'
  · intro seg e b hseg he hbad hb
    rcases hb with good | ⟨hbad', hmem, hst⟩
    · rw [hbad] at good
      exact absurd good Bool.false_ne_true
    · rw [hp.good] at hbad'
      by_cases hb : b = eu
      · subst hb
        have hsame := place_inj (h.reserves seg hseg) hslot.lt he heu ((hstands _).mp hst)
        exact hslot.data seg hseg hsame.1
      · rw [hp.standsFor_of_ne hb] at hst
        exact h.unreplaced hseg he hbad' (.reserve hbad' hmem hst)

/-- A program at the target of a page writes it.  In a reserve erase unit the first page has
to name the place of the erase unit it replaces. -/
theorem Layout.program (ht : IsTarget f m slot o a) (hp : f.Programmed page a t)
    (hw : page.Written)
    (hplace : f.good (euAt slot (o / pagesPerEu)) = false → o % pagesPerEu = 0 →
      page.flags.slotEuOffset = calculateSlotIdAndEuOffset (euAt slot (o / pagesPerEu))) :
    Layout t m (c.set slot o page.stored) := by
  cases ht with
  | home hh => exact h.program_home hslot ho hnone hh hp hw
  | fresh bad mem free start first =>
    exact h.program_fresh hslot ho hnone bad mem free start first hp hw (hplace bad start)

omit h hslot ho hnone in
/-- A program of a blank page leaves every home where it is. -/
theorem IsHome.of_programmed {slot' e : Nat} (hh : IsHome f m slot' e home)
    (hs : m.IsDataSlot slot') (he : e < eusPerSlot) (hblank : f.page a = initBuf)
    (hp : f.Programmed page a t) : IsHome t m slot' e home := by
  cases hh with
  | self good => exact .self (by rwa [hp.good])
  | reserve bad mem stands =>
    refine .reserve (by rwa [hp.good]) mem ?_
    rwa [hp.standsFor_of_ne]
    rintro rfl
    have hflag := (Flash.standsFor_iff.mp stands).2.1
    rw [hblank] at hflag
    exact place_ne_empty (place_lt hs.lt he) hflag.symm

omit h hslot ho hnone in
/-- After the program the target is in the home of the erase unit. -/
theorem IsTarget.home_of_programmed (ht : IsTarget f m slot o a) (hp : f.Programmed page a t)
    (hw : page.Written)
    (hplace : f.good (euAt slot (o / pagesPerEu)) = false → o % pagesPerEu = 0 →
      page.flags.slotEuOffset = calculateSlotIdAndEuOffset (euAt slot (o / pagesPerEu))) :
    ∃ home, a = home + o % pagesPerEu ∧ IsHome t m slot (o / pagesPerEu) home := by
  cases ht with
  | @home home hh =>
    refine ⟨home, rfl, ?_⟩
    cases hh with
    | self good => exact .self (by rwa [hp.good])
    | reserve bad mem stands =>
      refine .reserve (by rwa [hp.good]) mem ?_
      by_cases hi : o % pagesPerEu = 0
      · rw [hi, Nat.add_zero] at hp
        rw [Flash.standsFor_iff, hp.good, hp.page_self, hplace bad hi]
        exact ⟨(Flash.standsFor_iff.mp stands).1, rfl, hw.copyBack⟩
      · rwa [hp.standsFor_of_ne (by omega)]
  | fresh bad mem free start first =>
    refine ⟨a, by rw [start, Nat.add_zero], .reserve (by rwa [hp.good]) mem ?_⟩
    rw [Flash.standsFor_iff, hp.good, hp.page_self, hplace bad start]
    exact ⟨free.1, rfl, hw.copyBack⟩

end Write

/-! ## Erasing -/

section Erased
variable {f t : Flash} {eu b i : Nat} (h : f.Erased eu t)
include h

theorem Flash.Erased.good (b : Nat) : t.good b = f.good b :=
  Flash.good_congr h.badEu _

theorem Flash.Erased.holds_self (heu : IsEu eu) (hi : i < pagesPerEu) :
    PageHolds t (eu + i) none := by
  constructor
  · rw [h.page_eq, heu.calcEuStart_add hi, if_pos rfl]
  · rw [h.writes, heu.calcEuStart_add hi, if_pos rfl]

theorem Flash.Erased.page_of_ne (hb : IsEu b) (hi : i < pagesPerEu) (hne : b ≠ eu) :
    t.page (b + i) = f.page (b + i) := by
  rw [h.page_eq, hb.calcEuStart_add hi, if_neg hne]

theorem Flash.Erased.holds_of_ne {s : Option Stored} (hb : IsEu b) (hi : i < pagesPerEu)
    (hne : b ≠ eu) (hs : PageHolds f (b + i) s) : PageHolds t (b + i) s := by
  have hpage := h.page_of_ne hb hi hne
  cases s with
  | none =>
    exact ⟨by rw [hpage]; exact hs.1,
      by rw [h.writes, hb.calcEuStart_add hi, if_neg hne]; exact hs.2⟩
  | some s => exact ⟨by rw [hpage]; exact hs.1, by rw [hpage]; exact hs.2⟩

theorem Flash.Erased.first_of_ne (hb : IsEu b) (hne : b ≠ eu) : t.page b = f.page b := by
  have hpage := h.page_of_ne hb pagesPerEu_pos hne
  rwa [Nat.add_zero] at hpage

theorem Flash.Erased.standsFor_iff {p : Nat} (hp : p < 2 ^ 23) (hb : IsEu b) :
    t.standsFor p b = true ↔ f.standsFor p b = true ∧ b ≠ eu := by
  by_cases hne : b = eu
  · subst hne
    have hblank := (h.holds_self hb pagesPerEu_pos).1
    rw [Nat.add_zero] at hblank
    refine iff_of_false (fun hst => ?_) fun hst => hst.2 rfl
    have hflag := (Flash.standsFor_iff.mp hst).2.1
    rw [hblank] at hflag
    exact place_ne_empty hp hflag.symm
  · rw [Flash.standsFor, h.good, h.first_of_ne hb hne, ← Flash.standsFor]
    exact (and_iff_left hne).symm

end Erased

/-- An erase takes the homes away that are reserve erase units. -/
theorem Flash.Erased.isHome_iff {f t : Flash} {m : SegMap} {slot eu home b : Nat}
    (ht : f.Erased home t) (hres : m.ReservesInChip) (hslot : m.IsDataSlot slot)
    (heu : eu < eusPerSlot) : IsHome t m slot eu b ↔
      IsHome f m slot eu b ∧ (f.good (euAt slot eu) = true ∨ b ≠ home) := by
  constructor
  · rintro (good | ⟨bad, mem, stands⟩)
    · rw [ht.good] at good
      exact ⟨.self good, .inl good⟩
    · rw [ht.good] at bad
      rw [ht.standsFor_iff (place_lt hslot.lt heu) (hres.isEu_reserve mem)] at stands
      exact ⟨.reserve bad mem stands.1, .inr stands.2⟩
  · rintro ⟨good | ⟨bad, mem, stands⟩, hne⟩
    · exact .self (by rwa [ht.good])
    · refine .reserve (by rwa [ht.good]) mem ?_
      rw [bad] at hne
      exact (ht.standsFor_iff (place_lt hslot.lt heu) (hres.isEu_reserve mem)).mpr
        ⟨stands, hne.resolve_left Bool.false_ne_true⟩

/-- An erase of the home of an erase unit erases it. -/
theorem Layout.erase {f t : Flash} {m : SegMap} {c : Contents} {slot eu home : Nat}
    (h : Layout f m c) (hslot : m.IsDataSlot slot) (heu : eu < eusPerSlot)
    (hh : IsHome f m slot eu home) (ht : f.Erased home t) :
    Layout t m (c.clearEus slot [eu]) := by
  have hhome := h.isEu_home hslot heu hh
  have hhomes : ∀ {s e b}, m.IsDataSlot s → e < eusPerSlot → (IsHome t m s e b ↔
      IsHome f m s e b ∧ (f.good (euAt s e) = true ∨ b ≠ home)) := fun hs he =>
    ht.isHome_iff h.reserves hs he
  have hcs : ∀ {s e i}, i < pagesPerEu → ¬(s = slot ∧ e = eu) →
      c.clearEus slot [eu] s (e * pagesPerEu + i) = c s (e * pagesPerEu + i) := by
    intro s e i hi hne
    by_cases hs : s = slot
    · subst hs
      refine Contents.clearEus_of_not_mem fun hmem => hne ⟨rfl, ?_⟩
      rw [div_of_eq hi rfl] at hmem
      exact List.mem_singleton.mp hmem
    · exact Contents.clearEus_of_ne hs _
  have hclear : ∀ {i}, i < pagesPerEu →
      c.clearEus slot [eu] slot (eu * pagesPerEu + i) = none := fun hi =>
    Contents.clearEus_of_mem (List.mem_singleton.mpr (div_of_eq hi rfl))
  constructor
  · exact h.reserves
  · intro s e b hs he hb i hi
    have hb' := ((hhomes hs he).mp hb).1
    by_cases hbh : b = home
    · subst hbh
      obtain ⟨rfl, rfl⟩ := hb'.inj hh hs hslot he heu
      rw [hclear hi]
      exact ht.holds_self hhome hi
    · rw [hcs hi fun hsame => ?_]
      · exact ht.holds_of_ne (h.isEu_home hs he hb') hi hbh (h.holds hs he hb' i hi)
      · obtain ⟨rfl, rfl⟩ := hsame
        exact hbh (h.home_unique hs he hb' hh)
  · intro s e hs he hbad
    rw [ht.good] at hbad
    by_cases hsame : s = slot ∧ e = eu
    · obtain ⟨rfl, rfl⟩ := hsame
      refine iff_of_false ?_ fun hnb => hnb fun i hi => hclear hi
      rintro ⟨b, hb⟩
      obtain ⟨hb, hgood | hne⟩ := (hhomes hs he).mp hb
      · rw [hgood] at hbad
        exact absurd hbad Bool.true_eq_false.mp
      · exact hne (h.home_unique hs he hb hh)
    · have hblank : (c.clearEus slot [eu]).EuBlank s e ↔ c.EuBlank s e :=
        forall₂_congr fun i hi => by rw [hcs hi hsame]
      rw [hblank, ← h.replaced hs he hbad]
      refine exists_congr fun b => (hhomes hs he).trans (and_iff_left_of_imp fun hb => .inr ?_)
      rintro rfl
      exact hsame (hb.inj hh hs hslot he heu)
  · intro b hmem hfree i hi
    by_cases hbh : b = home
    · subst hbh
      exact ht.holds_self hhome hi
    · have hbe := h.reserves.isEu_reserve hmem
      rw [Flash.IsFree, ht.good, ht.first_of_ne hbe hbh] at hfree
      exact ht.holds_of_ne hbe hi hbh (h.free hmem hfree i hi)
  · intro p b b' hlt hmem hmem' hst hst'
    rw [ht.standsFor_iff hlt (h.reserves.isEu_reserve hmem)] at hst
    rw [ht.standsFor_iff hlt (h.reserves.isEu_reserve hmem')] at hst'
    exact h.unique hlt hmem hmem' hst.1 hst'.1
  · intro seg e b hseg he hbad hb
    rcases hb with good | ⟨hbad', hmem, hst⟩
    · rw [hbad] at good
      exact absurd good Bool.false_ne_true
    · rw [ht.good] at hbad'
      rw [ht.standsFor_iff (place_lt (h.reserves seg hseg) he) (h.reserves.isEu_reserve hmem)] at hst
      exact h.unreplaced hseg he hbad' (.reserve hbad' hmem hst.1)

/-! ## Marking -/

/-- The two chips agree on which reserve erase units stand for which. -/
structure SameMarks (f t : Flash) : Prop where
  badEu : t.badEu = f.badEu
  place : ∀ a, (t.page a).flags.slotEuOffset = (f.page a).flags.slotEuOffset
  copyBack : ∀ a, (t.page a).flags.copyBack = (f.page a).flags.copyBack

section Marks
variable {f t : Flash} (h : SameMarks f t) {m : SegMap} {slot eu home o a p : Nat}
include h

theorem SameMarks.symm : SameMarks t f :=
  ⟨h.badEu.symm, fun a => (h.place a).symm, fun a => (h.copyBack a).symm⟩

theorem SameMarks.good (a : Nat) : t.good a = f.good a :=
  Flash.good_congr h.badEu _

theorem SameMarks.standsFor : t.standsFor p a = f.standsFor p a := by
  rw [Flash.standsFor, h.good, h.place, h.copyBack, Flash.standsFor]

theorem SameMarks.isFree_iff : t.IsFree a ↔ f.IsFree a := by
  rw [Flash.IsFree, h.good, h.place, Flash.IsFree]

theorem SameMarks.isHome (hh : IsHome f m slot eu home) : IsHome t m slot eu home := by
  cases hh with
  | self good => exact .self (by rwa [h.good])
  | reserve bad mem stands => exact .reserve (by rwa [h.good]) mem (by rwa [h.standsFor])

theorem SameMarks.isHome_iff : IsHome t m slot eu home ↔ IsHome f m slot eu home :=
  ⟨h.symm.isHome, h.isHome⟩

theorem SameMarks.isTarget (ht : IsTarget f m slot o a) : IsTarget t m slot o a := by
  cases ht with
  | home hh => exact .home (h.isHome hh)
  | fresh bad mem free start first =>
    refine .fresh (by rwa [h.good]) mem (h.isFree_iff.mpr free) start fun home hh => ?_
    exact first home (h.isHome_iff.mp hh)

end Marks

/-- The layout does not depend on the power left. -/
theorem Layout.power {f : Flash} {m : SegMap} {c : Contents} (h : Layout f m c)
    (power : Option Nat) : Layout { f with power := power } m c := by
  have hm : SameMarks f { f with power := power } := ⟨rfl, fun _ => rfl, fun _ => rfl⟩
  have hpage : ∀ {a st}, PageHolds f a st → PageHolds { f with power := power } a st := by
    intro a st hst
    cases st with
    | none => exact ⟨hst.1, hst.2⟩
    | some st => exact ⟨hst.1, hst.2⟩
  constructor
  · exact h.reserves
  · intro slot eu home hs he hh i hi
    exact hpage (h.holds hs he (hm.isHome_iff.mp hh) i hi)
  · intro slot eu hs he hbad
    simp only [hm.isHome_iff]
    exact h.replaced hs he hbad
  · intro eu hmem hfree i hi
    exact hpage (h.free hmem (hm.isFree_iff.mp hfree) i hi)
  · intro p eu eu' hp hmem hmem' hst hst'
    exact h.unique hp hmem hmem' hst hst'
  · intro seg eu home hseg he hbad hh
    exact h.unreplaced hseg he hbad (hm.isHome_iff.mp hh)

/-- The obsolete byte is not part of the mark of an erase unit. -/
theorem Flash.programObsolete_marks (f : Flash) (a : Nat) : SameMarks f (f.programObsolete a) := by
  have hflags : ∀ b, ((f.programObsolete a).page b).flags.slotEuOffset =
      (f.page b).flags.slotEuOffset ∧
      ((f.programObsolete a).page b).flags.copyBack = (f.page b).flags.copyBack := by
    intro b
    unfold Flash.programObsolete
    by_cases hb : b = a
    · subst hb
      simp only [Function.update_self, and_self]
    · simp only [Function.update_of_ne hb, and_self]
  exact ⟨rfl, fun b => (hflags b).1, fun b => (hflags b).2⟩

/-- The obsolete byte of a page that is written marks it. -/
theorem Layout.mark {f : Flash} {m : SegMap} {c : Contents} {slot o home : Nat} {stored : Stored}
    (h : Layout f m c) (hslot : m.IsDataSlot slot) (ho : o < pagesPerSlot)
    (hh : IsHome f m slot (o / pagesPerEu) home) (hc : c slot o = some stored) :
    Layout (f.programObsolete (home + o % pagesPerEu)) m
      (c.set slot o { stored with obsolete := true }) := by
  have heu := div_lt_eusPerSlot ho
  have hmod := Nat.mod_lt o pagesPerEu_pos
  have hhome := h.isEu_home hslot heu hh
  have hat := h.holds_at hslot ho hh
  rw [hc] at hat
  generalize hx : home + o % pagesPerEu = x at hat
  have hm := f.programObsolete_marks x
  have hpage : ∀ {b}, b ≠ x → (f.programObsolete x).page b = f.page b := fun hne =>
    Function.update_of_ne hne _ _
  have hself : (f.programObsolete x).page x =
      { f.page x with flags := { (f.page x).flags with obsolete := true } } :=
    Function.update_self _ _ _
  have hholds : ∀ {b st}, b ≠ x → PageHolds f b st → PageHolds (f.programObsolete x) b st := by
    intro b st hne hst
    cases st with
    | none => exact ⟨by rw [hpage hne]; exact hst.1, hst.2⟩
    | some st => exact ⟨by rw [hpage hne]; exact hst.1, by rw [hpage hne]; exact hst.2⟩
  constructor
  · exact h.reserves
  · intro s e b hs he hb i hi
    have hb := hm.isHome_iff.mp hb
    by_cases hsame : s = slot ∧ e * pagesPerEu + i = o
    · obtain ⟨rfl, rfl⟩ := hsame
      rw [div_of_eq hi rfl] at hh
      obtain rfl := h.home_unique hs he hb hh
      rw [mod_of_eq hi rfl] at hx
      subst hx
      rw [Contents.set_self]
      refine ⟨?_, by rw [hself]; exact ⟨hat.2.copyBack, hat.2.used⟩⟩
      rw [hself, Page.stored, ← hat.1]
      rfl
    · have hne : b + i ≠ x := by
        rw [← hx]
        intro heq
        obtain ⟨rfl, rfl⟩ := (h.isEu_home hs he hb).add_inj hhome hi hmod heq
        obtain ⟨rfl, rfl⟩ := hb.inj hh hs hslot he heu
        exact hsame ⟨rfl, div_mul_add_mod o⟩
      have hcs : c.set slot o { stored with obsolete := true } s (e * pagesPerEu + i)
          = c s (e * pagesPerEu + i) := by
        by_cases hss : s = slot
        · subst hss
          exact Contents.set_of_ne fun heq => hsame ⟨rfl, heq⟩
        · exact Contents.set_of_ne_slot hss _
      rw [hcs]
      exact hholds hne (h.holds hs he hb i hi)
  · intro s e hs he hbad
    simp only [hm.isHome_iff]
    by_cases hsame : s = slot ∧ e = o / pagesPerEu
    · obtain ⟨rfl, rfl⟩ := hsame
      exact iff_of_true ⟨home, hh⟩ Contents.not_euBlank_set
    · rw [Contents.euBlank_set_of_ne hsame]
      exact h.replaced hs he hbad
  · intro b hmem hfree i hi
    have hfree := hm.isFree_iff.mp hfree
    refine hholds (fun heq => ?_) (h.free hmem hfree i hi)
    rw [← hx] at heq
    obtain ⟨rfl, -⟩ := (h.reserves.isEu_reserve hmem).add_inj hhome hi hmod heq
    exact hh.not_free hslot heu hmem hfree
  · intro p b b' hlt hmem hmem' hst hst'
    rw [hm.standsFor] at hst hst'
    exact h.unique hlt hmem hmem' hst hst'
  · intro seg e b hseg he hbad hb
    exact h.unreplaced hseg he hbad (hm.isHome_iff.mp hb)

end NandFs
