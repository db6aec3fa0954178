import NandFs.ReserveMoves

/-! # The layout after a reserve slot was moved

When the slot of a reserve segment is moved to the free slot, each reserve erase unit in use
gets a copy that stands for the same erase unit, and the old ones are erased with their slot.
So what the data slots hold is found where the copies are (`Layout.moveReserve`).
-/
namespace NandFs

open Program

variable [Config]

/-! ## The old slot is erased -/

/-- From `f` to `t` the valid erase units `eus` of `slot` were erased. -/
structure SlotErased (f t : Flash) (slot : Nat) (eus : List Nat) : Prop where
  badEu : t.badEu = f.badEu
  blank : ∀ e ∈ eus, f.good (euAt slot e) = true → ∀ i < pagesPerEu,
    PageHolds t (euAt slot e + i) none
  rest : ∀ a, getSlot a ≠ slot → t.page a = f.page a ∧ t.mainAreaWrites a = f.mainAreaWrites a

section Erase
variable {E : Halt → World → Prop} (hE : ∀ t, E .powerLoss t) {slot : Nat}

theorem Flash.Erased.keeps_blank {f t : Flash} {eu a : Nat} (h : f.Erased eu t)
    (ha : PageHolds f a none) : PageHolds t a none := by
  constructor
  · rw [h.page_eq, ha.1, ite_self]
  · rw [h.writes, ha.2, ite_self]

include hE

/-- The valid ones of the erase units `eus` of a reserve slot are erased. -/
theorem wp_truncateReserveEus {Q : Nat → World → Prop} (hslot : slot < nSlots) (eus : List Nat)
    (heus : ∀ e ∈ eus, e < eusPerSlot) {s : World}
    (hq : ∀ t, OnChip s t → SlotErased s.flash t.flash slot eus →
      (∀ a, PageHolds s.flash a none → PageHolds t.flash a none) → Q 0 t) :
    wp (truncateEus true (eus.map fun e => euAt slot e + maxEuOffset)) Q E s := by
  induction eus generalizing s with
  | nil =>
    exact hq s (OnChip.refl s) ⟨rfl, fun e he => absurd he List.not_mem_nil,
      fun _ _ => ⟨rfl, rfl⟩⟩ fun _ ha => ha
  | cons e eus ih =>
    have he := heus e List.mem_cons_self
    have hlast : maxEuOffset < pagesPerEu := Nat.sub_lt pagesPerEu_pos Nat.one_pos
    have hiseu := isEu_euAt hslot he
    have ih := @ih fun x hx => heus x (List.mem_cons_of_mem _ hx)
    rw [List.map_cons]
    unfold truncateEus
    rw [wp_bind, wp_ok_iff (nandCheckEuStatus_run (hiseu.add_lt hlast)), hiseu.good_add hlast]
    cases hgood : s.flash.good (euAt slot e) with
    | true =>
      rw [if_pos rfl]
      refine wp_seqVerify (wp_nandErase_add hE hiseu hgood hlast fun t ht => ?_)
      rw [if_neg (not_not_intro rfl)]
      refine ih fun u hon hu hkeep => hq u ?_ ⟨hu.badEu.trans ht.badEu, fun x hx hx' i hi => ?_,
        fun a ha => ?_⟩ fun a ha => hkeep a (ht.keeps_blank ha)
      · exact (OnChip.erase ht).trans hon
      · rcases List.mem_cons.mp hx with rfl | hx
        · exact hkeep _ (ht.holds_self hiseu hi)
        · exact hu.blank x hx (by rw [ht.good]; exact hx') i hi
      · obtain ⟨hpage, hwrites⟩ := hu.rest a ha
        rw [hpage, hwrites]
        exact ht.other_slot he ha
    | false =>
      rw [if_neg Bool.false_ne_true, if_pos rfl]
      refine ih fun u hon hu hkeep => hq u hon ⟨hu.badEu, fun x hx hx' i hi => ?_, hu.rest⟩ hkeep
      rcases List.mem_cons.mp hx with rfl | hx
      · rw [hgood] at hx'
        exact absurd hx' Bool.false_ne_true
      · exact hu.blank x hx hx' i hi

/-- `truncateSlot` of a reserve slot. -/
theorem wp_truncateReserveSlot {Q : Nat → World → Prop} (hslot : slot < nSlots) {s : World}
    (hq : ∀ t, OnChip s t → SlotErased s.flash t.flash slot (List.range eusPerSlot) → Q 0 t) :
    wp (truncateSlot slot true) Q E s := by
  have hlist : (slotEus slot).reverse.map (· + maxEuOffset)
      = (List.range eusPerSlot).reverse.map fun e => euAt slot e + maxEuOffset := by
    rw [slotEus, ← List.map_reverse, List.map_map]
    rfl
  unfold truncateSlot
  rw [if_pos hslot, hlist]
  refine wp_truncateReserveEus hE hslot _
    (fun e he => List.mem_range.mp (List.mem_reverse.mp he)) fun t hon ht _ => hq t hon ?_
  exact ⟨ht.badEu, fun e he => ht.blank e (List.mem_reverse.mpr he), ht.rest⟩

end Erase

/-! ## The reserve erase units after the move -/

/-- From `f` to `t` the reserve slot `slot` was copied to `newSlot` and erased. -/
structure ReserveMoved (f t : Flash) (slot newSlot : Nat) (src : Nat → Option Nat) : Prop where
  badEu : t.badEu = f.badEu
  others : ∀ a, getSlot a ≠ newSlot → getSlot a ≠ slot → t.page a = f.page a
  copied : ∀ {j k}, j < eusPerSlot → src j = some k → ∀ i < pagesPerEu,
    t.page (euAt newSlot j + i) = f.page (euAt slot k + i)
  kept : ∀ {j}, j < eusPerSlot → src j = none → ∀ i < pagesPerEu,
    t.page (euAt newSlot j + i) = f.page (euAt newSlot j + i) ∧
      t.mainAreaWrites (euAt newSlot j + i) = f.mainAreaWrites (euAt newSlot j + i)
  blank : ∀ e < eusPerSlot, f.good (euAt slot e) = true → ∀ i < pagesPerEu,
    PageHolds t (euAt slot e + i) none
  writes : ∀ a, getSlot a ≠ newSlot → getSlot a ≠ slot →
    t.mainAreaWrites a = f.mainAreaWrites a

/-- The copy and then the erase. -/
theorem ReserveCopy.erase {f u t : Flash} {slot newSlot : Nat} {src : Nat → Option Nat}
    (hne : slot ≠ newSlot) (h : ReserveCopy f u slot newSlot src)
    (ht : SlotErased u t slot (List.range eusPerSlot)) : ReserveMoved f t slot newSlot src := by
  have hnew : ∀ {j i}, j < eusPerSlot → i < pagesPerEu → getSlot (euAt newSlot j + i) ≠ slot :=
    fun hj hi he => hne (by rw [← he, getSlot_euAt hj hi])
  refine ⟨ht.badEu.trans h.badEu, fun a h1 h2 => ?_, fun hj hsrc i hi => ?_,
    fun hj hsrc i hi => ?_, fun e he hgood i hi => ?_, fun a h1 h2 => ?_⟩
  · rw [(ht.rest a h2).1, (h.others a h1).1]
  · rw [(ht.rest _ (hnew hj hi)).1, h.copied hj hsrc i hi]
  · rw [(ht.rest _ (hnew hj hi)).1, (ht.rest _ (hnew hj hi)).2]
    exact h.kept hj hsrc i hi
  · refine ht.blank e (List.mem_range.mpr he) ?_ i hi
    exact (Flash.good_congr h.badEu _).trans hgood
  · rw [(ht.rest a h2).2, (h.others a h1).2]

/-- The reserve erase unit `eu` stands, after the move, for what `org` stood for before. -/
inductive MovedFrom (m : SegMap) (slot newSlot : Nat) (src : Nat → Option Nat) : Nat → Nat → Prop
  | same {seg e : Nat} (mem : seg ∈ reserveSegments) (lt : e < eusPerSlot)
      (ne : m.segToSlot seg ≠ slot) :
      MovedFrom m slot newSlot src (euAt (m.segToSlot seg) e) (euAt (m.segToSlot seg) e)
  | copied {e k : Nat} (h : src e = some k) :
      MovedFrom m slot newSlot src (euAt newSlot e) (euAt slot k)

section Moved
variable {f t : Flash} {m m' : SegMap} {c : Contents} {r j eu eu' org p : Nat}
  {src : Nat → Option Nat} (hr : r ∈ reserveSegments) (hnew : m.IsDataSlot m.newSlotId)
  (hinj : ∀ seg ∈ reserveSegments, m.segToSlot seg = m.segToSlot r → seg = r)
  (hslot : m'.segToSlot r = m.newSlotId)
  (hslots : ∀ seg ∈ reserveSegments, seg ≠ r → m'.segToSlot seg = m.segToSlot seg)
  (hmoved : ReserveMoved f t (m.segToSlot r) m.newSlotId src)
  (hmap : CopyMap f (m.segToSlot r) m.newSlotId src eusPerSlot j)

theorem ReserveMoved.good (hmoved : ReserveMoved f t (m.segToSlot r) m.newSlotId src) (a : Nat) :
    t.good a = f.good a :=
  Flash.good_congr hmoved.badEu a

include hnew hmoved hmap in
/-- A reserve erase unit has the pages of the one it was moved from. -/
theorem MovedFrom.page (h : MovedFrom m (m.segToSlot r) m.newSlotId src eu org) {i : Nat}
    (hi : i < pagesPerEu) : t.page (eu + i) = f.page (org + i) := by
  cases h with
  | @same seg e mem lt ne =>
    refine hmoved.others _ ?_ ?_
    · rw [getSlot_euAt lt hi]
      exact hnew.data seg mem
    · rw [getSlot_euAt lt hi]
      exact ne
  | copied h => exact hmoved.copied (hmap.lt_eus h).1 h i hi

include hnew hmoved hmap in
theorem MovedFrom.standsFor (h : MovedFrom m (m.segToSlot r) m.newSlotId src eu org) (p : Nat) :
    t.standsFor p eu = f.standsFor p org := by
  have hpage := h.page hnew hmoved hmap pagesPerEu_pos
  rw [Nat.add_zero, Nat.add_zero] at hpage
  have hgood : t.good eu = f.good org := by
    rw [hmoved.good]
    cases h with
    | same => rfl
    | copied h => rw [hmap.good h, (hmap.used h).1]
  rw [Flash.standsFor, Flash.standsFor, hpage, hgood]

include hr hmap in
theorem MovedFrom.mem_org (h : MovedFrom m (m.segToSlot r) m.newSlotId src eu org) :
    m.IsReserveEu org := by
  cases h with
  | @same seg e mem lt => exact ⟨seg, mem, e, lt, rfl⟩
  | copied h => exact ⟨r, hr, _, (hmap.lt_eus h).2, rfl⟩

include hmap in
theorem MovedFrom.inj (h : MovedFrom m (m.segToSlot r) m.newSlotId src eu org)
    (h' : MovedFrom m (m.segToSlot r) m.newSlotId src eu' org) : eu = eu' := by
  cases h with
  | same mem lt ne =>
    generalize horg : euAt (m.segToSlot _) _ = a at h'
    cases h' with
    | same => rfl
    | copied h => exact absurd (euAt_inj lt (hmap.lt_eus h).2 horg).1 ne
  | copied h =>
    generalize horg : euAt (m.segToSlot r) _ = a at h'
    cases h' with
    | same mem lt ne => exact absurd (euAt_inj (hmap.lt_eus h).2 lt horg).1.symm ne
    | copied h' =>
      obtain ⟨-, rfl⟩ := euAt_inj (hmap.lt_eus h).2 (hmap.lt_eus h').2 horg
      rw [hmap.inj h h']

include hinj hslot hslots in
/-- A reserve erase unit after the move was moved from one, or is one of the free slot to which
none was copied. -/
theorem SegMap.IsReserveEu.cases_moved (src : Nat → Option Nat) (hmem : m'.IsReserveEu eu) :
    (∃ org, MovedFrom m (m.segToSlot r) m.newSlotId src eu org) ∨
      ∃ e < eusPerSlot, eu = euAt m.newSlotId e ∧ src e = none := by
  obtain ⟨seg, hseg, e, he, rfl⟩ := hmem
  by_cases hsr : seg = r
  · subst hsr
    rw [hslot]
    cases hsrc : src e with
    | none => exact .inr ⟨e, he, rfl, hsrc⟩
    | some k => exact .inl ⟨_, .copied hsrc⟩
  · rw [hslots seg hseg hsr]
    exact .inl ⟨_, .same hseg he fun heq => hsr (hinj seg hseg heq)⟩

include hmap in
/-- What stands for an erase unit of a slot that is written was moved. -/
theorem exists_movedFrom (hmem : m.IsReserveEu org)
    (hused : f.EuUsed org) : ∃ eu, MovedFrom m (m.segToSlot r) m.newSlotId src eu org := by
  obtain ⟨seg, hseg, e, he, rfl⟩ := hmem
  by_cases hs : m.segToSlot seg = m.segToSlot r
  · rw [hs] at hused ⊢
    obtain ⟨e', he'⟩ := hmap.all e he he hused
    exact ⟨_, .copied he'⟩
  · exact ⟨_, .same hseg he hs⟩

include hnew hmoved in
/-- Where nothing was copied the free slot is blank. -/
theorem ReserveMoved.blank_new (hlay : Layout f m c) (hblank : ∀ o < pagesPerSlot, c m.newSlotId o = none)
    {e : Nat} (he : e < eusPerSlot) (hsrc : src e = none) (hgood : f.good (euAt m.newSlotId e) = true)
    {i : Nat} (hi : i < pagesPerEu) : PageHolds t (euAt m.newSlotId e + i) none := by
  have hpage := hlay.holds hnew he (.self hgood) i hi
  rw [hblank _ (offset_lt he hi)] at hpage
  obtain ⟨hsame, hwrites⟩ := hmoved.kept he hsrc i hi
  exact ⟨by rw [hsame]; exact hpage.1, by rw [hwrites]; exact hpage.2⟩

omit hr hinj hslot hslots in
/-- Where no more than one erase unit was copied, the second valid one of the new slot is free. -/
theorem ReserveMoved.copyBackFree {slot newSlot : Nat} (h : ReserveMoved f t slot newSlot src)
    (hnew : newSlot < nSlots) (hblank : ∀ e < eusPerSlot, f.good (euAt newSlot e) = true →
      ∀ i < pagesPerEu, PageHolds f (euAt newSlot e + i) none)
    (hmap : CopyMap f slot newSlot src eusPerSlot j)
    (hone : ∀ e < eusPerSlot, ∀ e' < eusPerSlot, f.EuUsed (euAt slot e) → f.EuUsed (euAt slot e') →
      e = e')
    (hvalid : f.validEuAt newSlot 2 ≠ phyAddressEmpty)
    (hslot : m'.segToSlot firstReserveSegment = newSlot) : CopyBackFree t m' := by
  obtain ⟨hmem, hgood⟩ := Flash.validEuAt_spec hvalid
  obtain ⟨hmem', hgood'⟩ := Flash.validEuAt_spec (Flash.validEuAt_one_ne hvalid hnew)
  obtain ⟨e, he, heq⟩ := List.mem_map.mp hmem
  obtain ⟨d, hd, hdeq⟩ := List.mem_map.mp hmem'
  have he := List.mem_range.mp he
  have heq : f.validEuAt newSlot 2 = euAt newSlot e := heq.symm
  have hdeq : f.validEuAt newSlot 1 = euAt newSlot d := hdeq.symm
  have hlt : euAt newSlot d < euAt newSlot e := by
    rw [← heq, ← hdeq]
    exact Flash.validEuAt_one_lt hvalid
  have hde : d < e := by
    by_contra hle
    have := Nat.mul_le_mul_right pagesPerEu (Nat.not_lt.mp hle)
    unfold euAt at hlt
    rw [calcAddress_eq, calcAddress_eq] at hlt
    omega
  rw [heq] at hgood
  rw [hdeq] at hgood'
  have hnone : src e = none := by
    cases hsrc : src e with
    | none => rfl
    | some k =>
      -- the first valid one would have been copied to before
      obtain ⟨k', hk'⟩ := hmap.filled d (hde.trans (hmap.lt hsrc)) hgood'
      obtain rfl := hone k (hmap.lt_eus hsrc).2 k' (hmap.lt_eus hk').2 (hmap.used hsrc)
        (hmap.used hk')
      have := hmap.inj hsrc hk'
      omega
  have hcb : t.copyBackEu m' = euAt newSlot e := by
    rw [Flash.copyBackEu, hslot, Flash.validEuAt_congr h.badEu, heq]
  have hpage : t.page (euAt newSlot e) = initBuf :=
    (h.kept he hnone 0 pagesPerEu_pos).1.trans (hblank e he hgood 0 pagesPerEu_pos).1
  refine ⟨by rw [hcb]; exact (isEu_euAt hnew he).ne_empty, ?_⟩
  rw [hcb]
  refine ⟨(Flash.good_congr h.badEu _).trans hgood, ?_⟩
  rw [hpage]
  rfl

section Stands
variable (hlay : Layout f m c) (hblank : ∀ o < pagesPerSlot, c m.newSlotId o = none)
include hnew hinj hslot hslots hmoved hmap hlay hblank

/-- A reserve erase unit that stands for an erase unit was moved from one that did. -/
theorem exists_source (hp : p < 2 ^ 23) (hmem : m'.IsReserveEu eu)
    (hst : t.standsFor p eu = true) :
    ∃ org, MovedFrom m (m.segToSlot r) m.newSlotId src eu org ∧ f.standsFor p org = true := by
  rcases hmem.cases_moved hinj hslot hslots src with ⟨org, horg⟩ | ⟨e, he, rfl, hsrc⟩
  · exact ⟨org, horg, by rw [← horg.standsFor hnew hmoved hmap]; exact hst⟩
  · obtain ⟨hgood, hflag, -⟩ := Flash.standsFor_iff.mp hst
    rw [hmoved.good] at hgood
    have hpage := (hmoved.blank_new hnew hlay hblank he hsrc hgood pagesPerEu_pos).1
    rw [Nat.add_zero] at hpage
    rw [hpage] at hflag
    exact absurd hflag.symm (place_ne_empty hp)

include hr

/-- The home of a bad erase unit was moved from its home. -/
theorem exists_home_source {slot e home : Nat} (hlt : slot < nSlots) (he : e < eusPerSlot)
    (hbad : f.good (euAt slot e) = false) (hh : IsHome t m' slot e home) :
    ∃ org, MovedFrom m (m.segToSlot r) m.newSlotId src home org ∧ IsHome f m slot e org := by
  cases hh with
  | self good =>
    rw [hmoved.good, hbad] at good
    exact absurd good Bool.false_ne_true
  | reserve _ mem stands =>
    obtain ⟨org, horg, hst⟩ := exists_source hnew hinj hslot hslots hmoved hmap hlay hblank
      (place_lt hlt he) mem stands
    exact ⟨org, horg, .reserve hbad (horg.mem_org hr hmap) hst⟩

end Stands

include hr hslot hslots hmap in
theorem MovedFrom.mem (h : MovedFrom m (m.segToSlot r) m.newSlotId src eu org) :
    m'.IsReserveEu eu := by
  cases h with
  | @same seg e mem lt ne =>
    refine ⟨seg, mem, e, lt, ?_⟩
    rw [hslots seg mem fun heq => ne (by rw [heq])]
  | copied h => exact ⟨r, hr, _, (hmap.lt_eus h).1, by rw [hslot]⟩

include hr hnew hinj hslot hslots hmoved hmap in
/-- After the move of a reserve slot the chip holds what it held: the old slot is blank. -/
theorem Layout.moveReserve (hlay : Layout f m c)
    (hblank : ∀ o < pagesPerSlot, c m.newSlotId o = none)
    (hfull : ∀ slot, m.IsDataSlot slot → slot ≠ m.newSlotId → ∀ o < pagesPerSlot, c slot o ≠ none) :
    Layout t m' (c.clear (m.segToSlot r)) := by
  -- a data slot is the old reserve slot, or was a data slot other than the free one
  have hdata : ∀ {s}, m'.IsDataSlot s → s ≠ m.segToSlot r →
      m.IsDataSlot s ∧ s ≠ m.newSlotId := by
    intro s hs hsr
    refine ⟨⟨hs.lt, fun seg hseg heq => ?_⟩, fun heq => ?_⟩
    · by_cases h : seg = r
      · subst h
        exact hsr heq.symm
      · exact hs.data seg hseg (by rw [hslots seg hseg h]; exact heq)
    · exact hs.data r hr (by rw [hslot, heq])
  have hgoods : ∀ a, t.good a = f.good a := hmoved.good
  have hsource := fun {slot e home : Nat} => @exists_home_source _ f t m m' c r j src hr hnew hinj
    hslot hslots hmoved hmap hlay hblank slot e home
  have hstands := fun {p eu : Nat} => @exists_source _ f t m m' c r j eu p src hnew hinj
    hslot hslots hmoved hmap hlay hblank
  -- no reserve erase unit stands for one of the old reserve slot
  have hold : ∀ {e home}, e < eusPerSlot → f.good (euAt (m.segToSlot r) e) = false →
      ¬IsHome t m' (m.segToSlot r) e home := by
    intro e home he hbad hh
    obtain ⟨org, -, horg⟩ := hsource (hlay.reserves r hr) he hbad hh
    exact hlay.unreplaced hr he hbad horg
  constructor
  · intro seg hseg
    by_cases h : seg = r
    · subst h
      rw [hslot]
      exact hnew.lt
    · rw [hslots seg hseg h]
      exact hlay.reserves seg hseg
  · intro s e home hs he hh i hi
    by_cases hsr : s = m.segToSlot r
    · subst hsr
      rw [Contents.clear_self]
      cases hgood : f.good (euAt (m.segToSlot r) e) with
      | false => exact absurd hh (hold he hgood)
      | true =>
        cases hh with
        | self => exact hmoved.blank e he hgood i hi
        | reserve bad =>
          rw [hgoods, hgood] at bad
          exact absurd bad Bool.true_eq_false.mp
    · obtain ⟨hds, hsn⟩ := hdata hs hsr
      rw [Contents.clear_of_ne hsr]
      obtain ⟨st, hst⟩ := Option.ne_none_iff_exists'.mp (hfull s hds hsn _ (offset_lt he hi))
      rw [hst]
      -- a page that is written is found where it was, or where it was moved
      have hkeep : ∀ org, IsHome f m s e org → t.page (home + i) = f.page (org + i) →
          PageHolds t (home + i) (some st) := by
        intro org horg hpage
        have hwas := hlay.holds hds he horg i hi
        rw [hst] at hwas
        unfold PageHolds
        rw [hpage]
        exact hwas
      cases hgood : f.good (euAt s e) with
      | false =>
        obtain ⟨org, hfrom, horg⟩ := hsource hs.lt he hgood hh
        exact hkeep org horg (hfrom.page hnew hmoved hmap hi)
      | true =>
        cases hh with
        | self =>
          refine hkeep _ (.self hgood) (hmoved.others _ ?_ ?_)
          · rw [getSlot_euAt he hi]
            exact hsn
          · rw [getSlot_euAt he hi]
            exact hsr
        | reserve bad =>
          rw [hgoods, hgood] at bad
          exact absurd bad Bool.true_eq_false.mp
  · intro s e hs he hbad
    rw [hgoods] at hbad
    by_cases hsr : s = m.segToSlot r
    · subst hsr
      refine iff_of_false (fun ⟨home, hh⟩ => hold he hbad hh) fun hno => hno fun i _ => ?_
      exact Contents.clear_self _
    · obtain ⟨hds, hsn⟩ := hdata hs hsr
      have hwritten := hfull s hds hsn _ (offset_lt he pagesPerEu_pos)
      have hnb : ¬c.EuBlank s e := fun hb => hwritten (hb 0 pagesPerEu_pos)
      refine iff_of_true ?_ fun hb => ?_
      · obtain ⟨org, horg⟩ := (hlay.replaced hds he hbad).mpr hnb
        have hpage := hlay.holds hds he horg 0 pagesPerEu_pos
        obtain ⟨st, hst⟩ := Option.ne_none_iff_exists'.mp hwritten
        rw [hst, Nat.add_zero] at hpage
        have hused : f.EuUsed org := ⟨horg.good, hpage.2.used⟩
        cases horg with
        | self good =>
          rw [hbad] at good
          exact absurd good Bool.false_ne_true
        | reserve _ mem stands =>
          obtain ⟨eu, hfrom⟩ := exists_movedFrom hmap mem hused
          refine ⟨eu, .reserve (by rw [hgoods]; exact hbad)
            (hfrom.mem hr hslot hslots hmap) ?_⟩
          rw [hfrom.standsFor hnew hmoved hmap]
          exact stands
      · refine hnb fun i hi => ?_
        rw [← hb i hi, Contents.clear_of_ne hsr]
  · intro eu hmem hfree i hi
    rcases hmem.cases_moved hinj hslot hslots src with ⟨org, horg⟩ | ⟨e, he, rfl, hsrc⟩
    · cases horg with
      | @same seg e mem lt ne =>
        have hslotn : getSlot (euAt (m.segToSlot seg) e + 0) = m.segToSlot seg :=
          getSlot_euAt lt pagesPerEu_pos
        rw [Nat.add_zero] at hslotn
        have hpage := hmoved.others (euAt (m.segToSlot seg) e) (by rw [hslotn]; exact hnew.data seg mem)
          (by rw [hslotn]; exact ne)
        have hne : getSlot (euAt (m.segToSlot seg) e + i) ≠ m.newSlotId ∧
            getSlot (euAt (m.segToSlot seg) e + i) ≠ m.segToSlot r := by
          rw [getSlot_euAt lt hi]
          exact ⟨hnew.data seg mem, ne⟩
        have hwas := hlay.free ⟨seg, mem, e, lt, rfl⟩
          ⟨by rw [← hgoods]; exact hfree.1, by rw [← hpage]; exact hfree.2⟩ i hi
        exact ⟨by rw [hmoved.others _ hne.1 hne.2]; exact hwas.1,
          by rw [hmoved.writes _ hne.1 hne.2]; exact hwas.2⟩
      | @copied e k h =>
        -- an erase unit in use is not free
        have hused := hmap.used h
        have hpage := hmoved.copied (hmap.lt_eus h).1 h 0 pagesPerEu_pos
        rw [Nat.add_zero, Nat.add_zero] at hpage
        have hblankk := hlay.free ⟨r, hr, k, (hmap.lt_eus h).2, rfl⟩
          ⟨hused.1, by rw [← hpage]; exact hfree.2⟩ 0 pagesPerEu_pos
        have hno := hused.2
        rw [show f.page (euAt (m.segToSlot r) k) = initBuf from hblankk.1] at hno
        exact absurd hno Bool.false_ne_true
    · exact hmoved.blank_new hnew hlay hblank he hsrc (by rw [← hgoods]; exact hfree.1) hi
  · intro q eu eu' hq hmem hmem' hst hst'
    obtain ⟨org, hfrom, horg⟩ := hstands hq hmem hst
    obtain ⟨org', hfrom', horg'⟩ := hstands hq hmem' hst'
    obtain rfl := hlay.unique hq (hfrom.mem_org hr hmap) (hfrom'.mem_org hr hmap) horg horg'
    exact hfrom.inj hmap hfrom'
  · intro seg e home hseg he hbad hh
    rw [hgoods] at hbad
    by_cases h : seg = r
    · subst h
      rw [hslot] at hbad hh
      obtain ⟨org, -, horg⟩ := hsource hnew.lt he hbad hh
      exact (hlay.replaced hnew he hbad).mp ⟨org, horg⟩ fun i hi => hblank _ (offset_lt he hi)
    · rw [hslots seg hseg h] at hbad hh
      obtain ⟨org, -, horg⟩ := hsource (hlay.reserves seg hseg) he hbad hh
      exact hlay.unreplaced hseg he hbad horg

end Moved

end NandFs
