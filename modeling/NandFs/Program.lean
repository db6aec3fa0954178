import Mathlib.Order.Basic

/-! # Reasoning about state programs that may halt

A program is a computation of `EStateM ε σ`: it runs on a state `σ` and either returns or
halts with an `ε`, and in both cases the state it left is kept, so a halt can be a power
loss after which the state is still looked at.  `wp` is the weakest precondition for a
postcondition on returns and one on halts; `Preserves` is its special case of an invariant
that every outcome keeps, and `Frame` that of a part of the state no outcome changes.
-/
namespace Program

variable {ε σ α β : Type}

/-- `wp m Q E s`: run on `s`, `m` returns with `Q` or halts with `E`. -/
def wp (m : EStateM ε σ α) (Q : α → σ → Prop) (E : ε → σ → Prop) (s : σ) : Prop :=
  match m s with
  | .ok a t => Q a t
  | .error e t => E e t

section Rules
variable {Q : α → σ → Prop} {R : β → σ → Prop} {E : ε → σ → Prop} {s : σ}

theorem wp_of_ok {m : EStateM ε σ α} {a : α} {t : σ} (h : m s = .ok a t) (hq : Q a t) :
    wp m Q E s := by
  simp only [wp, h, hq]

theorem wp_ok_iff {m : EStateM ε σ α} {a : α} {t : σ} (h : m s = .ok a t) :
    wp m Q E s ↔ Q a t := by
  simp only [wp, h]

theorem wp_error_iff {m : EStateM ε σ α} {e : ε} {t : σ} (h : m s = .error e t) :
    wp m Q E s ↔ E e t := by
  simp only [wp, h]

theorem of_wp_ok {m : EStateM ε σ α} {a : α} {t : σ} (hw : wp m Q E s) (h : m s = .ok a t) :
    Q a t := by
  simpa only [wp, h] using hw

theorem of_wp_error {m : EStateM ε σ α} {e : ε} {t : σ} (hw : wp m Q E s)
    (h : m s = .error e t) : E e t := by
  simpa only [wp, h] using hw

/-- What never halts returns. -/
theorem exists_of_wp {m : EStateM ε σ α} (h : wp m Q (fun _ _ => False) s) :
    ∃ a t, m s = .ok a t ∧ Q a t := by
  unfold wp at h
  cases hm : m s with
  | ok a t => rw [hm] at h; exact ⟨a, t, rfl, h⟩
  | error e t => rw [hm] at h; exact h.elim

@[simp] theorem wp_pure (a : α) : wp (pure a : EStateM ε σ α) Q E s ↔ Q a s := Iff.rfl

@[simp] theorem wp_get {Q : σ → σ → Prop} :
    wp (get : EStateM ε σ σ) Q E s ↔ Q s s := Iff.rfl

@[simp] theorem wp_set {Q : PUnit → σ → Prop} (t : σ) :
    wp (set t : EStateM ε σ PUnit) Q E s ↔ Q ⟨⟩ t := Iff.rfl

@[simp] theorem wp_modify {Q : PUnit → σ → Prop} (f : σ → σ) :
    wp (modify f : EStateM ε σ PUnit) Q E s ↔ Q ⟨⟩ (f s) := Iff.rfl

@[simp] theorem wp_throw (e : ε) : wp (throw e : EStateM ε σ α) Q E s ↔ E e s := Iff.rfl

@[simp] theorem wp_bind (m : EStateM ε σ α) (f : α → EStateM ε σ β) :
    wp (m >>= f) R E s ↔ wp m (fun a => wp (f a) R E) E s := by
  simp only [wp, bind, EStateM.bind]
  cases m s <;> exact Iff.rfl

@[simp] theorem wp_map (m : EStateM ε σ α) (f : α → β) :
    wp (f <$> m) R E s ↔ wp m (fun a => R (f a)) E s := by
  simp only [wp, Functor.map, EStateM.map]
  cases m s <;> exact Iff.rfl

theorem wp_ite {c : Prop} [Decidable c] {m k : EStateM ε σ α} (hm : c → wp m Q E s)
    (hk : ¬c → wp k Q E s) : wp (if c then m else k) Q E s := by
  by_cases h : c
  · rw [if_pos h]; exact hm h
  · rw [if_neg h]; exact hk h

theorem wp_mono {m : EStateM ε σ α} {Q' : α → σ → Prop} {E' : ε → σ → Prop} (h : wp m Q E s)
    (hq : ∀ a t, Q a t → Q' a t) (he : ∀ e t, E e t → E' e t) : wp m Q' E' s := by
  unfold wp at h ⊢
  cases hm : m s with
  | ok a t => rw [hm] at h; exact hq a t h
  | error e t => rw [hm] at h; exact he e t h

theorem wp_run_congr {m m' : EStateM ε σ α} (h : m s = m' s) (hw : wp m' Q E s) :
    wp m Q E s := by
  unfold wp at hw ⊢
  rwa [h]

theorem wp_and {m : EStateM ε σ α} {Q' : α → σ → Prop} {E' : ε → σ → Prop}
    (h : wp m Q E s) (h' : wp m Q' E' s) :
    wp m (fun a t => Q a t ∧ Q' a t) (fun e t => E e t ∧ E' e t) s := by
  unfold wp at *
  cases hm : m s with
  | ok a t => rw [hm] at h h'; exact ⟨h, h'⟩
  | error e t => rw [hm] at h h'; exact ⟨h, h'⟩

end Rules

/-- The rule of composition: what `m` establishes is what the rest starts from. -/
theorem wp_seq {m : EStateM ε σ α} {f : α → EStateM ε σ β} {Q : α → σ → Prop}
    {R : β → σ → Prop} {E : ε → σ → Prop} {s : σ} (hm : wp m Q E s)
    (hf : ∀ a t, Q a t → wp (f a) R E t) : wp (m >>= f) R E s := by
  rw [wp_bind]
  exact wp_mono hm hf fun _ _ he => he

/-! ## Running a sequence on a known state -/

theorem bind_ok {m : EStateM ε σ α} {f : α → EStateM ε σ β} {s t : σ} {a : α}
    (h : m s = .ok a t) : (m >>= f) s = f a t := by
  simp only [bind, EStateM.bind, h]

theorem bind_error {m : EStateM ε σ α} {f : α → EStateM ε σ β} {s t : σ} {e : ε}
    (h : m s = .error e t) : (m >>= f) s = .error e t := by
  simp only [bind, EStateM.bind, h]

theorem exists_of_bind {m : EStateM ε σ α} {f : α → EStateM ε σ β} {s u : σ} {b : β}
    (h : (m >>= f) s = .ok b u) : ∃ a t, m s = .ok a t ∧ f a t = .ok b u := by
  cases hm : m s with
  | ok a t => exact ⟨a, t, rfl, (bind_ok hm).symm.trans h⟩
  | error e t =>
    rw [bind_error hm] at h
    cases h

theorem bind_run_congr {m m' : EStateM ε σ α} {f : α → EStateM ε σ β} {s : σ} (h : m s = m' s) :
    (m >>= f) s = (m' >>= f) s := by
  simp only [bind, EStateM.bind, h]

/-- A run on a known state returns what passes a test. -/
def okAnd (m : EStateM ε σ α) (s : σ) (test : α → σ → Bool) : Bool :=
  match m s with
  | .ok a t => test a t
  | .error _ _ => false

theorem exists_of_okAnd {m : EStateM ε σ α} {s : σ} {test : α → σ → Bool}
    (h : okAnd m s test = true) : ∃ a t, m s = .ok a t ∧ test a t = true := by
  unfold okAnd at h
  cases hm : m s with
  | ok a t => rw [hm] at h; exact ⟨a, t, rfl, h⟩
  | error e t => rw [hm] at h; exact absurd h Bool.false_ne_true

/-- A run on a known state halts with what passes a test. -/
def errorAnd (m : EStateM ε σ α) (s : σ) (test : ε → σ → Bool) : Bool :=
  match m s with
  | .ok _ _ => false
  | .error e t => test e t

theorem exists_of_errorAnd {m : EStateM ε σ α} {s : σ} {test : ε → σ → Bool}
    (h : errorAnd m s test = true) : ∃ e t, m s = .error e t ∧ test e t = true := by
  unfold errorAnd at h
  cases hm : m s with
  | ok a t =>
    rw [hm] at h
    exact absurd h Bool.false_ne_true
  | error e t =>
    rw [hm] at h
    exact ⟨e, t, rfl, h⟩

/-! ## Invariants of a program -/

/-- Every outcome of `m` keeps `I`. -/
def Preserves (I : σ → Prop) (m : EStateM ε σ α) : Prop :=
  ∀ s, I s → wp m (fun _ => I) (fun _ => I) s

/-- No outcome of `m` changes the part `view` of the state. -/
def Frame {τ : Type} (view : σ → τ) (m : EStateM ε σ α) : Prop :=
  ∀ c, Preserves (fun s => view s = c) m

section Preserves
variable {I : σ → Prop}

theorem preserves_pure (a : α) : Preserves I (pure a : EStateM ε σ α) := fun _ h => h

theorem preserves_throw (e : ε) : Preserves I (throw e : EStateM ε σ α) := fun _ h => h

theorem preserves_get : Preserves I (get : EStateM ε σ σ) := fun _ h => h

theorem preserves_modify {f : σ → σ} (h : ∀ s, I s → I (f s)) :
    Preserves I (modify f : EStateM ε σ PUnit) := fun s hs => h s hs

theorem preserves_bind {m : EStateM ε σ α} {f : α → EStateM ε σ β}
    (hm : Preserves I m) (hf : ∀ a, Preserves I (f a)) : Preserves I (m >>= f) := by
  intro s hs
  rw [wp_bind]
  exact wp_mono (hm s hs) (fun a t ht => hf a t ht) (fun _ _ ht => ht)

theorem preserves_ite {c : Prop} [Decidable c] {m k : EStateM ε σ α}
    (hm : c → Preserves I m) (hk : ¬c → Preserves I k) :
    Preserves I (if c then m else k) := by
  by_cases h : c
  · rw [if_pos h]; exact hm h
  · rw [if_neg h]; exact hk h

theorem Preserves.ok {m : EStateM ε σ α} (h : Preserves I m) {s t : σ} {a : α} (hs : I s)
    (hm : m s = .ok a t) : I t :=
  of_wp_ok (h s hs) hm

/-- A step that keeps an invariant, before others. -/
theorem Preserves.wp_bind {m : EStateM ε σ α} {f : α → EStateM ε σ β} (h : Preserves I m)
    {R : β → σ → Prop} {E : ε → σ → Prop} {s : σ} (hs : I s) (hf : ∀ a t, I t → wp (f a) R E t)
    (he : ∀ e t, I t → E e t) : wp (m >>= f) R E s :=
  (Program.wp_bind m f).mpr (wp_mono (h s hs) hf he)

/-- An invariant that a program keeps whenever another holds along with it. -/
theorem preserves_and {J : σ → Prop} {m : EStateM ε σ α} (hi : Preserves I m)
    (hj : Preserves J m) : Preserves (fun s => I s ∧ J s) m :=
  fun s hs => wp_and (hi s hs.1) (hj s hs.2)

end Preserves

section Frame
variable {τ : Type} {view : σ → τ}

theorem frame_pure (a : α) : Frame view (pure a : EStateM ε σ α) := fun _ => preserves_pure a

theorem frame_throw (e : ε) : Frame view (throw e : EStateM ε σ α) := fun _ => preserves_throw e

theorem frame_get : Frame view (get : EStateM ε σ σ) := fun _ => preserves_get

theorem frame_modify {f : σ → σ} (h : ∀ s, view (f s) = view s) :
    Frame view (modify f : EStateM ε σ PUnit) :=
  fun _ => preserves_modify fun s hs => (h s).trans hs

theorem frame_bind {m : EStateM ε σ α} {f : α → EStateM ε σ β}
    (hm : Frame view m) (hf : ∀ a, Frame view (f a)) : Frame view (m >>= f) :=
  fun c => preserves_bind (hm c) fun a => hf a c

theorem frame_ite {c : Prop} [Decidable c] {m k : EStateM ε σ α}
    (hm : Frame view m) (hk : Frame view k) : Frame view (if c then m else k) :=
  fun d => preserves_ite (fun _ => hm d) (fun _ => hk d)

theorem Frame.ok {m : EStateM ε σ α} (h : Frame view m) {s t : σ} {a : α}
    (hm : m s = .ok a t) : view t = view s := by
  have hw := h (view s) s rfl
  simpa only [wp, hm] using hw

theorem Frame.error {m : EStateM ε σ α} (h : Frame view m) {s t : σ} {e : ε}
    (hm : m s = .error e t) : view t = view s := by
  have hw := h (view s) s rfl
  simpa only [wp, hm] using hw

/-- What does not change a part of the state does not change what is read off that part. -/
theorem Frame.comp {υ : Type} {m : EStateM ε σ α} (h : Frame view m) (f : τ → υ) :
    Frame (fun s => f (view s)) m := by
  intro c s hs
  refine wp_mono (h (view s) s rfl) (fun _ t ht => ?_) (fun _ t ht => ?_)
  · simp only [ht, hs]
  · simp only [ht, hs]

/-- What holds of every state with the same part as now holds of every outcome. -/
theorem Frame.wp {m : EStateM ε σ α} (h : Frame view m) {Q : α → σ → Prop} {E : ε → σ → Prop}
    {s : σ} (hq : ∀ a t, view t = view s → Q a t) (he : ∀ e t, view t = view s → E e t) :
    wp m Q E s :=
  wp_mono (h (view s) s rfl) (fun a t ht => hq a t ht) (fun e t ht => he e t ht)

/-- A step that leaves a part of the state alone, before others. -/
theorem Frame.wp_bind {m : EStateM ε σ α} {f : α → EStateM ε σ β} (h : Frame view m)
    {R : β → σ → Prop} {E : ε → σ → Prop} {s : σ}
    (hf : ∀ a t, view t = view s → Program.wp (f a) R E t) (he : ∀ e t, view t = view s → E e t) :
    Program.wp (m >>= f) R E s :=
  (Program.wp_bind m f).mpr (h.wp hf he)

/-- A property of an unchanged part of the state is an invariant. -/
theorem Frame.preserves {m : EStateM ε σ α} (h : Frame view m) (P : τ → Prop) :
    Preserves (fun s => P (view s)) m := by
  intro s hs
  refine wp_mono (h (view s) s rfl) (fun _ t ht => ?_) (fun _ t ht => ?_)
  · rw [ht]; exact hs
  · rw [ht]; exact hs

/-- What changes nothing returns or halts where it was started. -/
theorem Frame.reads {m : EStateM ε σ α} (h : Frame id m) (s : σ) :
    (∃ a, m s = .ok a s) ∨ ∃ e, m s = .error e s := by
  cases hm : m s with
  | ok a t =>
    obtain rfl : t = s := h.ok hm
    exact .inl ⟨a, rfl⟩
  | error e t =>
    obtain rfl : t = s := h.error hm
    exact .inr ⟨e, rfl⟩

end Frame

/-! ## Programs on a part of the state -/

section Part
variable {τ : Type} (part : σ → τ) (put : τ → σ → σ)

/-- Run `m` on a part of the state and put the part back. -/
def onPart (m : EStateM ε τ α) : EStateM ε σ α := fun s =>
  match m (part s) with
  | .ok a t => .ok a (put t s)
  | .error e t => .error e (put t s)

theorem wp_onPart {m : EStateM ε τ α} {Q : α → σ → Prop} {E : ε → σ → Prop} {s : σ} :
    wp (onPart part put m) Q E s ↔
      wp m (fun a t => Q a (put t s)) (fun e t => E e (put t s)) (part s) := by
  unfold wp onPart
  cases m (part s) <;> exact Iff.rfl

end Part

/-! ## Runs of calls -/

section Calls
variable {κ : Type} (exec : κ → EStateM ε σ Unit)

/-- Each call of the run from `s` is related by `P` to the states before and after it. -/
def Always (P : κ → σ → σ → Prop) : List κ → σ → Prop
  | [], _ => True
  | call :: calls, s =>
    wp (exec call) (fun _ t => P call s t ∧ Always P calls t) (fun _ t => P call s t) s

/-- Each call of the run from `s` is made in a state that meets `C`. -/
def Meets (C : κ → σ → Prop) : List κ → σ → Prop
  | [], _ => True
  | call :: calls, s => C call s ∧ wp (exec call) (fun _ t => Meets C calls t) (fun _ _ => True) s

/-- Where a run ends, if no call halts. -/
def runAll : List κ → σ → Option σ
  | [], s => some s
  | call :: calls, s =>
    match exec call s with
    | .ok _ t => runAll calls t
    | .error _ _ => none

variable {exec} {P : κ → σ → σ → Prop} {C : κ → σ → Prop}

/-- Where each call does what it should exactly when it meets a condition, and keeps an invariant
then, a run does what it should exactly when all its calls meet the condition. -/
theorem always_iff_meets {D : κ → Prop} {I : σ → Prop}
    (hstep : ∀ call s, D call → I s → wp (exec call)
      (fun _ t => (P call s t ↔ C call s) ∧ (C call s → I t)) (fun _ t => P call s t ↔ C call s) s)
    (calls : List κ) (hcalls : ∀ call ∈ calls, D call) (s : σ) (hs : I s) :
    Always exec P calls s ↔ Meets exec C calls s := by
  induction calls generalizing s with
  | nil => exact Iff.rfl
  | cons call calls ih =>
    have hcall := hstep call s (hcalls call List.mem_cons_self) hs
    have ih := ih fun c hc => hcalls c (List.mem_cons_of_mem _ hc)
    unfold Always Meets
    cases hrun : exec call s with
    | ok a t =>
      obtain ⟨hiff, hinv⟩ := of_wp_ok hcall hrun
      rw [wp_ok_iff hrun, wp_ok_iff hrun, hiff]
      exact and_congr_right fun hc => ih t (hinv hc)
    | error e t =>
      have hiff := of_wp_error hcall hrun
      rw [wp_error_iff hrun, wp_error_iff hrun, hiff]
      exact (and_iff_left trivial).symm

/-- Where each call that meets a condition does what it should and keeps an invariant, a run whose
calls all meet the condition does what it should. -/
theorem always_of_meets {I : σ → Prop}
    (hstep : ∀ call s, I s → C call s → wp (exec call) (fun _ t => P call s t ∧ I t)
      (fun _ t => P call s t) s)
    (calls : List κ) (s : σ) (hs : I s) (hcalls : Meets exec C calls s) :
    Always exec P calls s := by
  induction calls generalizing s with
  | nil => trivial
  | cons call calls ih =>
    obtain ⟨hcall, hrest⟩ := hcalls
    unfold Always
    refine wp_mono (wp_and (hstep call s hs hcall) hrest) (fun _ t ht => ?_) fun _ _ ht => ht.1
    exact ⟨ht.1.1, ih t ht.1.2 ht.2⟩

/-- Whether a call on a known state does what it should. -/
def decidableWp {Q : α → σ → Prop} {E : ε → σ → Prop} (m : EStateM ε σ α) (s : σ)
    (hq : ∀ a t, Decidable (Q a t)) (he : ∀ e t, Decidable (E e t)) : Decidable (wp m Q E s) :=
  match h : m s with
  | .ok a t => @decidable_of_iff _ _ (wp_ok_iff h).symm (hq a t)
  | .error e t => @decidable_of_iff _ _ (wp_error_iff h).symm (he e t)

/-- Whether the calls of a run from a known state meet a condition. -/
def decidableMeets (hC : ∀ call s, Decidable (C call s)) :
    ∀ calls s, Decidable (Meets exec C calls s)
  | [], _ => .isTrue trivial
  | call :: calls, s =>
    @instDecidableAnd _ _ (hC call s)
      (decidableWp _ _ (fun _ t => decidableMeets hC calls t) fun _ _ => .isTrue trivial)

theorem Always.last {J : σ → Prop} (hP : ∀ call s t, P call s t → J t) {calls : List κ} {s t : σ}
    (h : Always exec P calls s) (hs : J s) (hrun : runAll exec calls s = some t) : J t := by
  induction calls generalizing s with
  | nil =>
    obtain rfl := Option.some.inj hrun
    exact hs
  | cons call calls ih =>
    unfold Always at h
    unfold runAll at hrun
    cases hexec : exec call s with
    | ok a u =>
      rw [hexec] at hrun
      obtain ⟨hcall, hrest⟩ := of_wp_ok h hexec
      exact ih hrest (hP _ _ _ hcall) hrun
    | error e u =>
      rw [hexec] at hrun
      exact absurd hrun (Option.some_ne_none t).symm

end Calls

end Program
