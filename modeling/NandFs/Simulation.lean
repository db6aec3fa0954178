import NandFs.Program

/-! # Programs that simulate others

Two programs over two kinds of state, of which a relation says when they stand for each other: the
first one simulates the second if from related states it returns what the second one returns, halts
where that one halts, and leaves related states.  What is proved of the second program then holds
of the first.
-/
namespace Program

variable {ε ε' σ σ' α α' β β' : Type} {R : σ' → σ → Prop} {halt : ε → ε'} {f : α' → α} {g : β' → β}

/-- From related states `c` does what `m` does; of what `c` returns, `f` is what `m` returns. -/
def Simulates (R : σ' → σ → Prop) (halt : ε → ε') (f : α' → α) (c : EStateM ε' σ' α')
    (m : EStateM ε σ α) : Prop :=
  ∀ s a, R s a → wp c (fun r s' => ∃ a', m a = .ok (f r) a' ∧ R s' a')
    (fun e s' => ∃ e' a', m a = .error e' a' ∧ e = halt e' ∧ R s' a') s

theorem simulates_pure (r : α') : Simulates R halt f (pure r) (pure (f r) : EStateM ε σ α) :=
  fun _ a h => ⟨a, rfl, h⟩

theorem simulates_bind {c : EStateM ε' σ' α'} {m : EStateM ε σ α} {d : α' → EStateM ε' σ' β'}
    {k : α → EStateM ε σ β} (h : Simulates R halt f c m)
    (hd : ∀ r, Simulates R halt g (d r) (k (f r))) :
    Simulates R halt g (c >>= d) (m >>= k) := by
  intro s a hsa
  refine (wp_bind _ _).mpr (wp_mono (h s a hsa) ?_ ?_)
  · rintro r s' ⟨a', hm, hsa'⟩
    rw [bind_ok hm]
    exact hd r s' a' hsa'
  · rintro e s' ⟨e', a', hm, he, hsa'⟩
    rw [bind_error hm]
    exact ⟨e', a', rfl, he, hsa'⟩

theorem simulates_ite {p : Prop} [Decidable p] {c d : EStateM ε' σ' α'} {m k : EStateM ε σ α}
    (h : Simulates R halt f c m) (hd : Simulates R halt f d k) :
    Simulates R halt f (if p then c else d) (if p then m else k) := by
  by_cases hp : p
  · rw [if_pos hp, if_pos hp]
    exact h
  · rw [if_neg hp, if_neg hp]
    exact hd

theorem simulates_modify {f : σ' → σ'} {g : σ → σ} (h : ∀ s a, R s a → R (f s) (g a)) :
    Simulates R halt id (modify f : EStateM ε' σ' PUnit) (modify g : EStateM ε σ PUnit) :=
  fun s a hsa => ⟨g a, rfl, h s a hsa⟩

variable {c : EStateM ε' σ' α'} {m : EStateM ε σ α} {s : σ'} {a : σ}

/-- What is proved of a program holds of those that simulate it. -/
theorem Simulates.wp {Q : α → σ → Prop} {E : ε → σ → Prop} (h : Simulates R halt f c m)
    (hsa : R s a) (hm : wp m Q E a) : Program.wp c (fun r s' => ∃ a', R s' a' ∧ Q (f r) a')
      (fun e s' => ∃ e' a', e = halt e' ∧ R s' a' ∧ E e' a') s := by
  refine wp_mono (h s a hsa) ?_ ?_
  · rintro r s' ⟨a', hrun, hsa'⟩
    exact ⟨a', hsa', of_wp_ok hm hrun⟩
  · rintro e s' ⟨e', a', hrun, he, hsa'⟩
    exact ⟨e', a', he, hsa', of_wp_error hm hrun⟩

end Program
