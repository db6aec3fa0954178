import Mathlib.Logic.Function.Basic
import Mathlib.Data.List.Basic

/-! # Machines side by side

A machine is asked, replies, and is in another state then.  Where several of them are asked in any
order, each replies what it would if the others were never asked.  `runAll_replies` and
`runAll_own` are the rules for a program each of whose calls is a question to one of the machines.
-/
namespace Machines

variable {ι S Q R ε σ : Type}

/-- What the machine replies to the questions, one after the other. -/
def replies (ask : S → Q → R × S) : List Q → S → List R
  | [], _ => []
  | q :: qs, s => (ask s q).1 :: replies ask qs (ask s q).2

/-- The state that the questions leave it in. -/
def stateAfter (ask : S → Q → R × S) (qs : List Q) (s : S) : S :=
  qs.foldl (fun s q => (ask s q).2) s

/-- Of the replies to some calls those to one of the callers. -/
def ownOf [DecidableEq ι] {β γ : Type} (i : ι) (calls : List (ι × β)) (rs : List γ) : List γ :=
  ((calls.zip rs).filter fun p => p.1.1 = i).map Prod.snd

/-- The calls to one of the machines. -/
def callsTo [DecidableEq ι] {β : Type} (i : ι) (calls : List (ι × β)) : List (ι × β) :=
  calls.filter fun call => call.1 = i

section Many
variable [DecidableEq ι] (asks : ι → S → Q → R × S)

/-- The replies of several machines, each question with the machine it is for. -/
def repliesOf : List (ι × Q) → (ι → S) → List R
  | [], _ => []
  | q :: qs, at_ => (asks q.1 (at_ q.1) q.2).1 ::
      repliesOf qs (Function.update at_ q.1 (asks q.1 (at_ q.1) q.2).2)

/-- The states that the questions leave them in. -/
def statesOf : List (ι × Q) → (ι → S) → ι → S
  | [], at_ => at_
  | q :: qs, at_ => statesOf qs (Function.update at_ q.1 (asks q.1 (at_ q.1) q.2).2)

variable {asks} {at_ : ι → S} {qs : List (ι × Q)} {i : ι}

/-- What one of them replies is what it would reply alone. -/
theorem ownOf_repliesOf : ownOf i qs (repliesOf asks qs at_) =
    replies (asks i) ((callsTo i qs).map Prod.snd) (at_ i) := by
  induction qs generalizing at_ with
  | nil => rfl
  | cons q qs ih =>
    unfold repliesOf ownOf callsTo
    unfold ownOf callsTo at ih
    rw [List.zip_cons_cons, List.filter_cons, List.filter_cons]
    by_cases hq : q.1 = i
    · subst hq
      simp only [decide_true, if_true, List.map_cons, replies, ih, Function.update_self]
    · simp only [hq, decide_false, Bool.false_eq_true, if_false, ih,
        Function.update_of_ne (Ne.symm hq)]

theorem statesOf_self :
    statesOf asks qs at_ i = stateAfter (asks i) ((callsTo i qs).map Prod.snd) (at_ i) := by
  induction qs generalizing at_ with
  | nil => rfl
  | cons q qs ih =>
    unfold statesOf callsTo
    unfold callsTo at ih
    rw [ih, List.filter_cons]
    by_cases hq : q.1 = i
    · subst hq
      simp [stateAfter]
    · simp [hq, Function.update_of_ne (Ne.symm hq)]

/-- Where only one of them is asked. -/
theorem repliesOf_one (qs : List Q) :
    repliesOf asks (qs.map (i, ·)) at_ = replies (asks i) qs (at_ i) := by
  induction qs generalizing at_ with
  | nil => rfl
  | cons q qs ih => simp [repliesOf, replies, ih]

theorem map_callsTo (calls : List (ι × Q)) :
    ((callsTo i calls).map Prod.snd).map (i, ·) = callsTo i calls := by
  unfold callsTo
  rw [List.map_map]
  refine (List.map_congr_left fun call hcall => ?_).trans (List.map_id _)
  exact Prod.ext (of_decide_eq_true (List.mem_filter.mp hcall).2).symm rfl

@[simp] theorem callsTo_append (calls calls' : List (ι × Q)) :
    callsTo i (calls ++ calls') = callsTo i calls ++ callsTo i calls' := by
  simp [callsTo]

end Many

/-! ## Programs whose calls are questions -/

/-- Calls one after the other, each by its caller -/
def runAll (exec : ι → Q → EStateM ε σ R) : List (ι × Q) → EStateM ε σ (List R)
  | [] => pure []
  | call :: calls => do
    let r ← exec call.1 call.2
    pure (r :: (← runAll exec calls))

section Runs
variable [DecidableEq ι] {asks : ι → S → Q → R × S} {exec : ι → Q → EStateM ε σ R}
  {ready : ι → Prop} {inv : (ι → S) → σ → Prop}
  (hstep : ∀ i q at_ s, ready i → inv at_ s → ∃ t, exec i q s = .ok (asks i (at_ i) q).1 t ∧
    inv (Function.update at_ i (asks i (at_ i) q).2) t)

include hstep

/-- If each call replies as its machine does, and leaves the others where they are, then so do all
calls. -/
theorem runAll_replies {calls : List (ι × Q)} (hready : ∀ call ∈ calls, ready call.1)
    {at_ : ι → S} {s : σ} (h : inv at_ s) :
    ∃ t, runAll exec calls s = .ok (repliesOf asks calls at_) t ∧
      inv (statesOf asks calls at_) t := by
  induction calls generalizing at_ s with
  | nil => exact ⟨s, rfl, h⟩
  | cons call calls ih =>
    obtain ⟨t, hrun, ht⟩ := hstep call.1 call.2 at_ s (hready call List.mem_cons_self) h
    obtain ⟨u, hrest, hu⟩ := ih (fun c hc => hready c (List.mem_cons_of_mem _ hc)) ht
    refine ⟨u, ?_, hu⟩
    simp [runAll, bind, EStateM.bind, pure, EStateM.pure, hrun, hrest, repliesOf]

/-- Each caller is replied as if no other called. -/
theorem runAll_own {calls : List (ι × Q)} (hready : ∀ call ∈ calls, ready call.1) {at_ : ι → S}
    {s : σ} (h : inv at_ s) (i : ι) : ∃ rs t own u, runAll exec calls s = .ok rs t ∧
      runAll exec (callsTo i calls) s = .ok own u ∧ ownOf i calls rs = own := by
  obtain ⟨t, hrun, -⟩ := runAll_replies hstep hready h
  have hown : ∀ call ∈ callsTo i calls, ready call.1 := fun call hcall =>
    hready call (List.mem_of_mem_filter hcall)
  obtain ⟨u, halone, -⟩ := runAll_replies hstep hown h
  have hone : repliesOf asks (((callsTo i calls).map Prod.snd).map (i, ·)) at_ =
      replies (asks i) ((callsTo i calls).map Prod.snd) (at_ i) := repliesOf_one _
  rw [map_callsTo] at hone
  refine ⟨_, t, _, u, hrun, halone, ?_⟩
  rw [ownOf_repliesOf, hone]

end Runs

end Machines
