import NandFs.Cursor
import NandFs.Machines

/-! # Cursors that are asked, told and set

A cursor as a machine: it can be asked for the next element, can tell where it is, and can be set
to a place, from where it goes on.
-/
namespace Cursor

variable {S α Q : Type} (next : S → Option (α × S))

/-- What a cursor can be asked. -/
inductive Query (S : Type)
  | next
  | tell
  | set (s : S)

inductive Response (S α : Type)
  | element (a : Option α)
  | place (s : S)
  | done
  deriving DecidableEq

/-- What a cursor at `s` responds, and where it is then. -/
def Query.ask (s : S) : Query S → Response S α × S
  | .next => (.element ((next s).map Prod.fst), ((next s).map Prod.snd).getD s)
  | .tell => (.place s, s)
  | .set t => (.done, t)

/-- Asked for elements only, it gives its answers. -/
theorem replies_next {query : Q → Query S} {q : Q} (hq : query q = .next) (n : Nat) (s : S) :
    Machines.replies (fun s q => (query q).ask next s) (List.replicate n q) s =
      (answers next n s).map .element := by
  induction n generalizing s with
  | zero => rfl
  | succ n ih =>
    rw [List.replicate_succ, Machines.replies, ih, answers, hq]
    cases hs : next s with
    | none => simp [Query.ask, hs]
    | some p => simp [Query.ask, hs]

/-- Set to a place at last, it is there. -/
theorem stateAfter_set {query : Q → Query S} {q : Q} {s t : S} (hq : query q = .set t)
    (qs : List Q) :
    Machines.stateAfter (fun s q => (query q).ask next s) (qs ++ [q]) s = t := by
  simp [Machines.stateAfter, hq, Query.ask]

end Cursor
