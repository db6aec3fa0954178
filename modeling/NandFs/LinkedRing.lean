import Mathlib.Data.List.Nodup
import Mathlib.Logic.Function.Basic

/-! # Rings of links

Every node has a link forwards and one backwards.  The nodes of a list make a `Ring` with a base
node if the links forwards lead from the base through the list and back to the base, and the links
backwards the other way.  A list with a first and a last node is such a ring: its base is the list
itself, whose links are the pointers to these two.
-/
namespace LinkedRing

variable {β : Type}

/-- Links lead from `base` through `nodes` and back to `base`, in both directions. -/
structure Ring (fwd bwd : β → β) (base : β) (nodes : List β) : Prop where
  forwards : (base :: nodes).map fwd = nodes ++ [base]
  backwards : (nodes ++ [base]).map bwd = base :: nodes
  nodup : (base :: nodes).Nodup

section Nodes
variable {fwd bwd : β → β} {base a : β} {nodes xs ys : List β}

theorem map_update_of_notMem [DecidableEq β] {f : β → β} {b : β} {l : List β} (ha : a ∉ l) :
    l.map (Function.update f a b) = l.map f :=
  List.map_congr_left fun _ hx => Function.update_of_ne (ne_of_mem_of_not_mem hx ha) b f

theorem ring_nil (hfwd : fwd base = base) (hbwd : bwd base = base) : Ring fwd bwd base [] :=
  ⟨by simp [hfwd], by simp [hbwd], List.nodup_singleton base⟩

/-- Only the links of the base and of the nodes matter. -/
theorem Ring.congr {fwd' bwd' : β → β} (h : Ring fwd bwd base nodes)
    (hfwd : ∀ x ∈ base :: nodes, fwd' x = fwd x) (hbwd : ∀ x ∈ base :: nodes, bwd' x = bwd x) :
    Ring fwd' bwd' base nodes := by
  refine ⟨?_, ?_, h.nodup⟩
  · rw [List.map_congr_left hfwd, h.forwards]
  · rw [List.map_congr_left fun x hx => hbwd x (by
      rcases List.mem_append.mp hx with hx | hx
      · exact List.mem_cons_of_mem base hx
      · exact List.mem_singleton.mp hx ▸ List.mem_cons_self), h.backwards]

theorem Ring.base_notMem (h : Ring fwd bwd base nodes) : base ∉ nodes :=
  (List.nodup_cons.mp h.nodup).1

theorem Ring.nodes_nodup (h : Ring fwd bwd base nodes) : nodes.Nodup :=
  (List.nodup_cons.mp h.nodup).2

theorem Ring.fwd_base (h : Ring fwd bwd base nodes) : fwd base = nodes.head?.getD base := by
  have hfwd := h.forwards
  cases nodes with
  | nil => exact (List.cons.inj hfwd).1
  | cons x nodes => exact (List.cons.inj hfwd).1

theorem Ring.bwd_base (h : Ring fwd bwd base nodes) : bwd base = nodes.getLast?.getD base := by
  have hbwd := h.backwards
  rw [List.map_append] at hbwd
  have hlast := congrArg List.getLast? hbwd
  rw [List.map_singleton, List.getLast?_append_of_ne_nil _ (List.cons_ne_nil _ _),
    List.getLast?_singleton] at hlast
  rw [List.getLast?_cons] at hlast
  exact Option.some.inj hlast

/-- What the links say on both sides of a node. -/
structure Ring.Around (fwd bwd : β → β) (base : β) (xs : List β) (a : β) (ys : List β)
    (us vs : List β) (p n : β) : Prop where
  left : base :: xs = us ++ [p]
  right : ys ++ [base] = n :: vs
  fwdLeft : us.map fwd = xs
  fwdPrev : fwd p = a
  fwdNode : fwd a = n
  fwdRight : ys.map fwd = vs
  bwdLeft : xs.map bwd = us
  bwdNode : bwd a = p
  bwdNext : bwd n = a
  bwdRight : vs.map bwd = ys

theorem Ring.around (h : Ring fwd bwd base (xs ++ a :: ys)) :
    ∃ us vs p n, Ring.Around fwd bwd base xs a ys us vs p n := by
  obtain ⟨us, p, hleft⟩ : ∃ us p, base :: xs = us ++ [p] :=
    ⟨_, _, (List.dropLast_append_getLast (List.cons_ne_nil base xs)).symm⟩
  obtain ⟨n, vs, hright⟩ : ∃ n vs, ys ++ [base] = n :: vs := by
    cases ys with
    | nil => exact ⟨base, [], rfl⟩
    | cons y ys => exact ⟨y, ys ++ [base], rfl⟩
  have hlen : us.length = xs.length := by
    have := congrArg List.length hleft
    simpa using this.symm
  have hlen' : ys.length = vs.length := by
    have := congrArg List.length hright
    simpa using this
  have hfwd : us.map fwd ++ (fwd p :: fwd a :: ys.map fwd) = xs ++ (a :: n :: vs) := by
    have := h.forwards
    rw [← List.cons_append, hleft, List.append_assoc xs, List.cons_append, hright] at this
    simpa using this
  have hbwd : xs.map bwd ++ (bwd a :: bwd n :: vs.map bwd) = us ++ (p :: a :: ys) := by
    have := h.backwards
    rw [List.append_assoc, List.cons_append, hright, ← List.cons_append, hleft,
      List.append_assoc] at this
    simpa using this
  obtain ⟨hf₁, hf₂⟩ := List.append_inj hfwd (by simpa using hlen)
  obtain ⟨hb₁, hb₂⟩ := List.append_inj hbwd (by simpa using hlen.symm)
  simp only [List.cons.injEq] at hf₂ hb₂
  exact ⟨us, vs, p, n, hleft, hright, hf₁, hf₂.1, hf₂.2.1, hf₂.2.2, hb₁, hb₂.1, hb₂.2.1, hb₂.2.2⟩

theorem Ring.fwd_node (h : Ring fwd bwd base (xs ++ a :: ys)) :
    fwd a = ys.head?.getD base := by
  obtain ⟨us, vs, p, n, hr⟩ := h.around
  have hright := hr.right
  rw [hr.fwdNode]
  cases ys with
  | nil => exact (List.cons.inj hright).1.symm
  | cons y ys => exact (List.cons.inj hright).1.symm

theorem Ring.bwd_node (h : Ring fwd bwd base (xs ++ a :: ys)) :
    bwd a = xs.getLast?.getD base := by
  obtain ⟨us, vs, p, n, hr⟩ := h.around
  have hlast := congrArg List.getLast? hr.left
  rw [List.getLast?_cons, List.getLast?_append_of_ne_nil _ (List.cons_ne_nil _ _),
    List.getLast?_singleton] at hlast
  rw [hr.bwdNode, ← Option.some.inj hlast]

end Nodes

/-! ## Taking a node out, and putting one in -/

section Edits
variable [DecidableEq β] {fwd bwd : β → β} {base a : β} {nodes xs ys : List β}

/-- A node is taken out where its neighbours are linked to each other. -/
theorem Ring.unlink (h : Ring fwd bwd base (xs ++ a :: ys)) :
    Ring (Function.update fwd (bwd a) (fwd a)) (Function.update bwd (fwd a) (bwd a)) base
      (xs ++ ys) := by
  obtain ⟨us, vs, p, n, hr⟩ := h.around
  have hstarts : (us ++ p :: a :: ys).Nodup := by
    have := h.nodup
    rwa [← List.cons_append, hr.left, List.append_assoc] at this
  have hends : (xs ++ a :: n :: vs).Nodup := by
    have : (xs ++ a :: ys ++ [base]).Nodup :=
      (List.perm_append_singleton base (xs ++ a :: ys)).nodup_iff.mpr h.nodup
    rwa [List.append_assoc, List.cons_append, hr.right] at this
  have hp : p ∉ us ∧ p ∉ ys := by
    have := List.nodup_append.mp hstarts
    refine ⟨fun hp => this.2.2 p hp p List.mem_cons_self rfl, fun hp => ?_⟩
    exact (List.nodup_cons.mp this.2.1).1 (List.mem_cons_of_mem a hp)
  have hn : n ∉ xs ∧ n ∉ vs := by
    have := List.nodup_append.mp hends
    refine ⟨fun hn => this.2.2 n hn n (List.mem_cons_of_mem a List.mem_cons_self) rfl, fun hn => ?_⟩
    exact (List.nodup_cons.mp (List.nodup_cons.mp this.2.1).2).1 hn
  rw [hr.fwdNode, hr.bwdNode]
  refine ⟨?_, ?_, ?_⟩
  · rw [← List.cons_append, hr.left, List.append_assoc xs, hr.right]
    simp [map_update_of_notMem hp.1, map_update_of_notMem hp.2, hr.fwdLeft, hr.fwdRight]
  · rw [← List.cons_append, hr.left, List.append_assoc xs, hr.right]
    simp [map_update_of_notMem hn.1, map_update_of_notMem hn.2, hr.bwdLeft, hr.bwdRight]
  · exact h.nodup.sublist (List.Sublist.cons_cons base (List.Sublist.append_left
      (List.sublist_cons_self a ys) xs))

/-- A node that is not in the ring is put in after the base. -/
theorem Ring.link (h : Ring fwd bwd base nodes) (hbase : a ≠ base) (hnodes : a ∉ nodes) :
    Ring (Function.update (Function.update fwd base a) a (fwd base))
      (Function.update (Function.update bwd (fwd base) a) a base) base (a :: nodes) := by
  obtain ⟨n, vs, hends⟩ : ∃ n vs, nodes ++ [base] = n :: vs := by
    cases nodes with
    | nil => exact ⟨base, [], rfl⟩
    | cons y nodes => exact ⟨y, nodes ++ [base], rfl⟩
  have hfwd := h.forwards
  have hbwd := h.backwards
  rw [hends] at hfwd hbwd
  simp only [List.map_cons, List.cons.injEq] at hfwd hbwd
  have hnodup : (n :: vs).Nodup :=
    hends ▸ (List.perm_append_singleton base nodes).nodup_iff.mpr h.nodup
  have ha : a ∉ n :: vs := by
    rw [← hends]
    exact fun hmem => (List.mem_append.mp hmem).elim hnodes fun hb => hbase (List.mem_singleton.mp hb)
  have hn : n ≠ a := fun he => ha (he ▸ List.mem_cons_self)
  have hvs : a ∉ vs := fun hmem => ha (List.mem_cons_of_mem n hmem)
  rw [hfwd.1]
  refine ⟨?_, ?_, ?_⟩
  · rw [List.cons_append, hends, List.map_cons, List.map_cons, Function.update_of_ne hbase.symm,
      Function.update_self, Function.update_self, map_update_of_notMem hnodes,
      map_update_of_notMem h.base_notMem, hfwd.2]
  · rw [List.cons_append, hends, List.map_cons, List.map_cons, Function.update_self,
      Function.update_of_ne hn, Function.update_self, map_update_of_notMem hvs,
      map_update_of_notMem (List.nodup_cons.mp hnodup).1, hbwd.2]
  · refine List.nodup_cons.mpr ⟨?_, List.nodup_cons.mpr ⟨hnodes, h.nodes_nodup⟩⟩
    exact fun hmem => (List.mem_cons.mp hmem).elim (fun he => hbase he.symm) h.base_notMem

end Edits

end LinkedRing
