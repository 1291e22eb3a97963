import GenericTuring.Proofs.Search
import Mathlib.Data.List.Chain
import Mathlib.Order.Basic

/-!
A breadth-first search finds shortest ways. It meets nodes in the order of their distance from the
roots, so no node that could stop a search is nearer than the one that does; and the trail of a visit is
a way from a root to its node, with no node twice, that takes the first edge there is at every step.
-/

namespace GenericTuring.Search

variable {κ ι : Type}

namespace Visit

def depth (v : Visit κ ι) : Nat := v.trail.length

@[simp] theorem depth_root (node : κ) : (root node : Visit κ ι).depth = 0 := rfl

@[simp] theorem depth_follow (v : Visit κ ι) (label : ι) (node : κ) :
    (v.follow label node).depth = v.depth + 1 := rfl

@[simp] theorem chain_root (node : κ) : (root node : Visit κ ι).chain = [node] := rfl

@[simp] theorem chain_follow (v : Visit κ ι) (label : ι) (node : κ) :
    (v.follow label node).chain = v.chain ++ [node] := by
  simp [chain, follow]

@[simp] theorem getLast?_chain (v : Visit κ ι) : v.chain.getLast? = some v.node := by
  simp [chain]

@[simp] theorem length_chain (v : Visit κ ι) : v.chain.length = v.depth + 1 := by
  simp [chain, depth]

end Visit

inductive ReachedIn (out : κ → List (ι × κ)) (roots : List κ) : Nat → κ → Prop
  | root {node : κ} (hroot : node ∈ roots) : ReachedIn out roots 0 node
  | step {n : Nat} {a b : κ} (h : ReachedIn out roots n a) (hstep : Step out a b) :
      ReachedIn out roots (n + 1) b

theorem ReachedIn.reached {out : κ → List (ι × κ)} {roots : List κ} {n : Nat} {node : κ}
    (h : ReachedIn out roots n node) : Reached out roots node := by
  induction h with
  | root hroot => exact .root hroot
  | step _ hstep ih => exact ih.step hstep

variable {out : κ → List (ι × κ)} {halt inside : κ → Bool}
  {bounded : ∃ nodes : List κ, ∀ k, inside k = true → k ∈ nodes} {roots : List κ}

/-- What holds of distances all along a search: the roots were met at once, and what a visit leads to
inside the searched part was met after at most one edge more; visits are in the order of their depths,
and those pending lie on two levels at most. -/
structure Layered (out : κ → List (ι × κ)) (inside : κ → Bool) (roots : List κ)
    (done pending : List (Visit κ ι)) : Prop where
  roots_met : ∀ root ∈ roots, ∃ v ∈ done ++ pending, v.node = root ∧ v.depth = 0
  closed : ∀ v ∈ done, ∀ label k, (label, k) ∈ out v.node → inside k = true →
    ∃ w ∈ done ++ pending, w.node = k ∧ w.depth ≤ v.depth + 1
  sorted : (done ++ pending).Pairwise fun v w => v.depth ≤ w.depth
  near : ∀ v ∈ done ++ pending, ∀ w ∈ pending, v.depth ≤ w.depth + 1

/-- A node that so many edges lead to was visited at no greater depth, or a visit at no greater depth is
pending. -/
theorem Layered.depth_le {done pending : List (Visit κ ι)} (h : Layered out inside roots done pending)
    (hinside : ∀ node, Reached out roots node → inside node = true ∨ node ∈ roots) {n : Nat} {k : κ}
    (hk : ReachedIn out roots n k) :
    (∃ v ∈ done, v.node = k ∧ v.depth ≤ n) ∨ ∃ v ∈ pending, v.depth ≤ n := by
  have hmet : ∀ {n : Nat} {k : κ}, (∃ v ∈ done ++ pending, v.node = k ∧ v.depth ≤ n) →
      (∃ v ∈ done, v.node = k ∧ v.depth ≤ n) ∨ ∃ v ∈ pending, v.depth ≤ n := by
    rintro n k ⟨v, hv, hnode, hdepth⟩
    cases List.mem_append.1 hv with
    | inl hdone => exact .inl ⟨v, hdone, hnode, hdepth⟩
    | inr hpending => exact .inr ⟨v, hpending, hdepth⟩
  have hroot : ∀ {n : Nat} {k : κ}, k ∈ roots → ∃ v ∈ done ++ pending, v.node = k ∧ v.depth ≤ n := by
    intro n k hk
    obtain ⟨v, hv, hnode, hdepth⟩ := h.roots_met k hk
    exact ⟨v, hv, hnode, hdepth ▸ Nat.zero_le n⟩
  -- Once a pending visit is near enough it stays so, whatever the way does from there on.
  induction hk with
  | root hk => exact hmet (hroot hk)
  | @step n a b ha hstep ih =>
    obtain ⟨v, hv, rfl, hdepth⟩ | ⟨v, hv, hdepth⟩ := ih
    · obtain ⟨label, hlabel⟩ := hstep
      cases hinside b (ha.step ⟨label, hlabel⟩).reached with
      | inl hin =>
        obtain ⟨w, hw, hnode, hnext⟩ := h.closed v hv label b hlabel hin
        exact hmet ⟨w, hw, hnode, hnext.trans (Nat.succ_le_succ hdepth)⟩
      | inr hb => exact hmet (hroot hb)
    · exact .inr ⟨v, hv, hdepth.trans (Nat.le_succ n)⟩

/-- Visits of one depth are in the order of their depths. -/
theorem pairwise_depth {visits : List (Visit κ ι)} {n : Nat} (h : ∀ v ∈ visits, v.depth = n) :
    visits.Pairwise fun v w => v.depth ≤ w.depth := by
  refine List.Pairwise.imp_of_mem ?_ (List.pairwise_of_forall fun _ _ => trivial)
  intro v w hv hw _
  rw [h v hv, h w hw]

variable [DecidableEq κ]

inductive Trailed (out : κ → List (ι × κ)) (roots : List κ) : Visit κ ι → Prop
  | root {node : κ} (hroot : node ∈ roots) : Trailed out roots (.root node)
  | follow {v : Visit κ ι} {label : ι} {node : κ} (hv : Trailed out roots v) (hnew : node ∉ v.chain)
      (hedge : (out v.node).find? (fun e => decide (e.2 = node)) = some (label, node)) :
      Trailed out roots (v.follow label node)

namespace Trailed

variable {v : Visit κ ι}

theorem exists_root (h : Trailed out roots v) : ∃ root ∈ roots, v.chain.head? = some root := by
  induction h with
  | root hroot => exact ⟨_, hroot, rfl⟩
  | follow _ _ _ ih =>
    obtain ⟨root, hroot, hhead⟩ := ih
    exact ⟨root, hroot, by simp [hhead]⟩

theorem nodup_chain (h : Trailed out roots v) : v.chain.Nodup := by
  induction h with
  | root _ => simp
  | follow _ hnew _ ih =>
    rw [Visit.chain_follow]
    exact List.nodup_append.2 ⟨ih, by simp, by rintro a ha b hb rfl; simp_all⟩

theorem isChain (h : Trailed out roots v) : v.chain.IsChain (Step out) := by
  induction h with
  | root _ => simp
  | @follow v label node _ _ hedge ih =>
    rw [Visit.chain_follow]
    refine List.isChain_append.2 ⟨ih, by simp, ?_⟩
    intro a ha b hb
    obtain rfl : v.node = a := by simpa using ha
    obtain rfl : node = b := by simpa using hb
    exact ⟨label, List.mem_of_find?_eq_some hedge⟩

end Trailed

structure Retraced (out : κ → List (ι × κ)) (roots : List κ) (met : List (Visit κ ι)) : Prop where
  trailed : ∀ v ∈ met, Trailed out roots v
  chain_met : ∀ v ∈ met, ∀ k ∈ v.chain, k ∈ met.map Visit.node

theorem retraced_roots (roots : List κ) :
    Retraced out roots (roots.eraseDups.map Visit.root) := by
  constructor
  · intro v hv
    obtain ⟨root, hroot, rfl⟩ := List.mem_map.1 hv
    exact .root (List.mem_eraseDups.1 hroot)
  · intro v hv k hk
    obtain ⟨root, _, rfl⟩ := List.mem_map.1 hv
    obtain rfl : k = root := by simpa using hk
    exact List.mem_map.2 ⟨_, hv, rfl⟩

theorem retraced_fresh {met : List (Visit κ ι)} {v : Visit κ ι} (hv : v ∈ met)
    (h : Retraced out roots met) :
    Retraced out roots (met ++ fresh inside v (met.map Visit.node) (out v.node)) := by
  constructor
  · intro w hw
    cases List.mem_append.1 hw with
    | inl hold => exact h.trailed w hold
    | inr hnew =>
      obtain ⟨label, hedge, hw⟩ := find?_of_mem_fresh hnew
      have hchain : w.node ∉ v.chain := fun hmem =>
        (inside_and_not_mem_of_mem_fresh hnew).2 (h.chain_met v hv _ hmem)
      rw [hw]
      exact .follow (h.trailed v hv) hchain hedge
  · intro w hw k hk
    rw [List.map_append]
    cases List.mem_append.1 hw with
    | inl hold => exact List.mem_append_left _ (h.chain_met w hold k hk)
    | inr hnew =>
      obtain ⟨label, _, hfollow⟩ := find?_of_mem_fresh hnew
      rw [hfollow, Visit.chain_follow] at hk
      cases List.mem_append.1 hk with
      | inl hbefore => exact List.mem_append_left _ (h.chain_met v hv k hbefore)
      | inr hlast =>
        rw [List.mem_singleton.1 hlast]
        exact List.mem_append_right _ (List.mem_map_of_mem hnew)

theorem trailed_of_stop {v : Visit κ ι}
    (h : (search out halt inside bounded roots).stop = some v) : Trailed out roots v := by
  have hstep : ∀ (done : List (Visit κ ι)) v rest, halt v.node = false →
      Retraced out roots (done ++ v :: rest) →
      Retraced out roots ((done ++ [v]) ++
        (rest ++ fresh inside v ((done ++ v :: rest).map Visit.node) (out v.node))) := by
    intro done v rest _ hmet
    rw [visited_append]
    exact retraced_fresh (by simp) hmet
  obtain ⟨rest, hmet, hstop, _⟩ := @explore_induction κ ι _ out halt inside bounded
    (fun done pending => Retraced out roots (done ++ pending)) hstep [] _ (retraced_roots roots)
  have hv : v ∈ rest := List.mem_of_head? (hstop.symm.trans h)
  exact hmet.trailed v (List.mem_append_right _ hv)

theorem layered_roots (roots : List κ) :
    Layered out inside roots [] (roots.eraseDups.map Visit.root) := by
  have hdepth : ∀ v ∈ roots.eraseDups.map (Visit.root : κ → Visit κ ι), v.depth = 0 := by
    intro v hv
    obtain ⟨root, _, rfl⟩ := List.mem_map.1 hv
    rfl
  refine ⟨?_, by simp, pairwise_depth hdepth, ?_⟩
  · intro root hroot
    exact ⟨.root root, List.mem_map_of_mem (List.mem_eraseDups.2 hroot), rfl, rfl⟩
  · intro v hv w _
    exact hdepth v hv ▸ Nat.zero_le _

theorem layered_step (done : List (Visit κ ι)) (v : Visit κ ι) (rest : List (Visit κ ι))
    (_ : halt v.node = false) (h : Layered out inside roots done (v :: rest)) :
    Layered out inside roots (done ++ [v])
      (rest ++ fresh inside v ((done ++ v :: rest).map Visit.node) (out v.node)) := by
  -- All that was met lies at most one level below `v`, and what is met now lies just there.
  have hold : ∀ w ∈ done ++ v :: rest, w.depth ≤ v.depth + 1 :=
    fun w hw => h.near w hw v List.mem_cons_self
  have hnew : ∀ w ∈ fresh inside v ((done ++ v :: rest).map Visit.node) (out v.node),
      w.depth = v.depth + 1 := by
    intro w hw
    obtain ⟨label, _, hfollow⟩ := exists_label_of_mem_fresh hw
    rw [hfollow, Visit.depth_follow]
  have hrest : ∀ w ∈ rest, v.depth ≤ w.depth :=
    (List.pairwise_cons.1 (List.pairwise_append.1 h.sorted).2.1).1
  refine ⟨?_, ?_, ?_, ?_⟩
  · rw [visited_append]
    intro root hroot
    obtain ⟨w, hw, hmet⟩ := h.roots_met root hroot
    exact ⟨w, List.mem_append_left _ hw, hmet⟩
  · rw [visited_append]
    intro u hu label k hk hin
    cases List.mem_append.1 hu with
    | inl hdone =>
      obtain ⟨w, hw, hmet⟩ := h.closed u hdone label k hk hin
      exact ⟨w, List.mem_append_left _ hw, hmet⟩
    | inr hlast =>
      obtain rfl := List.mem_singleton.1 hlast
      cases mem_seen_or_fresh (v := u) hk hin with
      | inl hseen =>
        obtain ⟨w, hw, hnode⟩ := List.mem_map.1 hseen
        exact ⟨w, List.mem_append_left _ hw, hnode, hold w hw⟩
      | inr hfresh =>
        obtain ⟨w, hw, hnode⟩ := List.mem_map.1 hfresh
        exact ⟨w, List.mem_append_right _ hw, hnode, (hnew w hw).le⟩
  · rw [visited_append]
    exact List.pairwise_append.2
      ⟨h.sorted, pairwise_depth hnew, fun u hu w hw => hnew w hw ▸ hold u hu⟩
  · rw [visited_append]
    intro u hu w hw
    have hu' : u.depth ≤ v.depth + 1 := by
      cases List.mem_append.1 hu with
      | inl hmet => exact hold u hmet
      | inr hfresh => exact (hnew u hfresh).le
    cases List.mem_append.1 hw with
    | inl hpending => exact hu'.trans (Nat.succ_le_succ (hrest w hpending))
    | inr hfresh => exact hnew w hfresh ▸ hu'.trans (Nat.le_succ _)

/-- Where the searched part leaves out nothing that can be reached, no node that could stop the search is
nearer to the roots than the one that does. -/
theorem depth_le_of_stop {v : Visit κ ι}
    (h : (search out halt inside bounded roots).stop = some v)
    (hinside : ∀ node, Reached out roots node → inside node = true ∨ node ∈ roots) {n : Nat} {k : κ}
    (hk : ReachedIn out roots n k) (hhalt : halt k = true) : v.depth ≤ n := by
  obtain ⟨rest, hlayered, hstop, _⟩ := @explore_induction κ ι _ out halt inside bounded
    (Layered out inside roots) layered_step _ _ (layered_roots roots)
  have hrest : rest.head? = some v := hstop.symm.trans h
  cases hlayered.depth_le hinside hk with
  | inl hvisited =>
    obtain ⟨w, hw, rfl, _⟩ := hvisited
    have hfalse : halt w.node = false := halt_eq_false_of_mem_visits hw
    exact absurd hhalt (by simp [hfalse])
  | inr hpending =>
    obtain ⟨w, hw, hdepth⟩ := hpending
    obtain ⟨tail, rfl⟩ := List.head?_eq_some_iff.1 hrest
    have hsorted := (List.pairwise_append.1 hlayered.sorted).2.1
    cases List.mem_cons.1 hw with
    | inl heq => exact heq ▸ hdepth
    | inr htail => exact ((List.pairwise_cons.1 hsorted).1 w htail).trans hdepth

end GenericTuring.Search
