import GenericTuring.Search
import Mathlib.Logic.Relation

/-!
What a breadth-first search finds. Every visited node is reached from a root; a search that does not
stop visits all that can be reached inside the searched part; and where nothing lies outside, the search
is the run of a plain work list, with no bound on what it may meet.
-/

namespace GenericTuring.Search

variable {κ ι : Type}

theorem map_node_root (roots : List κ) :
    (roots.map (Visit.root : κ → Visit κ ι)).map Visit.node = roots := by
  simp [Visit.root, Function.comp_def]

/-- What has been met stays in place when a visit is done and more is met. -/
theorem visited_append (done : List (Visit κ ι)) (v : Visit κ ι) (rest more : List (Visit κ ι)) :
    done ++ [v] ++ (rest ++ more) = done ++ v :: rest ++ more := by
  simp

def Step (out : κ → List (ι × κ)) (a b : κ) : Prop := ∃ label, (label, b) ∈ out a

def Reached (out : κ → List (ι × κ)) (roots : List κ) (node : κ) : Prop :=
  ∃ root ∈ roots, Relation.ReflTransGen (Step out) root node

theorem Reached.root {out : κ → List (ι × κ)} {roots : List κ} {node : κ} (h : node ∈ roots) :
    Reached out roots node :=
  ⟨node, h, .refl⟩

theorem Reached.step {out : κ → List (ι × κ)} {roots : List κ} {a b : κ}
    (h : Reached out roots a) (hstep : Step out a b) : Reached out roots b := by
  obtain ⟨root, hroot, hpath⟩ := h
  exact ⟨root, hroot, hpath.tail hstep⟩

variable [DecidableEq κ] {out : κ → List (ι × κ)} {halt inside : κ → Bool}
  {bounded : ∃ nodes : List κ, ∀ k, inside k = true → k ∈ nodes}

/-- A node is met through the first edge that leads to it. -/
theorem find?_of_mem_fresh {v w : Visit κ ι} {seen : List κ} {edges : List (ι × κ)}
    (h : w ∈ fresh inside v seen edges) :
    ∃ label, edges.find? (fun e => decide (e.2 = w.node)) = some (label, w.node) ∧
      w = v.follow label w.node := by
  obtain ⟨hin, hseen⟩ := inside_and_not_mem_of_mem_fresh h
  fun_induction fresh inside v seen edges with
  | case1 => simp at h
  | case2 seen label node edges _ ih =>
    cases List.mem_cons.1 h with
    | inl heq => exact ⟨label, by simp [heq, Visit.follow], by simp [heq, Visit.follow]⟩
    | inr hmem =>
      have hlater := (inside_and_not_mem_of_mem_fresh hmem).2
      have hne : node ≠ w.node := by
        rintro rfl
        simp at hlater
      obtain ⟨l, hfind, hw⟩ := ih hmem hlater
      exact ⟨l, by simpa [hne] using hfind, hw⟩
  | case3 seen label node edges hskip ih =>
    have hne : node ≠ w.node := by
      rintro rfl
      simp [hin, hseen] at hskip
    obtain ⟨l, hfind, hw⟩ := ih h hseen
    exact ⟨l, by simpa [hne] using hfind, hw⟩

theorem exists_label_of_mem_fresh {v w : Visit κ ι} {seen : List κ} {edges : List (ι × κ)}
    (h : w ∈ fresh inside v seen edges) :
    ∃ label, (label, w.node) ∈ edges ∧ w = v.follow label w.node := by
  obtain ⟨label, hfind, hw⟩ := find?_of_mem_fresh h
  exact ⟨label, List.mem_of_find?_eq_some hfind, hw⟩

/-- A node inside the searched part that an edge leads to was met before or is met now. -/
theorem mem_seen_or_fresh {v : Visit κ ι} {seen : List κ} {edges : List (ι × κ)} {label : ι} {k : κ}
    (h : (label, k) ∈ edges) (hin : inside k = true) :
    k ∈ seen ∨ k ∈ (fresh inside v seen edges).map Visit.node := by
  fun_induction fresh inside v seen edges with
  | case1 => simp at h
  | case2 seen l node edges _ ih =>
    rcases List.mem_cons.1 h with heq | h
    · obtain ⟨rfl, rfl⟩ := Prod.mk.inj heq
      exact .inr (by simp [Visit.follow])
    · rcases ih h with hseen | hfresh
      · rcases List.mem_append.1 hseen with hseen | hnode
        · exact .inl hseen
        · exact .inr (by simp_all [Visit.follow])
      · exact .inr (by simp [hfresh])
  | case3 seen l node edges hskip ih =>
    rcases List.mem_cons.1 h with heq | h
    · obtain ⟨rfl, rfl⟩ := Prod.mk.inj heq
      exact .inl (by simpa [hin] using hskip)
    · exact ih h

theorem nodup_fresh (v : Visit κ ι) (seen : List κ) (edges : List (ι × κ)) :
    ((fresh inside v seen edges).map Visit.node).Nodup := by
  fun_induction fresh inside v seen edges with
  | case1 => simp
  | case2 seen label node edges _ ih =>
    refine List.nodup_cons.2 ⟨fun hmem => ?_, ih⟩
    obtain ⟨w, hw, hnode⟩ := List.mem_map.1 hmem
    refine (inside_and_not_mem_of_mem_fresh hw).2 ?_
    rw [hnode]
    simp [Visit.follow]
  | case3 seen label node edges _ ih => exact ih

/-- An induction over the search that carries a fact about the nodes visited and the nodes pending. -/
theorem explore_induction {P : List (Visit κ ι) → List (Visit κ ι) → Prop}
    (hstep : ∀ done v rest, halt v.node = false → P done (v :: rest) →
      P (done ++ [v]) (rest ++ fresh inside v ((done ++ v :: rest).map Visit.node) (out v.node)))
    {done pending : List (Visit κ ι)} (h : P done pending) :
    ∃ rest, P (explore out halt inside bounded done pending).visits rest ∧
      (explore out halt inside bounded done pending).stop = rest.head? ∧
      ∀ v ∈ rest.head?, halt v.node = true := by
  fun_induction explore out halt inside bounded done pending with
  | case1 done => exact ⟨[], h, rfl, by simp⟩
  | case2 done v rest hhalt => exact ⟨v :: rest, h, rfl, by simpa using hhalt⟩
  | case3 done v rest hhalt more ih =>
    exact ih (hstep done v rest (by simpa using hhalt) h)

/-- What holds all along a search: it has met its roots and whatever its visits lead to inside the
searched part, each node once, and nothing that cannot be reached. -/
structure Explored (out : κ → List (ι × κ)) (halt inside : κ → Bool) (roots : List κ)
    (done pending : List (Visit κ ι)) : Prop where
  reached : ∀ v ∈ done ++ pending, Reached out roots v.node
  running : ∀ v ∈ done, halt v.node = false
  roots_met : ∀ root ∈ roots, root ∈ (done ++ pending).map Visit.node
  closed : ∀ v ∈ done, ∀ label k, (label, k) ∈ out v.node → inside k = true →
    k ∈ (done ++ pending).map Visit.node
  nodup : ((done ++ pending).map Visit.node).Nodup

theorem explored_step {roots : List κ} (done : List (Visit κ ι)) (v : Visit κ ι)
    (rest : List (Visit κ ι)) (hhalt : halt v.node = false)
    (h : Explored out halt inside roots done (v :: rest)) :
    Explored out halt inside roots (done ++ [v])
      (rest ++ fresh inside v ((done ++ v :: rest).map Visit.node) (out v.node)) := by
  refine ⟨?_, ?_, ?_, ?_, ?_⟩
  · rw [visited_append]
    intro w hw
    rcases List.mem_append.1 hw with hw | hw
    · exact h.reached w hw
    · obtain ⟨label, hlabel, _⟩ := exists_label_of_mem_fresh hw
      exact (h.reached v (by simp)).step ⟨label, hlabel⟩
  · intro w hw
    rcases List.mem_append.1 hw with hw | hw
    · exact h.running w hw
    · rwa [List.mem_singleton.1 hw]
  · rw [visited_append, List.map_append]
    exact fun root hroot => List.mem_append_left _ (h.roots_met root hroot)
  · rw [visited_append, List.map_append]
    intro w hw label k hk hin
    rcases List.mem_append.1 hw with hw | hw
    · exact List.mem_append_left _ (h.closed w hw label k hk hin)
    · rw [List.mem_singleton.1 hw] at hk
      exact List.mem_append.2 (mem_seen_or_fresh hk hin)
  · rw [visited_append, List.map_append]
    refine List.nodup_append.2 ⟨h.nodup, nodup_fresh v _ _, ?_⟩
    rintro a ha b hb rfl
    obtain ⟨w, hw, rfl⟩ := List.mem_map.1 hb
    exact (inside_and_not_mem_of_mem_fresh hw).2 ha

theorem nodup_eraseDups (ks : List κ) : ks.eraseDups.Nodup := by
  match ks with
  | [] => simp
  | k :: ks =>
    have hlen := List.length_filter_le (fun b => !b == k) ks
    rw [List.eraseDups_cons]
    exact List.nodup_cons.2 ⟨by simp, nodup_eraseDups _⟩
termination_by ks.length
decreasing_by exact Nat.lt_succ_of_le hlen

theorem explored_roots (roots : List κ) :
    Explored out halt inside roots [] (roots.eraseDups.map Visit.root) := by
  refine ⟨?_, by simp, ?_, by simp, ?_⟩
  · intro v hv
    obtain ⟨root, hroot, rfl⟩ := List.mem_map.1 hv
    exact .root (List.mem_eraseDups.1 hroot)
  · intro root hroot
    rw [List.nil_append, map_node_root]
    exact List.mem_eraseDups.2 hroot
  · rw [List.nil_append, map_node_root]
    exact nodup_eraseDups roots

/-- Where a search ends: nothing is left, or what is left begins with a node that halts it. -/
theorem search_explored (out : κ → List (ι × κ)) (halt inside : κ → Bool)
    (bounded : ∃ nodes : List κ, ∀ k, inside k = true → k ∈ nodes) (roots : List κ) :
    ∃ rest, Explored out halt inside roots (search out halt inside bounded roots).visits rest ∧
      (search out halt inside bounded roots).stop = rest.head? ∧
      ∀ v ∈ rest.head?, halt v.node = true :=
  explore_induction explored_step (explored_roots roots)

theorem reached_of_mem_visits {roots : List κ} {v : Visit κ ι}
    (h : v ∈ (search out halt inside bounded roots).visits) : Reached out roots v.node := by
  obtain ⟨rest, hexp, _⟩ := search_explored out halt inside bounded roots
  exact hexp.reached v (List.mem_append_left rest h)

theorem reached_and_halt_of_stop {roots : List κ} {v : Visit κ ι}
    (h : (search out halt inside bounded roots).stop = some v) :
    Reached out roots v.node ∧ halt v.node = true := by
  obtain ⟨rest, hexp, hstop, hhalt⟩ := search_explored out halt inside bounded roots
  rw [h] at hstop
  have hv : v ∈ rest := List.mem_of_head? hstop.symm
  exact ⟨hexp.reached v (List.mem_append_right _ hv), hhalt v hstop.symm⟩

theorem halt_eq_false_of_mem_visits {roots : List κ} {v : Visit κ ι}
    (h : v ∈ (search out halt inside bounded roots).visits) : halt v.node = false := by
  obtain ⟨rest, hexp, _⟩ := search_explored out halt inside bounded roots
  exact hexp.running v h

def Traced (out : κ → List (ι × κ)) (roots : List κ) (visits : List (Visit κ ι)) (v : Visit κ ι) : Prop :=
  (∃ root ∈ roots, v = .root root) ∨
    ∃ w ∈ visits, ∃ label, (label, v.node) ∈ out w.node ∧ v = w.follow label v.node

theorem traced_search {roots : List κ} {v : Visit κ ι}
    (h : v ∈ (search out halt inside bounded roots).visits ++
      (search out halt inside bounded roots).stop.toList) :
    Traced out roots (search out halt inside bounded roots).visits v := by
  have hstep : ∀ (done : List (Visit κ ι)) v rest, halt v.node = false →
      (∀ w ∈ done ++ v :: rest, Traced out roots done w) →
      ∀ w ∈ (done ++ [v]) ++ (rest ++ fresh inside v ((done ++ v :: rest).map Visit.node)
        (out v.node)), Traced out roots (done ++ [v]) w := by
    intro done v rest _ ih w hw
    rw [visited_append] at hw
    cases List.mem_append.1 hw with
    | inl hold =>
      refine (ih w hold).imp_right fun hfollow => ?_
      obtain ⟨u, hu, hlabel⟩ := hfollow
      exact ⟨u, List.mem_append_left _ hu, hlabel⟩
    | inr hfresh =>
      obtain ⟨label, hlabel, hfollow⟩ := exists_label_of_mem_fresh hfresh
      exact .inr ⟨v, by simp, label, hlabel, hfollow⟩
  have hroots : ∀ w ∈ [] ++ roots.eraseDups.map (Visit.root : κ → Visit κ ι),
      Traced out roots [] w := by
    intro w hw
    obtain ⟨root, hroot, rfl⟩ := List.mem_map.1 hw
    exact .inl ⟨root, List.mem_eraseDups.1 hroot, rfl⟩
  obtain ⟨rest, htraced, hrest, _⟩ := @explore_induction κ ι _ out halt inside bounded
    (fun done pending => ∀ w ∈ done ++ pending, Traced out roots done w) hstep _ _ hroots
  refine htraced v ?_
  cases List.mem_append.1 h with
  | inl hvisit => exact List.mem_append_left _ hvisit
  | inr hstop =>
    have hfound : (search out halt inside bounded roots).stop = some v := by simpa using hstop
    exact List.mem_append_right _ (List.mem_of_head? (hrest.symm.trans hfound))

/-- A search that does not stop visits its roots first. -/
theorem roots_prefix_of_exhausted {roots : List κ}
    (hstop : (search out halt inside bounded roots).stop = none) :
    roots.eraseDups <+: (search out halt inside bounded roots).visits.map Visit.node := by
  have hstep : ∀ (done : List (Visit κ ι)) v rest, halt v.node = false →
      roots.eraseDups <+: (done ++ v :: rest).map Visit.node →
      roots.eraseDups <+: ((done ++ [v]) ++ (rest ++ fresh inside v
        ((done ++ v :: rest).map Visit.node) (out v.node))).map Visit.node := by
    intro done v rest _ h
    refine h.trans ?_
    simp [List.map_append, List.prefix_append_right_inj]
  have hnodes : ([] ++ roots.eraseDups.map (Visit.root : κ → Visit κ ι)).map Visit.node =
      roots.eraseDups := by
    rw [List.nil_append, map_node_root]
  have hroots : roots.eraseDups <+:
      ([] ++ roots.eraseDups.map (Visit.root : κ → Visit κ ι)).map Visit.node :=
    hnodes.symm ▸ List.prefix_rfl
  obtain ⟨rest, hprefix, hrest, _⟩ := @explore_induction κ ι _ out halt inside bounded
    (fun done pending => roots.eraseDups <+: (done ++ pending).map Visit.node) hstep _ _ hroots
  have hnil : rest = [] := List.head?_eq_none_iff.1 (hrest.symm.trans hstop)
  rw [hnil, List.append_nil] at hprefix
  exact hprefix

theorem nodup_visits {roots : List κ} :
    ((search out halt inside bounded roots).visits.map Visit.node).Nodup := by
  obtain ⟨rest, hexp, _⟩ := search_explored out halt inside bounded roots
  have hnodup := hexp.nodup
  rw [List.map_append] at hnodup
  exact (List.nodup_append.1 hnodup).1

/-- A search that does not stop visits whatever can be reached, if that lies in the searched part. -/
theorem mem_visits_of_reached {roots : List κ} {k : κ}
    (hstop : (search out halt inside bounded roots).stop = none)
    (hinside : ∀ node, Reached out roots node → inside node = true ∨ node ∈ roots)
    (h : Reached out roots k) :
    k ∈ (search out halt inside bounded roots).visits.map Visit.node := by
  obtain ⟨rest, hexp, hrest, _⟩ := search_explored out halt inside bounded roots
  rw [hstop, eq_comm, List.head?_eq_none_iff] at hrest
  subst hrest
  rw [← List.append_nil (search out halt inside bounded roots).visits]
  obtain ⟨root, hroot, hpath⟩ := h
  induction hpath with
  | refl => exact hexp.roots_met root hroot
  | @tail a b hpath hstep ih =>
    obtain ⟨v, hv, rfl⟩ := List.mem_map.1 ih
    obtain ⟨label, hlabel⟩ := hstep
    have hb : Reached out roots b := ⟨root, hroot, hpath.tail ⟨label, hlabel⟩⟩
    rcases hinside b hb with hin | hin
    · exact hexp.closed v (by simpa using hv) label b hlabel hin
    · exact hexp.roots_met b hin

inductive Runs (out : κ → List (ι × κ)) (halt : κ → Bool) :
    List (Visit κ ι) → List (Visit κ ι) → Found κ ι → Prop
  -- A work list run with no bound: the next node is visited, unless it halts the run, and what it leads
  -- to and was not met before is added at the end.
  | empty (done : List (Visit κ ι)) : Runs out halt done [] ⟨done, none⟩
  | halted {done : List (Visit κ ι)} {v : Visit κ ι} {rest : List (Visit κ ι)}
      (hhalt : halt v.node = true) : Runs out halt done (v :: rest) ⟨done, some v⟩
  | visited {done : List (Visit κ ι)} {v : Visit κ ι} {rest : List (Visit κ ι)} {found : Found κ ι}
      (hhalt : halt v.node = false)
      (hrun : Runs out halt (done ++ [v])
        (rest ++ fresh (fun _ => true) v ((done ++ v :: rest).map Visit.node) (out v.node)) found) :
      Runs out halt done (v :: rest) found

theorem fresh_eq_of_inside {v : Visit κ ι} {seen : List κ} {edges : List (ι × κ)}
    (h : ∀ label k, (label, k) ∈ edges → inside k = true) :
    fresh inside v seen edges = fresh (fun _ => true) v seen edges := by
  induction edges generalizing seen with
  | nil => rfl
  | cons edge edges ih =>
    obtain ⟨label, node⟩ := edge
    have hnode : inside node = true := h label node List.mem_cons_self
    have htail := fun l k hk => h l k (List.mem_cons_of_mem _ hk)
    simp only [fresh, hnode, ih htail]

/-- Where all that can be reached lies in the searched part, the bound on the search leaves nothing
out. -/
theorem runs_search {roots : List κ}
    (hinside : ∀ node, Reached out roots node → inside node = true) :
    Runs out halt [] (roots.eraseDups.map Visit.root) (search out halt inside bounded roots) := by
  suffices h : ∀ done pending : List (Visit κ ι), (∀ v ∈ pending, Reached out roots v.node) →
      Runs out halt done pending (explore out halt inside bounded done pending) from
    h [] _ (@explored_roots κ ι _ out halt inside roots).reached
  intro done pending hpending
  fun_induction explore out halt inside bounded done pending with
  | case1 done => exact .empty done
  | case2 done v rest hhalt => exact .halted hhalt
  | case3 done v rest hhalt more ih =>
    have hv : Reached out roots v.node := hpending v List.mem_cons_self
    refine .visited (by simpa using hhalt) ?_
    rw [← fresh_eq_of_inside fun label k hk => hinside k (hv.step ⟨label, hk⟩)]
    refine ih fun w hw => ?_
    rcases List.mem_append.1 hw with hw | hw
    · exact hpending w (List.mem_cons_of_mem v hw)
    · obtain ⟨label, hlabel, _⟩ := exists_label_of_mem_fresh hw
      exact hv.step ⟨label, hlabel⟩

end GenericTuring.Search
