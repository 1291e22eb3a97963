/-!
Breadth-first search in a graph whose edges carry labels. Nodes are visited once each, in the order in
which they are first met, and a visit remembers the edges that led to it. The search keeps to a part of
the graph that a finite list covers; the list itself is never computed.
-/

namespace GenericTuring.Search

variable {κ ι : Type}

/-- A node together with the edges that led to it, the last one first. An edge is given by the node it
leaves and its label. -/
structure Visit (κ ι : Type) where
  node : κ
  trail : List (κ × ι)

namespace Visit

def root (node : κ) : Visit κ ι := ⟨node, []⟩

def follow (v : Visit κ ι) (label : ι) (node : κ) : Visit κ ι := ⟨node, (v.node, label) :: v.trail⟩

def chain (v : Visit κ ι) : List κ := (v.trail.map Prod.fst).reverse ++ [v.node]

def labels (v : Visit κ ι) : List ι := (v.trail.map Prod.snd).reverse

end Visit

structure Found (κ ι : Type) where
  visits : List (Visit κ ι)
  stop : Option (Visit κ ι)

variable [DecidableEq κ]

def fresh (inside : κ → Bool) (v : Visit κ ι) (seen : List κ) : List (ι × κ) → List (Visit κ ι)
  | [] => []
  | (label, node) :: edges =>
    if inside node && !decide (node ∈ seen) then
      v.follow label node :: fresh inside v (seen ++ [node]) edges
    else fresh inside v seen edges

theorem inside_and_not_mem_of_mem_fresh {inside : κ → Bool} {v w : Visit κ ι} {seen : List κ}
    {edges : List (ι × κ)} (h : w ∈ fresh inside v seen edges) :
    inside w.node = true ∧ w.node ∉ seen := by
  fun_induction fresh inside v seen edges with
  | case1 => simp at h
  | case2 seen label node edges hnode ih =>
    rcases List.mem_cons.1 h with rfl | h
    · simpa [Visit.follow] using hnode
    · obtain ⟨hin, hseen⟩ := ih h
      exact ⟨hin, fun hmem => hseen (by simp [hmem])⟩
  | case3 seen label node edges _ ih => exact ih h

def unseen (nodes seen : List κ) : Nat := nodes.countP fun k => decide (k ∉ seen)

theorem unseen_le {nodes seen more : List κ} (h : ∀ k ∈ seen, k ∈ more) :
    unseen nodes more ≤ unseen nodes seen := by
  apply List.countP_mono_left
  intro k _ hk
  simp only [decide_eq_true_eq] at hk ⊢
  exact fun hmem => hk (h k hmem)

theorem unseen_lt {nodes seen more : List κ} {node : κ} (h : ∀ k ∈ seen, k ∈ more)
    (hnode : node ∈ nodes) (hseen : node ∉ seen) (hmore : node ∈ more) :
    unseen nodes more < unseen nodes seen := by
  obtain ⟨before, after, rfl⟩ := List.append_of_mem hnode
  have hb : unseen before more ≤ unseen before seen := unseen_le h
  have ha : unseen after more ≤ unseen after seen := unseen_le h
  simp only [unseen, List.countP_append, List.countP_cons] at hb ha ⊢
  simp only [hmore, hseen, not_true_eq_false, decide_false, not_false_eq_true, decide_true]
  simp only [Bool.false_eq_true, if_false, if_true]
  omega

/-- Visits the pending nodes and all that can be reached from them, until a node satisfies `halt`. -/
def explore (out : κ → List (ι × κ)) (halt inside : κ → Bool)
    (bounded : ∃ nodes : List κ, ∀ k, inside k = true → k ∈ nodes)
    (done pending : List (Visit κ ι)) : Found κ ι :=
  match pending with
  | [] => ⟨done, none⟩
  | v :: rest =>
    if halt v.node then ⟨done, some v⟩
    else
      let more := fresh inside v ((done ++ v :: rest).map Visit.node) (out v.node)
      explore out halt inside bounded (done ++ [v]) (rest ++ more)
termination_by (unseen bounded.choose ((done ++ pending).map Visit.node), pending.length)
decreasing_by
  have hsub : ∀ k ∈ (done ++ v :: rest).map Visit.node,
      k ∈ ((done ++ [v]) ++ (rest ++ more)).map Visit.node := by
    intro k hk
    simp only [List.mem_map, List.mem_append, List.mem_cons] at hk ⊢
    obtain ⟨w, hw, rfl⟩ := hk
    exact ⟨w, by grind, rfl⟩
  by_cases hmore : more = []
  · refine Prod.Lex.right' _ (unseen_le hsub) ?_
    show (rest ++ more).length < _
    simp [hmore]
  · obtain ⟨w, hw⟩ := List.exists_mem_of_ne_nil more hmore
    obtain ⟨hin, hseen⟩ := inside_and_not_mem_of_mem_fresh hw
    refine Prod.Lex.left _ _ (unseen_lt hsub (bounded.choose_spec _ hin) hseen ?_)
    exact List.mem_map_of_mem (List.mem_append_right _ (List.mem_append_right _ hw))

def search (out : κ → List (ι × κ)) (halt inside : κ → Bool)
    (bounded : ∃ nodes : List κ, ∀ k, inside k = true → k ∈ nodes) (roots : List κ) : Found κ ι :=
  explore out halt inside bounded [] (roots.eraseDups.map Visit.root)

end GenericTuring.Search
