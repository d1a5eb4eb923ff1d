import Mathlib

/-!
# Depth-first walks

A walk visits the nodes of a graph depth first and never twice: it keeps the nodes it has visited,
over any number of starting points. It puts out each node when it enters it (pre-order) or when it
leaves it (post-order). The graph need not be acyclic.

`visit` is the walk with fuel, `Visits` the same walk as a relation, by which the facts are proved:
the nodes visited are the reachable ones, a post-order of an acyclic graph has each node after
all its descendants, and in a pre-order each node comes after a node it is a child of.
-/

namespace OpenBitFun

open List

namespace DepthFirst

universe u

variable {α : Type u}

/-- What a walk has visited, the latest first, and what it has put out. -/
structure Walk (α : Type u) where
  visited : List α
  ordered : List α

/-- The walk that has not begun. -/
def Walk.start : Walk α := ⟨[], []⟩

section

variable [DecidableEq α] (children : α → List α) (enter leave : List α → α → List α)

/-- Visits a node. -/
def visit : (fuel : ℕ) → Walk α → α → Option (Walk α)
  | 0, _, _ => none
  | fuel + 1, w, x =>
    if x ∈ w.visited then some w
    else ((children x).foldlM (visit fuel) ⟨x :: w.visited, enter w.ordered x⟩).map fun w =>
      { w with ordered := leave w.ordered x }

/-- Visits some nodes, one after the other. -/
def visitAll (fuel : ℕ) (w : Walk α) (xs : List α) : Option (Walk α) :=
  xs.foldlM (visit children enter leave fuel) w

end

/-- Puts a node out. -/
def emit (ordered : List α) (x : α) : List α := ordered ++ [x]

/-- Puts nothing out. -/
def skip (ordered : List α) (_ : α) : List α := ordered

section

variable (children : α → List α) (enter leave : List α → α → List α)

/-- A walk that visits some nodes, one after the other. -/
inductive Visits : Walk α → List α → Walk α → Prop
  | nil {w} : Visits w [] w
  | seen {w w' x xs} (hx : x ∈ w.visited) (hrest : Visits w xs w') : Visits w (x :: xs) w'
  | fresh {w w₁ w' x xs} (hx : x ∉ w.visited)
    (hbelow : Visits ⟨x :: w.visited, enter w.ordered x⟩ (children x) w₁)
    (hrest : Visits { w₁ with ordered := leave w₁.ordered x } xs w') : Visits w (x :: xs) w'

/-- One node is a child of the other. -/
def Child (x y : α) : Prop := y ∈ children x

/-- No node is its own descendant. -/
def Acyclic : Prop := ∀ x, ¬Relation.TransGen (Child children) x x

end

variable {children : α → List α} {enter leave : List α → α → List α} {w w' : Walk α} {x : α}
  {xs : List α}

/-! ## The walk with fuel -/

section Fuel

variable [DecidableEq α]

theorem visits_of_visitAll (fuel : ℕ) : ∀ {w w' : Walk α} {xs : List α},
    visitAll children enter leave fuel w xs = some w' → Visits children enter leave w xs w' := by
  induction fuel with
  | zero =>
    intro w w' xs h
    cases xs with
    | nil => cases h; exact .nil
    | cons => cases h
  | succ fuel ih =>
    intro w w' xs h
    induction xs generalizing w with
    | nil => cases h; exact .nil
    | cons x xs ihxs =>
      rw [visitAll, foldlM_cons, Option.bind_eq_bind, Option.bind_eq_some_iff] at h
      obtain ⟨w₁, hvisit, hrest⟩ := h
      rw [visit] at hvisit
      split_ifs at hvisit with hx
      · cases hvisit
        exact .seen hx (ihxs hrest)
      · obtain ⟨w₂, hbelow, rfl⟩ := Option.map_eq_some_iff.1 hvisit
        exact .fresh hx (ih hbelow) (ihxs hrest)

/-- The nodes that are not visited yet. -/
def unvisited (nodes : List α) (w : Walk α) : List α := nodes.filter fun x => x ∉ w.visited

theorem length_unvisited_le (nodes : List α) (hsub : w.visited ⊆ w'.visited) :
    (unvisited nodes w').length ≤ (unvisited nodes w).length := by
  rw [unvisited, unvisited, ← countP_eq_length_filter, ← countP_eq_length_filter]
  refine countP_mono_left fun x _ hx => ?_
  simp only [decide_eq_true_eq] at hx ⊢
  exact fun hseen => hx (hsub hseen)

/-- Entering a new node leaves one node fewer. -/
theorem length_unvisited_lt {nodes : List α} (hx : x ∈ nodes) (hnew : x ∉ w.visited)
    (ordered : List α) :
    (unvisited nodes ⟨x :: w.visited, ordered⟩).length < (unvisited nodes w).length := by
  have hfilter : unvisited nodes ⟨x :: w.visited, ordered⟩ =
      (unvisited nodes w).filter fun y => y ≠ x := by
    rw [unvisited, unvisited, filter_filter]
    refine filter_congr fun y _ => ?_
    simp only [mem_cons, not_or, Bool.decide_and]
  rw [hfilter, length_filter_lt_length_iff_exists]
  refine ⟨x, mem_filter.2 ⟨hx, by simpa using hnew⟩, by simp⟩

/-- With more fuel than nodes, the walk comes to an end. -/
theorem exists_visitAll {nodes : List α} (hclosed : ∀ x ∈ nodes, ∀ y ∈ children x, y ∈ nodes)
    (fuel : ℕ) : ∀ {w : Walk α} {xs : List α}, xs ⊆ nodes → (unvisited nodes w).length < fuel →
      ∃ w', visitAll children enter leave fuel w xs = some w' ∧ w.visited ⊆ w'.visited := by
  induction fuel with
  | zero => exact fun _ h => absurd h (Nat.not_lt_zero _)
  | succ fuel ih =>
    intro w xs hxs hfuel
    induction xs generalizing w with
    | nil => exact ⟨w, rfl, List.Subset.refl _⟩
    | cons x xs ihxs =>
      obtain ⟨hx, hxs⟩ := cons_subset.1 hxs
      have hstep : ∃ w₁, visit children enter leave (fuel + 1) w x = some w₁ ∧
          w.visited ⊆ w₁.visited := by
        rw [visit]
        split_ifs with hseen
        · exact ⟨w, rfl, List.Subset.refl _⟩
        · -- One node fewer is unvisited below.
          have hless := length_unvisited_lt hx hseen (enter w.ordered x)
          obtain ⟨w₁, hbelow, hsub⟩ := ih (w := ⟨x :: w.visited, enter w.ordered x⟩)
            (hclosed x hx) (by omega)
          refine ⟨_, by rw [visitAll] at hbelow; rw [hbelow]; rfl, ?_⟩
          exact fun y hy => hsub (mem_cons_of_mem _ hy)
      obtain ⟨w₁, hvisit, hsub⟩ := hstep
      have hless := length_unvisited_le nodes hsub
      obtain ⟨w', hrest, hsub'⟩ := ihxs (w := w₁) hxs (by omega)
      refine ⟨w', ?_, fun y hy => hsub' (hsub hy)⟩
      rw [visitAll, foldlM_cons, hvisit]
      exact hrest

end Fuel

/-! ## What is visited -/

/-- What visiting some nodes adds to the visited ones. -/
structure Added (children : α → List α) (visited xs visited' added : List α) : Prop where
  eq : visited' = added ++ visited
  nodup : added.Nodup
  fresh : ∀ x ∈ added, x ∉ visited
  /-- All that is added can be reached. -/
  reachable : ∀ y ∈ added, ∃ x ∈ xs, Relation.ReflTransGen (Child children) x y
  visits : ∀ x ∈ xs, x ∈ visited'
  /-- The children of all that is added are visited. -/
  closed : ∀ x ∈ added, ∀ y ∈ children x, y ∈ visited'

theorem Visits.added (h : Visits children enter leave w xs w') :
    ∃ added, Added children w.visited xs w'.visited added := by
  induction h with
  | nil =>
    exact ⟨[], rfl, nodup_nil, by simp, by simp, by simp, by simp⟩
  | seen hx _ ih =>
    obtain ⟨added, h⟩ := ih
    refine ⟨added, h.eq, h.nodup, h.fresh, fun y hy => ?_, fun y hy => ?_, h.closed⟩
    · obtain ⟨x, hx, hreach⟩ := h.reachable y hy
      exact ⟨x, mem_cons_of_mem _ hx, hreach⟩
    · rcases mem_cons.1 hy with rfl | hy
      · rw [h.eq]
        exact mem_append_right _ hx
      · exact h.visits y hy
  | @fresh w w₁ w' x xs hx _ _ ihbelow ihrest =>
    obtain ⟨below, hbelow⟩ := ihbelow
    obtain ⟨rest, hrest⟩ := ihrest
    have heq : w'.visited = (rest ++ below ++ [x]) ++ w.visited := by
      rw [hrest.eq]
      dsimp only
      rw [hbelow.eq]
      simp
    have hsub : w₁.visited ⊆ w'.visited := hrest.eq ▸ subset_append_right _ _
    have hbelow' : w₁.visited = below ++ x :: w.visited := hbelow.eq
    refine ⟨_, heq, ?_, ?_, ?_, ?_, ?_⟩
    · -- What is added below is new below, and what is added afterwards is new then.
      have hx' : x ∉ below := fun hmem => hbelow.fresh x hmem mem_cons_self
      rw [append_assoc, nodup_append']
      refine ⟨hrest.nodup, ?_, fun y hy hy' => hrest.fresh y hy ?_⟩
      · rw [← concat_eq_append, nodup_concat]
        exact ⟨hx', hbelow.nodup⟩
      · rw [hbelow']
        rcases mem_append.1 hy' with hy' | hy'
        · exact mem_append_left _ hy'
        · rw [mem_singleton.1 hy']
          exact mem_append_right _ mem_cons_self
    · intro y hy hold
      rcases mem_append.1 hy with hy | hy
      · rcases mem_append.1 hy with hy | hy
        · refine hrest.fresh y hy ?_
          rw [hbelow']
          exact mem_append_right _ (mem_cons_of_mem _ hold)
        · exact hbelow.fresh y hy (mem_cons_of_mem _ hold)
      · rw [mem_singleton.1 hy] at hold
        exact hx hold
    · intro y hy
      rcases mem_append.1 hy with hy | hy
      · rcases mem_append.1 hy with hy | hy
        · obtain ⟨z, hz, hreach⟩ := hrest.reachable y hy
          exact ⟨z, mem_cons_of_mem _ hz, hreach⟩
        · obtain ⟨z, hz, hreach⟩ := hbelow.reachable y hy
          exact ⟨x, mem_cons_self, .head hz hreach⟩
      · rw [mem_singleton.1 hy]
        exact ⟨x, mem_cons_self, .refl⟩
    · intro y hy
      rcases mem_cons.1 hy with rfl | hy
      · rw [heq]
        simp
      · exact hrest.visits y hy
    · intro y hy
      rcases mem_append.1 hy with hy | hy
      · rcases mem_append.1 hy with hy | hy
        · exact hrest.closed y hy
        · exact fun z hz => hsub (hbelow.closed y hy z hz)
      · rw [mem_singleton.1 hy]
        exact fun z hz => hsub (hbelow.visits z hz)

/-- A walk from the start visits exactly what can be reached. -/
theorem mem_visited (h : Visits children enter leave .start xs w) {y : α} :
    y ∈ w.visited ↔ ∃ x ∈ xs, Relation.ReflTransGen (Child children) x y := by
  obtain ⟨added, hadded⟩ := h.added
  have heq : w.visited = added := hadded.eq.trans (append_nil _)
  refine ⟨fun hy => hadded.reachable y (heq ▸ hy), ?_⟩
  rintro ⟨x, hx, hreach⟩
  induction hreach with
  | refl => exact hadded.visits x hx
  | tail _ hchild ih => exact hadded.closed _ (heq ▸ ih) _ hchild

theorem nodup_visited (h : Visits children enter leave .start xs w) : w.visited.Nodup := by
  obtain ⟨added, hadded⟩ := h.added
  rw [hadded.eq]
  exact (append_nil added).symm ▸ hadded.nodup

/-! ## Pre-order -/

/-- Every node is a starting point or a child of a node visited before it. -/
def Discovered (children : α → List α) (starts : List α) : (visited : List α) → Prop
  | [] => True
  | x :: visited =>
    (x ∈ starts ∨ ∃ y ∈ visited, Child children y x) ∧ Discovered children starts visited

theorem Visits.discovered {starts : List α} (h : Visits children enter leave w xs w') :
    Discovered children starts w.visited →
      (∀ x ∈ xs, x ∈ starts ∨ ∃ y ∈ w.visited, Child children y x) →
        Discovered children starts w'.visited := by
  induction h with
  | nil => exact fun h _ => h
  | seen _ _ ih =>
    exact fun h hxs => ih h fun y hy => hxs y (mem_cons_of_mem _ hy)
  | @fresh w w₁ w' x xs _ hvisits _ ihbelow ihrest =>
    intro h hxs
    have hbelow := ihbelow ⟨hxs x mem_cons_self, h⟩
      fun y hy => Or.inr ⟨x, mem_cons_self, hy⟩
    refine ihrest hbelow fun y hy => ?_
    obtain ⟨added, hadded⟩ := hvisits.added
    refine (hxs y (mem_cons_of_mem _ hy)).imp_right fun ⟨z, hz, hchild⟩ => ⟨z, ?_, hchild⟩
    dsimp only
    rw [hadded.eq]
    exact mem_append_right _ (mem_cons_of_mem _ hz)

/-- In a pre-order the nodes are put out as they are visited. -/
theorem ordered_of_preOrder (h : Visits children emit skip w xs w') :
    w.ordered = w.visited.reverse → w'.ordered = w'.visited.reverse := by
  induction h with
  | nil => exact fun h => h
  | seen _ _ ih => exact ih
  | fresh _ _ _ ihbelow ihrest =>
    intro h
    refine ihrest (ihbelow ?_)
    rw [emit, reverse_cons, h]

/-- Where a node has one parent and the starting points have none, a walk visits each node after
its parent. -/
theorem Discovered.pairwise {starts visited : List α} (h : Discovered children starts visited)
    (hnodup : visited.Nodup)
    (hunique : ∀ x y z, Child children x z → Child children y z → x = y)
    (hstarts : ∀ x ∈ starts, ∀ y ∈ visited, ¬Child children y x) :
    visited.Pairwise fun later earlier => ¬Child children later earlier := by
  induction visited with
  | nil => exact .nil
  | cons x visited ih =>
    obtain ⟨hx, hnodup⟩ := nodup_cons.1 hnodup
    refine .cons (fun y hy hchild => ?_) (ih h.2 hnodup fun z hz y hy =>
      hstarts z hz y (mem_cons_of_mem _ hy))
    -- `y` was discovered from an earlier node, and that one is its only parent.
    obtain ⟨before, after, rfl⟩ := append_of_mem hy
    have hdiscovered : ∀ {before}, Discovered children starts (before ++ y :: after) →
        y ∈ starts ∨ ∃ z ∈ after, Child children z y := by
      intro before h
      induction before with
      | nil => exact h.1
      | cons _ _ ih => exact ih h.2
    rcases hdiscovered h.2 with hstart | ⟨z, hz, hparent⟩
    · exact hstarts y hstart x mem_cons_self hchild
    · rw [hunique z x y hparent hchild] at hz
      exact hx (mem_append_right _ (mem_cons_of_mem _ hz))

/-! ## Post-order -/

/-- A post-order has put out what is visited, except for the nodes it is still below. -/
theorem perm_of_postOrder (h : Visits children skip emit w xs w') :
    ∀ stack : List α, (w.ordered ++ stack).Perm w.visited →
      (w'.ordered ++ stack).Perm w'.visited := by
  induction h with
  | nil => exact fun _ h => h
  | seen _ _ ih => exact ih
  | @fresh w w₁ w' x xs _ _ _ ihbelow ihrest =>
    intro stack h
    refine ihrest stack ?_
    have hbelow := ihbelow (x :: stack) (perm_middle.trans (h.cons x))
    simpa only [emit, append_assoc, singleton_append] using hbelow

/-- Each node comes after its children. -/
inductive BottomUp (children : α → List α) : List α → Prop
  | nil : BottomUp children []
  | snoc {l x} (h : BottomUp children l) (hx : ∀ y ∈ children x, y ∈ l) :
    BottomUp children (l ++ [x])

theorem BottomUp.closed {l : List α} (h : BottomUp children l) :
    ∀ x ∈ l, ∀ y ∈ children x, y ∈ l := by
  induction h with
  | nil => exact fun x hx => absurd hx (not_mem_nil)
  | snoc _ hx ih =>
    intro y hy z hz
    refine mem_append_left _ ?_
    rcases mem_append.1 hy with hy | hy
    · exact ih y hy z hz
    · rw [mem_singleton.1 hy] at hz
      exact hx z hz

/-- Then each node comes after all its descendants. -/
theorem BottomUp.pairwise {l : List α} (h : BottomUp children l) :
    l.Nodup → l.Pairwise fun earlier later =>
      ¬Relation.TransGen (Child children) earlier later := by
  induction h with
  | nil => exact fun _ => .nil
  | @snoc l x h _ ih =>
    intro hnodup
    rw [nodup_append'] at hnodup
    refine pairwise_append.2 ⟨ih hnodup.1, pairwise_singleton _ _, ?_⟩
    intro y hy z hz hdescendant
    have hmem : z ∈ l := by
      clear hz
      induction hdescendant with
      | single hchild => exact h.closed y hy _ hchild
      | tail _ hchild ih => exact h.closed _ ih _ hchild
    exact hnodup.2.2 hmem hz

theorem bottomUp_of_postOrder (hacyclic : Acyclic children)
    (h : Visits children skip emit w xs w') :
    ∀ stack : List α, (w.ordered ++ stack).Perm w.visited →
      (∀ above ∈ stack, ∀ x ∈ xs, Relation.TransGen (Child children) above x) →
        BottomUp children w.ordered → BottomUp children w'.ordered := by
  induction h with
  | nil => exact fun _ _ _ h => h
  | seen _ _ ih =>
    exact fun stack hperm habove => ih stack hperm fun above hmem x hx =>
      habove above hmem x (mem_cons_of_mem _ hx)
  | @fresh w w₁ w' x xs _ hvisits _ ihbelow ihrest =>
    intro stack hperm habove h
    have hperm' : (w.ordered ++ x :: stack).Perm (x :: w.visited) :=
      perm_middle.trans (hperm.cons x)
    have habove' : ∀ above ∈ x :: stack, ∀ y ∈ children x,
        Relation.TransGen (Child children) above y := by
      intro above hmem y hy
      rcases mem_cons.1 hmem with rfl | hmem
      · exact .single hy
      · exact .tail (habove above hmem x mem_cons_self) hy
    have hbelow := ihbelow (x :: stack) hperm' habove' h
    have hfinished := perm_of_postOrder hvisits (x :: stack) hperm'
    refine ihrest stack ?_ (fun above hmem y hy =>
      habove above hmem y (mem_cons_of_mem _ hy)) (.snoc hbelow fun y hy => ?_)
    · simpa only [emit, append_assoc, singleton_append] using hfinished
    · -- A child is visited, and it is not above: that would be a cycle.
      obtain ⟨added, hadded⟩ := hvisits.added
      rcases mem_append.1 (hfinished.mem_iff.2 (hadded.visits y hy)) with hmem | hmem
      · exact hmem
      · exact absurd (habove' y hmem y hy) (hacyclic y)

end DepthFirst

end OpenBitFun
