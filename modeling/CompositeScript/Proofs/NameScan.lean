import CompositeScript.Proofs.Arguments
import CompositeScript.Proofs.Text

/-!
The scan for free names and the places of names.

Whether a node declares is settled on the path that leads to it from the root (`Tree.follow`). The
scan keeps a list of trees that wait instead, and takes them in some order. It ends, and in every
order it comes to the names that are referred to at the end of some path and declared at the end of
none.
-/

namespace CompositeScript.Fragment.Tree

/-! ## Paths -/

/-- Whether a child declares, its parent standing at a place that declares or not. Nothing is said
of the key of a pattern. -/
def flag (t : Tree) (declaring : Bool) (c : Tree) : Option Bool :=
  if t.declaresChild c then some true
  else if t.isInitialValue c then some false
  else if t.isPatternKey c then none
  else some declaring

/-- The node at the end of a path, which says at each node the number of the child to go to, and
whether it declares. No path leads through the key of a pattern. -/
def follow (t : Tree) (declaring : Bool) : (path : List Nat) → Option (Tree × Bool)
  | [] => some (t, declaring)
  | i :: path =>
    t.children[i]?.bind fun c => (t.flag declaring c).bind fun declaring => c.follow declaring path

/-- At the end of the path stands the name, declared or referred to, and on the way there is no
other. -/
structure OccursAt (t : Tree) (declaring : Bool) (path : List Nat) (n : Text)
    (declared : Bool) : Prop where
  atEnd : ∃ c, t.follow declaring path = some (c, declared) ∧ c.counts declared = true ∧ c.text = n
  onTheWay : ∀ {start c d}, start <+: path → start ≠ path →
    t.follow declaring start = some (c, d) → c.counts d = false

variable {t c : Tree} {d d' b : Bool} {n : Text} {i : Nat} {path : List Nat}

theorem follow_cons : t.follow d (i :: path) = some (c, b) ↔
    ∃ c' d', t.children[i]? = some c' ∧ t.flag d c' = some d' ∧
      c'.follow d' path = some (c, b) := by
  simp only [follow, Option.bind_eq_some_iff]
  constructor
  · rintro ⟨c', hc', d', hflag, hfollow⟩
    exact ⟨c', d', hc', hflag, hfollow⟩
  · rintro ⟨c', d', hc', hflag, hfollow⟩
    exact ⟨c', hc', d', hflag, hfollow⟩

theorem occursAt_nil (h : t.counts d = true) : t.OccursAt d [] t.text d where
  atEnd := ⟨t, rfl, h, rfl⟩
  onTheWay hstart hne _ := absurd (List.prefix_nil.mp hstart) hne

theorem OccursAt.cons (hcounts : t.counts d = false) (hc : t.children[i]? = some c)
    (hflag : t.flag d c = some d') (h : c.OccursAt d' path n b) : t.OccursAt d (i :: path) n b where
  atEnd := by
    obtain ⟨e, hfollow, he⟩ := h.atEnd
    exact ⟨e, follow_cons.mpr ⟨c, d', hc, hflag, hfollow⟩, he⟩
  onTheWay {start e d''} hstart hne hfollow := by
    cases start with
    | nil =>
      cases hfollow
      exact hcounts
    | cons j start =>
      obtain ⟨rfl, hrest⟩ := List.cons_prefix_cons.mp hstart
      obtain ⟨c', d₁, hc', hflag', hfollow'⟩ := follow_cons.mp hfollow
      cases hc.symm.trans hc'
      cases hflag.symm.trans hflag'
      exact h.onTheWay hrest (fun heq => hne (heq ▸ rfl)) hfollow'

theorem OccursAt.uncons (h : t.OccursAt d (i :: path) n b) : t.counts d = false ∧
    ∃ c d', t.children[i]? = some c ∧ t.flag d c = some d' ∧ c.OccursAt d' path n b := by
  refine ⟨h.onTheWay List.nil_prefix nofun rfl, ?_⟩
  obtain ⟨e, hfollow, he⟩ := h.atEnd
  obtain ⟨c, d', hc, hflag, hfollow⟩ := follow_cons.mp hfollow
  refine ⟨c, d', hc, hflag, ⟨e, hfollow, he⟩, ?_⟩
  intro start c' d'' hstart hne hfollow'
  exact h.onTheWay (List.cons_prefix_cons.mpr ⟨rfl, hstart⟩)
    (fun heq => hne (List.cons.inj heq).2) (follow_cons.mpr ⟨c, d', hc, hflag, hfollow'⟩)

/-- The occurrences are those at the ends of paths. -/
theorem occurs_iff_occursAt : t.Occurs d n b ↔ ∃ path, t.OccursAt d path n b := by
  constructor
  · intro h
    induction h with
    | here hcounts => exact ⟨[], occursAt_nil hcounts⟩
    | @inside t c d d' n b hcounts hc hplace _ ih =>
      obtain ⟨path, hpath⟩ := ih
      obtain ⟨i, hi⟩ := List.mem_iff_getElem?.mp hc
      exact ⟨i :: path, .cons hcounts hi ((childPlace_eq t c d).symm.trans hplace) hpath⟩
  · rintro ⟨path, h⟩
    induction path generalizing t d with
    | nil =>
      obtain ⟨c, hfollow, hcounts, rfl⟩ := h.atEnd
      cases hfollow
      exact .here hcounts
    | cons i path ih =>
      obtain ⟨hcounts, c, d', hc, hflag, hpath⟩ := h.uncons
      exact .inside hcounts (List.mem_of_getElem? hc) ((childPlace_eq t c d).trans hflag) (ih hpath)

/-! ## The result -/

/-- Which names are free depends on what was found, and not on when or how often. -/
theorem Names.free_congr {names names' : Names} (h : ∀ n b, n ∈ names.get b ↔ n ∈ names'.get b) :
    names.free = names'.free := by
  have hreferenced : ∀ n, n ∈ names.referenced ↔ n ∈ names'.referenced := fun n => h n false
  have hdeclared : ∀ n, n ∈ names.declared ↔ n ∈ names'.declared := fun n => h n true
  apply Text.sort_eraseDups_congr
  intro n
  simp [hreferenced, hdeclared]

/-- **The scan computes the free names.** The scan of a tree ends, and it does so in whatever order
the trees that wait are visited: no run has more steps than the tree has nodes, and a run stops only
when nothing waits. All runs that stop come to the same names, which are those that are referred to
at some place and declared at none. -/
theorem scan_computes_free_names (t : Tree) :
    (∃ k ≤ t.size, Scan.Runs k (.start t) ⟨[], t.names⟩) ∧
    (∀ k s, Scan.Runs k (.start t) s → k ≤ t.size ∧ (s.waiting ≠ [] → ∃ s', s.Step s') ∧
      (s.waiting = [] → s.names.free = t.freeNames)) ∧
    ∀ n, n ∈ t.freeNames ↔
      (∃ path, t.OccursAt false path n false) ∧ ¬ ∃ path, t.OccursAt false path n true := by
  have hsteps : ∀ {k s}, Scan.Runs k (.start t) s → k ≤ t.size := by
    intro k s hrun
    have hstart : waitingSize (Scan.start t).waiting = t.size := Nat.add_zero _
    have := hrun.waitingSize_le
    omega
  refine ⟨?_, ?_, ?_⟩
  · obtain ⟨k, hrun⟩ := names_runs t
    exact ⟨k, hsteps hrun, hrun⟩
  · intro k s hrun
    refine ⟨hsteps hrun, Scan.exists_step, fun hdone => ?_⟩
    obtain ⟨ws, names⟩ := s
    cases hdone
    apply Names.free_congr
    intro n b
    rw [hrun.mem_names, mem_names]
  · intro n
    rw [mem_freeNames, occurs_iff_occursAt, occurs_iff_occursAt]

end CompositeScript.Fragment.Tree
