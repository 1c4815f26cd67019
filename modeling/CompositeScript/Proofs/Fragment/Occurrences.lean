import CompositeScript.Proofs.Fragment.Scripts
import CompositeScript.Fragment.FreeNames
import Mathlib.Data.List.Basic

/-!
Occurrences of names.

Whether a name at some place of a tree declares or refers is settled on the path from the root. The
scan for free names finds these occurrences, all of them and no others, whatever the order in which
it visits the tree (`Scan.Step.finds`), so the free names are those that occur as a reference and
nowhere as a declaration (`mem_freeNames`).
-/

namespace CompositeScript.Fragment.Tree

/-- At a place that declares or not, the tree itself is a name that is counted. -/
def counts (declaring : Bool) (t : Tree) : Bool :=
  if declaring then t.isDeclaration else t.isReferring

/-- The name occurs in the tree, declared or referred to, where the tree stands at a place that
declares or not. -/
inductive Occurs : Tree → (declaring : Bool) → Text → (declared : Bool) → Prop
  | here {t : Tree} {d : Bool} : t.counts d = true → Occurs t d t.text d
  | inside {t c : Tree} {d d' : Bool} {n : Text} {b : Bool} : t.counts d = false →
      c ∈ t.children → t.childPlace d c = some d' → Occurs c d' n b → Occurs t d n b

variable {t c : Tree} {ts : List Tree} {n : Text} {b d : Bool}

theorem occurs_of_counts (h : t.counts d = true) : Occurs t d n b ↔ n = t.text ∧ b = d := by
  constructor
  · intro hoccurs
    cases hoccurs with
    | here => exact ⟨rfl, rfl⟩
    | inside h' => rw [h] at h'; exact absurd h' nofun
  · rintro ⟨rfl, rfl⟩
    exact .here h

theorem occurs_of_not_counts (h : t.counts d = false) : Occurs t d n b ↔
    ∃ c ∈ t.children, ∃ d', t.childPlace d c = some d' ∧ Occurs c d' n b := by
  constructor
  · intro hoccurs
    cases hoccurs with
    | here h' => rw [h] at h'; exact absurd h' nofun
    | inside _ hc hplace hoccurs => exact ⟨_, hc, _, hplace, hoccurs⟩
  · rintro ⟨c, hc, d', hplace, hoccurs⟩
    exact .inside h hc hplace hoccurs

theorem exists_visits : (∃ w ∈ t.visits d, Occurs w.1 w.2 n b) ↔
    ∃ c ∈ t.children, ∃ d', t.childPlace d c = some d' ∧ Occurs c d' n b := by
  simp only [visits, List.mem_filterMap, Option.map_eq_some_iff]
  constructor
  · rintro ⟨_, ⟨c, hc, d', hplace, rfl⟩, hoccurs⟩
    exact ⟨c, hc, d', hplace, hoccurs⟩
  · rintro ⟨c, hc, d', hplace, hoccurs⟩
    exact ⟨(c, d'), ⟨c, hc, d', hplace, rfl⟩, hoccurs⟩

/-! ## The scan -/

/-- The names found so far that declare, or those that refer. -/
def Names.get (names : Names) (declared : Bool) : List Text :=
  if declared then names.declared else names.referenced

/-- The names with one more among those that declare, or among those that refer. -/
def Names.add (names : Names) (declared : Bool) (n : Text) : Names :=
  if declared then { names with declared := n :: names.declared }
  else { names with referenced := n :: names.referenced }

theorem Names.mem_add {names : Names} {m : Text} :
    n ∈ (names.add d m).get b ↔ (n = m ∧ b = d) ∨ n ∈ names.get b := by
  cases d <;> cases b <;> simp [Names.add, Names.get]

/-- One step of the scan on the first of the trees that wait. -/
theorem collect_cons (steps : Nat) (t : Tree) (d : Bool) (ws : List (Tree × Bool))
    (names : Names) : collect (steps + 1) ((t, d) :: ws) names =
      if t.counts d then collect steps ws (names.add d t.text)
      else collect steps (t.visits d ++ ws) names := by
  cases d <;> cases h : t.counts _ <;> simp_all [collect, counts, Names.add]

/-- The number of leaves and nodes of the trees that wait. -/
def waitingSize : List (Tree × Bool) → Nat
  | [] => 0
  | w :: ws => w.1.size + waitingSize ws

section

variable {ws ws' : List (Tree × Bool)}

theorem waitingSize_cons (t : Tree) (d : Bool) (ws : List (Tree × Bool)) :
    waitingSize ((t, d) :: ws) = t.size + waitingSize ws := rfl

theorem waitingSize_append (ws ws' : List (Tree × Bool)) :
    waitingSize (ws ++ ws') = waitingSize ws + waitingSize ws' := by
  induction ws with
  | nil => exact (Nat.zero_add _).symm
  | cons w ws ih => rw [List.cons_append, waitingSize, waitingSize, ih, Nat.add_assoc]

theorem waitingSize_perm (h : ws.Perm ws') : waitingSize ws = waitingSize ws' := by
  induction h with
  | nil => rfl
  | cons w _ ih => rw [waitingSize, waitingSize, ih]
  | swap w w' ws => simp only [waitingSize]; omega
  | trans _ _ ih ih' => exact ih.trans ih'

theorem waitingSize_visits (t : Tree) (d : Bool) : waitingSize (t.visits d) + 1 ≤ t.size := by
  have hfilter : ∀ (cs : List Tree) (place : Tree → Option Bool),
      waitingSize (cs.filterMap fun c => (place c).map (c, ·)) ≤ sizes cs := by
    intro cs place
    induction cs with
    | nil => exact Nat.le_refl 0
    | cons c cs ih =>
      cases hplace : place c with
      | none =>
        rw [List.filterMap_cons_none (by simp [hplace]), sizes]
        omega
      | some d' =>
        rw [List.filterMap_cons_some (by simp [hplace]; rfl), sizes, waitingSize_cons]
        omega
  have hvisits := hfilter t.children (t.childPlace d)
  cases t with
  | leaf => exact Nat.succ_le_succ hvisits
  | node => exact Nat.succ_le_succ hvisits

end

/-- A scan under way: the trees that wait to be visited, each with whether it declares, and the
names found so far. -/
structure Scan where
  waiting : List (Tree × Bool)
  names : Names

namespace Scan

/-- The scan of a tree before its first step. -/
def start (t : Tree) : Scan := ⟨[(t, false)], ⟨[], []⟩⟩

/-- One step of a scan, on any of the trees that wait: a name that is counted is noted, and of any
other tree the children wait from now on. Nothing is said about the order of those that wait. -/
inductive Step : Scan → Scan → Prop
  | count {t : Tree} {d : Bool} {ws rest : List (Tree × Bool)} {names : Names} :
      ws.Perm ((t, d) :: rest) → t.counts d = true → Step ⟨ws, names⟩ ⟨rest, names.add d t.text⟩
  | descend {t : Tree} {d : Bool} {ws ws' rest : List (Tree × Bool)} {names : Names} :
      ws.Perm ((t, d) :: rest) → t.counts d = false → ws'.Perm (t.visits d ++ rest) →
      Step ⟨ws, names⟩ ⟨ws', names⟩

/-- A number of steps. -/
inductive Runs : Nat → Scan → Scan → Prop
  | done {s : Scan} : Runs 0 s s
  | next {k : Nat} {s s' s'' : Scan} : Step s s' → Runs k s' s'' → Runs (k + 1) s s''

/-- The name is noted already, or will be found in a tree that waits. -/
def Finds (s : Scan) (n : Text) (declared : Bool) : Prop :=
  n ∈ s.names.get declared ∨ ∃ w ∈ s.waiting, Occurs w.1 w.2 n declared

variable {s s' : Scan} {k : Nat}

/-- A step leaves less to visit. -/
theorem Step.waitingSize_lt (h : Step s s') :
    waitingSize s'.waiting + 1 ≤ waitingSize s.waiting := by
  cases h with
  | @count t d ws rest names hws _ =>
    have hpos : 0 < t.size := by cases t <;> simp [Tree.size]
    change waitingSize rest + 1 ≤ waitingSize ws
    rw [waitingSize_perm hws, waitingSize_cons]
    omega
  | @descend t d ws ws' rest names hws _ hws' =>
    have hvisits := waitingSize_visits t d
    change waitingSize ws' + 1 ≤ waitingSize ws
    rw [waitingSize_perm hws, waitingSize_perm hws', waitingSize_cons, waitingSize_append]
    omega

/-- A step loses no name and makes none up. -/
theorem Step.finds (h : Step s s') : s'.Finds n b ↔ s.Finds n b := by
  cases h with
  | count hws hcounts =>
    simp only [Finds, hws.mem_iff, Names.mem_add, List.mem_cons, exists_eq_or_imp,
      occurs_of_counts hcounts]
    exact or_assoc.trans or_left_comm
  | descend hws hcounts hws' =>
    simp only [Finds, hws.mem_iff, hws'.mem_iff, List.mem_append, List.mem_cons, or_and_right,
      exists_or, exists_visits, exists_eq_left, ← occurs_of_not_counts hcounts]

/-- While a tree waits, there is a step. -/
theorem exists_step (h : s.waiting ≠ []) : ∃ s', Step s s' := by
  obtain ⟨ws, names⟩ := s
  match ws with
  | [] => exact absurd rfl h
  | (t, d) :: ws =>
    cases hcounts : t.counts d with
    | true => exact ⟨_, .count (.refl _) hcounts⟩
    | false => exact ⟨_, .descend (.refl _) hcounts (.refl _)⟩

theorem Runs.waitingSize_le (h : Runs k s s') :
    waitingSize s'.waiting + k ≤ waitingSize s.waiting := by
  induction h with
  | done => exact Nat.le_refl _
  | next hstep _ ih =>
    have := hstep.waitingSize_lt
    omega

theorem Runs.finds (h : Runs k s s') : s'.Finds n b ↔ s.Finds n b := by
  induction h with
  | done => rfl
  | next hstep _ ih => exact ih.trans hstep.finds

end Scan

/-- The scan that takes the first of the trees that wait is a run, and it ends. -/
theorem collect_runs {steps : Nat} {ws : List (Tree × Bool)} {names : Names}
    (hsteps : waitingSize ws ≤ steps) :
    ∃ k, Scan.Runs k ⟨ws, names⟩ ⟨[], collect steps ws names⟩ := by
  induction steps generalizing ws names with
  | zero =>
    match ws with
    | [] => exact ⟨0, .done⟩
    | w :: ws =>
      obtain ⟨s', hstep⟩ := Scan.exists_step (s := ⟨w :: ws, names⟩) nofun
      exact absurd (Nat.le_trans hstep.waitingSize_lt hsteps) (Nat.not_succ_le_zero _)
  | succ steps ih =>
    match ws with
    | [] => exact ⟨0, .done⟩
    | (t, d) :: ws =>
      rw [collect_cons]
      cases hcounts : t.counts d with
      | true =>
        have hstep : Scan.Step ⟨(t, d) :: ws, names⟩ ⟨ws, names.add d t.text⟩ :=
          .count (.refl _) hcounts
        obtain ⟨k, hrun⟩ := ih (Nat.le_of_succ_le_succ (Nat.le_trans hstep.waitingSize_lt hsteps))
        exact ⟨k + 1, .next hstep hrun⟩
      | false =>
        have hstep : Scan.Step ⟨(t, d) :: ws, names⟩ ⟨t.visits d ++ ws, names⟩ :=
          .descend (.refl _) hcounts (.refl _)
        obtain ⟨k, hrun⟩ := ih (Nat.le_of_succ_le_succ (Nat.le_trans hstep.waitingSize_lt hsteps))
        exact ⟨k + 1, .next hstep hrun⟩

theorem names_runs (t : Tree) : ∃ k, Scan.Runs k (.start t) ⟨[], t.names⟩ :=
  collect_runs (by simp [waitingSize])

/-- A scan that has ended has found the occurrences of names in the tree. -/
theorem Scan.Runs.mem_names {k : Nat} {names : Names} (h : Scan.Runs k (.start t) ⟨[], names⟩) :
    n ∈ names.get b ↔ Occurs t false n b := by
  have hfinds := h.finds (n := n) (b := b)
  simpa [Scan.Finds, Scan.start, Names.get] using hfinds

theorem mem_names : n ∈ t.names.get b ↔ Occurs t false n b := by
  obtain ⟨k, hrun⟩ := names_runs t
  exact hrun.mem_names

theorem mem_freeNames : n ∈ t.freeNames ↔ Occurs t false n false ∧ ¬ Occurs t false n true := by
  rw [← mem_names, ← mem_names]
  simp [freeNames, Names.free, Text.sort, Names.get, List.mem_mergeSort, List.mem_eraseDups]

/-! ## Names in some trees -/

theorem declaresIn_eq (f : Form) (r : Role) : f.declaresIn r =
    (f == .variableDeclarator && r == .name || f == .arrowFunction && r == .parameter ||
      f == .catchClause && r == .parameter || f == .forIn && r == .left) := by
  unfold Form.declaresIn
  split
  · rfl
  · rfl
  · rfl
  · rfl
  next hvariable harrow hcatch hloop =>
    symm
    simp only [Bool.or_eq_false_iff, Bool.and_eq_false_iff, beq_eq_false_iff_ne]
    grind

/-- Names mean below such a node what they mean at its place, and it is no name itself. -/
def passes (f : Form) : Bool :=
  !f.isDefinition && !f.isDefaulted && f != .formalParameters && f != .pairPattern &&
    f != .variableDeclarator && f != .arrowFunction && f != .catchClause && f != .forIn &&
    f != .identifier && f != .shorthand && f != .shorthandPattern

theorem childPlace_of_passes (h : passes t.form = true) : t.childPlace d c = some d := by
  simp only [passes, Bool.and_eq_true, Bool.not_eq_true', bne_iff_ne] at h
  simp [childPlace, declaresIn_eq, h]

theorem counts_of_passes (h : passes t.form = true) : t.counts d = false := by
  simp only [passes, Bool.and_eq_true, Bool.not_eq_true', bne_iff_ne] at h
  cases d <;> simp [counts, isDeclaration, isReferring, h]

theorem occurs_of_passes (h : passes t.form = true) :
    Occurs t d n b ↔ ∃ c ∈ t.children, Occurs c d n b := by
  rw [occurs_of_not_counts (counts_of_passes h)]
  simp [childPlace_of_passes h]

theorem not_occurs_leaf {r : Role} {f : Form} {x : Text} (h : passes f = true) :
    ¬ Occurs (leaf r f x) d n b := by
  rw [occurs_of_passes (t := leaf r f x) h]
  simp [children]

/-! ## Names in scripts -/

/-- Punctuation, a keyword, white space or a comment. -/
def isMark : Tree → Bool
  | leaf _ f _ => f == .token || f == .blank || f == .comment
  | node _ _ _ => false

theorem not_occurs_isMark (h : t.isMark = true) : ¬ Occurs t d n b := by
  cases t with
  | leaf r f x =>
    simp only [isMark, Bool.or_eq_true, beq_iff_eq] at h
    rcases h with (rfl | rfl) | rfl <;> exact not_occurs_leaf rfl
  | node => cases h

/-- The tree holds the child, and nothing but marks and comments beside it. -/
def Surrounds (t c : Tree) : Prop :=
  ∃ us vs, t.children = us ++ c :: vs ∧ (us ++ vs).all isMark = true

/-- Such a tree has the names of the child. -/
theorem Surrounds.occurs (hsurrounds : t.Surrounds c) (h : passes t.form = true) :
    Occurs t d n b ↔ Occurs c d n b := by
  obtain ⟨us, vs, hchildren, hmarks⟩ := hsurrounds
  have hnone : ∀ u ∈ us ++ vs, ¬ Occurs u d n b :=
    fun u hu => not_occurs_isMark (List.all_eq_true.mp hmarks u hu)
  rw [occurs_of_passes h, hchildren]
  constructor
  · rintro ⟨u, hu, hoccurs⟩
    simp only [List.mem_append, List.mem_cons] at hu hnone
    rcases hu with hu | rfl | hu
    · exact absurd hoccurs (hnone u (.inl hu))
    · exact hoccurs
    · exact absurd hoccurs (hnone u (.inr hu))
  · exact fun hoccurs => ⟨c, by simp, hoccurs⟩

/-- The script negates the expression in parentheses. There may be comments beside it. -/
inductive Negates (script e : Tree) : Prop
  | intro {statement operation operand : Tree} : script.form = .program →
      script.Surrounds statement → statement.form = .expressionStatement →
      statement.Surrounds operation → operation.form = .unary →
      operation.Surrounds operand → operand.form = .parenthesized →
      operand.Surrounds e → Negates script e

/-- The script around an expression. -/
def wrapping (before : List Tree) (e : Tree) (after : List Tree) : Tree :=
  node .plain .program [node .plain .expressionStatement
    [node .plain .unary [leaf .plain .token "!",
      node .argument .parenthesized
        (leaf .plain .token "(" :: (before ++ e :: (after ++ [leaf .plain .token ")"])))],
      leaf .plain .token ";"]]

theorem negates_wrapping {before after : List Tree} {e : Tree} (hbefore : before.all isMark = true)
    (hafter : after.all isMark = true) : (wrapping before e after).Negates e := by
  have hmarks : ((leaf .plain .token "(" :: before) ++
      (after ++ [leaf .plain .token ")"])).all isMark = true := by
    rw [List.all_append, List.all_append, List.all_cons, hbefore, hafter]
    rfl
  exact .intro rfl ⟨[], [], rfl, rfl⟩ rfl ⟨[], [leaf .plain .token ";"], rfl, rfl⟩ rfl
    ⟨[leaf .plain .token "!"], [], rfl, rfl⟩ rfl ⟨_, _, rfl, hmarks⟩

/-- The script has the names of the expression. -/
theorem Negates.occurs {script e : Tree} (h : script.Negates e) :
    Occurs script d n b ↔ Occurs e d n b := by
  cases h with
  | intro hscript hstatement hexpression hoperation hunary hoperand hparenthesized he =>
    rw [hstatement.occurs (by rw [hscript]; rfl), hoperation.occurs (by rw [hexpression]; rfl),
      hoperand.occurs (by rw [hunary]; rfl), he.occurs (by rw [hparenthesized]; rfl)]

theorem Negates.mem_freeNames {script e : Tree} (h : script.Negates e) :
    n ∈ script.freeNames ↔ n ∈ e.freeNames := by
  rw [Tree.mem_freeNames, Tree.mem_freeNames, h.occurs, h.occurs]

end CompositeScript.Fragment.Tree
