import CompositeScript.Proofs.IdleHooks
import CompositeScript.Proofs.LargerDepth

/-! What tracing hooks see of a value.

With a tracing hook for each kind that is emitted, a run goes as it does without hooks, and records
on top of it. What it records are the nodes of the value, each before its children and once, where a
variable and a data source are seen as the expression that they stand for. `Shadows` compares the
steps of the two runs on one machine; its rules follow the way steps are put together. A hook has to
show what it records, and the machine may be too small for that even where the text is easy to make:
then the traced run is lost.

Hooks take room on a machine, so that the two runs may be carried out with different limits. They
agree wherever neither run meets its own (`tracing_shows_each_value_once`): then both do as on a
machine that can show everything. -/

namespace CompositeScript

/-! ## What is recorded -/

namespace Value

/-- What a tracing hook records of a value, under the label for its kind. -/
def recordIn (label : Kind → Text) (v : Value) (scope : Scope) : Record :=
  ⟨v.classify.toOption.elim [] label, v.display, scope.display⟩

end Value

/-- The second options trace each kind that is emitted, under a label for the kind, and are
otherwise the same as the first. -/
structure Options.Traced (label : Kind → Text) (o o' : Options) : Prop where
  hooks : ∀ kind ∈ Kind.emitting, o'.handlers.hooks kind.name = [.trace (label kind)]
  rest : o' = { o with handlers := o'.handlers }

/-- A tracing hook for each kind that is emitted. -/
def Kind.tracers (label : Kind → Text) : Handlers :=
  Kind.emitting.map fun kind => (kind.name, .single (.trace (label kind)))

theorem Options.traced_tracers (label : Kind → Text) (o : Options) :
    o.Traced label { o with handlers := Kind.tracers label } := by
  refine ⟨?_, rfl⟩
  simp only [Kind.emitting, List.forall_mem_cons]
  exact ⟨rfl, rfl, rfl, rfl, rfl, rfl, rfl, rfl, rfl, rfl, by simp⟩

/-! ## Two runs, one of them traced -/

namespace Gen

variable {α β : Type} {machine : Machine} {lost : Prop} {records records' : List Record}

/-- The second step does what the first one does and adds to the trace, whatever is there before:
the given records, if the first one succeeds. Or it is lost, and fails. -/
def Shadows (machine : Machine) (lost : Prop) (records : List Record) (x y : Gen α) : Prop :=
  ∀ (run : Run) (trace : List Record),
    (∃ recorded,
      y.perform machine { run with trace } =
        ((x.perform machine run).1,
          { (x.perform machine run).2 with trace := trace ++ recorded }) ∧
      ∀ a, (x.perform machine run).1 = .ok a → recorded = records) ∨
    lost ∧ ∃ f after, y.perform machine { run with trace } = (.error f, after)

namespace Shadows

theorem quiet {x : Gen α} (hx : x.Quiet) : Shadows machine lost [] x x := by
  intro run trace
  obtain ⟨answer, -, hanswer⟩ := hx.leaves machine
  refine .inl ⟨[], ?_, fun _ _ => rfl⟩
  rw [hanswer, hanswer, List.append_nil]

/-- A step that does not succeed records nothing, and nothing is asked of what it records. -/
theorem of_failure {x : Gen α} (hx : x.Quiet)
    (h : ∀ run a, (x.perform machine run).1 ≠ .ok a) : Shadows machine lost records x x := by
  intro run trace
  obtain ⟨answer, -, hanswer⟩ := hx.leaves machine
  refine .inl ⟨[], ?_, fun a ha => (h run a ha).elim⟩
  rw [hanswer, hanswer, List.append_nil]

theorem of_lost {x y : Gen α} (hlost : lost)
    (hy : ∀ run, ∃ f after, y.perform machine run = (.error f, after)) :
    Shadows machine lost records x y :=
  fun _ _ => .inr ⟨hlost, hy _⟩

theorem bind {x y : Gen α} {k l : α → Gen β} (hx : Shadows machine lost records x y)
    (hk : ∀ a, Shadows machine lost records' (k a) (l a)) :
    Shadows machine lost (records ++ records') (x >>= k) (y >>= l) := by
  intro run trace
  obtain ⟨recorded, hy, hrecorded⟩ | ⟨hlost, f, after, hy⟩ := hx run trace
  · rcases hanswer : x.perform machine run with ⟨f | a, after⟩
    · rw [hanswer] at hy
      refine .inl ⟨recorded, ?_, ?_⟩
      · rw [perform_bind_error hy, perform_bind_error hanswer]
      · rw [perform_bind_error hanswer]
        nofun
    · rw [hanswer] at hy hrecorded
      obtain rfl := hrecorded a rfl
      rw [perform_bind_ok hy, perform_bind_ok hanswer]
      obtain ⟨recorded', hl, hrecorded'⟩ | hl := hk a after (trace ++ recorded)
      · refine .inl ⟨recorded ++ recorded', ?_, fun b hb => ?_⟩
        · rw [hl, List.append_assoc]
        · rw [hrecorded' b hb]
      · exact .inr hl
  · exact .inr ⟨hlost, f, after, perform_bind_error hy⟩

/-- What is done with the answers of the two steps adds nothing to the trace. -/
theorem map {x y : Gen α} (h : Shadows machine lost records x y) (k : α → β) :
    Shadows machine lost records (x >>= fun a => pure (k a)) (y >>= fun a => pure (k a)) := by
  have := h.bind fun a => quiet (.pure (k a))
  simpa using this

theorem mapM {f f' : α → Gen β} {g : α → List Record} {as : List α}
    (h : ∀ a ∈ as, Shadows machine lost (g a) (f a) (f' a)) :
    Shadows machine lost (as.flatMap g) (as.mapM f) (as.mapM f') := by
  induction as with
  | nil => exact quiet (.pure [])
  | cons a as ih =>
    obtain ⟨ha, has⟩ := List.forall_mem_cons.mp h
    rw [List.mapM_cons, List.mapM_cons, List.flatMap_cons]
    exact ha.bind fun b => (ih has).map fun bs => b :: bs

theorem nested {x y : Gen α} (maxDepth : Int) (h : Shadows machine lost records x y) :
    Shadows machine lost records (Gen.nested maxDepth x) (Gen.nested maxDepth y) := by
  intro run trace
  rw [perform_nested, perform_nested]
  split
  · exact .inl ⟨[], by simp, nofun⟩
  · obtain ⟨recorded, hy, hrecorded⟩ | ⟨hlost, f, after, hy⟩ :=
      h { run with depth := run.depth + 1 } trace
    · refine .inl ⟨recorded, ?_, fun a ha => hrecorded a (eq_ok_of_surfaced ha)⟩
      simp only [hy]
    · obtain ⟨g, hg⟩ := @surfaced_error α maxDepth run.depth f
      exact .inr ⟨hlost, g, { after with depth := run.depth }, by simp only [hy, hg]⟩

/-- A step that records first and then goes on as one that shadows another. -/
theorem record {x y y' : Gen α} {r : Record} (h : Shadows machine lost records x y)
    (hy' : ∀ run, y'.perform machine run =
      y.perform machine { run with trace := run.trace ++ [r] }) :
    Shadows machine lost (r :: records) x y' := by
  intro run trace
  rw [hy']
  obtain ⟨recorded, hy, hrecorded⟩ | hy := h run (trace ++ [r])
  · refine .inl ⟨r :: recorded, ?_, fun a ha => ?_⟩
    · rw [hy]
      simp
    · rw [hrecorded a ha]
  · exact .inr hy

end Shadows

end Gen

section
variable {g next : Emitter} {label : Text} {v : Value} {scope : Scope} {o : Options}
  {machine : Machine} {run : Run}

theorem perform_trace (hv : machine.Shows v) (hscope : machine.Shows scope) :
    ((Hook.trace label).act g v scope o next).perform machine run =
      (next v scope o).perform machine
        { run with trace := run.trace ++ [⟨label, v.display, scope.display⟩] } := by
  have hdisplay {w : Value} (hw : machine.Shows w) :
      (Gen.display w).perform machine run = (.ok w.display, run) := Gen.perform_walk hw
  simp only [Hook.act]
  rw [Gen.perform_bind_ok (hdisplay hv), Gen.perform_bind_ok (hdisplay hscope),
    Gen.perform_bind_ok (Gen.perform_record _)]

theorem perform_trace_of_obstacle {obstacle : Fault} (h : machine.obstacle? v = some obstacle) :
    ((Hook.trace label).act g v scope o next).perform machine run = (.error obstacle, run) :=
  Gen.perform_bind_error (Gen.perform_walk_of_obstacle h)

theorem exists_perform_trace (h : ¬(machine.Shows v ∧ machine.Shows scope)) :
    ∃ f after, ((Hook.trace label).act g v scope o next).perform machine run =
      (.error f, after) := by
  cases hv : machine.obstacle? v with
  | some obstacle => exact ⟨obstacle, run, perform_trace_of_obstacle hv⟩
  | none =>
    have hv := Machine.obstacle?_eq_none_iff.mp hv
    cases hscope : machine.obstacle? scope with
    | none => exact (h ⟨hv, Machine.obstacle?_eq_none_iff.mp hscope⟩).elim
    | some obstacle =>
      have hdisplay : (Gen.display v).perform machine run = (.ok v.display, run) :=
        Gen.perform_walk hv
      refine ⟨obstacle, run, ?_⟩
      simp only [Hook.act]
      rw [Gen.perform_bind_ok hdisplay]
      exact Gen.perform_bind_error (Gen.perform_walk_of_obstacle hscope)

end

section
variable {g g' : Emitter} {scope : Scope} {o o' : Options} {machine : Machine}
  {lost : Prop} {label : Kind → Text} {records : Value → List Record} {kind : Kind}

theorem slot_shadows (hnodes : o.nodes = none) (ho' : o.Traced label o') (v : Value) :
    Gen.Shadows machine lost [] (Slot.emit g v scope o) (Slot.emit g' v scope o') := by
  intro run trace
  have hnodes' : o'.nodes = none := by rw [ho'.rest, hnodes]
  have hpolicy : o'.policy = o.policy := by rw [ho'.rest]
  rw [perform_slot g v scope hnodes, perform_slot g' v scope hnodes', hpolicy]
  refine .inl ⟨[], ?_, fun _ _ => rfl⟩
  rw [List.append_nil]
  split <;> rfl

/-- An emitter that does not go back to the generator does the same in both runs. -/
theorem leaf_shadows (hnodes : o.nodes = none) (ho' : o.Traced label o') (harray : kind ≠ .array)
    (hobject : kind ≠ .object) (v : Value) :
    Gen.Shadows machine lost [] (kind.emit g v scope o) (kind.emit g' v scope o') := by
  cases kind with
  | undefined | null | boolean => exact .quiet (.pure _)
  | string => exact .quiet (.ofExcept (Literal.stringOf_ne_error v))
  | number => exact .quiet (emitNumber_quiet v)
  | expression | variableRef | dataSource =>
    have hexpressions : o'.expressions = o.expressions := by rw [ho'.rest]
    simp only [Kind.emit, hexpressions]
    exact .quiet (Expression.emit_quiet o.expressions v scope)
  | function =>
    have hfinder : o'.nameFinder = o.nameFinder := by rw [ho'.rest]
    have hfunctions : o'.functions = o.functions := by rw [ho'.rest]
    have hsame : Function.emit o' v = Function.emit o v := by
      simp only [Function.emit, hfinder, hfunctions]
    simp only [Kind.emit, hsame]
    exact .quiet (Function.emit_quiet o v)
  | slot => exact slot_shadows hnodes ho' v
  | array => exact (harray rfl).elim
  | object => exact (hobject rfl).elim

theorem array_shadows (v : Value) {xs : List Value} (hv : v.elements? = some xs)
    (h : ∀ x ∈ xs, Gen.Shadows machine lost (records x) (g x scope o) (g' x scope o')) :
    Gen.Shadows machine lost (xs.flatMap records) (Collection.array g v scope o)
      (Collection.array g' v scope o') := by
  simp only [Collection.array, hv]
  exact (Gen.Shadows.mapM h).map _

theorem object_shadows {r : Bool} {es : Entries} (htag : (Value.map r es).tag? = none)
    (h : ∀ e ∈ es, Gen.Shadows machine lost (records e.2) (g e.2 scope o) (g' e.2 scope o')) :
    Gen.Shadows machine lost ((es.map Prod.snd).flatMap records)
      (Collection.object g (.map r es) scope o) (Collection.object g' (.map r es) scope o') := by
  have hi18n : (Value.map r es).hasTag .i18n = false := Value.hasTag_eq_false (by simp [htag])
  have hmember (e) (he : e ∈ es) : Gen.Shadows machine lost (records e.2)
      (Collection.member g scope o e) (Collection.member g' scope o' e) := by
    have hkey : Gen.Shadows machine lost [] (Gen.shown e.1) (Gen.shown e.1) := .quiet (.shown e.1)
    exact hkey.bind fun key => (h e he).map fun value => Literal.string key ++ ": " ++ value
  simp only [Collection.object, hi18n, Value.entries?, Bool.false_eq_true, if_false,
    List.flatMap_map]
  exact (Gen.Shadows.mapM hmember).map _

theorem i18n_shadows {r : Bool} {es : Entries} (htag : (Value.map r es).tag? = some .i18n)
    (h : ∀ child ∈ (Value.map r es).children,
      Gen.Shadows machine lost (records child) (g child scope o) (g' child scope o')) :
    Gen.Shadows machine lost ((Value.map r es).children.flatMap records)
      (Collection.object g (.map r es) scope o) (Collection.object g' (.map r es) scope o') := by
  have hi18n := Value.tag?_eq_some_iff.mp htag
  by_cases hdynamic : Value.isDynamic es = true
  · have hchildren : (Value.map r es).children = [.map false (Collection.payload es)] := by
      simp [Value.children, htag, hdynamic]
    rw [hchildren] at h ⊢
    rw [Value.isDynamic] at hdynamic
    simp only [Collection.object, Collection.i18n, hi18n, Value.entries?, if_true, hdynamic,
      List.flatMap_singleton]
    exact (h _ (by simp)).map _
  · have hchildren : (Value.map r es).children = [] := by simp [Value.children, htag, hdynamic]
    rw [hchildren]
    rw [Value.isDynamic] at hdynamic
    simp only [Collection.object, Collection.i18n, hi18n, Value.entries?, if_true, hdynamic,
      List.flatMap_nil]
    exact (Gen.Shadows.quiet (Collection.json_quiet _)).map _

theorem emit_shadows {v : Value} (hnodes : o.nodes = none) (ho' : o.Traced label o')
    (hclassify : v.classify = .ok kind)
    (h : ∀ child ∈ v.children,
      Gen.Shadows machine lost (records child) (g child scope o) (g' child scope o')) :
    Gen.Shadows machine lost (v.children.flatMap records) (kind.emit g v scope o)
      (kind.emit g' v scope o') := by
  cases v with
  | undefined | null | bool | int | float | str =>
    obtain rfl := Except.ok.inj hclassify
    exact leaf_shadows hnodes ho' (by simp) (by simp) _
  | list xs =>
    obtain rfl := Except.ok.inj hclassify
    exact array_shadows (.list xs) rfl h
  | tuple xs =>
    obtain rfl := Except.ok.inj hclassify
    exact array_shadows (.tuple xs) rfl h
  | map r es =>
    have hdefect := Value.defect?_of_classify hclassify
    cases htag : (Value.map r es).tag? with
    | none =>
      obtain rfl : Kind.object = kind :=
        Except.ok.inj ((Value.classify_of_untagged htag).symm.trans hclassify)
      have hchildren : (Value.map r es).children = es.map Prod.snd := by
        simp [Value.children, htag]
      rw [hchildren] at h ⊢
      exact object_shadows htag fun e he => h e.2 (List.mem_map_of_mem he)
    | some tag =>
      obtain rfl : tag.kind = kind := by simpa [Value.classify, hdefect, htag] using hclassify
      cases tag with
      | i18n => exact i18n_shadows htag h
      | expression | function | slot | dataSource | variableRef =>
        rw [Value.children_of_tag? htag (by simp)]
        exact leaf_shadows hnodes ho' (by simp [Tag.kind]) (by simp [Tag.kind]) _
  | set | bytes | range => cases hclassify

theorem route_shadows {v : Value} (ho : o.Hookless) (hnodes : o.nodes = none)
    (ho' : o.Traced label o')
    (hlost : ¬(machine.Shows v.standsFor ∧ machine.Shows scope) → lost)
    (h : ∀ child ∈ v.children,
      Gen.Shadows machine lost (records child) (g child scope o) (g' child scope o')) :
    Gen.Shadows machine lost (v.standsFor.recordIn label scope :: v.children.flatMap records)
      (route g v scope o) (route g' v scope o') := by
  cases hclassify : v.classify with
  | error f =>
    simp only [route, hclassify, Gen.ofExcept, Gen.fail_bind]
    refine .of_failure (.fail ?_) fun run a => Gen.fail_ne_ok
    exact fun hf => v.classify_ne_error (hf ▸ hclassify)
  | ok kind =>
    obtain ⟨kind', hemits, hdesugar, hstands, hchildren⟩ := Value.desugar_of_classify hclassify
    rw [route_of_classify hclassify, route_of_classify hclassify, hdesugar,
      dispatch_of_hookless ho, dispatch_eq_runHooks, ho'.hooks kind' hemits]
    rw [← hchildren] at h ⊢
    by_cases hshows : machine.Shows v.standsFor ∧ machine.Shows scope
    · refine .record (emit_shadows hnodes ho' hstands h) fun run => ?_
      have hrecord : v.standsFor.recordIn label scope =
          ⟨label kind', v.standsFor.display, scope.display⟩ := by
        simp [Value.recordIn, hstands, Except.toOption]
      rw [hrecord]
      exact perform_trace hshows.1 hshows.2
    · exact .of_lost (hlost hshows) fun run => exists_perform_trace hshows

end

/-! ## Generation -/

theorem generateWithin_shadows (n level : Nat) {v : Value} {scope : Scope} {o o' : Options}
    {machine : Machine} {lost : Prop} {label : Kind → Text} (ho : o.Hookless)
    (hnodes : o.nodes = none) (ho' : o.Traced label o')
    (hlost : ∀ node ∈ v.nodes level,
      ¬(machine.Shows node.value.standsFor ∧ machine.Shows scope) → lost) :
    Gen.Shadows machine lost
      ((v.nodes level).map fun node => node.value.standsFor.recordIn label scope)
      (generateWithin n v scope o) (generateWithin n v scope o') := by
  induction n generalizing v level with
  | zero => exact .of_failure (.throw (by simp)) fun run a => by simp [generateWithin]
  | succ n ih =>
    have hmax : o'.maxDepth = o.maxDepth := by rw [ho'.rest]
    have hself := hlost _ (v.mem_nodes_self level)
    rw [generateWithin, generateWithin, hmax, Value.nodes_eq, List.map_cons, List.map_flatMap]
    refine .nested o.maxDepth (route_shadows ho hnodes ho' hself fun child hchild => ?_)
    exact ih (level + 1) fun node hnode => hlost node (Value.mem_nodes_of_child hchild hnode)

section
variable {label : Kind → Text} {v : Value} {scope : Scope} {o o' : Options}
  {machine larger : Machine} {run after : Run} {text : Text}

/-- On one machine, the traced run does as the run without hooks and records, or the machine cannot
show all that is recorded. -/
theorem generate_shadows (ho : o.Hookless) (hnodes : o.nodes = none) (ho' : o.Traced label o') :
    Gen.Shadows machine (¬∀ w ∈ scope :: v.dispatched, machine.Shows w)
      (v.dispatched.map fun w => w.recordIn label scope) (generate v scope o)
      (generate v scope o') := by
  have hrecords : (v.dispatched.map fun w => w.recordIn label scope) =
      (v.nodes 1).map fun node => node.value.standsFor.recordIn label scope := by
    rw [Value.dispatched, List.map_map]
    rfl
  rw [hrecords]
  refine generateWithin_shadows machine.calls 1 ho hnodes ho' fun node hnode hshows h => ?_
  have hvalue : node.value.standsFor ∈ scope :: v.dispatched :=
    List.mem_cons_of_mem _ (List.mem_map_of_mem hnode)
  exact hshows ⟨h _ hvalue, h scope List.mem_cons_self⟩

/-- What succeeds without hooks goes the same way on a larger machine. -/
theorem generate_hookless_mono (ho : o.Hookless) (hnodes : o.nodes = none)
    (hlarger : machine.Within larger)
    (h : ((generate v scope o).perform machine run).1 = .ok text) :
    ((generate v scope o).perform larger run).1 = .ok text := by
  have hidle : generate v scope o = generate v scope { o with handlers := [] } := by
    rw [← Collaborators.standard_generate]
    exact generate_idle scope (by simp [hnodes]) (fun kind _ => ho kind.name) Hook.act
  have hrescue : Options.RescueFree { o with handlers := [] } := ⟨rfl, by simp [hnodes]⟩
  rw [hidle] at h ⊢
  rw [generate_raised (hrescue.raised (le_refl o.maxDepth)) hlarger (Prod.ext h rfl)]

/-- So does what succeeds with tracing hooks, if the larger machine can show what they record. -/
theorem generate_traced_mono (ho : o.Hookless) (hnodes : o.nodes = none)
    (ho' : o.Traced label o') (hlarger : machine.Within larger)
    (hshows : ∀ w ∈ scope :: v.dispatched, larger.Shows w)
    (h : ((generate v scope o').perform machine {}).1 = .ok text) :
    ((generate v scope o').perform larger {}).1 = .ok text := by
  have hplain : ((generate v scope o).perform machine {}).1 = .ok text := by
    obtain ⟨recorded, hsame, -⟩ | ⟨-, f, after, hfails⟩ :=
      @generate_shadows label v scope o o' machine ho hnodes ho' {} []
    · rwa [hsame] at h
    · rw [hfails] at h
      cases h
  obtain ⟨recorded, hsame, -⟩ | ⟨hlost, -⟩ :=
    @generate_shadows label v scope o o' larger ho hnodes ho' {} []
  · rw [hsame]
    exact generate_hookless_mono ho hnodes hlarger hplain
  · exact (hlost hshows).elim

end

/-- Some machine is larger than both and can show the values. -/
theorem Machine.exists_larger {machine machine' : Machine}
    (hparser : machine'.parser = machine.parser) (values : List Value) :
    ∃ larger : Machine, machine.Within larger ∧ machine'.Within larger ∧
      ∀ w ∈ values, larger.Shows w := by
  induction values with
  | nil =>
    let larger : Machine :=
      { calls := max machine.calls machine'.calls
        nesting := max machine.nesting machine'.nesting
        digits := max machine.digits machine'.digits
        parser := machine.parser }
    exact ⟨larger, ⟨le_max_left _ _, le_max_left _ _, le_max_left _ _, rfl⟩,
      ⟨le_max_right _ _, le_max_right _ _, le_max_right _ _, hparser.symm⟩, List.forall_mem_nil _⟩
  | cons v values ih =>
    obtain ⟨m, hm, hm', hshows⟩ := ih
    let larger : Machine :=
      { m with nesting := max m.nesting v.nesting, digits := max m.digits v.digits }
    have hlarger : m.Within larger := ⟨le_refl _, le_max_left _ _, le_max_left _ _, rfl⟩
    have hv : larger.Shows v := ⟨le_max_right _ _, le_max_right _ _⟩
    exact ⟨larger, hm.trans hlarger, hm'.trans hlarger,
      List.forall_mem_cons.mpr ⟨hv, fun w hw => (hshows w hw).mono hlarger⟩⟩

/-- **Tracing hooks see each value once, in the order of the document.** Let there be a tracing hook
for each kind that is emitted. Where the limits of the machine play no part in the traced run, nor
those of its own machine in the run without hooks, the traced run answers what the other one
answers, text or fault, and leaves the same behind but for the trace. If it succeeds, the trace
tells the values that generation dispatches on, with the scope given at the top. -/
theorem tracing_shows_each_value_once {label : Kind → Text} {o o' : Options} {v : Value}
    {scope : Scope} {machine machine' : Machine} (ho : o.Hookless) (hnodes : o.nodes = none)
    (ho' : o.Traced label o') (hparser : machine'.parser = machine.parser)
    (hplain : (generate v scope o).Unhindered machine {})
    (htraced : (generate v scope o').Unhindered machine' {}) :
    let plain := (generate v scope o).perform machine {}
    let traced := (generate v scope o').perform machine' {}
    traced.1 = plain.1 ∧ traced.2 = { plain.2 with trace := traced.2.trace } ∧
      ∀ text, plain.1 = .ok text →
        traced.2.trace = v.dispatched.map fun w => w.recordIn label scope := by
  intro plain traced
  obtain ⟨larger, hlarger, hlarger', hshows⟩ :=
    Machine.exists_larger hparser (scope :: v.dispatched)
  have hplain : (generate v scope o).perform larger {} = plain :=
    hplain.perform_eq hlarger fun text => generate_hookless_mono ho hnodes hlarger
  have htraced : (generate v scope o').perform larger {} = traced :=
    htraced.perform_eq hlarger' fun text => generate_traced_mono ho hnodes ho' hlarger' hshows
  obtain ⟨recorded, hsame, hrecorded⟩ | ⟨hlost, -⟩ :=
    @generate_shadows label v scope o o' larger ho hnodes ho' {} []
  · rw [hplain] at hsame hrecorded
    have hsame : traced = (plain.1, { plain.2 with trace := recorded }) := htraced.symm.trans hsame
    rw [hsame]
    exact ⟨rfl, rfl, hrecorded⟩
  · exact (hlost hshows).elim

/-- A variable is seen as an expression, and a text with parameters before its payload. The machine
of the traced run has room for fewer calls. -/
theorem tracing_shows_each_value_once_below_i18n :
    let params := Value.list [.int 1]
    let payload := Value.map false [(.str "key", .str "k"), (.str "params", params)]
    let text := Value.map false
      [(.str "type", .str "i18n"), (.str "key", .str "k"), (.str "params", params)]
    let v := Value.list [.tagged .variableRef "variable" (.str "x"), text]
    let o : Options := { handlers := Kind.tracers Kind.name }
    let smaller : Machine := { Machine.standard with calls := 5 }
    let traced := (generate v .null o).perform smaller {}
    ((generate v .null {}).Unhindered .standard {} ∧ (generate v .null o).Unhindered smaller {}) ∧
      traced.1 = .ok "[x,this._i18nText(\x7b\"key\": \"k\",\n\"params\": [1]\x7d)]" ∧
      traced.2.trace =
        [v, Expression.ofCode (.str "x"), text, payload, .str "k", params, .int 1].map fun w =>
          w.recordIn Kind.name .null := by
  intro params payload text v o smaller traced
  have hplain : ((generate v .null {}).perform .standard {}).1 =
      .ok "[x,this._i18nText(\x7b\"key\": \"k\",\n\"params\": [1]\x7d)]" := rfl
  have hdispatched : v.dispatched =
      [v, Expression.ofCode (.str "x"), text, payload, .str "k", params, .int 1] := by
    have hroot : v.children = [.tagged .variableRef "variable" (.str "x"), text] := rfl
    have htext : text.children = [payload] := rfl
    have hpayload : payload.children = [.str "k", params] := rfl
    have hparams : params.children = [.int 1] := rfl
    have hvariable : (Value.tagged .variableRef "variable" (.str "x")).children = [] := rfl
    have hkey : (Value.str "k").children = [] := rfl
    have hone : (Value.int 1).children = [] := rfl
    simp only [Value.dispatched, Value.nodes_eq, hroot, htext, hpayload, hparams, hvariable, hkey,
      hone, List.flatMap_cons, List.flatMap_nil, List.append_nil, List.cons_append, List.nil_append,
      List.map_cons, List.map_nil]
    rfl
  have hunhindered : (generate v .null {}).Unhindered .standard {} :=
    generate_unhindered_of_ok ⟨rfl, by simp⟩ hplain
  have hrescue : o.RescueFree := ⟨rfl, by simp [o]⟩
  have htraced : (generate v .null o).Unhindered smaller {} :=
    generate_unhindered_of_ok hrescue rfl
  have hparser : smaller.parser = Machine.standard.parser := rfl
  obtain ⟨hanswer, -, htrace⟩ := tracing_shows_each_value_once (fun _ => rfl) rfl
    (Options.traced_tracers Kind.name {}) hparser hunhindered htraced
  refine ⟨⟨hunhindered, htraced⟩, hanswer.trans hplain, ?_⟩
  rw [htrace _ hplain, hdispatched]

/-- An expression is emitted whatever stands beside its code, but a tracing hook has to show all of
it. -/
theorem perform_generate_traced_expression {w : Value} (obstacle : Fault) :
    let v := Value.map false
      [(.str "type", .str "JSExpression"), (.str "value", .str "x"), (.str "meta", w)]
    let o : Options := { handlers := Kind.tracers Kind.name }
    Machine.standard.obstacle? v = some obstacle →
      (generate v .null {}).perform .standard {} = (.ok "x", {}) ∧
        (generate v .null o).perform .standard {} =
          (Gen.surfaced 128 0 (.error obstacle), {}) := by
  intro v o hobstacle
  have hclassify : v.classify = .ok .expression := rfl
  have hhooks := (Options.traced_tracers Kind.name {}).hooks .expression (by decide)
  have hroute : (route (generateWithin 299) v .null o).perform .standard { depth := 1 } =
      (.error obstacle, { depth := 1 }) := by
    rw [route_of_classify hclassify, desugar_of_ne (by simp) (by simp), dispatch_eq_runHooks,
      hhooks]
    exact perform_trace_of_obstacle hobstacle
  have hcalls : Machine.standard.calls = 299 + 1 := rfl
  refine ⟨rfl, ?_⟩
  rw [generate, Gen.perform_bind_ok Gen.perform_read, hcalls, generateWithin, Gen.perform_nested,
    if_neg (by decide)]
  simp only [hroute]
  rfl

theorem perform_generate_deep_expression {w : Value} (hw : Machine.standard.nesting < w.nesting) :
    let v := Value.map false
      [(.str "type", .str "JSExpression"), (.str "value", .str "x"), (.str "meta", w)]
    let o : Options := { handlers := Kind.tracers Kind.name }
    (generate v .null {}).perform .standard {} = (.ok "x", {}) ∧
      (generate v .null o).perform .standard {} = (.error (.depthExceeded 128), {}) := by
  refine perform_generate_traced_expression .tooDeep (Machine.obstacle?_of_nesting ?_)
  simp only [Value.nesting, Value.entryNestings]
  omega

theorem perform_generate_long_expression {i : Int} (hi : 10 ^ Text.maxDigits ≤ i.natAbs) :
    let v := Value.map false
      [(.str "type", .str "JSExpression"), (.str "value", .str "x"), (.str "meta", .int i)]
    let o : Options := { handlers := Kind.tracers Kind.name }
    (generate v .null {}).perform .standard {} = (.ok "x", {}) ∧
      (generate v .null o).perform .standard {} = (.error .tooLong, {}) := by
  have hlong : Machine.standard.digits < (Value.int i).digits :=
    Value.lt_digits_int (n := Text.maxDigits) (by decide) hi
  refine perform_generate_traced_expression .tooLong (Machine.obstacle?_of_digits ?_ ?_)
  · simp [Value.nesting, Value.entryNestings, Machine.standard]
  · simp only [Value.digits, Value.entryDigits] at hlong ⊢
    omega

/-- Where the machine cannot show what stands beside the code, only the traced run fails. -/
theorem tracing_fails_on_deep_expression :
    let v (w : Value) := Value.map false
      [(.str "type", .str "JSExpression"), (.str "value", .str "x"), (.str "meta", w)]
    let deep := (fun w => Value.list [w])^[3000] .null
    let long := Value.int (10 ^ Text.maxDigits : Nat)
    let o : Options := { handlers := Kind.tracers Kind.name }
    Options.Traced Kind.name {} o ∧
      ((generate (v deep) .null {}).perform .standard {} = (.ok "x", {}) ∧
        (generate (v deep) .null o).perform .standard {} = (.error (.depthExceeded 128), {})) ∧
      ((generate (v long) .null {}).perform .standard {} = (.ok "x", {}) ∧
        (generate (v long) .null o).perform .standard {} = (.error .tooLong, {})) := by
  refine ⟨Options.traced_tracers Kind.name {}, perform_generate_deep_expression ?_,
    perform_generate_long_expression (le_refl _)⟩
  rw [Value.nesting_iterate_list]
  decide

end CompositeScript
