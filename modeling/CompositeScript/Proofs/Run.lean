import Mathlib
import CompositeScript.Generate

/-! Runs step by step, and what generation does when no hooks are registered.

`perform` takes a step apart into its parts; every other module reasons about runs through these
lemmas. `route_of_classify` and `dispatch_of_hookless` take a call of the generator to the emitter
of the kind. -/

namespace CompositeScript

/-- The machine can write the value out. -/
structure Machine.Shows (machine : Machine) (v : Value) : Prop where
  nesting : v.nesting ≤ machine.nesting
  digits : v.digits ≤ machine.digits

instance {machine : Machine} {v : Value} : Decidable (machine.Shows v) :=
  decidable_of_iff (v.nesting ≤ machine.nesting ∧ v.digits ≤ machine.digits)
    ⟨fun h => ⟨h.1, h.2⟩, fun h => ⟨h.nesting, h.digits⟩⟩

/-- The other machine has the same parser, and limits that are no smaller. -/
structure Machine.Within (machine larger : Machine) : Prop where
  calls : machine.calls ≤ larger.calls
  nesting : machine.nesting ≤ larger.nesting
  digits : machine.digits ≤ larger.digits
  parser : larger.parser = machine.parser

theorem Machine.Within.refl (machine : Machine) : machine.Within machine :=
  ⟨le_refl _, le_refl _, le_refl _, rfl⟩

theorem Machine.Within.trans {machine larger largest : Machine} (h : machine.Within larger)
    (h' : larger.Within largest) : machine.Within largest :=
  ⟨h.calls.trans h'.calls, h.nesting.trans h'.nesting, h.digits.trans h'.digits,
    h'.parser.trans h.parser⟩

theorem Machine.Shows.mono {machine larger : Machine} {v : Value} (h : machine.Shows v)
    (hlarger : machine.Within larger) : larger.Shows v :=
  ⟨h.nesting.trans hlarger.nesting, h.digits.trans hlarger.digits⟩

theorem Machine.obstacle?_eq_none_iff {machine : Machine} {v : Value} :
    machine.obstacle? v = none ↔ machine.Shows v := by
  unfold obstacle?
  split
  · next h => simpa using fun hshows : machine.Shows v => Nat.not_lt.mpr hshows.nesting h
  · next hnesting =>
    split
    · next h => simpa using fun hshows : machine.Shows v => Nat.not_lt.mpr hshows.digits h
    · next hdigits => exact iff_of_true rfl ⟨Nat.not_lt.mp hnesting, Nat.not_lt.mp hdigits⟩

theorem Machine.obstacle?_of_nesting {machine : Machine} {v : Value}
    (h : machine.nesting < v.nesting) : machine.obstacle? v = some .tooDeep := if_pos h

theorem Machine.obstacle?_of_digits {machine : Machine} {v : Value}
    (hnesting : v.nesting ≤ machine.nesting) (h : machine.digits < v.digits) :
    machine.obstacle? v = some .tooLong := by
  rw [obstacle?, if_neg (Nat.not_lt.mpr hnesting), if_pos h]

/-- The fault tells a limit of the machine that the value is beyond. A value beyond both is told by
either. -/
inductive Machine.Exceeded (machine : Machine) (v : Value) : Fault → Prop
  | nesting : machine.nesting < v.nesting → Exceeded machine v .tooDeep
  | digits : machine.digits < v.digits → Exceeded machine v .tooLong

theorem Machine.exceeded_of_obstacle? {machine : Machine} {v : Value} {f : Fault}
    (h : machine.obstacle? v = some f) : machine.Exceeded v f := by
  unfold obstacle? at h
  split at h
  · next hnesting =>
    cases h
    exact .nesting hnesting
  · split at h
    · next hdigits =>
      cases h
      exact .digits hdigits
    · cases h

theorem Machine.obstacle?_ne_some {machine : Machine} {v : Value} {f : Fault}
    (hdeep : f ≠ .tooDeep) (hlong : f ≠ .tooLong) : machine.obstacle? v ≠ some f := by
  intro h
  cases exceeded_of_obstacle? h with
  | nesting => exact hdeep rfl
  | digits => exact hlong rfl

theorem Fault.told_ne {machine : Machine} {f g : Fault} (h : f ≠ g) (hdeep : g ≠ .tooDeep)
    (hlong : g ≠ .tooLong) : f.told machine ≠ g := by
  cases hobstacle : f.subject?.bind machine.obstacle? with
  | none => simpa [told, hobstacle] using h
  | some obstacle =>
    obtain ⟨v, -, hv⟩ := Option.bind_eq_some_iff.mp hobstacle
    rintro hg
    obtain rfl : obstacle = g := by simpa [told, hobstacle] using hg
    exact Machine.obstacle?_ne_some hdeep hlong hv

theorem Fault.told_eq_self {machine : Machine} {f : Fault}
    (h : ∀ v ∈ f.subject?, machine.Shows v) : f.told machine = f := by
  cases hf : f.subject? with
  | none => simp [told, hf]
  | some v => simp [told, hf, Machine.obstacle?_eq_none_iff.mpr (h v hf)]

namespace Gen

variable {α β : Type} {machine : Machine} {run after : Run}

@[simp] theorem perform_pure (a : α) : (pure a : Gen α).perform machine run = (.ok a, run) := rfl

@[simp] theorem perform_throw (f : Fault) :
    (throw f : Gen α).perform machine run = (.error f, run) := rfl

theorem perform_bind (x : Gen α) (k : α → Gen β) :
    (x >>= k).perform machine run =
      match x.perform machine run with
      | (.ok a, after) => (k a).perform machine after
      | (.error f, after) => (.error f, after) := by
  simp only [perform, ReaderT.run_bind, ExceptT.run_bind, StateT.run_bind]
  generalize (x.run machine).run.run run = r
  rcases r with ⟨_ | a, after⟩ <;> rfl

theorem perform_bind_ok {x : Gen α} {k : α → Gen β} {a : α}
    (h : x.perform machine run = (.ok a, after)) :
    (x >>= k).perform machine run = (k a).perform machine after := by
  rw [perform_bind, h]

theorem perform_bind_error {x : Gen α} {k : α → Gen β} {f : Fault}
    (h : x.perform machine run = (.error f, after)) :
    (x >>= k).perform machine run = (.error f, after) := by
  rw [perform_bind, h]

theorem exists_of_perform_bind {x : Gen α} {k : α → Gen β} {b : β}
    (h : (x >>= k).perform machine run = (.ok b, after)) :
    ∃ a mid, x.perform machine run = (.ok a, mid) ∧ (k a).perform machine mid = (.ok b, after) := by
  rw [perform_bind] at h
  split at h
  · next a mid hx => exact ⟨a, mid, hx, h⟩
  · cases h

@[simp] theorem perform_read : (read : Gen Machine).perform machine run = (.ok machine, run) := rfl

@[simp] theorem perform_warn (t : Text) :
    (warn t).perform machine run = (.ok (), { run with warnings := run.warnings ++ [t] }) := rfl

@[simp] theorem perform_record (r : Record) :
    (record r).perform machine run = (.ok (), { run with trace := run.trace ++ [r] }) := rfl

theorem perform_fail_eq (f : Fault) :
    (fail f : Gen α).perform machine run = (.error (f.told machine), run) := by
  simp only [fail, perform_bind, perform_read, perform_throw]

theorem perform_fail {f : Fault} (h : ∀ v ∈ f.subject?, machine.Shows v) :
    (fail f : Gen α).perform machine run = (.error f, run) := by
  rw [perform_fail_eq, Fault.told_eq_self h]

theorem fail_ne_ok {f : Fault} {a : α} : ((fail f : Gen α).perform machine run).1 ≠ .ok a := by
  simp [perform_fail_eq]

theorem perform_ofExcept_eq_ok_iff {r : Except Fault α} {a : α} :
    ((ofExcept r).perform machine run).1 = .ok a ↔ r = .ok a := by
  cases r with
  | ok b => simp [ofExcept]
  | error g => simp [ofExcept, perform_fail_eq]

theorem perform_ofExcept_eq_error_iff {r : Except Fault α} {f : Fault} :
    ((ofExcept r).perform machine run).1 = .error f ↔ ∃ g, r = .error g ∧ g.told machine = f := by
  cases r with
  | ok b => simp [ofExcept]
  | error g => simp [ofExcept, perform_fail_eq]

/-- A fault that shows a value is told if the value can be shown. -/
theorem perform_ofExcept_of_shows {r : Except Fault α} {v : Value}
    (hsubject : ∀ f, r = .error f → f.subject? = some v) (h : machine.Shows v) :
    ((ofExcept r).perform machine run).1 = r := by
  cases r with
  | ok a => rfl
  | error f =>
    refine perform_ofExcept_eq_error_iff.mpr ⟨f, rfl, Fault.told_eq_self fun w hw => ?_⟩
    obtain rfl : v = w := by simpa [hsubject f rfl] using hw
    exact h

/-- A fault that shows a value makes way for what keeps the value from being shown. -/
theorem exceeded_of_error {r : Except Fault α} {v : Value} {f : Fault}
    (hsubject : ∀ f, r = .error f → f.subject? = some v) (h : ¬machine.Shows v)
    (hf : ((ofExcept r).perform machine run).1 = .error f) : machine.Exceeded v f := by
  obtain ⟨g, hg, rfl⟩ := perform_ofExcept_eq_error_iff.mp hf
  obtain ⟨obstacle, hobstacle⟩ :=
    Option.ne_none_iff_exists'.mp (mt Machine.obstacle?_eq_none_iff.mp h)
  have htold : g.told machine = obstacle := by simp [Fault.told, hsubject g hg, hobstacle]
  rw [htold]
  exact Machine.exceeded_of_obstacle? hobstacle

@[simp] theorem fail_bind (f : Fault) (k : α → Gen β) : (fail f >>= k) = fail f := by
  simp only [fail, bind_assoc]
  rfl

theorem perform_walk {f : Value → Except Fault α} {v : Value} (h : machine.Shows v) :
    (walk f v).perform machine run = (ofExcept (f v)).perform machine run := by
  simp only [walk, perform_bind, perform_read, Machine.obstacle?_eq_none_iff.mpr h]

theorem perform_walk_of_obstacle {f : Value → Except Fault α} {v : Value} {obstacle : Fault}
    (h : machine.obstacle? v = some obstacle) :
    (walk f v).perform machine run = (.error obstacle, run) := by
  simp only [walk, perform_bind, perform_read, h, perform_throw]

/-- The fault in an answer. -/
def fault? : Except Fault α → Option Fault
  | .ok _ => none
  | .error f => some f

/-- The limits of the machine play no part in the outcome of the step: greater ones change neither
its fault nor what it leaves behind. -/
def Unhindered (x : Gen α) (machine : Machine) (run : Run) : Prop :=
  ∀ larger : Machine, machine.Within larger →
    fault? (x.perform larger run).1 = fault? (x.perform machine run).1 ∧
      (x.perform larger run).2 = (x.perform machine run).2

/-- If a greater machine also keeps the text of a success, it changes nothing at all. -/
theorem Unhindered.perform_eq {x : Gen α} {larger : Machine} (h : x.Unhindered machine run)
    (hlarger : machine.Within larger)
    (hsuccess : ∀ a, (x.perform machine run).1 = .ok a → (x.perform larger run).1 = .ok a) :
    x.perform larger run = x.perform machine run := by
  obtain ⟨hfault, hafter⟩ := h larger hlarger
  refine Prod.ext ?_ hafter
  cases hanswer : (x.perform machine run).1 with
  | ok a => exact hsuccess a hanswer
  | error f =>
    rw [hanswer] at hfault
    cases hanswer' : (x.perform larger run).1 with
    | ok a => simp [hanswer', fault?] at hfault
    | error g => simpa [hanswer', fault?] using hfault

theorem field_of_get? {v x : Value} {name : Text} (h : v.get? name = some x) :
    field v name = pure x := by
  cases hes : v.entries? with
  | none => simp [Value.get?, hes] at h
  | some es =>
    have hx : Value.lookup name es = some x := by simpa [Value.get?, hes] using h
    simp [field, hes, hx]

/-- The answer of a nested step outside of it, where so many calls are open. -/
def surfaced (maxDepth : Int) (depth : Nat) : Except Fault α → Except Fault α
  | .error .tooDeep => .error (if depth = 0 then .depthExceeded maxDepth else .tooDeep)
  | answer => answer

theorem surfaced_of_ne {maxDepth : Int} {depth : Nat} {answer : Except Fault α}
    (h : answer ≠ .error .tooDeep) : surfaced maxDepth depth answer = answer := by
  unfold surfaced
  split
  · exact (h rfl).elim
  · rfl

theorem surfaced_ne_error {maxDepth : Int} {depth : Nat} {answer : Except Fault α} {f : Fault}
    (hf : f ≠ .depthExceeded maxDepth) (h : answer ≠ .error f) :
    surfaced maxDepth depth answer ≠ .error f := by
  unfold surfaced
  split
  · split
    · simpa using hf.symm
    · exact h
  · exact h

theorem surfaced_error (maxDepth : Int) (depth : Nat) (f : Fault) :
    ∃ g, surfaced maxDepth depth (.error f : Except Fault α) = .error g := by
  unfold surfaced
  split
  · exact ⟨_, rfl⟩
  · exact ⟨f, rfl⟩

theorem eq_ok_of_surfaced {maxDepth : Int} {depth : Nat} {answer : Except Fault α} {a : α}
    (h : surfaced maxDepth depth answer = .ok a) : answer = .ok a := by
  unfold surfaced at h
  split at h
  · cases h
  · exact h

theorem perform_nested (maxDepth : Int) (x : Gen α) :
    (nested maxDepth x).perform machine run =
      if maxDepth < run.depth + 1 then (.error (.depthExceeded maxDepth), run)
      else
        (surfaced maxDepth run.depth (x.perform machine { run with depth := run.depth + 1 }).1,
          { (x.perform machine { run with depth := run.depth + 1 }).2 with
            depth := run.depth }) := by
  simp only [perform, nested, ReaderT.run, ExceptT.run, StateT.run]
  split
  · rfl
  · rcases x machine { run with depth := run.depth + 1 } with ⟨(_ | _ | _) | _, after⟩ <;> rfl

theorem depth_nested (maxDepth : Int) (x : Gen α) :
    ((nested maxDepth x).perform machine run).2.depth = run.depth := by
  rw [perform_nested]
  split <;> rfl

theorem perform_nested_of_lt {maxDepth : Int} {x : Gen α} (h : maxDepth < run.depth + 1) :
    (nested maxDepth x).perform machine run = (.error (.depthExceeded maxDepth), run) := by
  rw [perform_nested, if_pos h]

theorem perform_nested_of_le {maxDepth : Int} {x : Gen α} {answer : Except Fault α}
    (h : run.depth + 1 ≤ maxDepth)
    (hx : x.perform machine { run with depth := run.depth + 1 } = (answer, after))
    (hanswer : answer ≠ .error .tooDeep) :
    (nested maxDepth x).perform machine run = (answer, { after with depth := run.depth }) := by
  rw [perform_nested, if_neg (by omega), hx, surfaced_of_ne hanswer]

theorem perform_mapM {x : α → Gen β} {f : α → β} {as : List α}
    (h : ∀ a ∈ as, (x a).perform machine run = (.ok (f a), run)) :
    (as.mapM x).perform machine run = (.ok (as.map f), run) := by
  induction as with
  | nil => rfl
  | cons a as ih =>
    obtain ⟨ha, has⟩ := List.forall_mem_cons.mp h
    rw [List.mapM_cons, perform_bind_ok ha, perform_bind_ok (ih has)]
    rfl

theorem mapM_congr {x y : α → Gen β} {as : List α} (h : ∀ a ∈ as, x a = y a) :
    as.mapM x = as.mapM y := by
  induction as with
  | nil => rfl
  | cons a as ih =>
    obtain ⟨ha, has⟩ := List.forall_mem_cons.mp h
    rw [List.mapM_cons, List.mapM_cons, ha, ih has]

end Gen

namespace Value

/-- A map has one tag at most. -/
theorem tag?_eq_some_iff {v : Value} {tag : Tag} : v.tag? = some tag ↔ v.hasTag tag = true := by
  constructor
  · intro h
    have htag := List.find?_some h
    exact htag
  · intro h
    have hname : v.tagName? = some tag.name := by simpa [hasTag] using h
    simp only [tag?, hasTag, hname]
    cases tag <;> decide

theorem hasTag_eq_false {v : Value} {tag : Tag} (h : v.tag? ≠ some tag) : v.hasTag tag = false :=
  Bool.eq_false_iff.mpr fun htag => h (tag?_eq_some_iff.mpr htag)

/-- What the tag of a map without a defect needs is there. -/
theorem get?_requiredField {v : Value} {tag : Tag} {field : Text} (htag : v.tag? = some tag)
    (hdefect : v.defect? = none) (hfield : tag.requiredField? = some field) :
    ∃ t, v.get? field = some (.str t) := by
  simp only [defect?, htag, hfield] at hdefect
  split at hdefect
  · cases hdefect
  · next t h => exact ⟨t, h⟩
  · cases hdefect

theorem defect?_of_tag?_eq_none {v : Value} (h : v.tag? = none) : v.defect? = none := by
  simp [defect?, h]

theorem classify_of_untagged {r : Bool} {es : Entries} (h : (map r es).tag? = none) :
    (map r es).classify = .ok .object := by
  simp [classify, defect?_of_tag?_eq_none h, h]

theorem classify_of_i18n {r : Bool} {es : Entries} (h : (map r es).tag? = some .i18n) :
    (map r es).classify = .ok .object := by
  simp [classify, defect?, h, Tag.requiredField?, Tag.kind]

theorem defect?_of_classify {r : Bool} {es : Entries} {kind : Kind}
    (h : (map r es).classify = .ok kind) : (map r es).defect? = none := by
  cases hdefect : (map r es).defect? with
  | none => rfl
  | some defect => simp [classify, hdefect] at h

/-- A value that is of no kind is refused in words that show it. -/
theorem fault_of_classify {v : Value} {f : Fault} (h : v.classify = .error f) :
    f = .unclassified v ∨ ∃ d, f = .malformed v d := by
  cases v with
  | map r es =>
    simp only [classify] at h
    split at h
    · next d _ => exact .inr ⟨d, (Except.error.inj h).symm⟩
    · cases h
  | set | bytes | range => exact .inl (Except.error.inj h).symm
  | _ => cases h

end Value

/-- No hooks are registered, under any name. -/
def Options.Hookless (o : Options) : Prop := ∀ name, o.hooksFor? name = none

section
variable {generate : Emitter} {v : Value} {scope : Scope} {o : Options} {kind : Kind}

theorem dispatch_of_hooksFor? (hhooks : o.hooksFor? kind.name = none) :
    kind.dispatch generate v scope o = kind.emit generate v scope o := by
  simp [Kind.dispatch, hhooks]

theorem dispatch_of_hookless (ho : o.Hookless) (kind : Kind) :
    kind.dispatch generate v scope o = kind.emit generate v scope o :=
  dispatch_of_hooksFor? (ho kind.name)

theorem route_of_classify (h : v.classify = .ok kind) :
    route generate v scope o =
      (desugar kind v).1.dispatch generate (desugar kind v).2 scope o := by
  simp [route, h, Gen.ofExcept]

theorem desugar_of_ne (hvariable : kind ≠ .variableRef) (hsource : kind ≠ .dataSource) :
    desugar kind v = (kind, v) := by
  unfold desugar
  split
  · exact (hvariable rfl).elim
  · exact (hsource rfl).elim
  · rfl

/-- Without a node generator, the policy decides about a slot. -/
theorem perform_slot (g : Emitter) (v : Value) (s : Scope) (hnodes : o.nodes = none)
    (machine : Machine) (run : Run) :
    (Slot.emit g v s o).perform machine run =
      if o.policy = "fail" then (.error .noNodeGenerator, run)
      else (.ok [], { run with warnings := run.warnings ++ [Slot.skipWarning] }) := by
  simp only [Slot.emit, hnodes]
  split
  · rw [Gen.fail_bind]
    exact Gen.perform_fail (by simp [Fault.subject?])
  · exact Gen.perform_bind_ok (Gen.perform_warn _)

/-- Without hooks for its kind, a value that stands for no other goes to the emitter of its kind. -/
theorem route_of_hooksFor? (hhooks : o.hooksFor? kind.name = none) (h : v.classify = .ok kind)
    (hvariable : kind ≠ .variableRef) (hsource : kind ≠ .dataSource) :
    route generate v scope o = kind.emit generate v scope o := by
  rw [route_of_classify h, desugar_of_ne hvariable hsource, dispatch_of_hooksFor? hhooks]

theorem route_of_hookless (ho : o.Hookless) (h : v.classify = .ok kind)
    (hvariable : kind ≠ .variableRef) (hsource : kind ≠ .dataSource) :
    route generate v scope o = kind.emit generate v scope o :=
  route_of_hooksFor? (ho kind.name) h hvariable hsource

end

end CompositeScript
