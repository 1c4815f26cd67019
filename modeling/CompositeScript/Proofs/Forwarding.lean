import CompositeScript.Emitter.Function
import Mathlib.Data.List.TakeWhile

/-!
Forwarding functions and what they forward.

Recognition, the name of the method and the further arguments come from three scans of the same
line: for a substring, for the first two dots, and for the first brackets. On a shim, the form in
which designers stored the binding of a method, the three agree on where the pieces are.
-/

namespace CompositeScript

namespace Text

variable {c : CodePoint} {x y p : Text}

/-! ## Scans -/

theorem before_of_not_mem (h : c ∉ x) : before c x = x := by
  rw [before, List.takeWhile_eq_self_iff]
  intro d hd
  exact decide_eq_true fun hdc => h (hdc ▸ hd)

/-- What follows a `c` has no part in what stands before the first one. -/
theorem before_append_cons : before c (x ++ c :: y) = before c x := by
  induction x with
  | nil => simp [before]
  | cons d x ih => by_cases hd : d = c <;> simp_all [before]

theorem after_append_cons (h : c ∉ x) : after c (x ++ c :: y) = y := by
  induction x with
  | nil => simp [after]
  | cons d x ih =>
    have hd : d ≠ c := fun hdc => h (hdc ▸ List.mem_cons_self)
    have hx : c ∉ x := fun hx => h (.tail d hx)
    simpa [after, hd] using ih hx

theorem before_eq_self : before c x = x ↔ c ∉ x := by
  refine ⟨fun h hc => ?_, before_of_not_mem⟩
  rw [← h, before] at hc
  exact absurd (List.mem_takeWhile_imp hc) (by simp)

theorem startsWith_append (p y : Text) : startsWith (p ++ y) p = true :=
  List.isPrefixOf_iff_prefix.mpr (List.prefix_append p y)

theorem includes_append (x p y : Text) : includes (x ++ (p ++ y)) p = true := by
  induction x with
  | nil =>
    cases hpy : p ++ y with
    | nil =>
      obtain ⟨rfl, -⟩ := List.append_eq_nil_iff.mp hpy
      rfl
    | cons d z =>
      have hstart := startsWith_append p y
      rw [hpy] at hstart
      rw [List.nil_append, includes, hstart, Bool.true_or]
  | cons d x ih => rw [List.cons_append, includes, ih, Bool.or_true]

end Text

namespace Fragment

/-- What hands the arguments on, up to its bracket. -/
def forwardCallHead : Text := ".apply(this,Array.prototype.slice.call(arguments).concat("

/-- The pieces of a shim: what stands before the first dot, the method, the further arguments, and
what stands behind their brackets. -/
structure Shim where
  start : Text
  method : Text
  further : Text
  finish : Text
  forwardHead_start : forwardHead <+: start
  dot_start : ('.' : CodePoint) ∉ start
  bracket_start : ('[' : CodePoint) ∉ start
  dot_method : ('.' : CodePoint) ∉ method
  bracket_method : ('[' : CodePoint) ∉ method
  bracket_finish : (']' : CodePoint) ∉ finish

namespace Shim

variable {shim : Shim} {code : Text}

/-- The shim on one line. -/
def line (shim : Shim) : Text :=
  shim.start ++ "." ++ shim.method ++ forwardCall ++ shim.further ++ "]" ++ shim.finish

/-- The further arguments as they are forwarded: behind the first code point, a bracket ends
them. -/
def forwarded (shim : Shim) : Text :=
  match shim.further with
  | [] => []
  | c :: rest => c :: Text.before ']' rest

theorem line_eq_dot : shim.line = shim.start ++ ('.' : CodePoint) :: (shim.method ++
    ('.' : CodePoint) :: (forwardCall.tail ++
      (shim.further ++ (']' : CodePoint) :: shim.finish))) := by
  simp [line, forwardCall, Text.ofString]

theorem line_eq_call : shim.line = (shim.start ++ ('.' : CodePoint) :: shim.method) ++
    (forwardCall ++ (shim.further ++ (']' : CodePoint) :: shim.finish)) := by
  simp [line, Text.ofString]

theorem line_eq_bracket : shim.line =
    (shim.start ++ ('.' : CodePoint) :: (shim.method ++ forwardCallHead)) ++
      ('[' : CodePoint) :: (shim.further ++ (']' : CodePoint) :: shim.finish) := by
  simp [line, forwardCall, forwardCallHead, Text.ofString]

/-- The first scan: a shim is recognized. -/
theorem isForward (h : oneLine code = shim.line) : isForward code = true := by
  obtain ⟨rest, hrest⟩ := shim.forwardHead_start
  have hstart : Text.startsWith shim.line forwardHead = true := by
    rw [line_eq_dot, ← hrest, List.append_assoc]
    exact Text.startsWith_append _ _
  have hcall : Text.includes shim.line forwardCall = true := by
    rw [line_eq_call]
    exact Text.includes_append _ _ _
  rw [Fragment.isForward, h, hstart, hcall, Bool.true_and]

/-- The second scan: the method stands between the first two dots. -/
theorem betweenDots_line : betweenDots shim.line = shim.method := by
  rw [betweenDots, line_eq_dot, Text.after_append_cons shim.dot_start,
    Text.before_append_cons, Text.before_of_not_mem shim.dot_method]

theorem after_bracket_line :
    Text.after '[' shim.line = shim.further ++ (']' : CodePoint) :: shim.finish := by
  rw [line_eq_bracket, Text.after_append_cons]
  intro h
  rcases List.mem_append.mp h with h | h
  · exact shim.bracket_start h
  rcases List.mem_cons.mp h with h | h
  · exact absurd h (by decide)
  rcases List.mem_append.mp h with h | h
  · exact shim.bracket_method h
  · exact absurd h (by decide)

/-- The third scan: the brackets hold what is forwarded. Empty ones count as none. -/
theorem bracketed?_line :
    bracketed? shim.line = if shim.further = [] then none else some shim.forwarded := by
  rw [bracketed?, after_bracket_line, forwarded]
  cases shim.further with
  | nil => simp [shim.bracket_finish]
  | cons c rest => simp [Text.before_append_cons]

/-- What the arrow function hands on besides its own arguments. -/
def handedOn (shim : Shim) : Text := if shim.further = [] then [] else ", " ++ shim.forwarded

/-- The arrow function that calls the method and hands on what it is told to. -/
def arrow (shim : Shim) (handedOn : Text) : Text :=
  "(...args) => \x7b " ++ shim.method ++ "(...args" ++ handedOn ++ "); \x7d"

theorem arrow_inj {x y : Text} : shim.arrow x = shim.arrow y ↔ x = y := by
  simp [arrow]

theorem forwardArrow_eq (h : oneLine code = shim.line) :
    forwardArrow code = shim.arrow shim.handedOn := by
  rw [forwardArrow, h, betweenDots_line, bracketed?_line, handedOn]
  split <;> simp [arrow]

theorem handedOn_eq_nil : shim.handedOn = [] ↔ shim.further = [] := by
  rw [handedOn]
  split <;> simp_all [Text.ofString]

/-- All the further arguments are handed on, if no bracket cuts them short. -/
theorem handedOn_eq_further : shim.handedOn = Text.ofString ", " ++ shim.further ↔
    shim.further ≠ [] ∧ (']' : CodePoint) ∉ shim.further.tail := by
  rw [handedOn, forwarded]
  cases shim.further with
  | nil => simp [Text.ofString]
  | cons c rest => simp [Text.before_eq_self]

theorem handedOn_eq_cut {c : CodePoint} {inside rest : Text}
    (hfurther : shim.further = c :: (inside ++ (']' : CodePoint) :: rest))
    (hinside : (']' : CodePoint) ∉ inside) :
    shim.handedOn = Text.ofString ", " ++ c :: inside := by
  have hbefore := (Text.before_append_cons (y := rest)).trans (Text.before_of_not_mem hinside)
  simp [handedOn, forwarded, hfurther, hbefore]

end Shim

end Fragment

open Fragment

/-- **Shims forward their method and arguments.** A shim is recognized whatever reads fragments and
finds free names, and its method is called with the further arguments in its brackets: with none if
the brackets are empty, with all of them if no bracket stands behind their first code point, and
otherwise with those before that bracket. -/
theorem shim_forwards (shim : Shim) {code : Text} (h : oneLine code = shim.line) :
    isForward code = true ∧
    (∀ parser finder, Function.shapeOf parser finder code = .ok .forward) ∧
    (forwardArrow code = "(...args) => \x7b " ++ shim.method ++ "(...args); \x7d" ↔
      shim.further = []) ∧
    (forwardArrow code =
        "(...args) => \x7b " ++ shim.method ++ "(...args, " ++ shim.further ++ "); \x7d" ↔
      shim.further ≠ [] ∧ (']' : CodePoint) ∉ shim.further.tail) ∧
    ∀ (c : CodePoint) (inside rest : Text),
      shim.further = c :: (inside ++ (']' : CodePoint) :: rest) → (']' : CodePoint) ∉ inside →
      forwardArrow code =
        "(...args) => \x7b " ++ shim.method ++ "(...args, " ++ (c :: inside) ++ "); \x7d" := by
  have hforward := Shim.isForward h
  rw [Shim.forwardArrow_eq h]
  refine ⟨hforward, ?_, ?_, ?_, ?_⟩
  · intro parser finder
    rw [Function.shapeOf, if_pos hforward]
  · have harrow : Text.ofString "(...args) => \x7b " ++ shim.method ++ "(...args); \x7d" =
        shim.arrow [] := by simp [Shim.arrow, Text.ofString]
    rw [harrow, Shim.arrow_inj, Shim.handedOn_eq_nil]
  · have harrow : Text.ofString "(...args) => \x7b " ++ shim.method ++ "(...args, " ++
        shim.further ++ "); \x7d" = shim.arrow (Text.ofString ", " ++ shim.further) := by
      simp [Shim.arrow, Text.ofString]
    rw [harrow, Shim.arrow_inj, Shim.handedOn_eq_further]
  · intro c inside rest hfurther hinside
    rw [Shim.handedOn_eq_cut hfurther hinside]
    simp [Shim.arrow, Text.ofString]

/-- A shim whose brackets hold `]a[0], b`, on two lines and with a tab in its first word. -/
def bracketShim : Shim where
  start := "function()\x7bthis"
  method := "onSelect"
  further := "]a[0], b"
  finish := "))\x7d"
  forwardHead_start := ⟨Text.ofString "\x7bthis", rfl⟩
  dot_start := by decide
  bracket_start := by decide
  dot_method := by decide
  bracket_method := by decide
  bracket_finish := by decide

theorem bracketShim_forwards :
    let code := Text.ofString
      ("fun\tction()\x7bthis.onSelect.apply(this,Array.prototype.slice.call(arguments)\r\n" ++
        ".concat([]a[0], b]))\x7d")
    oneLine code = bracketShim.line ∧ isForward code = true ∧
      Function.shapeOf parser .scan code = .ok .forward ∧
      forwardArrow code = Text.ofString "(...args) => \x7b onSelect(...args, ]a[0); \x7d" := by
  intro code
  have hline : oneLine code = bracketShim.line := by decide
  obtain ⟨hforward, hshape, -, -, hcut⟩ := shim_forwards bracketShim hline
  exact ⟨hline, hforward, hshape parser .scan,
    hcut ']' (Text.ofString "a[0") (Text.ofString ", b") rfl (by decide)⟩

end CompositeScript
