import CompositeScript.Fragment.Parse

/-!
What a run is carried out with: the limits of the machine, and the parser of fragments.

Three limits bound a run: how many calls of the generator may be open in each other, how deeply a
value may nest and still be walked to its ends, and how many digits an integer may have and still be
written out. They stand for those of an interpreter. An interpreter counts frames and not calls, and
hooks take frames too, so with hooks there is room for fewer calls; the frames are not modelled, and
where runs with different hooks are compared, each may have a machine of its own.
-/

namespace CompositeScript

/-- What a run is carried out with. -/
structure Machine where
  /-- How many calls of the generator may be open in each other. -/
  calls : Nat
  /-- How deeply a value may nest to be written out or shown. -/
  nesting : Nat
  /-- How many digits an integer may have to be written out or shown. -/
  digits : Nat
  /-- What makes scripts of fragments. -/
  parser : Fragment.Parser

/-- The machine that programs run on. Its numbers of calls and of levels are round ones, between
what an interpreter certainly has room for and what it certainly has none for. -/
def Machine.standard : Machine where
  calls := 300
  nesting := 1000
  digits := Text.maxDigits
  parser := Fragment.parser

end CompositeScript
