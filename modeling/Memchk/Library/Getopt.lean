import Mathlib.Tactic

/-!
# Command lines

`getopt` of the GNU C library, which takes elements that are no options out of its way: it goes
through the elements behind the current one until it finds an option. The permutation of `argv` that
this leaves behind is not modelled, as nobody looks at the elements that were passed over.

Where an option needs an argument and nothing stands behind it in its own element, the next element
is the argument, whatever it looks like.

## The calls

`Getopt` is what the function keeps between two calls, what is left of the current element and the
elements behind it, and the two variables that it sets for its caller. A call gives the next option
character, `?` for one that is unknown or that lacks its argument, or nothing when there is no
option any more. The lemmas are about an element with a single option character: with its argument
in the next element (`getopt_argument`), without one (`getopt_missing`), and with a character that
is not in the list of options (`getopt_unknown`).
-/

/-- The state of `getopt`: the rest of the current element and the elements behind it, and the two
variables that it sets for its caller. -/
structure Getopt where
  nextchar : List Char
  argv : List (List Char)
  optarg : Option (List Char)
  optopt : Char

namespace Getopt

/-- Whether the option string has an argument for an option, if it has the option at all. -/
def takesArgument (optstring : List Char) (c : Char) : Option Bool :=
  if c = ':' ∨ c = ';' then none
  else
    match optstring.dropWhile (· ≠ c) with
    | [] => none
    | _ :: rest => some (rest.head? = some ':')

/-- The next element that is an option, without its `-`, and the elements behind it. The element
`--` ends the options. -/
def nextElement : List (List Char) → Option (Char × List Char × List (List Char))
  | ('-' :: c :: cs) :: argv => if c = '-' ∧ cs = [] then none else some (c, cs, argv)
  | _ :: argv => nextElement argv
  | [] => none

/-- The option `c`, with `cs` behind it in the same element. -/
def option (optstring : List Char) (c : Char) (cs : List Char) (g : Getopt) : Char × Getopt :=
  match takesArgument optstring c with
  | none => ('?', { g with nextchar := cs, optarg := none, optopt := c })
  | some false => (c, { g with nextchar := cs, optarg := none })
  | some true =>
    match cs, g.argv with
    | _ :: _, _ => (c, { g with nextchar := [], optarg := some cs })
    | [], x :: argv => (c, { g with nextchar := [], argv := argv, optarg := some x })
    | [], [] => ('?', { g with nextchar := [], optarg := none, optopt := c })

end Getopt

/-- `getopt`; the result `-1` is `none`. -/
def getopt (optstring : List Char) (g : Getopt) : Option (Char × Getopt) :=
  match g.nextchar with
  | c :: cs => some (Getopt.option optstring c cs g)
  | [] =>
    (Getopt.nextElement g.argv).map fun x ↦
      Getopt.option optstring x.1 x.2.1 { g with argv := x.2.2 }

namespace Getopt

variable {optstring x : List Char} {argv : List (List Char)} {optarg : Option (List Char)}
  {c optopt : Char}

/-- An element that does not start with `-` is passed over. -/
theorem getopt_skip (hx : x.head? ≠ some '-') :
    getopt optstring ⟨[], x :: argv, optarg, optopt⟩ =
      getopt optstring ⟨[], argv, optarg, optopt⟩ := by
  have hnext : nextElement (x :: argv) = nextElement argv := by
    rw [nextElement]
    rintro d ds rfl
    exact hx rfl
  rw [getopt, getopt]
  simp only [hnext]

/-- An element with one option character is that option. -/
theorem getopt_element (hc : c ≠ '-') :
    getopt optstring ⟨[], ['-', c] :: argv, optarg, optopt⟩ =
      some (option optstring c [] ⟨[], argv, optarg, optopt⟩) := by
  rw [getopt]
  simp only [nextElement, hc, false_and, if_false, Option.map_some]

/-- An option of one letter takes the next element as its argument. -/
theorem getopt_argument (hc : c ≠ '-') (htakes : takesArgument optstring c = some true) :
    getopt optstring ⟨[], ['-', c] :: x :: argv, optarg, optopt⟩ =
      some (c, ⟨[], argv, some x, optopt⟩) := by
  rw [getopt_element hc]
  simp only [option, htakes]

/-- At the end there is no argument left. -/
theorem getopt_missing (hc : c ≠ '-') (htakes : takesArgument optstring c = some true) :
    getopt optstring ⟨[], [['-', c]], optarg, optopt⟩ = some ('?', ⟨[], [], none, c⟩) := by
  rw [getopt_element hc]
  simp only [option, htakes]

/-- A letter that is no option. -/
theorem getopt_unknown (hc : c ≠ '-') (htakes : takesArgument optstring c = none) :
    getopt optstring ⟨[], ['-', c] :: argv, optarg, optopt⟩ =
      some ('?', ⟨[], argv, none, c⟩) := by
  rw [getopt_element hc]
  simp only [option, htakes]

end Getopt
