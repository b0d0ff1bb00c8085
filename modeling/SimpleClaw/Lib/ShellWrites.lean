import SimpleClaw.Lib.Shell

/-!
# What a simple command writes

The files a simple command names for writing: the targets of its redirections, the file
operands of `touch`, `mkdir`, `rm`, `rmdir`, `truncate` and `tee`, and the destinations of
`cp`, `mv`, `install` and `ln`.  Operands are found as the utilities find them: options carry
their values, `--` ends the options, and a destination may be carried by an option.  The
utilities differ in whether options may still come after an operand; both readings are covered
by the parameter `mixed`.
-/

namespace Shell

/-! ## Options and operands -/

/-- The options of a utility that carry a value. -/
structure OptionSpec where
  short : List Char
  long : List Text

inductive Arg where
  | operand (t : Text)
  | option (name : Text) (value : Option Text)
  deriving DecidableEq

/-- The options of a word such as `-rt`, and the last one if its value is yet to come. -/
def shortOptions (spec : OptionSpec) : Text → List Arg × Option Char
  | [] => ([], none)
  | c :: cs =>
      if spec.short.contains c then
        if cs = [] then ([], some c) else ([.option [c] (some cs)], none)
      else
        let (options, waiting) := shortOptions spec cs
        (.option [c] none :: options, waiting)

/-- The full name of a long option, which may be abbreviated. -/
def OptionSpec.fullName (spec : OptionSpec) (name : Text) : Text :=
  (spec.long.find? name.isPrefixOf).getD name

/-- The arguments of a utility, as options and operands.  The parameter says that options may
come after operands. -/
def parseArgs (mixed : Bool) (spec : OptionSpec) : List Text → List Arg
  | [] => []
  | ('-' :: '-' :: long) :: rest =>
      let name := spec.fullName (long.takeWhile (· ≠ '='))
      if long = [] then rest.map .operand
      else if '=' ∈ long then
        .option name (some (long.dropWhile (· ≠ '=')).tail) :: parseArgs mixed spec rest
      else if spec.long.contains name then
        match rest with
        | [] => []
        | value :: rest => .option name (some value) :: parseArgs mixed spec rest
      else .option name none :: parseArgs mixed spec rest
  | ('-' :: c :: cs) :: rest =>
      match shortOptions spec (c :: cs), rest with
      | (options, none), rest => options ++ parseArgs mixed spec rest
      | (options, some _), [] => options
      | (options, some flag), value :: rest =>
          options ++ .option [flag] (some value) :: parseArgs mixed spec rest
  | operand :: rest =>
      .operand operand :: if mixed then parseArgs mixed spec rest else rest.map .operand

def operandsOf (args : List Arg) : List Text :=
  args.filterMap fun arg => match arg with | .operand t => some t | .option _ _ => none

theorem operandsOf_append (args args' : List Arg) :
    operandsOf (args ++ args') = operandsOf args ++ operandsOf args' := List.filterMap_append

theorem operandsOf_map_operand (ts : List Text) : operandsOf (ts.map .operand) = ts := by
  induction ts with
  | nil => rfl
  | cons t ts ih => exact congrArg (t :: ·) ih

/-- The options of one word are no operands. -/
theorem operandsOf_shortOptions (spec : OptionSpec) (cs : Text) :
    operandsOf (shortOptions spec cs).1 = [] := by
  induction cs with
  | nil => rfl
  | cons c cs ih =>
      rw [shortOptions]
      split
      · split <;> rfl
      · exact ih

/-- Operands are arguments. -/
theorem operandsOf_parseArgs_subset (mixed : Bool) (spec : OptionSpec) (args : List Text) :
    operandsOf (parseArgs mixed spec args) ⊆ args := by
  fun_induction parseArgs mixed spec args
  case case1 => exact List.Subset.refl _
  case case2 rest =>
    rw [operandsOf_map_operand]
    exact List.subset_cons_self _ _
  case case3 long rest name hlong hvalue ih => exact List.subset_cons_of_subset _ ih
  case case4 => exact List.nil_subset _
  case case5 long name hlong hvalue hcarries value rest ih =>
    exact List.subset_cons_of_subset _ (List.subset_cons_of_subset _ ih)
  case case6 long rest name hlong hvalue hflag ih => exact List.subset_cons_of_subset _ ih
  case case7 c cs hdash options rest hshort ih =>
    have hoptions := operandsOf_shortOptions spec (c :: cs)
    rw [hshort] at hoptions
    rw [operandsOf_append, hoptions]
    exact List.subset_cons_of_subset _ ih
  case case8 c cs hdash options flag hshort =>
    have hoptions := operandsOf_shortOptions spec (c :: cs)
    rw [hshort] at hoptions
    rw [hoptions]
    exact List.nil_subset _
  case case9 c cs hdash options flag value rest hshort ih =>
    have hoptions := operandsOf_shortOptions spec (c :: cs)
    rw [hshort] at hoptions
    rw [operandsOf_append, hoptions]
    exact List.subset_cons_of_subset _ (List.subset_cons_of_subset _ ih)
  case case10 operand rest hlong hshort ih =>
    refine List.cons_subset_cons _ ?_
    split
    · exact ih
    · intro t ht
      rw [← operandsOf_map_operand rest]
      exact ht

/-- The value of an option, under its short or its long name. -/
def optionValue (short long : Text) (args : List Arg) : Option Text :=
  args.findSome? fun arg =>
    match arg with
    | .option name (some value) => if name = short ∨ name = long then some value else none
    | _ => none

/-- A flag is given, under its short name or an abbreviation of its long one. -/
def hasFlag (short long : Text) (args : List Arg) : Bool :=
  args.any fun arg =>
    match arg with
    | .option name none => name = short || (name != [] && name.length != 1 && name.isPrefixOf long)
    | _ => false

/-! ## The utilities -/

/-- The utilities that write their file operands. -/
def operandWriters : List Text :=
  [("touch" : Text), ("mkdir" : Text), ("rm" : Text), ("rmdir" : Text), ("truncate" : Text),
    ("tee" : Text)]

/-- The utilities that write a destination. -/
def destinationWriters : List Text :=
  [("cp" : Text), ("mv" : Text), ("install" : Text), ("ln" : Text)]

def optionSpec (name : Text) : OptionSpec :=
  if name = ("touch" : Text) then
    ⟨['d', 'r', 't'], [("date" : Text), ("reference" : Text), ("time" : Text)]⟩
  else if name = ("mkdir" : Text) then ⟨['m'], [("mode" : Text)]⟩
  else if name = ("truncate" : Text) then ⟨['r', 's'], [("reference" : Text), ("size" : Text)]⟩
  else if name = ("cp" : Text) then
    ⟨['S', 't'], [("no-preserve" : Text), ("sparse" : Text), ("suffix" : Text),
      ("target-directory" : Text)]⟩
  else if name = ("mv" : Text) ∨ name = ("ln" : Text) then
    ⟨['S', 't'], [("suffix" : Text), ("target-directory" : Text)]⟩
  else if name = ("install" : Text) then
    ⟨['S', 'g', 'm', 'o', 't'], [("group" : Text), ("mode" : Text), ("owner" : Text),
      ("strip-program" : Text), ("suffix" : Text), ("target-directory" : Text)]⟩
  else ⟨[], []⟩

/-- The destinations among the arguments of a utility that has them. -/
def destinations (name : Text) (args : List Arg) : List Text :=
  match optionValue "t" "target-directory" args with
  | some directory => [directory]
  | none =>
      if name = ("install" : Text) ∧ hasFlag "d" "directory" args = true then operandsOf args
      else if 2 ≤ (operandsOf args).length then (operandsOf args).getLast?.toList
      else []

/-- The files a utility is told to write. -/
def utilityTargets (mixed : Bool) (name : Text) (args : List Text) : List Text :=
  let parsed := parseArgs mixed (optionSpec name) args
  if operandWriters.contains name then operandsOf parsed
  else if destinationWriters.contains name then destinations name parsed
  else []

/-- The files a simple command names for writing. -/
def SimpleCommand.writeTargets (mixed : Bool) (command : SimpleCommand) : List Text :=
  command.redirectTargets ++
    match command.call with
    | [] => []
    | name :: args => utilityTargets mixed name args

end Shell
