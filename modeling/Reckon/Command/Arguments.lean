/-!
The words behind the name of a command. Words that start with a dash are options, wherever
they stand; a double dash ends the options. An option takes its value from behind an equals
sign or from the next word, whatever that is.
-/

namespace Reckon.Command

/-- The options of a command: those that stand alone, and those with a value. Every command can
explain itself. -/
structure Grammar where
  flags : List String := []
  options : List String := []

structure Arguments where
  flags : List String := []
  options : List (String × String) := []
  positionals : List String := []

/-- A single dash is no option. -/
def isOption (word : String) : Bool :=
  word.startsWith "-" && 1 < word.length

def splitAtEquals (word : String) : String × Option String :=
  let chars := word.toList
  match chars.dropWhile (· ≠ '=') with
  | _ :: value => (String.ofList (chars.takeWhile (· ≠ '=')), some (String.ofList value))
  | [] => (word, none)

namespace Arguments

def withFlag (name : String) (a : Arguments) : Arguments :=
  { a with flags := name :: a.flags }

def withOption (name value : String) (a : Arguments) : Arguments :=
  { a with options := (name, value) :: a.options }

def withPositional (word : String) (a : Arguments) : Arguments :=
  { a with positionals := word :: a.positionals }

def has (a : Arguments) (name : String) : Bool :=
  a.flags.contains name

def values (a : Arguments) (name : String) : List String :=
  a.options.filterMap fun (other, value) => if other = name then some value else none

/-- The value of an option that is given once; otherwise the last one counts. -/
def value? (a : Arguments) (name : String) : Option String :=
  (a.values name).getLast?

/-- The words by their role; nothing if an option is unknown, lacks its value, or has one
that it does not take. -/
def read? (g : Grammar) : List String → Option Arguments
  | [] => some {}
  | word :: rest =>
    if word = "--" then some { positionals := rest }
    else if !isOption word then (read? g rest).map (withPositional word)
    else
      let (name, given) := splitAtEquals word
      if name = "--help" ∨ name ∈ g.flags then
        if given.isNone then (read? g rest).map (withFlag name) else none
      else if name ∈ g.options then
        match given, rest with
        | some value, rest => (read? g rest).map (withOption name value)
        | none, value :: rest => (read? g rest).map (withOption name value)
        | none, [] => none
      else none

end Arguments

end Reckon.Command
