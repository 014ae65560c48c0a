/-!
# Scopes

The names that are visible at a point of a script, innermost block first. Each name has a flag that
says whether it may be assigned. By convention a name that starts with `mut_` declares a mutable
variable whose name is the rest.
-/

namespace ArrowCircuit.Script

/-- Splits the mark of mutability off a name; a name that is the bare mark is kept. -/
def stripMut (name : String) : String × Bool :=
  match name.toList with
  | 'm' :: 'u' :: 't' :: '_' :: c :: rest => (String.ofList (c :: rest), true)
  | _ => (name, false)

/-- The names of one block, each with its mutability. -/
abbrev Block := List (String × Bool)

/-- The open blocks, innermost first. -/
abbrev Scopes := List Block

namespace Scopes

/-- The mutability of the innermost binding of a name. -/
def lookup? (name : String) : Scopes → Option Bool
  | [] => none
  | block :: outer =>
    match List.lookup name block with
    | some isMutable => some isMutable
    | none => lookup? name outer

/-- Adds a name to the innermost block, if that block does not have it. -/
def declare? (name : String) (isMutable : Bool) : Scopes → Option Scopes
  | [] => some [[(name, isMutable)]]
  | block :: outer =>
    if (List.lookup name block).isSome then none else some (((name, isMutable) :: block) :: outer)

end Scopes

end ArrowCircuit.Script
