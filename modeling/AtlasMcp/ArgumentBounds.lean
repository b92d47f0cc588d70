import AtlasMcp.ErrorFramework

/-!
# Bounds on argument trees

`boundArgumentTree` rejects a tool call whose arguments are too large or nested too
deep, before any schema sees them.  `json.dumps` writes ASCII, so a text has as many
bytes as characters.

The text is what is measured first, and the interpreter does not write every text: the
encoder calls itself for each object and list inside another, and an integer of too many
digits is not converted.  `boundArguments` is the rest, for arguments that it writes.
-/

namespace Validation

open PyJson Errors

variable {F : Type}

/-- How long the text of the arguments may be, in bytes. -/
def maxArgumentBytes : ℕ := 64 * 1024

/-- How deep the arguments may nest. -/
def maxNestingDepth : ℕ := 8

/-- How long a list may be. -/
def maxListLength : ℕ := 1000

/-- How many keys a dictionary may have. -/
def maxObjectKeys : ℕ := 100

/-- The `ValidationError` of the bounds. -/
def invalidArguments (hint : String) (context : Option (List (String × Value F))) :
    ToolError F where
  cls := .validationError
  code := "invalid_arguments"
  hint := hint
  context := context

mutual

/-- `_check_depth`: it looks at a node before its children, so the error is
the one of the node that comes first. -/
def checkDepth (node : Value F) (depth : ℕ) : Except (ToolError F) Unit :=
  if maxNestingDepth < depth then
    .error (invalidArguments
      ("arguments nest deeper than " ++ toString maxNestingDepth ++ " levels") none)
  else
    match node with
    | .dict kvs =>
        if maxObjectKeys < kvs.length then
          .error (invalidArguments
            ("object exceeds " ++ toString maxObjectKeys ++ " keys") none)
        else checkMembers kvs (depth + 1)
    | .list xs =>
        if maxListLength < xs.length then
          .error (invalidArguments
            ("list exceeds " ++ toString maxListLength ++ " items") none)
        else checkItems xs (depth + 1)
    | _ => .ok ()

/-- The items of a list, from the first one on. -/
def checkItems (xs : List (Value F)) (depth : ℕ) : Except (ToolError F) Unit :=
  match xs with
  | [] => .ok ()
  | v :: xs => do checkDepth v depth; checkItems xs depth

/-- The values of a dictionary, from the first one on; the keys are not
checked. -/
def checkMembers (kvs : List (String × Value F)) (depth : ℕ) :
    Except (ToolError F) Unit :=
  match kvs with
  | [] => .ok ()
  | (_, v) :: kvs => do checkDepth v depth; checkMembers kvs depth

end

/-- What `bound_argument_tree` makes of arguments that the interpreter writes.
The dispatch of a call is modelled for such arguments. -/
def boundArguments [PyFloat F] (arguments : List (String × Value F)) :
    Except (ToolError F) (List (String × Value F)) := do
  let bytes := (encode (.dict arguments)).length
  if maxArgumentBytes < bytes then
    .error (invalidArguments
      ("arguments exceed " ++ toString maxArgumentBytes ++ " bytes")
      (some [("bytes", .int bytes)]))
  checkDepth (.dict arguments) 0
  return arguments

/-! ## What the interpreter writes -/

mutual

/-- The values in the order in which the encoder comes to them, with their
levels. -/
def inOrder (level : ℕ) : Value F → List (ℕ × Value F)
  | .list xs => (level, .list xs) :: inOrderItems (level + 1) xs
  | .dict kvs => (level, .dict kvs) :: inOrderMembers (level + 1) kvs
  | v => [(level, v)]

/-- The items of a list, each with what is in it. -/
def inOrderItems (level : ℕ) : List (Value F) → List (ℕ × Value F)
  | [] => []
  | v :: xs => inOrder level v ++ inOrderItems level xs

/-- The values of a dictionary, each with what is in it. -/
def inOrderMembers (level : ℕ) : List (String × Value F) → List (ℕ × Value F)
  | [] => []
  | (_, v) :: kvs => inOrder level v ++ inOrderMembers level kvs

end

/-- The limits of an interpreter: how many calls of the encoder the stack has
room for, where `json.dumps` is called, and how many digits an integer may
have, if that is limited. -/
structure Interpreter where
  stackRoom : ℕ
  maxStrDigits : ℕ := 4300

namespace Interpreter

/-- The encoder does not write the value: it would have to call itself too
often, or the integer is too long. -/
def refuses (py : Interpreter) (level : ℕ) : Value F → Bool
  | .int n => 0 < py.maxStrDigits ∧ py.maxStrDigits < (Nat.toDigits 10 n.natAbs).length
  | .list _ | .dict _ | .other .. => py.stackRoom ≤ level
  | _ => false

/-- The first value that it does not write. -/
def firstRefused (py : Interpreter) (v : Value F) : Option (ℕ × Value F) :=
  (inOrder 0 v).find? fun x => py.refuses x.1 x.2

/-- `str(exc)` of the `ValueError` for an integer that is too long. -/
def tooManyDigits (py : Interpreter) : String :=
  "Exceeds the limit (" ++ toString py.maxStrDigits ++
    " digits) for integer string conversion; use sys.set_int_max_str_digits() to increase the limit"

end Interpreter

/-- Of what `json.dumps` raises, `except (TypeError, ValueError)` catches the
second alone. -/
def boundArgumentTree [PyFloat F] (py : Interpreter) (arguments : List (String × Value F)) :
    Except (Exc F) (List (String × Value F)) :=
  match py.firstRefused (.dict arguments) with
  | some (_, .int _) => .error (.tool (invalidArguments
      ("arguments are not JSON-serialisable: " ++ py.tooManyDigits) none))
  | some _ => .error (.other "RecursionError")
  | none => (boundArguments arguments).mapError .tool

end Validation
