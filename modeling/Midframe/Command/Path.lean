/-!
# Paths

Paths are texts whose parts stand between slashes. Empty parts and single dots are passed over,
except for a dot at the very start.
-/

namespace Midframe

namespace Path

/-- What stands between the slashes of a path, before the first one and behind the last one. -/
def parts (path : String) : List String := (path.toList.splitOn '/').map String.ofList

/-- The parts of a path that name something, each with its place between the slashes. -/
def components (path : String) : List (Nat × String) :=
  (parts path).zipIdx.filterMap fun (part, i) =>
    if part.isEmpty || (part == "." && i != 0) then none else some (i, part)

/-- The path without its last component, as it is written; `none` if there is no component. -/
def parent? (path : String) : Option String :=
  match (components path).reverse with
  | [] => none
  | [_] => some (if path.startsWith "/" then "/" else "")
  | _ :: (i, _) :: _ => some ("/".intercalate ((parts path).take (i + 1)))

/-- A name inside a directory. -/
def join (directory name : String) : String :=
  if directory.isEmpty || directory.endsWith "/" then directory ++ name
  else directory ++ "/" ++ name

/-- What follows the last dot of the last component, in lower case. A dot in front of a name starts
no extension. -/
def extension? (path : String) : Option String :=
  match (components path).getLast? with
  | none => none
  | some (_, name) =>
    match (name.toList.splitOn '.').reverse with
    | last :: before :: rest =>
      if before.isEmpty && rest.isEmpty then none else some (String.ofList last).toLower
    | _ => none

end Path

end Midframe
