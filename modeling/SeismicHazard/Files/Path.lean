/-!
# Paths

Paths are names divided by slashes. Repeated slashes and names that are a single point say nothing,
except that a path may start with one.
-/

namespace SeismicHazard.Path

/-- The names of a path with the slashes around them taken away, empty ones for slashes that divide
nothing. -/
def names (path : String) : List String := path.splitOn "/"

/-- Whether a path starts at the root. -/
def isAbsolute (path : String) : Bool := path.startsWith "/"

/-- Whether a name says nothing. -/
def isIdle (name : String) : Bool := name == "" || name == "."

/-- A list of names without the idle ones at its end. -/
def dropIdle (ns : List String) : List String :=
  (ns.reverse.dropWhile isIdle).reverse

/-- The names of a path up to its last one, and that last one, if it has any. -/
def split? (path : String) : Option (List String × String) :=
  let ns := names path
  match dropIdle ns with
  | [] => if ns.head? == some "." then some ([], ".") else none
  | kept => kept.getLast?.map (fun last => (kept.dropLast, last))

/-- The path that names make up; nothing but a leading slash makes up the root. -/
def ofNames (ns : List String) : String :=
  if ns == [""] then "/" else String.intercalate "/" ns

/-- The path without its last name, if it has one. -/
def parent? (path : String) : Option String := do
  let (before, _) ← split? path
  let kept := dropIdle before
  if kept.isEmpty && before.head? == some "" then return "/"
  if kept.isEmpty && before.head? == some "." then return "."
  return ofNames kept

/-- The last name of a path, unless it leads upward. -/
def fileName? (path : String) : Option String := do
  let (_, last) ← split? path
  if last == ".." || last == "." then none else some last

/-- The last name of a path without what follows its last point, unless nothing comes before. -/
def stem? (path : String) : Option String := do
  let name ← fileName? path
  let (extension, front) := (name.toList.reverse.span (fun c => c != '.'))
  match front with
  | '.' :: [] => return name
  | '.' :: rest => return String.ofList rest.reverse
  | _ => return String.ofList extension.reverse

/-- A path followed by a name. -/
def join (path name : String) : String :=
  if path.endsWith "/" then path ++ name else path ++ "/" ++ name

end SeismicHazard.Path
