import SeismicHazard.Error
import SeismicHazard.Text.Blank

/-!
# The environment

Environment variables carry settings as text. A variable that holds only blanks counts as not set
where a setting is read, and blanks around its value are ignored.
-/

namespace SeismicHazard

/-- Environment variables and their values. -/
abbrev Environment := List (String × String)

namespace Environment

/-- The value of a variable, blank or not. -/
def raw? (env : Environment) (name : String) : Option String := env.lookup name

/-- The value of a variable that is not blank. -/
def value? (env : Environment) (name : String) : Option String :=
  (env.raw? name).filter (fun text => !(Text.trim text).isEmpty)

/-- The value of a variable as `read?` reads it, or `previous` if the variable is not set. -/
def setting {R α : Type} (env : Environment) (name : String) (read? : String → Option α)
    (previous : α) : Except (Error R) α :=
  match env.value? name with
  | none => .ok previous
  | some text =>
      match read? (Text.trim text) with
      | some value => .ok value
      | none => .error (.config (.unreadable name text))

end Environment

end SeismicHazard
