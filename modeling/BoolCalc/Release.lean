import BoolCalc.Toml.Document

/-!
# Releases

Which release of the program this is.

A checkout says so in its project file: if the project there is this program,
its version is taken as it stands, whatever kind of value it is.

## Main definitions

* `Release.current`: The release of this program.
* `Release.ofProjectFile`: The version a project file declares.
-/

namespace BoolCalc

namespace Release

/-- The name the program is distributed under. -/
def distribution : String := "booltree"

/-- The release of this program. -/
def current : String := "0.1.0"

/-- Why a project file cannot be asked for its version. -/
inductive ProjectError
  | notToml
  | numberTooLong (digits : Nat)
  | projectNotTable
  deriving DecidableEq, Repr

/-- The version declared by a project, if the project is this program. -/
def declared (project : Toml.Fields) : Option Toml.Value :=
  match project.get? "name" with
  | some (.text name) => if name = distribution then project.get? "version" else none
  | _ => none

/-- The version a project file declares for this program; none if there is no
    file, or if the file is about something else. -/
def ofProjectFile (file : Option String) : Except ProjectError (Option Toml.Value) :=
  match file with
  | none => .ok none
  | some source =>
    match Toml.parseDocument source with
    | .error .malformed => .error .notToml
    | .error (.numberTooLong digits) => .error (.numberTooLong digits)
    | .ok document =>
      match document.get? "project" with
      | none => .ok none
      | some (.table project) => .ok (declared project)
      | some _ => .error .projectNotTable

end Release

end BoolCalc
