import Easel.Toml

/-!
# Settings

Settings say in what window and how a program is run.  Each of them has a
default, and a settings file may give any of them; what it says beyond that is
ignored.
-/

namespace Easel

/-- Where a program draws. -/
inductive DisplayMode where
  /-- On the terminal if there is one. -/
  | auto
  | terminal
  /-- Nowhere; lines are still written. -/
  | headless
deriving Repr, DecidableEq, Inhabited

/-- The mode that a settings file names. -/
def DisplayMode.ofName? : String → Option DisplayMode
  | "auto" => some .auto
  | "terminal" => some .terminal
  | "headless" => some .headless
  | _ => none

/-- The window in which a program draws. -/
structure Window where
  title : String := "doodle"
  width : Nat := 200
  height : Nat := 100
deriving Repr, DecidableEq, Inhabited

/-- How a program is run. -/
structure Runtime where
  /-- The function with which the program begins. -/
  entry : String := "main"
  display : DisplayMode := .auto
  /-- Whether requests to the screen are written to a journal. -/
  logDisplay : Bool := false
  maxSteps : Option Nat := none
deriving Repr, DecidableEq, Inhabited

/-- All settings. -/
structure Settings where
  window : Window := {}
  runtime : Runtime := {}
deriving Repr, DecidableEq, Inhabited

/-- Why settings could not be read. -/
inductive SettingsError where
  | document (fault : Toml.Fault)
  /-- The value of a setting has the wrong type or range. -/
  | unsuitable (key : String)
deriving Repr, DecidableEq, Inhabited

/-- The text of an error. -/
def SettingsError.message : SettingsError → String
  | .document fault => fault.message
  | .unsuitable key => s!"the value of '{key}' is not suitable"

open Toml (Scalar Entries)

/-- The text that a value is. -/
def Toml.Scalar.string? : Scalar → Option String
  | .string value => some value
  | _ => none

/-- The truth value that a value is. -/
def Toml.Scalar.boolean? : Scalar → Option Bool
  | .boolean value => some value
  | _ => none

/-- The number up to `bound` that a value is. -/
def Toml.Scalar.natural? (bound : Nat) : Scalar → Option Nat
  | .integer value =>
    if 0 ≤ value ∧ value ≤ bound then some value.toNat else none
  | _ => none

/-- The greatest width or height of a window. -/
def greatestLength : Nat := 65535

/-- The greatest number of instructions that can be allowed. -/
def greatestSteps : Nat := 18446744073709551615

/-- Change a setting of the window; no window if the value is unsuitable. -/
def Window.set? (window : Window) (key : String) (value : Scalar) :
    Option Window :=
  match key with
  | "title" => value.string?.map fun title => { window with title }
  | "width" =>
    (value.natural? greatestLength).map fun width => { window with width }
  | "height" =>
    (value.natural? greatestLength).map fun height => { window with height }
  | _ => some window

/-- Change a setting of how programs run; nothing if the value is unsuitable. -/
def Runtime.set? (runtime : Runtime) (key : String) (value : Scalar) :
    Option Runtime :=
  match key with
  | "entry" => value.string?.map fun entry => { runtime with entry }
  | "display" =>
    (value.string?.bind DisplayMode.ofName?).map fun display =>
      { runtime with display }
  | "log_display_ops" =>
    value.boolean?.map fun logDisplay => { runtime with logDisplay }
  | "max_steps" =>
    (value.natural? greatestSteps).map fun limit =>
      { runtime with maxSteps := some limit }
  | _ => some runtime

/-- Change settings as the entries of a table say. -/
def applyEntries (set? : α → String → Scalar → Option α)
    (start : α)
    (entries : Entries) : Except SettingsError α :=
  entries.foldlM
    (fun settings (key, value) =>
      match set? settings key value with
      | some changed => .ok changed
      | none => .error (.unsuitable key))
    start

namespace Settings

/-- The entries of the named table; the name must not be a plain key's. -/
def tableOf (document : Toml.Document) (name : String) :
    Except SettingsError Entries :=
  if (document.top.lookup name).isSome then .error (.unsuitable name)
  else .ok ((document.tables.lookup name).getD [])

/-- The settings of a document. -/
def ofDocument (document : Toml.Document) : Except SettingsError Settings := do
  let window ← applyEntries Window.set? {} (← tableOf document "window")
  let runtime ← applyEntries Runtime.set? {} (← tableOf document "runtime")
  return { window, runtime }

/-- Read settings. -/
def parse (text : String) : Except SettingsError Settings :=
  match Toml.Document.parse text with
  | .ok document => ofDocument document
  | .error fault => .error (.document fault)

end Settings

end Easel
