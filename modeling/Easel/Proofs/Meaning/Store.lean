import Easel.Drawing
import Easel.Program
import Easel.Table

/-!
# A store of named variables

The meaning of a program is given over a store in which every variable is
found by its name.  A variable holds a single datum or a list of them, and a
datum is a plain value or an object with its attributes.  Nothing here knows
of addresses.
-/

namespace Easel.Meaning

/-- Why the evaluation of a program comes to a bad end. -/
inductive Mishap where
  | divisionByZero
  /-- A list of `size` items has no item `index`. -/
  | indexOutOfBounds (index : Int64) (size : Int)
  /-- Nothing is said about such a program; none passes its checks. -/
  | meaningless
deriving Repr, DecidableEq, Inhabited

/-- A plain value, or an object with its attributes. -/
inductive Datum where
  | plain (value : Value)
  | object (kind : Element) (fields : Attribute → Value)

namespace Datum

def zero (element : Element) : Datum :=
  if element.isObject then .object element fun field => .zero field.element
  else .plain (.zero element)

def drawing : Datum → Drawing
  | .object kind fields =>
    kind.attributes.foldl (fun drawing field =>
      drawing.set field (fields field)) { kind }
  | .plain _ => default

def text : Datum → String
  | .plain value => value.text
  | .object kind fields => (Datum.object kind fields).drawing.text

/-- The datum itself, or the attribute that a use of it names. -/
def select (datum : Datum) : Option String → Except Mishap Datum
  | none => .ok datum
  | some field =>
    match Attribute.ofName? field, datum with
    | some member, .object _ fields => .ok (.plain (fields member))
    | _, _ => .error .meaningless

/-- A value as a slot of the given type takes it: whole numbers are widened. -/
def fit (kind : Element) (value : Value) : Except Mishap Value :=
  match value.fit? kind with
  | some fitted => .ok fitted
  | none => .error .meaningless

/-- The datum after another was assigned to it or to its named attribute. -/
def assign (datum : Datum) : Option String → Datum → Except Mishap Datum
  | none, new =>
    match datum, new with
    | .plain old, .plain value => .plain <$> fit old.element value
    | .object _ _, .object kind fields => .ok (.object kind fields)
    | _, _ => .error .meaningless
  | some field, new =>
    match Attribute.ofName? field, datum, new with
    | some member, .object kind fields, .plain value => do
      let fitted ← fit member.element value
      return .object kind fun other => if other = member then fitted
        else fields other
    | _, _, _ => .error .meaningless

end Datum

/-- What a variable holds. -/
inductive Holding where
  | single (datum : Datum)
  | list (data : List Datum)

namespace Holding

def zero (type : Ty) : Holding :=
  if type.isList then .list (List.replicate type.size (.zero type.element))
  else .single (.zero type.element)

/-- The place of an item in a list of a given size. -/
def place (size : Nat) (index : Int64) : Except Mishap Nat :=
  if 0 ≤ index.toInt ∧ index.toInt < size then .ok index.toInt.toNat
  else .error (.indexOutOfBounds index size)

/-- The single datum, or the item with the given index. -/
def read : Holding → Option Int64 → Except Mishap Datum
  | .single datum, none => .ok datum
  | .list data, some index => do
    match data[← place data.length index]? with
    | some datum => .ok datum
    | none => .error .meaningless
  | _, _ => .error .meaningless

/-- Change the single datum, or the item with the given index. -/
def update (holding : Holding)
    (index : Option Int64)
    (change : Datum → Except Mishap Datum) : Except Mishap Holding := do
  let changed ← change (← holding.read index)
  match holding, index with
  | .list data, some index => return .list (data.set index.toInt.toNat changed)
  | _, _ => return .single changed

end Holding

/-- The variables of a function and the global variables. -/
structure Store where
  locals : Table Holding
  globals : Table Holding

namespace Store

/-- What the variable of a name holds; those of the function come first. -/
def holding (store : Store) (name : String) : Except Mishap Holding :=
  match store.locals.find? name <|> store.globals.find? name with
  | some holding => .ok holding
  | none => .error .meaningless

def set (store : Store) (name : String) (holding : Holding) : Store :=
  if store.locals.contains name then
    { store with locals := store.locals.modify name fun _ => holding }
  else { store with globals := store.globals.modify name fun _ => holding }

/-- Let a declared variable hold the zero of its type. -/
def declare (store : Store) (declaration : Declaration) : Store :=
  { store with
    locals := store.locals.modify declaration.name fun _ =>
      .zero declaration.type }

/-- The variables of some declarations, before anything was assigned to them. -/
def zeros (declarations : List Declaration) : Table Holding :=
  ⟨declarations.map fun declaration =>
    (declaration.name, .zero declaration.type)⟩

end Store

end Easel.Meaning
