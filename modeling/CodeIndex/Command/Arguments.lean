import CodeIndex.Json.Basic
import CodeIndex.Text.Search
/-!
# Command lines

What the program is asked to do by its arguments. Options may stand before or after the name
of the action; what follows two dashes on their own is no option.
-/

namespace CodeIndex

/-- What the program can do. -/
inductive Action where
  | index (force : Bool)
  | indexFile (path : String)
  | checkFile (path : String)
  | query (text : String) (limit : Option Nat) (file : Option String) (json : Bool)
  | context (question : String) (file : Option String) (line budget : Option Nat) (json : Bool)
  | status
  | clear
  | serve
  deriving Repr, DecidableEq

/-- An action for a project, with the file of its settings if one is named. -/
structure Invocation where
  root : String := "."
  config : Option String := none
  action : Action
  deriving Repr, DecidableEq

/-- Why arguments name no action. -/
inductive Usage where
  | help
  | version
  | wrong
  deriving Repr, DecidableEq

namespace Command

open Text

/-- An unsigned number of 64 bits, with or without a plus sign. -/
def number? (s : String) : Option Nat :=
  let ds := Text.withoutStart ['+'] s.toList
  if ds.isEmpty || !ds.all Char.isDigit then none
  else
    let n := ds.foldl (fun n c => n * 10 + (c.toNat - 48)) 0
    if n ≤ Json.maxWord then some n else none

/-- What a value may be. -/
inductive ValueSort where
  | text
  /-- A text that is not empty. -/
  | path
  | number
  deriving Repr, DecidableEq

def ValueSort.admits : ValueSort → String → Bool
  | text, _ => true
  | path, s => s != ""
  | number, s => (number? s).isSome

/-- The arguments that may stand at a place. -/
structure Form where
  /-- Options that take a value. -/
  valued : List (String × ValueSort) := []
  flags : List String := []
  /-- The value without an option, if there may be one. -/
  plain : Option ValueSort := none
  /-- Names of actions. -/
  actions : List String := []

namespace Form

def sort? (g : Form) (name : String) : Option ValueSort :=
  (g.valued.find? (·.1 == name)).map (·.2)

end Form

/-! ## Reading arguments -/

/-- A value as it was given. -/
inductive Given where
  /-- The value of an option. -/
  | option (name : String) (sort : ValueSort) (value : String)
  /-- A value without an option. -/
  | plain (sort : ValueSort) (value : String)
  deriving Repr, DecidableEq

/-- The arguments that were read. -/
structure Read where
  valued : List (String × String) := []
  flags : List String := []
  plain : Option String := none
  /-- The last value, which is looked at when the next argument comes. -/
  last : Option Given := none

namespace Read

/-- A value counts if it is of its sort and no other value was given in its place. -/
def accept (r : Read) : Given → Except Usage Read
  | .option name sort value =>
    if r.valued.any (·.1 == name) || !sort.admits value then .error .wrong
    else .ok { r with valued := r.valued ++ [(name, value)] }
  | .plain sort value =>
    if r.plain.isSome || !sort.admits value then .error .wrong
    else .ok { r with plain := some value }

/-- The last value is looked at. -/
def settle (r : Read) : Except Usage Read :=
  match r.last with
  | some v => accept { r with last := none } v
  | none => .ok r

/-- A value that is looked at with the next argument. -/
def hold (r : Read) (v : Given) : Except Usage Read := do
  return { ← r.settle with last := some v }

/-- A value that is looked at right away. -/
def take (r : Read) (v : Given) : Except Usage Read := do
  (← r.settle).accept v

/-- A flag, which may not be given twice. -/
def setFlag (r : Read) (name : String) : Except Usage Read := do
  let r ← r.settle
  if r.flags.contains name then .error .wrong else .ok { r with flags := r.flags ++ [name] }

/-- A value without an option, if there may be one more. -/
def addPlain (r : Read) (g : Form) (value : String) : Except Usage Read := do
  let r ← r.settle
  match g.plain, r.plain with
  | some sort, none => r.hold (.plain sort value)
  | _, _ => .error .wrong

/-- A request for something else than an action. A wrong value before it wins. -/
def instead (r : Read) (u : Usage) : Usage :=
  match r.settle with
  | .ok _ => u
  | .error e => e

end Read

/-- The part of an option after its dashes, before an equals sign, and the value after
that, if any. -/
def optionParts (body : List Char) : String × Option String :=
  match splitFirst ['='] body with
  | some (name, value) => (String.ofList name, some (String.ofList value))
  | none => (String.ofList body, none)

/-- The argument is an option or the end of all options, and no value. -/
def isDashed (a : String) : Bool :=
  a.toList.head? == some '-' && a != "-"

def readShort (g : Form) (c : Option Char) : Usage :=
  if c == some 'h' then .help
  else if c == some 'V' && !g.actions.isEmpty then .version
  else .wrong

def readHelp (g : Form) (rest : List String) : Usage :=
  if rest.isEmpty || (rest.length == 1 && rest.all fun a => g.actions.contains a || a == "help")
  then .help else .wrong

/-- Reads arguments up to the name of an action, and returns what follows it. A value given
just before that name is not yet looked at. -/
def readArguments (g : Form) (r : Read) :
    List String → Except Usage (Read × Option (String × List String))
  | [] => .ok (r, none)
  | a :: rest =>
    match a.toList with
    | ['-', '-'] => do return (← rest.foldlM (Read.addPlain · g) r, none)
    | '-' :: '-' :: body =>
      match optionParts body with
      | ("help", none) => .error (r.instead .help)
      | ("version", none) => .error (r.instead (if g.actions.isEmpty then .wrong else .version))
      | (name, some value) =>
        match g.sort? name with
        | some sort => do readArguments g (← r.take (.option name sort value)) rest
        | none => .error .wrong
      | (name, none) =>
        if g.flags.contains name then do readArguments g (← r.setFlag name) rest
        else
          match g.sort? name, rest with
          | some sort, value :: rest =>
            if isDashed value then .error .wrong
            else do readArguments g (← r.hold (.option name sort value)) rest
          | _, _ => .error .wrong
    | ['-'] => do readArguments g (← r.addPlain g a) rest
    | '-' :: cs => .error (r.instead (readShort g cs.head?))
    | _ =>
      if g.actions.contains a then .ok (r, some (a, rest))
      else if a == "help" && !g.actions.isEmpty then .error (readHelp g rest)
      else do readArguments g (← r.addPlain g a) rest

/-! ## Values -/

def Read.text? (r : Read) (name : String) : Option String :=
  (r.valued.find? (·.1 == name)).map (·.2)

def Read.number? (r : Read) (name : String) : Option Nat :=
  (r.text? name).bind Command.number?

/-- The only value without an option. -/
def Read.only (r : Read) : Except Usage String :=
  match r.plain with
  | some a => .ok a
  | none => .error .wrong

/-! ## Actions -/

def everywhere : List (String × ValueSort) :=
  [("root", .path), ("config", .path)]

def before : Form where
  valued := everywhere
  actions := ["index", "index-file", "check-file", "query", "context", "status", "clear", "serve"]

def after : String → Form
  | "index" => { valued := everywhere, flags := ["force"] }
  | "index-file" => { valued := everywhere, plain := some .path }
  | "check-file" => { valued := everywhere, plain := some .path }
  | "query" =>
    { valued := everywhere ++ [("limit", .number), ("file", .text), ("line", .number)]
      flags := ["json"], plain := some .text }
  | "context" =>
    { valued := everywhere ++ [("file", .text), ("line", .number), ("budget", .number)]
      flags := ["json"], plain := some .text }
  | "serve" => { valued := everywhere, flags := ["watch"] }
  | _ => { valued := everywhere }

def actionOf (r : Read) : String → Except Usage Action
  | "index" => .ok (.index (r.flags.contains "force"))
  | "index-file" => return .indexFile (← r.only)
  | "check-file" => return .checkFile (← r.only)
  | "query" =>
    return .query (← r.only) (r.number? "limit") (r.text? "file") (r.flags.contains "json")
  | "context" =>
    return .context (← r.only) (r.text? "file") (r.number? "line") (r.number? "budget")
      (r.flags.contains "json")
  | "status" => .ok .status
  | "clear" => .ok .clear
  | "serve" => .ok .serve
  | _ => .error .wrong

end Command

/-- Reads the arguments of the program. An option after the name of the action wins over one
before it. -/
def Invocation.read (arguments : List String) : Except Usage Invocation := do
  match ← Command.readArguments Command.before {} arguments with
  | (_, none) => .error .wrong
  | (first, some (name, rest)) =>
    let (second, _) ← Command.readArguments (Command.after name) {} rest
    let second ← second.settle
    let action ← Command.actionOf second name
    let first ← first.settle
    return ⟨((second.text? "root").orElse fun _ => first.text? "root").getD ".",
      (second.text? "config").orElse fun _ => first.text? "config", action⟩

end CodeIndex
