import CodeIndex.Command.Run
import CodeIndex.Syntax.Given
/-!
# Scripts

The program works on the files that a script describes. A script is a sequence of lines in
JSON: a line puts a file into the project, tells the time, runs an action beforehand, or is a
message for the server.
-/

namespace CodeIndex

/-- A line of a script. -/
inductive ScriptLine where
  /-- Tells the time. -/
  | now (t : Instant)
  /-- Puts a file into the project. -/
  | file (path text : String) (mtime : Instant) (tree : Option Syntax.Node)
  /-- Runs the program with these arguments. -/
  | run (arguments : List String)
  /-- Sends a message to the server. -/
  | send (message : Json)

namespace ScriptLine

def text? (j : Json) (name : String) : Option String :=
  (j.field? name).bind Json.text?

def instant? (j : Json) (name : String) : Option Instant :=
  (text? j name).bind Instant.read?

/-- Reads a line. A file's path is the field `file`, besides which there may be `text`,
`mtime` and `tree`; the other sorts of lines have the single field of their name. -/
def read? (line : String) : Option ScriptLine := do
  let j ← Json.read? line
  match text? j "file" with
  | some path =>
    return .file path ((text? j "text").getD "") ((instant? j "mtime").getD default)
      ((j.field? "tree").bind Syntax.Node.ofJson?)
  | none =>
    match instant? j "now", (j.field? "run").bind Json.texts?, j.field? "send" with
    | some t, _, _ => return .now t
    | none, some arguments, _ => return .run arguments
    | none, none, some message => return .send message
    | none, none, none => none

end ScriptLine

/-- What the lines of a script have led to. -/
structure Script where
  disk : Disk := {}
  now : Instant := default
  trees : List Syntax.Given := []
  /-- Messages for the server, the first one first. -/
  messages : List Json := []

namespace Script

def projectPlace : Place := ["project"]

def dataPath : String := "/data"

def host (s : Script) : Host where
  disk := s.disk.makeAll projectPlace
  current := projectPlace
  dataDirectory := dataPath
  grammar := Grammar.ofGiven [] s.trees
  now := s.now

/-- A line takes effect. What an action beforehand prints is dropped. -/
def step (s : Script) : ScriptLine → Script
  | .now t => { s with now := t }
  | .file path text mtime tree =>
    { s with
      disk := s.disk.place (s.disk.placeOf projectPlace path) (.file text.toUTF8 mtime)
      trees := (tree.map (⟨path, text, ·⟩)).toList ++ s.trees }
  | .run arguments => { s with disk := (Command.run s.host arguments).1 }
  | .send message => { s with messages := s.messages ++ [message] }

/-- The lines of a text take effect one after the other. Lines that cannot be read are
passed over. -/
def ofLines (lines : List String) : Script :=
  (lines.filterMap ScriptLine.read?).foldl step {}

/-- Runs the program. If there are messages it answers each of them in a line. -/
def finish (s : Script) (arguments : List String) : Output :=
  if s.messages.isEmpty then (Command.run s.host arguments).2
  else
    let (_, code, replies) := Command.serve s.host arguments s.messages
    ⟨code, String.join ((replies.filterMap id).map fun j => Command.line j.compact)⟩

end Script

end CodeIndex
