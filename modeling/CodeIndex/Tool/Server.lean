import CodeIndex.Tool.Call
/-!
# Serving tools

Clients send messages of JSON-RPC. A message with an id is a request and gets a reply.
-/

namespace CodeIndex.Server

/-- The protocol's code for wrong parameters. -/
def invalidParams : Int := -32602

/-- The protocol's code for an unknown method. -/
def methodNotFound : Int := -32601

def reply (id result : Json) : Json :=
  .record [("jsonrpc", .text "2.0"), ("id", id), ("result", result)]

def failure (id : Json) (code : Int) (message : String) : Json :=
  .record [("jsonrpc", .text "2.0"), ("id", id),
    ("error", .record [("code", .int code), ("message", .text message)])]

def toolNames : List String :=
  ["search_code", "get_context", "index_project", "rebuild_index", "index_status", "file_event",
    "search_relations"]

def greeting : Json :=
  .record [("protocolVersion", .text "2025-03-26"),
    ("capabilities", .record [("tools", .record [])]),
    ("serverInfo", .record [("name", .text "codectx"), ("version", .text "0.3.0")])]

def isHello (message : Json) : Bool :=
  (message.field? "id").isSome && (message.field? "method").bind Json.text? == some "initialize"

def isReady (message : Json) : Bool :=
  (message.field? "id").isNone
    && (message.field? "method").bind Json.text? == some "notifications/initialized"

/-- The messages begin a session: the client asks for it and then says that it is ready. -/
def opensSession : List Json → Bool
  | hello :: ready :: _ => isHello hello && isReady ready
  | _ => false

def toolResult (a : ToolAnswer) : Json :=
  .record [("content", .array [.record [("type", .text "text"), ("text", .text a.text)]]),
    ("isError", .bool a.isError)]

/-- The arguments of a call; none given are an empty record, and they may be nothing else. -/
def argumentsOf? (params : Json) : Option Json :=
  match params.field? "arguments" with
  | none => some (.record [])
  | some .null => some (.record [])
  | some (.record fields) => some (.record fields)
  | some _ => none

/-- Calls a tool. A request that names no tool or has no arguments of a call is none of the
requests that the server knows. -/
def call (e : Engine) (env : Surroundings) (id params : Json) : Engine × Json :=
  match (params.field? "name").bind Json.text?, argumentsOf? params with
  | some name, some arguments =>
    match ToolCall.read? name arguments with
    | none => (e, failure id invalidParams "no such tool or wrong arguments")
    | some c =>
      let (e, a) := Tool.perform e env c
      (e, reply id (toolResult a))
  | _, _ => (e, failure id methodNotFound "tools/call")

def take (e : Engine) (env : Surroundings) (message : Json) : Engine × Option Json :=
  match message.field? "id", (message.field? "method").bind Json.text? with
  | some id, some "initialize" => (e, some (reply id greeting))
  | some id, some "ping" => (e, some (reply id (.record [])))
  | some id, some "tools/list" =>
    (e, some (reply id (.record
      [("tools", .array (toolNames.map fun n => .record [("name", .text n)]))])))
  | some id, some "tools/call" =>
    let (e, j) := call e env id ((message.field? "params").getD (.record []))
    (e, some j)
  | some id, some method => (e, some (failure id methodNotFound method))
  | _, _ => (e, none)

end CodeIndex.Server
