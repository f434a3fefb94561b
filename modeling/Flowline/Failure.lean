/-! Why something could not be done, one constructor for each cause, with the wording in one place.
The kind is the short stable name that reports of a failed run carry. -/

namespace Flowline

/-- The causes. Each one carries what its message names. -/
inductive Failure where
  | noStart
  | noExecutor (type : String)
  | unsupportedPlugin (tool : String)
  | missingParameter (node name : String)
  | variableNotFound (name : String)
  /-- The id and the editor's label of a node name different kinds. -/
  | kindMismatch (node idType labelType : String)
  /-- The model service answered with an error code. -/
  | remoteService (code : Int) (message : String)
  /-- The stream ended before its final frame. -/
  | incompleteStream
  | connection (reason : String)
  | stream (reason : String)
  | timeout (phase : String) (seconds : Nat)
  | signing (reason : String)
  | plugin (tool message : String)
  | document (reason : String)
  | flowNotFound (id : String)
  | configuration (reason : String)
  | configurationNotFound (path : String)
  | io (reason : String)
  | json (reason : String)
deriving DecidableEq, Repr, Inhabited

namespace Failure

/-- The short name of a cause; related causes share one. -/
def kind : Failure → String
  | noStart => "NoStartNodeError"
  | noExecutor _ => "NoExecutorError"
  | unsupportedPlugin _ => "UnsupportedPluginError"
  | missingParameter .. => "MissingParameterError"
  | variableNotFound _ => "VariableNotFoundError"
  | kindMismatch .. => "NodeTypeMismatchError"
  | remoteService .. => "RemoteApiError"
  | incompleteStream => "IncompleteStreamError"
  | connection _ | stream _ => "TransportError"
  | timeout .. => "TimeoutError"
  | signing _ => "SigningError"
  | plugin .. => "PluginError"
  | document _ => "DslError"
  | flowNotFound _ => "WorkflowNotFoundError"
  | configuration _ | configurationNotFound _ => "ConfigError"
  | io _ => "IoError"
  | json _ => "JsonError"

def message : Failure → String
  | noStart => "No start node found in workflow"
  | noExecutor type => "No executor found for node type: " ++ type
  | unsupportedPlugin tool => "Unsupported plugin: " ++ tool
  | missingParameter node name => "Missing '" ++ name ++ "' for node " ++ node
  | variableNotFound name => "Variable not found: " ++ name
  | kindMismatch node idType labelType =>
    "Node " ++ node ++ " is typed '" ++ idType ++ "' by its id but '" ++ labelType
      ++ "' by its metadata"
  | remoteService code message => "Model service error " ++ toString code ++ ": " ++ message
  | incompleteStream => "Stream closed before receiving complete response"
  | connection reason => "LLM connection failed: " ++ reason
  | stream reason => "LLM streaming error: " ++ reason
  | timeout phase seconds => "Timed out after " ++ toString seconds ++ "s during " ++ phase
  | signing reason => "Request signing failed: " ++ reason
  | plugin tool message => "Plugin call failed: " ++ tool ++ ": " ++ message
  | document reason => "Invalid workflow document: " ++ reason
  | flowNotFound id => "Workflow not found: " ++ id
  | configuration reason => "Config error: " ++ reason
  | configurationNotFound path => "Config file not found: " ++ path
  | io reason => "I/O error: " ++ reason
  | json reason => "JSON error: " ++ reason

/-! ## Unexplained causes

Where a reader, the file system or a connection gives no reason of its own, a short mark stands in
its place. -/

def unreadableJson : String := "<json error>"
def unreadableToml : String := "<toml error>"
def unreadableFile : String := "<io error>"
def brokenTransport : String := "<transport error>"

def duplicateNode (id : String) : Failure := .document ("duplicate node id '" ++ id ++ "'")

end Failure

end Flowline
