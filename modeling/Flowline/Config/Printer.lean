import Flowline.Config.Basic
import Flowline.Toml.Printer

/-! The text of a configuration, with every setting under its name. -/

namespace Flowline

open Toml (Scalar)

def ChatSettings.fields (s : ChatSettings) : List (String × Scalar) :=
  [("app_id", .text s.app), ("api_key", .text s.key), ("api_secret", .text s.secret),
   ("api_url", .text s.url), ("domain", .text s.domain), ("uid", .text s.user),
   ("connect_timeout_secs", .integer s.connectTimeout),
   ("response_timeout_secs", .integer s.replyTimeout)]

def ToolSettings.fields (s : ToolSettings) : List (String × Scalar) :=
  [("aitools_url", .text s.url), ("timeout_secs", .integer s.timeout),
   ("default_speed", .integer s.speed)]

def FlowSettings.fields (s : FlowSettings) : List (String × Scalar) :=
  [("dir", .text s.dir), ("run_timeout_secs", .integer s.runTimeout)]

namespace Config

/-- The settings of each group under the names that they are read by. -/
def tables (c : Config) : List (String × List (String × Scalar)) :=
  [("spark", c.chat.fields), ("plugins", c.tools.fields), ("workflows", c.flows.fields)]

def text (c : Config) : String :=
  String.ofList (['\n'].intercalate (c.tables.map fun t => Toml.tableChars t.1 t.2))

end Config

end Flowline
