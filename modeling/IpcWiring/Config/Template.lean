/-!
# The first configuration file

The text that a new configuration file starts with. It says what holds anyway, and names the keys
that can be added.
-/

namespace IpcWiring.Config

/-- The lines of a new configuration file. -/
def templateLines : List String := [
  "# ipcgen configuration file",
  "",
  "[source]",
  "# Directory holding the API modules",
  "dir = \"src/main/api\"",
  "",
  "# Functions to leave out, as \"fileStem.functionName\"",
  "ignore = []",
  "",
  "# Only scan files matching this glob (relative to source.dir)",
  "# filter = \"**/*.ts\"",
  "",
  "[context]",
  "# Module declaring the request-context type",
  "path = \"src/main/context.ts\"",
  "",
  "# Name of the context type; API functions take it as their first parameter",
  "name = \"Context\"",
  "",
  "[output]",
  "# Bridge module (api.ts) exposed to the renderer with contextBridge",
  "preload_dir = \"src/preload\"",
  "",
  "# Handlers (handlers.ts) and registration (register.ts)",
  "main_dir = \"src/main/ipc\"",
  "",
  "# Renderer service (api.ts)",
  "renderer_dir = \"src/renderer/ipc\"",
  "",
  "[errors]",
  "# Service methods throw failures instead of returning \x7b ok: false \x7d",
  "unwrap_results = false",
  "",
  "# Handler consulted after any per-function error handler",
  "# global_handler = \x7b path = \"src/main/errors.ts\", function = \"handleError\", " ++
    "debug = false \x7d",
  "",
  "[naming]",
  "# Companion naming patterns; \x7bfuncName\x7d and \x7bFuncName\x7d are substituted.",
  "# An empty string disables detection.",
  "validator = \"\x7bfuncName\x7dValidator\"",
  "error_handler = \"\x7bfuncName\x7dErrorHandler\"",
  "",
  "# Explicit companions take precedence over the naming patterns",
  "# [companions.createUser]",
  "# validator = \"checkNewUser\"",
  "# error_handler = \"userErrors\"",
  "",
  "[events]",
  "# Directory holding event aliases; events are disabled when unset",
  "# dir = \"src/main/events\"",
  "",
  "# Output directories default to the [output] ones",
  "# sender_dir = \"src/main/ipc\"",
  "# preload_dir = \"src/preload\"",
  "# renderer_dir = \"src/renderer/ipc\""]

/-- The text of a new configuration file. -/
def template : String := String.join (templateLines.map (· ++ "\n"))

end IpcWiring.Config
