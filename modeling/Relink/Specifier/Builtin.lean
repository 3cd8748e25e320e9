/-!
# Built-in modules

The names of the modules that the platform itself provides, written without their marker.
-/

namespace Relink.Specifier

/-- The built-in modules whose marker may be left out. -/
def unmarkedBuiltins : List String :=
  ["_http_agent", "_http_client", "_http_common", "_http_incoming", "_http_outgoing",
    "_http_server", "_stream_duplex", "_stream_passthrough", "_stream_readable",
    "_stream_transform", "_stream_wrap", "_stream_writable", "_tls_common", "_tls_wrap",
    "assert", "assert/strict", "async_hooks", "buffer", "child_process", "cluster", "console",
    "constants", "crypto", "dgram", "diagnostics_channel", "dns", "dns/promises", "domain",
    "events", "fs", "fs/promises", "http", "http2", "https", "inspector", "inspector/promises",
    "module", "net", "os", "path", "path/posix", "path/win32", "perf_hooks", "process",
    "punycode", "querystring", "readline", "readline/promises", "repl", "stream",
    "stream/consumers", "stream/promises", "stream/web", "string_decoder", "sys", "timers",
    "timers/promises", "tls", "trace_events", "tty", "url", "util", "util/types", "v8", "vm",
    "wasi", "worker_threads", "zlib"]

/-- The built-in modules that exist only behind their marker. Without it, `test` is the name of
an ordinary package. -/
def markedBuiltins : List String :=
  ["sea", "sqlite", "test", "test/reporters"]

/-- Whether `name` is a built-in module that may be written without its marker. -/
def isUnmarkedBuiltin (name : String) : Bool :=
  unmarkedBuiltins.contains name

/-- Whether `name`, written without a marker, is a built-in module. -/
def isBuiltin (name : String) : Bool :=
  isUnmarkedBuiltin name || markedBuiltins.contains name

end Relink.Specifier
