import ScriptLint.Lint.Rule

/-!
# Web APIs reached through the window

In a page the global object is called `window`, in a worker it is not.  A script
that is to run in both must not reach for a web API as a property of `window`.
The rule reports each access of a *denied* name, one that workers know too,
where three things hold.

* The access is the end of its chain: it is not itself the object of an access.
* Its object is the identifier `window`, and no scope declares that name.
* The name can be read off the text, and it is denied.

Names that only pages know are not denied, since a script that uses them cannot
run in a worker anyway.
-/

namespace ScriptLint

namespace WindowAccess

/-! ## Denied names -/

/-- Constructors and interfaces that workers have. -/
def deniedInterfaces : List String :=
  [
    "AbortController", "AbortSignal", "Blob", "BroadcastChannel", "ByteLengthQueuingStrategy",
    "Cache", "CacheStorage", "CanvasGradient", "CanvasPattern", "CloseEvent",
    "CountQueuingStrategy", "Crypto", "CryptoKey", "CustomEvent", "DOMException", "DOMMatrix",
    "DOMMatrixReadOnly", "DOMPoint", "DOMPointReadOnly", "DOMQuad", "DOMRect", "DOMRectReadOnly",
    "DOMStringList", "ErrorEvent", "Event", "EventSource", "EventTarget", "File", "FileList",
    "FileReader", "FontFace", "FontFaceSet", "FontFaceSetLoadEvent", "FormData", "Headers",
    "IDBCursor", "IDBCursorWithValue", "IDBDatabase", "IDBFactory", "IDBIndex", "IDBKeyRange",
    "IDBObjectStore", "IDBOpenDBRequest", "IDBRequest", "IDBTransaction",
    "IDBVersionChangeEvent", "ImageBitmap", "ImageBitmapRenderingContext", "ImageData",
    "MediaCapabilities", "MessageChannel", "MessageEvent", "MessagePort", "NetworkInformation",
    "Notification", "Path2D", "Performance", "PerformanceEntry", "PerformanceMark",
    "PerformanceMeasure", "PerformanceObserver", "PerformanceObserverEntryList",
    "PerformanceResourceTiming", "PerformanceServerTiming", "PermissionStatus", "Permissions",
    "ProgressEvent", "PromiseRejectionEvent", "PushManager", "PushSubscription",
    "PushSubscriptionOptions", "ReadableStream", "ReadableStreamDefaultController",
    "ReadableStreamDefaultReader", "Request", "Response", "SecurityPolicyViolationEvent",
    "ServiceWorker", "ServiceWorkerContainer", "ServiceWorkerRegistration", "StorageManager",
    "SubtleCrypto", "TextDecoder", "TextDecoderStream", "TextEncoder", "TextEncoderStream",
    "TextMetrics", "TransformStream", "TransformStreamDefaultController", "URL",
    "URLSearchParams", "WebGL2RenderingContext", "WebGLActiveInfo", "WebGLBuffer",
    "WebGLContextEvent", "WebGLFramebuffer", "WebGLProgram", "WebGLQuery", "WebGLRenderbuffer",
    "WebGLRenderingContext", "WebGLSampler", "WebGLShader", "WebGLShaderPrecisionFormat",
    "WebGLSync", "WebGLTexture", "WebGLTransformFeedback", "WebGLUniformLocation",
    "WebGLVertexArrayObject", "WebSocket", "Worker", "WritableStream",
    "WritableStreamDefaultController", "WritableStreamDefaultWriter", "XMLHttpRequest",
    "XMLHttpRequestEventTarget", "XMLHttpRequestUpload", "console", "WebAssembly"
  ]

/-- Properties and functions of the global object of workers. -/
def deniedMembers : List String :=
  [
    "name", "navigator", "self", "close", "postMessage", "dispatchEvent", "cancelAnimationFrame",
    "requestAnimationFrame", "onerror", "onlanguagechange", "onmessage", "onmessageerror",
    "onoffline", "ononline", "onrejectionhandled", "onunhandledrejection", "caches",
    "crossOriginIsolated", "crypto", "indexedDB", "isSecureContext", "origin", "performance",
    "atob", "btoa", "clearInterval", "clearTimeout", "createImageBitmap", "fetch",
    "queueMicrotask", "setInterval", "setTimeout", "addEventListener", "removeEventListener"
  ]

/-- The names that must not be reached through `window`: what workers have, and
the name space of the runtime. -/
def deniedNames : List String :=
  deniedInterfaces ++ deniedMembers ++ ["Deno"]

/-- Whether a name must not be reached through `window`. -/
def isDenied (name : String) : Bool :=
  deniedNames.contains name

/-- Whether the code points of a name spell a denied one. -/
def isDeniedSymbol (symbol : List Nat) : Bool :=
  deniedNames.any fun name => codePoints name == symbol

/-! ## The rule -/

/-- The code of the rule. -/
def code : String := "no-window-prefix"

/-- What is wrong. -/
def message : String :=
  "For compatibility between the Window context and the Web Workers, calling Web APIs via "
    ++ "`window` is disallowed"

/-- What to do about it. -/
def hint : String :=
  "Instead, call this API via `self`, `globalThis`, or no extra prefix"

/-- What the rule is about, line by line. -/
def docLines : List String :=
  [
    "Disallows the use of Web APIs via the `window` object.",
    "",
    "In most situations, the global variable `window` works like `globalThis`.",
    "For example, you could call the `fetch` API like `window.fetch(..)` instead",
    "of `fetch(..)` or `globalThis.fetch(..)`. In Web Workers, however, `window`",
    "is not available, but instead `self`, `globalThis`, or no prefix work fine.",
    "Therefore, for compatibility between Web Workers and other contexts, it's",
    "highly recommended to not access global properties via `window`.",
    "",
    "Some APIs, including `window.alert`, `window.location` and `window.history`,",
    "are allowed to call with `window` because they are not supported or have",
    "different meaning in Workers.",
    "",
    "Invalid:",
    "",
    "    const a = await window.fetch(\"https://example.com\");",
    "    const b = window.Deno.metrics();",
    "    console.log(window[\"performance\"].now());",
    "",
    "Valid:",
    "",
    "    const a1 = await fetch(\"https://example.com\");",
    "    const a2 = await self.fetch(\"https://example.com\");",
    "    const a3 = await globalThis.fetch(\"https://example.com\");",
    "",
    "    // `alert` is allowed to call with `window` because it's not supported in Workers",
    "    window.alert(\"hello\");",
    "",
    "    // `onload` is also allowed to call with `window`",
    "    window.onload = () => \x7b\x7d;"
  ]

/-- Whether an access is the end of a chain that starts at the name `window`. -/
def isCandidate (p : Program) (a : Access) : Bool :=
  !a.isObject && a.object.node.kind == "identifier"
    && p.source.textOf a.object.node == "window"

/-- Whether an access is reported. -/
def offends (p : Program) (scopes : ScopeTable) (a : Access) : Bool :=
  isCandidate p a && scopes.isGlobal p.source a.object
    && (a.symbol? p.source).any isDeniedSymbol

/-- The rule that keeps web APIs away from `window`. -/
def rule : Rule where
  name := "NoWindowPrefix"
  code := code
  tags := ["recommended"]
  docs := String.join (docLines.map (· ++ "\n"))
  onMember := fun p scopes a =>
    if offends p scopes a then [⟨a.range p.source, message, some hint⟩] else []
  onNode := fun _ _ => []
  asksScopes := isCandidate

end WindowAccess

end ScriptLint
