import PageSpeed.Spec.Inet

/-!
# Requests and responses of the management API

The request, the response and the dispatch of `src/worker/http_server.cc`. A header or query map is
a list of pairs with one pair for each key.
-/

namespace PageSpeed.Http

open Wire

/-! ## Errors -/

/-- The errors of the management API. -/
inductive ApiErrorCode
  | kBadRequest
  | kUnauthorized
  | kForbidden
  | kNotFound
  | kMethodNotAllowed
  | kPayloadTooLarge
  | kUnsupportedMediaType
  | kTooManyRequests
  | kInternalError
  | kServiceUnavailable
  | kGatewayTimeout
  | kBadGateway
  deriving DecidableEq

/-- The code in the body of an error. -/
def apiErrorCodeString : ApiErrorCode → Bytes
  | .kBadRequest => lit "BAD_REQUEST"
  | .kUnauthorized => lit "UNAUTHORIZED"
  | .kForbidden => lit "FORBIDDEN"
  | .kNotFound => lit "NOT_FOUND"
  | .kMethodNotAllowed => lit "METHOD_NOT_ALLOWED"
  | .kPayloadTooLarge => lit "PAYLOAD_TOO_LARGE"
  | .kUnsupportedMediaType => lit "UNSUPPORTED_MEDIA_TYPE"
  | .kTooManyRequests => lit "TOO_MANY_REQUESTS"
  | .kInternalError => lit "INTERNAL_ERROR"
  | .kServiceUnavailable => lit "SERVICE_UNAVAILABLE"
  | .kGatewayTimeout => lit "GATEWAY_TIMEOUT"
  | .kBadGateway => lit "BAD_GATEWAY"

/-- The status of an error. -/
def apiErrorCodeStatus : ApiErrorCode → ℕ
  | .kBadRequest => 400
  | .kUnauthorized => 401
  | .kForbidden => 403
  | .kNotFound => 404
  | .kMethodNotAllowed => 405
  | .kPayloadTooLarge => 413
  | .kUnsupportedMediaType => 415
  | .kTooManyRequests => 429
  | .kInternalError => 500
  | .kServiceUnavailable => 503
  | .kGatewayTimeout => 504
  | .kBadGateway => 502

/-- The text behind a status. -/
def httpStatusText (statusCode : ℕ) : Bytes :=
  match statusCode with
  | 200 => lit "OK"
  | 204 => lit "No Content"
  | 301 => lit "Moved Permanently"
  | 304 => lit "Not Modified"
  | 400 => lit "Bad Request"
  | 401 => lit "Unauthorized"
  | 403 => lit "Forbidden"
  | 404 => lit "Not Found"
  | 405 => lit "Method Not Allowed"
  | 413 => lit "Payload Too Large"
  | 415 => lit "Unsupported Media Type"
  | 429 => lit "Too Many Requests"
  | 500 => lit "Internal Server Error"
  | 503 => lit "Service Unavailable"
  | 504 => lit "Gateway Timeout"
  | _ => lit "Unknown"

/-! ## Requests -/

/-- `map[key] = value`. -/
def assign (m : List (Bytes × Bytes)) (key value : Bytes) : List (Bytes × Bytes) :=
  (key, value) :: m.filter fun entry => entry.1 ≠ key

/-- A request as its parser has put it together. -/
structure HttpRequest where
  method : Bytes := []
  path : Bytes := []
  queryString : Bytes := []
  body : Bytes := []
  rawUrl : Bytes := []
  headers : List (Bytes × Bytes) := []
  queryParams : List (Bytes × Bytes) := []
  deriving DecidableEq

/-- The value of a header, empty if there is none. -/
def HttpRequest.header (r : HttpRequest) (name : Bytes) : Bytes :=
  ((r.headers.find? fun entry => entry.1 = name.map lowerChar).map Prod.snd).getD []

/-- The decoder of paths and of queries. -/
def urlDecodeImpl (input : Bytes) (decodePlus : Bool) : Bytes :=
  transformPercentEncoded (fun decoded _ _ => [decoded])
    (fun c => if decodePlus ∧ c = ch '+' then [ch ' '] else [c]) input

/-- A part of a query, in which `+` is a blank. -/
def urlDecode (input : Bytes) : Bytes := urlDecodeImpl input true

/-- A path, in which `+` is itself. -/
def urlDecodePath (input : Bytes) : Bytes := urlDecodeImpl input false

/-- The parameters of the query; the last value of a name counts. -/
def HttpRequest.parseQueryString (r : HttpRequest) : HttpRequest :=
  { r with
    queryParams := (r.queryString.splitOn (ch '&')).foldl
      (fun m pair =>
        match find (lit "=") pair with
        | some eq => assign m (urlDecode (pair.take eq)) (urlDecode (pair.drop (eq + 1)))
        | none => if pair ≠ [] then assign m (urlDecode pair) [] else m) [] }

/-! ## Responses -/

/-- A response, its headers by name. -/
structure HttpResponse where
  statusCode : ℕ := 200
  headers : List (Bytes × Bytes) := []
  body : Bytes := []
  deriving DecidableEq

/-- CR and LF are stripped. -/
def HttpResponse.setHeader (r : HttpResponse) (key value : Bytes) : HttpResponse :=
  { r with headers := r.headers ++
      [(key.filter fun c => c ≠ 13 ∧ c ≠ 10, value.filter fun c => c ≠ 13 ∧ c ≠ 10)] }

/-- A JSON body with its type. -/
def HttpResponse.json (r : HttpResponse) (jsonBody : Bytes) : HttpResponse :=
  { r with body := jsonBody }.setHeader (lit "Content-Type") (lit "application/json")

/-- A digit in lower case. -/
def hexDigit (v : ℕ) : UInt8 :=
  UInt8.ofNat (if v < 10 then (ch '0').toNat + v else (ch 'a').toNat + v - 10)

/-- `JsonEscapeMinimal` of `lib/base/string_util.h`. -/
def jsonEscapeMinimal (s : Bytes) : Bytes :=
  s.flatMap fun c =>
    if c = ch '"' then lit "\\\""
    else if c = ch '\\' then lit "\\\\"
    else if c = 8 then lit "\\b"
    else if c = 12 then lit "\\f"
    else if c = 10 then lit "\\n"
    else if c = 13 then lit "\\r"
    else if c = 9 then lit "\\t"
    else if c < 0x20 then lit "\\u00" ++ [hexDigit (c.toNat / 16), hexDigit (c.toNat % 16)]
    else [c]

/-- The response to an error. -/
def HttpResponse.error (code : ApiErrorCode) (message : Bytes) : HttpResponse :=
  { statusCode := apiErrorCodeStatus code : HttpResponse }.json
    (lit "\x7b\"error\":\x7b\"code\":\"" ++ apiErrorCodeString code ++ lit "\",\"message\":\"" ++
      jsonEscapeMinimal message ++ lit "\"" ++ lit "\x7d\x7d")

/-- A header as it is written. -/
def headerLine (key value : Bytes) : Bytes := key ++ lit ": " ++ value ++ lit "\r\n"

/-- The response as it is written, with the headers that it does not set itself. -/
def HttpResponse.serialize (r : HttpResponse) (omitBody : Bool) : Bytes :=
  let missing (key value : Bytes) : Bytes :=
    if r.headers.any (·.1 = key) then [] else headerLine key value
  lit "HTTP/1.1 " ++ Inet.decimal r.statusCode ++ lit " " ++ httpStatusText r.statusCode ++
    lit "\r\n" ++ r.headers.flatMap (fun entry => headerLine entry.1 entry.2) ++
    missing (lit "Content-Length") (Inet.decimal r.body.length) ++
    missing (lit "Connection") (lit "close") ++
    missing (lit "X-Content-Type-Options") (lit "nosniff") ++
    missing (lit "Cache-Control") (lit "no-store") ++
    lit "\r\n" ++ (if omitBody then [] else r.body)

/-! ## Dispatch -/

/-- The limits and the access rules of the server. -/
structure HttpServerConfig where
  socketPath : Bytes := []
  maxConnections : ℤ := 32
  maxRequestBody : ℕ := 64 * 1024
  maxUrlLength : ℕ := 8192
  maxHeaderBytes : ℕ := 64 * 1024
  requestTimeoutMs : ℕ := 10000
  bodyReadTimeoutMs : ℕ := 5000
  maxRequestsPerConnection : ℕ := 100
  authToken : Bytes := []
  allowUnauthenticated : Bool := false
  corsOrigin : Bytes := []
  readOpen : Bool := false

/-- The server listens on a socket in the file system. -/
def HttpServerConfig.isPipe (config : HttpServerConfig) : Bool := config.socketPath ≠ []

/-- Whether a route may be read without a token. -/
inductive RouteAuth
  | kToken
  | kReadOpenOk
  deriving DecidableEq

/-- A route without its handler: what a handler does comes with the event that runs it. -/
structure Route where
  method : Bytes
  path : Bytes
  isPrefix : Bool := false
  auth : RouteAuth := .kToken
  isAsync : Bool := false

/-- The path is the route's, or below it. -/
def Route.pathMatches (route : Route) (request : HttpRequest) : Bool :=
  if route.isPrefix then route.path.isPrefixOf request.path else request.path = route.path

/-- HEAD is served by the GET route. -/
def Route.serves (route : Route) (request : HttpRequest) : Bool :=
  route.pathMatches request &&
    route.method = (if request.method = lit "HEAD" then lit "GET" else request.method)

variable (config : HttpServerConfig) (routes : List Route) (request : HttpRequest)

/-- The first route that serves the request may be read without a token. -/
def readOpenApplies : Bool :=
  match routes.find? (·.serves request) with
  | some route => route.auth = .kReadOpenOk
  | none => false

/-- The scheme of the token. -/
def bearer : Bytes := lit "Bearer "

/-- The error for a request that is not let in. -/
def checkAuth (readOpenApplies : Bool) : Option HttpResponse :=
  let header := request.header (lit "authorization")
  if config.isPipe then none
  else if config.authToken = [] then
    if config.allowUnauthenticated then none
    else some (.error .kUnauthorized (lit "Authentication required"))
  else if config.readOpen ∧ readOpenApplies ∧
      (request.method = lit "GET" ∨ request.method = lit "HEAD") then none
  else if header = [] then some (.error .kUnauthorized (lit "Authentication required"))
  else if !bearer.isPrefixOf header then
    some (.error .kUnauthorized (lit "Invalid authorization scheme"))
  else if !constantTimeCompare (header.drop bearer.length) config.authToken then
    some (.error .kForbidden (lit "Invalid token"))
  else none

/-- What a request leads to. -/
inductive Dispatch
  | respond (response : HttpResponse)
  | handler (index : ℕ) (isAsync : Bool)

/-- The answer to a preflight request. -/
def corsPreflight : HttpResponse :=
  ((({ statusCode := 204 : HttpResponse }.setHeader (lit "Access-Control-Allow-Methods")
    (lit "GET, POST, PATCH, DELETE, OPTIONS")).setHeader (lit "Access-Control-Allow-Headers")
    (lit "Content-Type, Authorization, X-Requested-With")).setHeader (lit "Access-Control-Max-Age")
      (lit "86400"))

/-- The checks ahead of routing. -/
def dispatchRefusal : Option HttpResponse :=
  let isRead := request.method = lit "GET" ∨ request.method = lit "HEAD"
  let isWrite := request.method = lit "POST" ∨ request.method = lit "PATCH"
  let skipAuth := request.path = lit "/v1/health" ∨
    isRead ∧ (request.path = lit "/console" ∨ (lit "/console/").isPrefixOf request.path)
  match if skipAuth then none else checkAuth config request (readOpenApplies routes request) with
  | some authError => some authError
  | none =>
    if (config.isPipe ∨ config.authToken = [] ∧ config.allowUnauthenticated) ∧ isWrite ∧
        (lit "/v1/").isPrefixOf request.path ∧ request.header (lit "x-requested-with") ≠
          lit "XMLHttpRequest" then
      some (.error .kBadRequest
        (lit "Missing or invalid CSRF header " ++ [0xE2, 0x80, 0x94] ++
          lit " state-changing requests require X-Requested-With: XMLHttpRequest"))
    else if isWrite ∧ request.body ≠ [] ∧ (lit "/v1/").isPrefixOf request.path ∧
        !(lit "application/json").isPrefixOf (request.header (lit "content-type")) then
      some (.error .kUnsupportedMediaType (lit "Content-Type must be application/json"))
    else none

/-- `DispatchRequest` up to the call of the handler. -/
def dispatchRequest : Dispatch :=
  if request.method = lit "OPTIONS" ∧ config.corsOrigin ≠ [] then .respond corsPreflight
  else
    match dispatchRefusal config routes request with
    | some refusal => .respond refusal
    | none =>
      match routes.zipIdx.find? fun entry => entry.1.serves request with
      | some (route, index) => .handler index route.isAsync
      | none =>
        if routes.any (·.pathMatches request) then
          .respond (.error .kMethodNotAllowed (lit "Method not allowed"))
        else .respond (.error .kNotFound (lit "Not found"))

/-- The headers that let another origin read the response. -/
def applyCors (response : HttpResponse) : HttpResponse :=
  let origin := request.header (lit "origin")
  if config.corsOrigin = [] ∨ origin = [] then response
  else if config.corsOrigin = lit "*" then
    (response.setHeader (lit "Access-Control-Allow-Origin") (lit "*")).setHeader (lit "Vary")
      (lit "Origin")
  else if config.corsOrigin = origin then
    ((response.setHeader (lit "Access-Control-Allow-Origin") origin).setHeader
      (lit "Access-Control-Allow-Credentials") (lit "true")).setHeader (lit "Vary") (lit "Origin")
  else response

/-! ## WebSocket upgrades -/

/-- The origin may open a WebSocket. -/
def isWsOriginAllowed (origin originAllowlist : Bytes) : Bool :=
  originAllowlist = [] || originAllowlist = lit "*" || origin = [] || origin = originAllowlist

/-- The text without blanks at both ends. -/
def trimSpaces (token : Bytes) : Bytes :=
  ((token.dropWhile (· = ch ' ')).reverse.dropWhile (· = ch ' ')).reverse

/-- The request asks for a WebSocket as RFC 6455 has it. -/
def isWebSocketUpgrade : Bool :=
  let connection := (request.header (lit "connection")).map lowerChar
  ((connection.splitOn (ch ',')).any fun token => trimSpaces token = lit "upgrade") &&
    (request.header (lit "upgrade")).map lowerChar = lit "websocket" &&
    request.header (lit "sec-websocket-version") = lit "13" &&
    (request.header (lit "sec-websocket-key")).length = 24

/-- Why an upgrade is refused. -/
def upgradeRefusal : Option HttpResponse :=
  let header := request.header (lit "authorization")
  if !isWsOriginAllowed (request.header (lit "origin")) config.corsOrigin then
    some (.error .kForbidden (lit "Origin not allowed"))
  else if config.isPipe then none
  else if config.authToken = [] ∧ !config.allowUnauthenticated then
    some (.error .kUnauthorized (lit "Authentication required"))
  else if config.authToken ≠ [] ∧ !config.readOpen then
    if header = [] then some (.error .kUnauthorized (lit "Authentication required"))
    else if !bearer.isPrefixOf header ∨
        !constantTimeCompare (header.drop bearer.length) config.authToken then
      some (.error .kForbidden (lit "Invalid token"))
    else none
  else none

end PageSpeed.Http
