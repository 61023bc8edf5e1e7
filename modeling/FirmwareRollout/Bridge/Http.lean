import FirmwareRollout.Bridge.Message
import FirmwareRollout.Text.Unicode

/-!
The bridge over HTTP: how an exchange, or what is left of one that broke off, becomes an
attempt. A reply with a status of success carries a report; 409 and 422 reject the step, in the
words of their body; every other status, and every exchange that breaks off, is worth another
attempt.
-/

namespace FirmwareRollout.Http

def phrase? : Nat → Option String
  | 100 => some "Continue"
  | 101 => some "Switching Protocols"
  | 102 => some "Processing"
  | 103 => some "Early Hints"
  | 200 => some "OK"
  | 201 => some "Created"
  | 202 => some "Accepted"
  | 203 => some "Non Authoritative Information"
  | 204 => some "No Content"
  | 205 => some "Reset Content"
  | 206 => some "Partial Content"
  | 207 => some "Multi-Status"
  | 208 => some "Already Reported"
  | 226 => some "IM Used"
  | 300 => some "Multiple Choices"
  | 301 => some "Moved Permanently"
  | 302 => some "Found"
  | 303 => some "See Other"
  | 304 => some "Not Modified"
  | 305 => some "Use Proxy"
  | 307 => some "Temporary Redirect"
  | 308 => some "Permanent Redirect"
  | 400 => some "Bad Request"
  | 401 => some "Unauthorized"
  | 402 => some "Payment Required"
  | 403 => some "Forbidden"
  | 404 => some "Not Found"
  | 405 => some "Method Not Allowed"
  | 406 => some "Not Acceptable"
  | 407 => some "Proxy Authentication Required"
  | 408 => some "Request Timeout"
  | 409 => some "Conflict"
  | 410 => some "Gone"
  | 411 => some "Length Required"
  | 412 => some "Precondition Failed"
  | 413 => some "Payload Too Large"
  | 414 => some "URI Too Long"
  | 415 => some "Unsupported Media Type"
  | 416 => some "Range Not Satisfiable"
  | 417 => some "Expectation Failed"
  | 418 => some "I'm a teapot"
  | 421 => some "Misdirected Request"
  | 422 => some "Unprocessable Entity"
  | 423 => some "Locked"
  | 424 => some "Failed Dependency"
  | 425 => some "Too Early"
  | 426 => some "Upgrade Required"
  | 428 => some "Precondition Required"
  | 429 => some "Too Many Requests"
  | 431 => some "Request Header Fields Too Large"
  | 451 => some "Unavailable For Legal Reasons"
  | 500 => some "Internal Server Error"
  | 501 => some "Not Implemented"
  | 502 => some "Bad Gateway"
  | 503 => some "Service Unavailable"
  | 504 => some "Gateway Timeout"
  | 505 => some "HTTP Version Not Supported"
  | 506 => some "Variant Also Negotiates"
  | 507 => some "Insufficient Storage"
  | 508 => some "Loop Detected"
  | 510 => some "Not Extended"
  | 511 => some "Network Authentication Required"
  | _ => none

def statusText (code : Nat) : String :=
  toString code ++ " " ++ (phrase? code).getD "<unknown status code>"

/-- The code of a status line after the protocol: three digits, and after a space a phrase without
control characters. -/
def statusCode? (line : String) : Option Nat :=
  match line.toList with
  | a :: b :: c :: rest =>
    let phraseOk := match rest with
      | [] => true
      | ' ' :: phrase => phrase.all fun c => c = '\t' || (0x20 ≤ c.toNat && c.toNat ≠ 0x7F)
      | _ => false
    if [a, b, c].all Decimal.isDigit && phraseOk && 100 ≤ Decimal.value [a, b, c] then
      some (Decimal.value [a, b, c])
    else none
  | _ => none

/-- What was seen of an exchange. -/
inductive Exchange where
  /-- The bridge took no connection. -/
  | refused
  /-- The connection ended without a reply. -/
  | closed
  /-- A reply with its status line and body; `complete` says whether the whole body came. -/
  | reply (status : String) (body : List UInt8) (complete : Bool)
deriving DecidableEq

/-- A reply that is the last one to its request, with the body that HTTP gives it: none after 101,
204 and 304. Other informational replies only announce one that does not come. -/
structure Final where
  code : Nat
  body : List UInt8
  complete : Bool

/-- The final reply of an exchange, if there was one. -/
def Exchange.final? : Exchange → Option Final
  | .reply status body complete =>
    match statusCode? status with
    | none => none
    | some code =>
      if code = 101 ∨ code = 204 ∨ code = 304 then some ⟨code, [], true⟩
      else if code < 200 then none
      else some ⟨code, body, complete⟩
  | _ => none

/-- The reason that a rejection gives: its body, or its status if that is blank or was cut off. -/
def rejection (r : Final) : String :=
  let body := if r.complete then Utf8.decodeMarked r.body else []
  if body.all Text.isBlank then "rejected with " ++ statusText r.code else String.ofList body

/-- How the exchange about a step of `stage` ends. -/
def Exchange.attempt (stage : Stage) (e : Exchange) : Attempt :=
  match e.final? with
  | none => .failed (.http "no reply")
  | some r =>
    if 200 ≤ r.code ∧ r.code < 300 then
      if r.complete then
        match (Json.Value.ofBytes? r.body).bind ActionReport.ofJson? with
        | some report => .reported report
        | none => .failed (.collaborator ("invalid " ++ stage.tag ++ " step report: not a report"))
      else .failed (.http "reply cut off")
    else if r.code = 409 ∨ r.code = 422 then .reported (.rejectedFor (rejection r))
    else .failed (.collaborator (stage.tag ++ " step failed: " ++ statusText r.code))

/-- What a request comes to. `bridge` says what is seen of the exchange about it; there is nothing if
the exchange is not over in time. -/
def execute (timeout : Duration) (bridge : StepRequest → Option Exchange) (r : StepRequest) :
    StepResult :=
  let attempt := match bridge r with
    | some exchange => exchange.attempt r.stage
    | none => .timedOut
  attempt.result timeout

end FirmwareRollout.Http
