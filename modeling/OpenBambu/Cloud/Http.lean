import OpenBambu.Agent.Account
import OpenBambu.Config.Settings
import OpenBambu.Foundation.OrderedMap

/-!
# Requests to the cloud

`http::Request`, what `perform` makes of it for libcurl, and the host of the requests to the cloud. The
transfer itself is libcurl's, and its outcome whatever the network makes it.
-/

namespace OpenBambu.Cloud

open OpenBambu.Foundation OpenBambu.Agent

inductive Method where
  | get
  | post
  | put
  | del
  | patch
  deriving DecidableEq, Repr

abbrev Headers := OrderedMap Bytes Bytes

structure Request where
  method : Method
  url : Bytes
  headers : Headers
  body : Bytes := []
  noDefaultContentType : Bool := false
  noDefaultAccept : Bool := false

/-! ## `perform` -/

def methodVerb : Method → Bytes
  | .get => ascii "GET"
  | .post => ascii "POST"
  | .put => ascii "PUT"
  | .del => ascii "DELETE"
  | .patch => ascii "PATCH"

/-- The methods whose body is handed to libcurl. -/
def carriesBody (m : Method) : Bool := m = .post || m = .put || m = .patch

/-- A line without a value makes libcurl drop a header of its own. -/
def headerLine (h : Bytes × Bytes) : Bytes :=
  if h.2 = [] then h.1 ++ [Ascii.colon] else h.1 ++ ascii ": " ++ h.2

def hasHeader (r : Request) (lowerName : Bytes) : Bool := r.headers.entries.any fun h => lc h.1 = lowerName

/-- The list for `CURLOPT_HTTPHEADER`. -/
def headerLines (version : Bytes) (r : Request) : List Bytes :=
  r.headers.entries.map headerLine ++
    (if hasHeader r (ascii "user-agent") then [] else [ascii "User-Agent: OBN/" ++ version]) ++
    (if hasHeader r (ascii "accept") || r.noDefaultAccept then [] else [ascii "Accept: application/json"]) ++
    (if carriesBody r.method && !hasHeader r (ascii "content-type") && !r.noDefaultContentType then
      [ascii "Content-Type: application/json"]
    else [])

/-- What libcurl is given to send. -/
structure Wire where
  verb : Bytes
  url : Bytes
  headers : List Bytes
  body : Option Bytes
  deriving DecidableEq, Repr

def wire (version : Bytes) (r : Request) : Wire where
  verb := methodVerb r.method
  url := r.url
  headers := headerLines version r
  body := if carriesBody r.method then some r.body else none

/-! ## Replies -/

def statusOk (code : Int) : Bool := 200 ≤ code && code < 300

/-- Neither the transport has failed nor the server refused. -/
def Accepted (resp : Response) : Prop := resp.error = [] ∧ statusOk resp.statusCode = true

instance (resp : Response) : Decidable (Accepted resp) := inferInstanceAs (Decidable (_ ∧ _))

/-! ## The host -/

def isCnRegion (region : Bytes) : Bool := region = ascii "CN" || region = ascii "cn"

def pickOrDefault (configured fallback : Bytes) : Bytes := if configured = [] then fallback else configured

def cloudApiHostFor (s : Config.Settings) (region : Bytes) : Bytes :=
  if isCnRegion region then pickOrDefault s.cloudCnApiHost (ascii "https://api.bambulab.cn")
  else pickOrDefault s.cloudGlobalApiHost (ascii "https://api.bambulab.com")

end OpenBambu.Cloud
