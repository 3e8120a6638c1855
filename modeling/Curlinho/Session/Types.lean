import Curlinho.Util.Headers
import Curlinho.Util.Parameters
import Mathlib.Data.Rat.Defs

/-! # The data types of requests and responses

Option objects, as the caller hands them to a session, and what comes back. The
content left in an object by a move is part of each type.
-/
namespace Curlinho
open Foundation

abbrev Url := Bytes
abbrev Body := Bytes

inductive HTTP
  | v1x
  | v2
deriving DecidableEq

structure RetryPolicy where
  numRetries : Int := 0
  minDelay : Int := 0
  maxDelay : Int := 0
  maxBackOff : Int := 0
  recoverableCodes_ : List Int := [408, 425, 429, 502, 503, 504, 522, 524]
deriving DecidableEq

structure Timeout where
  ms : Int
deriving DecidableEq

def Timeout.milliseconds (timeout : Timeout) : Int := timeout.ms

structure Authentication where
  username_ : Bytes
  password_ : Bytes
  auth_string_ : Bytes
deriving DecidableEq

def Authentication.make (username password : Bytes) : Authentication :=
  ⟨username, password, username ++ ch ':' :: password⟩

def Authentication.getAuthString (auth : Authentication) : Bytes := cstr auth.auth_string_

structure SslCert where
  certString_ : Bytes := []
  pkp_ : Bytes := []
deriving DecidableEq

inductive OptionObject
  | url (url : Url)
  | parameters (parameters : Parameters)
  | headers (headers : Headers)
  | timeout (timeout : Timeout)
  | authentication (auth : Authentication)
  | body (body : Body)
  | protocolVersion (protocolVersion : HTTP)
  | retryPolicy (retryPolicy : RetryPolicy)
  | sslCert (sslcert : SslCert)
deriving DecidableEq

namespace OptionObject

def url? : OptionObject → Option Url
  | url u => some u
  | _ => none

def parameters? : OptionObject → Option Parameters
  | parameters p => some p
  | _ => none

def headers? : OptionObject → Option Headers
  | headers h => some h
  | _ => none

def body? : OptionObject → Option Body
  | body b => some b
  | _ => none

def retryPolicy? : OptionObject → Option RetryPolicy
  | retryPolicy r => some r
  | _ => none

/-- What move construction leaves in the source object: strings, maps and vectors
are emptied, numbers and enumerations are copied. -/
def movedFrom : OptionObject → OptionObject
  | url _ => url []
  | parameters _ => parameters {}
  | headers _ => headers OrderedMap.empty
  | timeout t => timeout t
  | authentication _ => authentication ⟨[], [], []⟩
  | body _ => body []
  | protocolVersion v => protocolVersion v
  | retryPolicy r => retryPolicy { r with recoverableCodes_ := [] }
  | sslCert _ => sslCert {}

/-- The bytes that a pointer into the object may be asked for later: those of a
body, and the certificate text of a TLS option. -/
def text : OptionObject → Bytes
  | body b => b
  | sslCert c => c.certString_
  | _ => []

end OptionObject

/-- How an argument expression names its object. -/
inductive ValueCategory
  | lvalue
  | constLvalue
  | rvalue
  | constRvalue
deriving DecidableEq

def ValueCategory.move : ValueCategory → ValueCategory
  | lvalue => rvalue
  | constLvalue => constRvalue
  | rvalue => rvalue
  | constRvalue => constRvalue

/-- An argument of a call: an object of its own and the way it is passed. -/
structure Arg where
  category : ValueCategory
  object : OptionObject
deriving DecidableEq

structure Error where
  code : Int := 0
  message : Bytes := []

def CURLE_OK : Int := 0
def CURLE_OPERATION_TIMEDOUT : Int := 28

structure Response where
  statusCode : Int
  text : Bytes
  headers : Headers
  url : Url
  elapsed : ℚ
  error : Error

/-- The build and the linked libcurl. -/
structure Platform where
  windows : Bool
  noSignal : Bool
  version : Bytes
  http2 : Bool

def Platform.linux : Platform where
  windows := false
  noSignal := false
  version := str ['8', '.', '5', '.', '0']
  http2 := true

end Curlinho
