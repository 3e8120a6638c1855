import Curlinho.Session.Types
import Mathlib.Logic.Function.Basic

/-! # The libcurl easy handle and header lists

The handle is a last-write-wins store of options. String options are copied up to
the first NUL when they are set; the body, the certificate text and the header list
may be kept as addresses that are read when the transfer is performed.
-/
namespace Curlinho

/-- The address of a string buffer of the caller. -/
abbrev Addr := ℕ

abbrev Memory := Addr → Bytes

abbrev SlistPtr := ℕ

/-- The `curl_slist` lists of a session: the live ones, and the pointers handed out
and released so far. -/
structure SlistHeap where
  next : SlistPtr := 0
  lists : SlistPtr → Option (List Bytes) := fun _ => none
  released : List SlistPtr := []

/-- `curl_slist_append` returns NULL when it fails. On success it copies the string,
and the head of the list changes only if the list was empty. -/
def SlistHeap.append (heap : SlistHeap) (ok : Bool) (list : Option SlistPtr) (s : Bytes) :
    SlistHeap × Option SlistPtr :=
  if ok then
    match list with
    | none =>
      ({ heap with
          next := heap.next + 1
          lists := Function.update heap.lists heap.next (some [cstr s]) }, some heap.next)
    | some p =>
      ({ heap with
          lists := Function.update heap.lists p ((heap.lists p).map (fun l => l ++ [cstr s])) },
        some p)
  else (heap, none)

@[simp] theorem SlistHeap.append_failed (heap : SlistHeap) (list : Option SlistPtr) (s : Bytes) :
    heap.append false list s = (heap, none) := rfl

@[simp] theorem SlistHeap.isSome_append (heap : SlistHeap) (list : Option SlistPtr) (s : Bytes) :
    (heap.append true list s).2.isSome = true := by
  cases list <;> rfl

def SlistHeap.freeAll (heap : SlistHeap) : Option SlistPtr → SlistHeap
  | none => heap
  | some p =>
    { heap with lists := Function.update heap.lists p none, released := heap.released ++ [p] }

/-- The items of a list. NULL is the empty list, and a released list has none. -/
def SlistHeap.items (heap : SlistHeap) : Option SlistPtr → Option (List Bytes)
  | none => some []
  | some p => heap.lists p

/-- `CURLOPT_POSTFIELDS` keeps an address, `CURLOPT_COPYPOSTFIELDS` the bytes. -/
inductive PostFields
  | borrowed (data : Addr)
  | copied (data : Bytes)
deriving DecidableEq

/-- As many bytes as the size option says; up to the first NUL if it was never set. -/
def sizedBytes (size : Option ℕ) (data : Bytes) : Bytes :=
  match size with
  | some n => data.take n
  | none => cstr data

def PostFields.read (mem : Memory) (size : Option ℕ) : PostFields → Bytes
  | borrowed a => sizedBytes size (mem a)
  | copied b => b

inductive LocalString
  | responseString
  | headerString
deriving DecidableEq

structure LocalRef where
  frame : ℕ
  var : LocalString
deriving DecidableEq

/-- The options that a constructor sets and nothing changes. -/
structure Defaults where
  userAgent : Option Bytes := none
  followLocation : Option Int := none
  noProgress : Option Int := none
  maxRedirs : Option Int := none
  errorBuffer : Bool := false
  cookieFile : Option Bytes := none
  noSignal : Option Int := none
  tcpKeepAlive : Option Int := none
deriving DecidableEq

structure Handle where
  defaults : Defaults := {}
  url : Option Bytes := none
  /-- Never set, set to NULL, or naming a list. -/
  httpHeader : Option (Option SlistPtr) := none
  timeoutMs : Option Int := none
  httpAuth : Option ℕ := none
  userPwd : Option Bytes := none
  postFieldSize : Option ℕ := none
  postFields : Option PostFields := none
  httpVersion : Option ℕ := none
  sslOptions : Option ℕ := none
  sslCertType : Option Bytes := none
  sslCtxFunction : Bool := false
  sslCtxData : Option Addr := none
  pinnedPublicKey : Option Bytes := none
  noBody : Option Int := none
  customRequest : Option Bytes := none
  writeFunction : Bool := false
  writeData : Option LocalRef := none
  headerData : Option LocalRef := none

def CURLAUTH_BASIC : ℕ := 1
def CURL_HTTP_VERSION_1_1 : ℕ := 2
def CURL_HTTP_VERSION_2_0 : ℕ := 3
def CURLSSLOPT_NATIVE_CA : ℕ := 16

/-- What a transfer performed on a handle asks for, with every address read. -/
structure Request where
  defaults : Defaults
  url : Option Bytes
  headers : Option (Option (List Bytes))
  timeoutMs : Option Int
  httpAuth : Option ℕ
  userPwd : Option Bytes
  postFieldSize : Option ℕ
  postFields : Option Bytes
  httpVersion : Option ℕ
  sslOptions : Option ℕ
  sslCertType : Option Bytes
  sslCtxFunction : Bool
  sslCtxData : Option Bytes
  pinnedPublicKey : Option Bytes
  noBody : Option Int
  customRequest : Option Bytes
deriving DecidableEq

def Handle.request (h : Handle) (slists : SlistHeap) (mem : Memory) : Request where
  defaults := h.defaults
  url := h.url
  headers := h.httpHeader.map slists.items
  timeoutMs := h.timeoutMs
  httpAuth := h.httpAuth
  userPwd := h.userPwd
  postFieldSize := h.postFieldSize
  postFields := h.postFields.map (PostFields.read mem h.postFieldSize)
  httpVersion := h.httpVersion
  sslOptions := h.sslOptions
  sslCertType := h.sslCertType
  sslCtxFunction := h.sslCtxFunction
  sslCtxData := h.sslCtxData.map (fun a => cstr (mem a))
  pinnedPublicKey := h.pinnedPublicKey
  noBody := h.noBody
  customRequest := h.customRequest

end Curlinho
