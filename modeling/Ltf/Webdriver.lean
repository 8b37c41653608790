import Ltf.Http

/-! The HTTP requests of `lib/ltf/webdriver.lua`. Only the headers are of interest here:
the other options have values of their own, and each request has a handle of its own. -/

namespace Ltf.Webdriver
open CString Http

def optPost : Int := 47

def optPostfieldsize : Int := 60

def optUrl : Int := 10002

def optPostfields : Int := 10015

def optCustomrequest : Int := 10036

/-- The options with a single value in front of the headers, and the headers. -/
structure Request where
  options : List Int
  headers : List CStr

def wdPostJson : Request where
  options := [optUrl, optPost, optPostfields, optPostfieldsize]
  headers := [.lit "Content-Type: application/json; charset=utf-8", .lit "Accept: application/json", .lit "Expect:"]

def wdPutJson : Request where
  options := [optUrl, optCustomrequest, optPostfields, optPostfieldsize]
  headers := [.lit "Content-Type: application/json; charset=utf-8", .lit "Accept: application/json", .lit "Expect:"]

def wdGetJson : Request where
  options := [optUrl]
  headers := [.lit "Accept: application/json", .lit "Expect:"]

def wdDeleteJson : Request where
  options := [optUrl, optCustomrequest]
  headers := [.lit "Accept: application/json", .lit "Expect:"]

def requests : List Request := [wdPostJson, wdPutJson, wdGetJson, wdDeleteJson]

/-- What a request does with a new handle before it is performed. Each option is accepted. -/
def Request.prepare (request : Request) (handle : Nat) : List HttpCall :=
  .new true :: request.options.map (.setopt handle · .scalar none) ++
    [.setopt handle optHttpHeader (.table (request.headers.map some)) none,
      .setopt handle optWriteFunction .function none]

end Ltf.Webdriver
