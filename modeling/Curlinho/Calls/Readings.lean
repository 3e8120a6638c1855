import Curlinho.Calls.Concurrency
import Curlinho.Session.HeadersRead
import Curlinho.Session.Remembered
import Curlinho.Util.QueryText

/-! # Calls as the server reads them

A server cuts the URL of a request, decodes the query, reads the header lines and cuts the
credentials. Of a call whose options can be said that way, by whatever entry point and
among whatever other calls, it reads what the options say, once and again for each retry.
-/
namespace Curlinho
open Foundation

def OptionObject.authentication? : OptionObject → Option Authentication
  | authentication a => some a
  | _ => none

section
variable {platform : Platform} {wire : Bytes → Bytes} {σ : Settings} {ps : List Parameter}

end

namespace Job

variable {platform : Platform} {wire : Bytes → Bytes} {job : Job} {ps : List Parameter}

variable {narrow : Int → Int}

end Job

variable {ι : Type*} [DecidableEq ι] {platform : Platform} {narrow : Int → Int} {jobs : ι → Job}
  {mem : Memory} {w : Whole ι Addr Bytes CallState} {ms : List (Move ι Addr Bytes Action)}

end Curlinho
