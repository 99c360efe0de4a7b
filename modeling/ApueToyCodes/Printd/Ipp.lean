import ApueToyCodes.OpenServer.Opend
import ApueToyCodes.Printd.Daemon

/-!
# `Printd.Ipp` — the request to the printer (printer/printd.c)

`printer_thread` puts the IPP request together in `ibuf`, one attribute behind the other, and the document
follows. The names are those of the client: arrays of the request it sent, read up to the first NUL.
-/

namespace Printd
open CStr OpenServer

/-- `IBUFSZ` -/
abbrev ibufsz : Nat := 512

/-- `USERNM_MAX` -/
abbrev usernmMax : Nat := 64

/-- `JOBNM_MAX` -/
abbrev jobnmMax : Nat := 256

/-- `htons` of a length -/
def be16 (n : Nat) : List UInt8 := [UInt8.ofNat (n / 256), UInt8.ofNat n]

/-- `htonl` -/
def be32 (n : Nat) : List UInt8 :=
  [UInt8.ofNat (n / 16777216), UInt8.ofNat (n / 65536), UInt8.ofNat (n / 256), UInt8.ofNat n]

/-- `OP_PRINT_JOB` -/
abbrev opPrintJob : Nat := 2

abbrev tagOperationAttr : UInt8 := 0x01
abbrev tagEndOfAttr : UInt8 := 0x03
abbrev tagNamewolang : UInt8 := 0x42
abbrev tagUri : UInt8 := 0x45
abbrev tagCharset : UInt8 := 0x47
abbrev tagNatulang : UInt8 := 0x48
abbrev tagMimetype : UInt8 := 0x49

/-- What `add_option` puts into the buffer, but for the NUL behind it, which the next byte replaces. -/
def addOption (tag : UInt8) (optname optval : List UInt8) : List UInt8 :=
  tag :: (be16 optname.length ++ optname ++ be16 optval.length ++ optval)

/-- What `ibuf` holds when `ilen` is taken. -/
def ippHeader (jobid : Nat) (uri usernm jobnm mime : List UInt8) : List UInt8 :=
  [1, 1] ++ be16 opPrintJob ++ be32 jobid ++ [tagOperationAttr] ++
    addOption tagCharset (ascii "attributes-charset") (ascii "utf-8") ++
    addOption tagNatulang (ascii "attributes-natural-language") (ascii "en-us") ++
    addOption tagUri (ascii "printer-uri") uri ++
    addOption tagNamewolang (ascii "requesting-user-name") usernm ++
    addOption tagNamewolang (ascii "job-name") jobnm ++
    addOption tagMimetype (ascii "document-format") mime ++ [tagEndOfAttr]

/-- `"http://%s/ipp"` -/
def printerUri (printerName : List UInt8) : List UInt8 := ascii "http://" ++ printerName ++ ascii "/ipp"

/-- `document-format` -/
def mimeOf (req : PrintReq) : List UInt8 :=
  if req.flags &&& prText ≠ 0 then ascii "text/plain" else ascii "application/postscript"

/-- The request for a job. `strlen` of a name that fills its array goes on behind it: in the next array, and
    in `behind`, which is what stands behind the job in memory. -/
def ippRequest (printerName behind : List UInt8) (jobid : Nat) (req : PrintReq) : List UInt8 :=
  ippHeader jobid (printerUri printerName) (cstr (req.usernm ++ req.jobnm ++ behind) 0)
    (cstr (req.jobnm ++ behind) 0) (mimeOf req)

/-- A request as the client program makes it: each name ends within its array. -/
structure PrintReq.Terminated (req : PrintReq) : Prop where
  usernm : req.usernm.length = usernmMax ∧ 0 ∈ req.usernm
  jobnm  : req.jobnm.length = jobnmMax ∧ 0 ∈ req.jobnm

/-- What the printer is sent behind the HTTP header: the request, and the document behind a backspace where it
    is text. -/
def ippBody (printerName behind : List UInt8) (jobid : Nat) (req : PrintReq) (doc : List UInt8) : List UInt8 :=
  ippRequest printerName behind jobid req ++ (if req.flags &&& prText ≠ 0 then [8] else []) ++ doc

end Printd
