import ApueToyCodes.OpenServer.Opend

/-!
# `OpenServer.Verdict` — what a request says

The server's reading of a request without buffers and pointers: `judge` decides from the bytes of the
request alone whether it is taken, and as which path, or why it is refused. `Correctness.Split` shows that
the tokenizer in the buffer of `main` computes it, whatever earlier requests left there.
-/

namespace OpenServer
open CStr

/-- The server's reading of a request. -/
inductive Verdict where
  /-- the last byte is not NUL -/
  | unterminated
  /-- no word, or too many: `buf_args` gives up -/
  | unsplit
  /-- not `open` with two words after it: `cli_args` refuses -/
  | usage
  /-- open this path -/
  | openPath (path : List UInt8)
deriving DecidableEq

/-- The separators in front of the first word. -/
def lead (text : List UInt8) : List UInt8 := text.takeWhile fun c => decide (c ∈ white)

/-- The reading of a text. `argv[0]` is the start of the buffer, so separators in front of the first word
    count against it. -/
def judgeWords (text : List UInt8) : List (List UInt8) → Verdict
  | []           => .unsplit
  | [w, path, _] => if lead text ++ w = clOpen then .openPath path else .usage
  | ws           => if maxargc ≤ ws.length then .unsplit else .usage -- `argc` is not 3

/-- The text of a request: its bytes up to the first NUL. -/
def textOf (req : List UInt8) : List UInt8 := req.takeWhile (· != 0)

/-- **What the server makes of a request.** -/
def judge (req : List UInt8) : Verdict :=
  if req.getD (req.length - 1) 0 ≠ 0 then .unterminated
  else judgeWords (textOf req) (words white (textOf req))

theorem judgeWords_of_long {text : List UInt8} {ws : List (List UInt8)} (h : maxargc ≤ ws.length) :
    judgeWords text ws = .unsplit := by
  unfold judgeWords
  split
  · rfl
  · exact absurd h (by simp [maxargc])
  · exact if_pos h

theorem judgeWords_of_ne_three {text : List UInt8} {ws : List (List UInt8)} (hne : ws ≠ [])
    (hlt : ws.length < maxargc) (h3 : ws.length ≠ 3) : judgeWords text ws = .usage := by
  unfold judgeWords
  split
  · exact absurd rfl hne
  · exact absurd rfl h3
  · exact if_neg (by omega)

/-! ## The texts of the refusals -/

/-- The text for a request that is not terminated. -/
def notTerminated (H : Host) (req : List UInt8) : List UInt8 :=
  snprintf (ascii "request not null terminated: " ++ H.badConversion req.length req)

/-- The text for a file that does not open. -/
def cannotOpen (path : List UInt8) : List UInt8 := snprintf (ascii "can't open " ++ path ++ ascii " \n")

/-- `sendmsg` passed both bytes of a trailer on. -/
def Outcomes.sent (o : Outcomes) : Prop := o.sendmsg.map (min 2) = some 2

/-- `write` passed all of a text on, or there was none to write. -/
def Outcomes.written (o : Outcomes) (text : List UInt8) : Prop :=
  text = [] ∨ o.write.map (min text.length) = some text.length

instance (o : Outcomes) : Decidable o.sent := inferInstanceAs (Decidable (_ = _))

instance (o : Outcomes) (text : List UInt8) : Decidable (o.written text) :=
  inferInstanceAs (Decidable (_ ∨ _))

end OpenServer
