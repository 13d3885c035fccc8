import HidDescriptor.Fault

/-!
# Talking to a device

Reports are sent to an open device one at a time, through whatever the system offers for it. A
report has a fixed length, so one that was sent in part is of no use to the device: `sendWhole`
makes a failure of it.
-/

namespace HidDescriptor

inductive Device.Error where
  /-- The system failed, and says why. -/
  | io (reason : String)
  /-- The report descriptor of the device is faulty. -/
  | descriptor (fault : Fault)
  /-- A report was written in part. -/
  | shortWrite (expected written : Nat)
  deriving DecidableEq, Repr

namespace Device

def Error.message : Error → String
  | io reason => "I/O error: " ++ reason
  | descriptor fault => "Invalid report descriptor: " ++ fault.message
  | shortWrite expected written => s!"Short write: {written} of {expected} bytes"

/-- Sends one report by means of `write`, which tells how many bytes it took, and fails unless
those were all. -/
def sendWhole {m : Type → Type} [Monad m] [MonadExcept Error m]
    (write : List UInt8 → m Nat) (report : List UInt8) : m Unit := do
  let written ← write report
  if written < report.length then
    throw (.shortWrite report.length written)

/-- A report was sent iff no byte of it was left over. -/
theorem sendWhole_eq_ok {write : List UInt8 → Except Error Nat} {report : List UInt8} :
    sendWhole write report = .ok () ↔ ∃ written, write report = .ok written ∧
      report.length ≤ written := by
  cases h : write report with
  | error e => simp [sendWhole, h, bind, Except.bind]
  | ok written =>
    by_cases hlt : written < report.length
    · simp [sendWhole, h, hlt, bind, Except.bind, throw, throwThe, MonadExceptOf.throw]
    · simp [sendWhole, h, hlt, bind, Except.bind, pure, Except.pure]
      omega

end Device

end HidDescriptor
