import HidDescriptor.Device.Basic

/-!
# Device events

Devices come and go while a program runs. Both events carry the device; the path is what the two
events of one device have in common.
-/

namespace HidDescriptor

/-- A device was plugged in or taken away. -/
inductive Device.Event where
  | connected (device : Device)
  | disconnected (device : Device)
  deriving DecidableEq, Repr

namespace Device.Event

def device : Event → Device
  | connected d | disconnected d => d

def path (e : Event) : String := e.device.path

def isConnected : Event → Bool
  | connected _ => true
  | disconnected _ => false

end Device.Event

end HidDescriptor
