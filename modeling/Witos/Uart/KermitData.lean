import Witos.Uart.KermitSession

/-!
# Data packets

Whatever the load has received before, a data packet with the number it expects
appends the bytes that the sender has quoted.
-/

namespace Witos.Uart

open Library

def dataPacket (data : List UInt8) : Packet := ⟨kermTypeData, data⟩

end Witos.Uart
