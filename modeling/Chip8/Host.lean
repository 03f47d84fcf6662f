import Chip8.Fault
import Chip8.Framebuffer
/-! The host of a machine: display, keys, tone and random bytes. A machine only calls these operations, so
whatever holds for every host holds for every keyboard, screen and random source. -/

namespace Chip8

/-- A wait for a key is interrupted, or an input event names a key that does not exist. -/
inductive WaitFault
  | interrupted (why : Interruption)
  | noSuchKey (key : Int)
  deriving DecidableEq

def WaitFault.toFault : WaitFault → Fault
  | interrupted why => .keyWait why
  | noSuchKey key => .noSuchKey key

class Host (π : Type) where
  clearDisplay : π → π
  render : Framebuffer → π → π
  isPressed : Nat → π → Bool × π
  waitKey : π → Except WaitFault Int × π
  setTone : Bool → π → π
  randomByte : π → UInt8 × π

/-- A host without devices: nothing is shown or heard, and no key is ever down. -/
instance : Host Unit where
  clearDisplay := id
  render _ := id
  isPressed _ h := (false, h)
  waitKey h := (.error (.interrupted .noSource), h)
  setTone _ := id
  randomByte h := (0, h)

end Chip8
