/-
Flash area helpers (`mcuboot_fa_utils.c`).
-/
import RuuviMcuboot.Platform.World

namespace RuuviMcuboot

def getFlashAreaAddressAndSize (fa : FaId) : Fw (Option (UInt32 × Nat)) := do
  match ← flashAreaOpen fa with
  | .error _ => return none
  | .ok p =>
    flashAreaClose p.faId
    return some (p.faOff, p.faSize)

/-- `load_image_header`: the header at the start of the area, if
`boot_image_load_header` accepts it. -/
def loadImageHeader (P : Platform) (fa : FaId) : Fw (Option ImageHeader) := do
  match ← flashAreaOpen fa with
  | .error _ => return none
  | .ok p =>
    match ← flashAreaRead p.faId 0 imageHeaderSize with
    | .error _ =>
      flashAreaClose p.faId
      return none
    | .ok b =>
      flashAreaClose p.faId
      return P.bootImageLoadHeader p.faSize b

end RuuviMcuboot
