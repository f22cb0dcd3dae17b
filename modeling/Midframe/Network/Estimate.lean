import Midframe.Network
import Midframe.Picture

/-!
# Estimating a frame

A network only takes even extents. A picture of any size, up to the limits of the configuration, is
extended by a repeated row or column where an extent is odd, and the result is cut back to the size
of the input.
-/

namespace Midframe

namespace Network

/-- A pair of pictures is taken if both have three planes and the same size, which is not empty and
keeps the limits of the configuration. -/
def checkPictures (c : Config) (one two : Picture) : Except Fault Unit :=
  if one.batch.shape != two.batch.shape then
    .error (.invalid (.pictureShapes one.planes one.height one.width
      two.planes two.height two.width))
  else if one.planes != 3 then .error (.invalid (.picturePlanes one.planes))
  else if one.width == 0 || one.height == 0 || c.maxWidth < one.width || c.maxHeight < one.height
  then .error (.invalid (.pictureSize one.width one.height c.maxWidth c.maxHeight))
  else .ok ()

/-- The picture halfway between two pictures. -/
def estimate (net : Network) (one two : Picture) : Except Fault Picture := do
  checkPictures net.config one two
  let framedOne ← one.batch.padToEven .replicate
  let framedTwo ← two.batch.padToEven .replicate
  let out ← net.forward framedOne framedTwo
  return Picture.ofFn out.shape.channels one.height one.width fun c y x => out.get 0 c y x

end Network

end Midframe
