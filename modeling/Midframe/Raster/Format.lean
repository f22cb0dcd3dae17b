import Midframe.Png.Codec
import Midframe.Raster.Bitmap
import Midframe.Raster.Exr.Codec
import Midframe.Raster.Farbfeld
import Midframe.Raster.Gif
import Midframe.Raster.Icon
import Midframe.Raster.Netpbm
import Midframe.Raster.QuiteOk
import Midframe.Raster.Radiance
import Midframe.Raster.Surface
import Midframe.Raster.Targa
import Midframe.Raster.Tiff.Codec
import Midframe.Raster.WebP.Codec

/-!
# Formats of image files

Images can be read from files of several formats. The name of a file tells its format. Which formats
there are, and how their files are read, is up to an `ImageCodec`; the one here reads the formats
below and writes PNG files.
-/

namespace Midframe

/-- How images are kept in files. -/
structure ImageCodec where
  /-- The image that the bytes of a file hold, if they hold one. The format is told by the extension
  of the name, which is given in lower case. -/
  decode : String → ByteArray → Option Image
  /-- The PNG file of an image, which must have pixels. -/
  encode : Image → ByteArray

/-- A format that images can be read from. -/
inductive ImageFormat
  /-- PNG, which images are written in as well. -/
  | png
  /-- The Netpbm formats. -/
  | netpbm
  /-- Bitmaps. -/
  | bitmap
  /-- Farbfeld. -/
  | farbfeld
  /-- QOI. -/
  | quiteOk
  /-- TGA. -/
  | targa
  /-- Radiance. -/
  | radiance
  /-- GIF. -/
  | gif
  /-- TIFF. -/
  | tiff
  /-- Icons. -/
  | icon
  /-- Surfaces. -/
  | surface
  /-- WebP. -/
  | webP
  /-- EXR. -/
  | exr
deriving DecidableEq, Repr

namespace ImageFormat

/-- The format of an extension in lower case. -/
def ofExtension? : String → Option ImageFormat
  | "png" | "apng" => some png
  | "pbm" | "pgm" | "ppm" | "pnm" | "pam" => some netpbm
  | "bmp" => some bitmap
  | "ff" => some farbfeld
  | "qoi" => some quiteOk
  | "tga" => some targa
  | "hdr" => some radiance
  | "gif" => some gif
  | "tif" | "tiff" => some tiff
  | "ico" => some icon
  | "dds" => some surface
  | "webp" => some webP
  | "exr" => some exr
  | _ => none

/-- The image that the bytes of a file of a format hold. -/
def decode : ImageFormat → ByteArray → Option Image
  | png => Png.decode
  | netpbm => Netpbm.decode
  | bitmap => Bitmap.decode
  | farbfeld => Farbfeld.decode
  | quiteOk => QuiteOk.decode
  | targa => Targa.decode
  | radiance => Radiance.decode
  | gif => Gif.decode
  | tiff => Tiff.decode
  | icon => Icon.decode
  | surface => Surface.decode
  | webP => WebP.decode
  | exr => Exr.decode

end ImageFormat

/-- The formats above, and PNG files that are stored without compression. -/
def ImageCodec.builtin : ImageCodec where
  decode extension bytes := (ImageFormat.ofExtension? extension).bind (·.decode bytes)
  encode := Png.encode

end Midframe
