import Midframe.Command.Files
import Midframe.Main
import Midframe.Proofs.Block.Compilation
import Midframe.Proofs.Block.Reflection
import Midframe.Proofs.Block.Strides
import Midframe.Proofs.Command.Sequence
import Midframe.Proofs.Interpolation.Failure
import Midframe.Proofs.Interpolation.Order
import Midframe.Proofs.Interpolation.Sequence
import Midframe.Proofs.Network.Defaults
import Midframe.Proofs.Network.Entries
import Midframe.Proofs.Network.Files
import Midframe.Proofs.Network.Kernels
import Midframe.Proofs.Network.Synthesis
import Midframe.Proofs.Parameter.Draws
import Midframe.Proofs.Parameter.Exchange
import Midframe.Proofs.Parameter.Text
import Midframe.Proofs.Picture.Quantization
import Midframe.Proofs.Pyramid.Channels
import Midframe.Proofs.Pyramid.InPlace
import Midframe.Proofs.Pyramid.Records
import Midframe.Proofs.Pyramid.Table
import Midframe.Proofs.Spec.Scanning
import Midframe.Proofs.Spec.Texts
import Midframe.Proofs.Tensor.Convolution
import Midframe.Proofs.Tensor.Padding
import Midframe.Proofs.Tensor.Resampling
import Midframe.Proofs.Network.Framing
import Midframe.Proofs.Tensor.Shuffling
import Midframe.Proofs.Network.Statistics
