import Witos.Fs.FileChunkRuns

/-!
# Checkpoints of lookup trees

A checkpoint keeps the level 0 tnodes of a file, each with its first chunk, and
an end marker.  Reading it plugs them into the tree of a new file.
-/

namespace Witos.Fs

open Witos.Library

section RoundTrip

variable {dev : YaffsDev} (fits : dev.Fits)

include fits

end RoundTrip

end Witos.Fs
