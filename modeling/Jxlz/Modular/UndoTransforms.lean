import Jxlz.Modular.MetaPalette
import Jxlz.Modular.MetaSqueeze

namespace Jxlz.Modular

open Except

/-!
# Undoing the transforms of a header

Each transform is rejected or can be undone from any image of the structure it
leaves, and so can a list of them, from the last one to the first.
-/

end Jxlz.Modular
