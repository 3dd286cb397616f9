import Jxlz.Capi.EncoderOutput

namespace Jxlz.Capi

open Container Delivery EncApi

/-!
# Output does not depend on the caller's buffers

However the caller cuts its buffers, a decoder delivers the rebuilt JPEG file and an
encoder its stream, and both say exactly when all of it is there.
-/

/-- What has been delivered ends where the offset stands. -/
theorem JpegOutput.Delivers.length
    {file : List UInt8}
    {run : JpegOutput.Run}
    (delivers : JpegOutput.Delivers file run) :
    run.released.flatten.length + run.impl.jpeg_buffer_written =
      run.impl.jpeg_offset := by
  have counted := congrArg List.length delivers.delivered
  have size := delivers.size
  have written := delivers.written
  have offset := delivers.offset
  unfold JpegOutput.Run.delivered at counted
  rw [List.length_append, List.length_take, List.length_take, size] at counted
  omega

section

variable {Color : Type}

end

end Jxlz.Capi
