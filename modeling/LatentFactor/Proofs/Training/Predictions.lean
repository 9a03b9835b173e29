import LatentFactor.Proofs.Training.Model
import LatentFactor.Proofs.Training.Transcript

set_option autoImplicit false

namespace LatentFactor

variable {α : Type}

namespace Training

variable [Scalar α]

section

variable {environment : Environment α} {training : Training α} {cancelled : Bool}
  {prepared : Prepared α} {test : Ratings α}

end

end Training
end LatentFactor
