import TableDriven.Session.Basic
import TableDriven.TableFault

/-! # Tables in files

Loading and saving the tables of either kind.
-/

namespace TableDriven.Session

open TableDriven.Binary (Encoding CodecFault)

/-- Puts an encoding into a file: its bytes are written up to the refusal, if there is one. -/
def save (path : String) (encoding : Encoding) : Session (Except (TableFault δ) Unit) :=
  .ask (.write path encoding.bytes) fun written => .done <|
    match written, encoding.refusal with
    | .error cause, _ => .error (.codec (.io cause))
    | .ok (), some cause => .error (.codec cause)
    | .ok (), none => .ok ()

/-- The causes that a table failure contributes: itself, and the input or output that failed. -/
def tableCauses (describe : δ → String) (fault : TableFault δ) : List String :=
  fault.message describe ::
    match fault with
    | .codec (.io cause) => [cause.message]
    | _ => []

end TableDriven.Session
