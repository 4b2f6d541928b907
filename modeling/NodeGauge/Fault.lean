/-
  NodeGauge.Fault — every way a job of the exporter can fail, as causes, and their
  wording in one place. Faults of the documents, the files, the chain and the beacon
  node are named by what went wrong; the exporter's own faults carry the cause they
  were raised for. How a cause without wording of its own is named is left to the
  caller (`Fault.text`).
-/

import NodeGauge.Text

namespace NodeGauge

inductive FileFault where
  | missing
  | directory
  | notDirectory
  | nulInPath
  | nameTooLong
  | unencodable
  deriving DecidableEq, Repr

inductive Outage where
  | connection
  | disconnected
  | payload
  | timeout
  | contentType
  /-- A failure of the operating system, not of the client. -/
  | system
  deriving DecidableEq, Repr

inductive Fault where
  /-- A text that spells no integer, a number of more digits than one is read from, or a
      NaN where an integer is due. -/
  | notInteger
  /-- An infinite number where an integer is due. -/
  | infinite
  | wrongKind
  | noMembers
  | missingKey (key : Text)
  | notAddress
  | durationTooLong
  | amountOutOfRange
  | powerUndefined
  | powerOverflow
  | notJson
  | notUtf8
  | file (f : FileFault)
  | unreachable (message : Text)
  | badAnswer
  | addressSpelling
  | negativeBucket
  | balanceMisfit
  /-- A negative block number that counts back past the first block. -/
  | noSuchBlock
  | outage (o : Outage)
  | httpStatus (code : Int)
  | treeUnreadable (path : Text) (interval : Int) (cause : Fault)
  | treeMalformed (path : Text) (interval : Int) (cause : Fault)
  | treeMissing (path : Text) (interval : Int) (claimed : Bool)
  | headUnavailable (cause : Fault)
  | headMalformed (cause : Fault)
  | badSetting (name : Text)
  | noNodeAddress
  | homeUnknown
  | noRoute
  deriving DecidableEq, Repr

namespace Fault

/-- A value that does not have the form its document promises. An infinite number is of
    the right form and has no integer, so it is not among these. -/
def isMalformed : Fault → Bool
  | notInteger | wrongKind | noMembers | missingKey _ | notJson | notUtf8 => true
  | _ => false

/-- The text of a fault. `name` names a cause that has no wording of its own, and every
    cause inside another fault's text. -/
def text (name : Fault → Text) : Fault → Text
  | treeUnreadable path i cause =>
    "Error reading rewards file " ++ path ++ " for interval " ++ Text.ofInt i ++ ": " ++ name cause
  | treeMalformed path i cause =>
    "Error parsing rewards file " ++ path ++ " for interval " ++ Text.ofInt i ++ ": " ++ name cause
  | treeMissing path i claimed =>
    "Error calculating lifetime node rewards: rewards file " ++ path ++ " doesn't exist " ++
      (if claimed then "but interval " ++ Text.ofInt i ++ " was claimed"
        else "and interval " ++ Text.ofInt i ++ " is unclaimed")
  | headUnavailable cause => "Error getting beacon chain head: " ++ name cause
  | headMalformed cause => "Error getting beacon chain head: malformed response (" ++ name cause ++ ")"
  | noNodeAddress => "NODE_ADDRESS must be configured"
  | homeUnknown => "Could not determine home directory."
  | unreachable message => message
  | missingKey key => key
  | f => name f

end Fault

end NodeGauge
