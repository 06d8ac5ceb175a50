/-! What makes a document unreadable. -/
namespace Courier.Xml

/-- Why a number does not stand for a character. -/
inductive CharacterFault where
  | unexpectedSign
  | noDigits
  | invalidDigit
  | tooLarge
  | zero
  | notCodepoint (code : Nat)
  deriving DecidableEq, Repr

namespace CharacterFault

def message : CharacterFault → String
  | .unexpectedSign => "unexpected number sign"
  | .noDigits => "cannot parse integer from empty string"
  | .invalidDigit => "invalid digit found in string"
  | .tooLarge => "number too large to fit in target type"
  | .zero => "0x0 character is not permitted in XML"
  | .notCodepoint code => "`" ++ toString code ++ "` is not a valid codepoint"

end CharacterFault

/-- Why a document cannot be read on. Positions count bytes in the raw value of an attribute. -/
inductive Fault where
  | unclosedTag
  | unclosedValue (quote : Char)
  | unclosedComment
  | unclosedCdata
  | unclosedDoctype
  | unclosedInstruction
  | unclosedDeclaration
  | unknownMarkup
  | mismatchedEnd (expected found : String)
  | unmatchedEnd (found : String)
  | unclosedReference
  | missingDoctypeName
  | unknownEntity (start stop : Nat) (name : String)
  | unterminatedEntity (start stop : Nat)
  | character (fault : CharacterFault)
  deriving DecidableEq, Repr

namespace Fault

/-- What is missing at the end of the input. -/
def notClosed (what mark : String) : String :=
  "syntax error: " ++ what ++ " not closed: `" ++ mark ++ "` not found before end of input"

def message : Fault → String
  | .unclosedTag => notClosed "tag" ">"
  | .unclosedValue quote => notClosed "attribute value" quote.toString
  | .unclosedComment => notClosed "comment" "-->"
  | .unclosedCdata => notClosed "CDATA" "]]>"
  | .unclosedDoctype => notClosed "DOCTYPE" ">"
  | .unclosedInstruction => notClosed "processing instruction" "?>"
  | .unclosedDeclaration => notClosed "XML declaration" "?>"
  | .unknownMarkup => "syntax error: unknown or missed symbol in markup"
  | .mismatchedEnd expected found =>
    "ill-formed document: expected `</" ++ expected ++ ">`, but `</" ++ found ++ ">` was found"
  | .unmatchedEnd found =>
    "ill-formed document: close tag `</" ++ found ++ ">` does not match any open tag"
  | .unclosedReference => "ill-formed document: entity or character reference not closed: " ++
      "`;` not found before end of input"
  | .missingDoctypeName =>
    "ill-formed document: `<!DOCTYPE>` declaration does not contain a name of a document type"
  | .unknownEntity start stop name =>
    "at " ++ toString start ++ ".." ++ toString stop ++ ": unrecognized entity `" ++ name ++ "`"
  | .unterminatedEntity start stop => "Error while escaping character at range " ++
      toString start ++ ".." ++ toString stop ++ ": Cannot find ';' after '&'"
  | .character fault => "invalid character reference: " ++ fault.message

end Fault

end Courier.Xml
