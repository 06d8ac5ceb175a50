import Courier.Model.Declaration
import Courier.Xml.Fault

/-! What can go wrong with a schema, and the wording of it. -/
namespace Courier

/-- Why a file cannot be read or written. -/
inductive FileFault where
  | notFound
  | exists
  | notDirectory
  | isDirectory
  | notText
  deriving DecidableEq, Repr

def FileFault.message : FileFault → String
  | .notFound => "No such file or directory (os error 2)"
  | .exists => "File exists (os error 17)"
  | .notDirectory => "Not a directory (os error 20)"
  | .isDirectory => "Is a directory (os error 21)"
  | .notText => "stream did not contain valid UTF-8"

/-- Why a schema document cannot be read. -/
inductive ParseError where
  | xml (fault : Xml.Fault)
  | missingAttribute (element key : String)
  | invalidAttribute (element key value : String)
  | malformed (message : String)
  deriving DecidableEq, Repr

def ParseError.message : ParseError → String
  | .xml fault => "XML parsing error: " ++ fault.message
  | .missingAttribute element key =>
    "missing required attribute '" ++ key ++ "' on element '" ++ element ++ "'"
  | .invalidAttribute element key value => "invalid value '" ++ value ++
      "' for attribute '" ++ key ++ "' on element '" ++ element ++ "'"
  | .malformed message => "invalid schema structure: " ++ message

/-- Why no descriptor can be extracted from a declaration. -/
inductive ExtractError where
  | unsupportedKind (name : String) (kind : String)
  | invalidNestedList (name : String) (argument : String)
  | duplicateField (name field : String)
  deriving DecidableEq, Repr

def ExtractError.message : ExtractError → String
  | .unsupportedKind name kind =>
    "generate_dto can only be applied to a class or a struct with named fields; '" ++ name ++
      "' is not supported (" ++ kind ++ ")"
  | .invalidNestedList name argument => "nestedDTOs on '" ++ name ++
      "' must be an array of string literals, found `" ++ argument ++ "`"
  | .duplicateField name field => "duplicate field '" ++ field ++ "' in '" ++ name ++ "'"

/-- What is wrong with a schema as a whole. -/
inductive SchemaError where
  | parse (error : ParseError)
  | extract (error : ExtractError)
  | duplicateModel (name : String)
  | unresolvedNested (model nested : String)
  deriving DecidableEq, Repr

def SchemaError.message : SchemaError → String
  | .parse error => "parse error: " ++ error.message
  | .extract error => error.message
  | .duplicateModel name => "duplicate model definition: '" ++ name ++ "'"
  | .unresolvedNested model nested => "model '" ++ model ++ "' lists nested type '" ++ nested ++
      "' which has no transfer type in this schema"

/-- Why no code can be generated. -/
inductive GenerateError where
  | parse (error : ParseError)
  | schema (error : SchemaError)
  | extract (error : ExtractError)
  | file (fault : FileFault)
  | generation (message : String)
  | invalidType (type field : String)
  | invalidIdentifier (name : String)
  | invalidRuntimePath (path : String)
  deriving DecidableEq, Repr

def GenerateError.message : GenerateError → String
  | .parse error => "schema parse error: " ++ error.message
  | .schema error => "schema error: " ++ error.message
  | .extract error => error.message
  | .file fault => "IO error: " ++ fault.message
  | .generation message => "generation error: " ++ message
  | .invalidType type field => "invalid type '" ++ type ++ "' in field '" ++ field ++ "'"
  | .invalidIdentifier name => "invalid identifier '" ++ name ++ "'"
  | .invalidRuntimePath path => "invalid runtime path '" ++ path ++ "'"

end Courier
