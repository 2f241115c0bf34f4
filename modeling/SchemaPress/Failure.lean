import SchemaPress.Json.Literal

/-!
Failures by cause. Every way in which an operation can fail is a constructor; its wording is
`text?`, the failure it arose from is `cause?`, and `kind` sorts failures into families. Values of
a wrong type are kept as they are read and fail where they are used.
-/

namespace SchemaPress

/-- The families of failures. The last eight concern values of a wrong type, malformed input,
external programs and files. -/
inductive Kind where
  | format
  | unsupportedConstruct
  | missingDefinition
  | infiniteRecursion
  | dependencyAnalysis
  | generation
  | formatter
  | document
  | wrongOperation
  | wrongType
  | wrongValue
  | missingKey
  | malformedJson
  | malformedEncoding
  | process
  | file
  deriving DecidableEq, Repr

/-- The name under which a family is reported. -/
def Kind.label : Kind → String
  | .format => "FormatError"
  | .unsupportedConstruct => "UnsupportedConstructError"
  | .missingDefinition => "MissingDefinitionError"
  | .infiniteRecursion => "InfiniteRecursionError"
  | .dependencyAnalysis => "DependencyAnalysisError"
  | .generation => "GenerationError"
  | .formatter => "FormatterError"
  | .document => "DocumentError"
  | .wrongOperation => "AttributeError"
  | .wrongType => "TypeError"
  | .wrongValue => "ValueError"
  | .missingKey => "KeyError"
  | .malformedJson => "JSONDecodeError"
  | .malformedEncoding => "UnicodeDecodeError"
  | .process => "SubprocessError"
  | .file => "OSError"

/-- Whether a family is one that concerns documents and their compilation, as opposed to values of
a wrong type, malformed input, external programs and files. -/
def Kind.isOwn : Kind → Bool
  | .format | .unsupportedConstruct | .missingDefinition | .infiniteRecursion
  | .dependencyAnalysis | .generation | .formatter | .document => true
  | _ => false

/-- How a value does not fit its use. -/
inductive Mismatch where
  /-- The value has no such operation: a text or object operation on another kind of value. -/
  | operation
  /-- The value cannot be taken apart, looked up or given here. -/
  | type
  /-- The value is of the right type but not one of the admitted ones. -/
  | value
  /-- An object lacks a required key. -/
  | key
  deriving DecidableEq, Repr

/-- How a file operation fails. -/
inductive FileFault where
  | missing
  | occupied
  | isDirectory
  | notDirectory
  | nameTooLong
  | denied
  deriving DecidableEq, Repr

/-- Why an operation failed. -/
inductive Failure where
  | invalidPointer (pointer : String)
  | unsupportedReference (ref : String)
  | nestedReference (ref : String)
  | unsupportedSchema (construct : String) (place : Option String)
  | inexpressible (construct place : String)
  | mixedEnum (expected : String) (values : List Json)
  | booleanEnum
  | emptyUnion (combinator : String)
  | notObjectSchema
  | refused (message : String) (cause : Option Failure)
  | missingSchema (id : String)
  | missingSource (id : Json)
  | missingModule (path : String)
  | circularShape (ref : String)
  | unknownDependents (id : String) (cause : Failure)
  | unknownOrder (cause : Failure)
  | ungenerated (path : String) (cause : Failure)
  | unformatted (path : String) (cause : Failure)
  | unwritten (target : String) (cause : Failure)
  | rejected (message : String) (cause : Option Failure)
  | notOpenApi
  | unsupportedVersion (version : Json)
  | schemasNotObject
  | malformedDocument (path : String)
  | malformedJson
  | malformedEncoding
  | unknownAction (action : Json)
  | emptyPipeline
  | noted (text : String)
  | timedOut
  | file (fault : FileFault)
  | mismatch (mismatch : Mismatch)

namespace Failure

/-- The family of a failure. -/
def kind : Failure → Kind
  | .invalidPointer _ | .unsupportedReference _ | .nestedReference _ => .format
  | .unsupportedSchema _ _ | .inexpressible _ _ | .mixedEnum _ _ | .booleanEnum | .emptyUnion _
  | .notObjectSchema | .refused _ _ => .unsupportedConstruct
  | .missingSchema _ | .missingSource _ | .missingModule _ => .missingDefinition
  | .circularShape _ => .infiniteRecursion
  | .unknownDependents _ _ => .dependencyAnalysis
  | .unknownOrder _ | .ungenerated _ _ | .unformatted _ _ | .unwritten _ _ => .generation
  | .rejected _ _ => .formatter
  | .notOpenApi | .unsupportedVersion _ | .schemasNotObject | .malformedDocument _ => .document
  | .malformedJson => .malformedJson
  | .malformedEncoding => .malformedEncoding
  | .emptyPipeline | .mismatch .type => .wrongType
  | .unknownAction _ | .noted _ | .mismatch .value => .wrongValue
  | .mismatch .operation => .wrongOperation
  | .mismatch .key => .missingKey
  | .timedOut => .process
  | .file _ => .file

/-- How the wording for an unknown kind of directive begins. -/
def actionWording : String := "Unknown directive action: "

/-- The wording for a pipeline without steps. -/
def pipelineWording : String := "generate_pipe needs at least one argument"

/-- The wording of a failure, where it has one. -/
def text? : Failure → Option String
  | .invalidPointer pointer => some ("Invalid JSON pointer: " ++ Text.quoted pointer)
  | .unsupportedReference ref => some ("Reference format not supported: " ++ ref)
  | .nestedReference ref => some ("Refs to nested paths not supported: " ++ ref)
  | .unsupportedSchema construct none => some ("Unsupported schema: " ++ construct)
  | .unsupportedSchema construct (some place) =>
    some ("Unsupported schema: " ++ construct ++ " at " ++ (if place.isEmpty then "?" else place))
  | .inexpressible construct place =>
    some ("Currently unsupported: " ++ construct ++ " at " ++
      (if place.isEmpty then "?" else place))
  | .mixedEnum expected values =>
    some ("Unknown enum value, expected " ++ expected ++ " array: " ++ (Json.arr values).literal)
  | .booleanEnum => some "Boolean enum currently not supported"
  | .emptyUnion combinator => some (combinator ++ " must have at least one schema")
  | .notObjectSchema => some "Not an object schema"
  | .refused message _ => some message
  | .missingSchema id => some ("Unable to find schema \"" ++ id ++ "\"")
  | .missingSource id => some ("Could not find a schema named " ++ id.display)
  | .missingModule path => some ("Cannot find definition for module " ++ path)
  | .circularShape ref => some ("Infinite recursion at " ++ ref)
  | .unknownDependents id _ => some ("Unable to determine dependents for '" ++ id ++ "'")
  | .unknownOrder _ => some "Unable to determine the order of definitions"
  | .ungenerated path _ => some ("Unable to generate module " ++ path)
  | .unformatted path _ => some ("Unable to format bundle " ++ path)
  | .unwritten target _ => some ("Failed to write to file: " ++ target)
  | .rejected message _ => some message
  | .notOpenApi => some "Not a valid OpenAPI document"
  | .unsupportedVersion version =>
    some ("Expected OpenAPI version 3.1, but got version '" ++ version.display ++ "'")
  | .schemasNotObject => some "'components.schemas' must be an object"
  | .malformedDocument path => some ("Unable to parse JSON in '" ++ path ++ "'")
  | .unknownAction action => some (actionWording ++ action.inspect)
  | .emptyPipeline => some pipelineWording
  | .noted text => some text
  | .timedOut => some "timed out"
  | .malformedJson | .malformedEncoding | .file _ | .mismatch _ => none

/-- The failure that a failure arose from. -/
def cause? : Failure → Option Failure
  | .refused _ cause | .rejected _ cause => cause
  | .unknownDependents _ cause | .unknownOrder cause | .ungenerated _ cause
  | .unformatted _ cause | .unwritten _ cause => some cause
  | .malformedDocument _ => some .malformedJson
  | _ => none

/-- Whether a wording belongs to one of the two faults in what callers hand over. -/
def isCallerFault (text : String) : Bool :=
  Text.startsWith text actionWording || Text.startsWith text pipelineWording

/-- The wording that a report shows: that of the own families, and of faults in what callers hand
over. -/
def reported? (failure : Failure) : Option String :=
  if failure.kind.isOwn then failure.text? else failure.text?.filter isCallerFault

/-- A failure inside a log message: its wording, or the name of its family. -/
def shown (failure : Failure) : String :=
  failure.reported?.getD ("<" ++ failure.kind.label ++ ">")

/-- A failure with its family and quoted wording. -/
def inspected (failure : Failure) : String :=
  failure.kind.label ++ "(" ++ (failure.text?.map Text.quoted).getD "" ++ ")"

end Failure

end SchemaPress
