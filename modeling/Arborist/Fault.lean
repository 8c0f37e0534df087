import Arborist.File.Glob
import Arborist.Data.Value

/-!
Everything that can go wrong, by its cause.  A cause has a message and belongs to a category, by
which callers tell faults apart.
-/

namespace Arborist

inductive Category where
  | project
  | fileAccess
  | security
  | query
  | parsing
  | language
  | value
  | type
  | key
  | index
  | member
  | lookup
  | missingFile
  | isDirectory
  | notDirectory
  | notImplemented
  | runtime
  | overflow
  | document
deriving DecidableEq, Repr

inductive Fault where
  | file (fault : FileFault)
  | pattern (fault : File.PatternFault)
  | engine (message : String)
  | unknownGrammar (message : String)
  | languageUnavailable (name : String) (cause : Fault)
  | unknownEncoding (name : String)
  | notWithin (path base : String)
  -- data of the wrong kind
  | notComparable (operator left right : String)
  | badOperands (operator left right : String)
  | noAttribute (owner member : String)
  | notIterable (kind : String)
  | notContainer (kind : String)
  | notText (kind : String)
  | badSlice
  | badInteger (text : String)
  | badLevel (shown : String)
  | unknownLevel (text : String)
  | levelNameKind
  | infiniteInteger
  | integerTooLarge
  | quotientTooLarge
  | keyMissing (key : String)
  | indexOutside (owner : String)
  | invalidSettings (message : String)
  -- access
  | invalidPath (cause : Fault)
  | outsideRoot (path : String)
  | excludedDirectory (name : String)
  | extensionDenied (suffix : String)
  | fileTooLarge (size limit : String)
  | accessDenied (cause : Fault)
  | denied (cause : Fault)
  -- projects
  | projectExists (name : String)
  | projectUnknown (name : String)
  | pathMissing (path : String)
  | pathNotDirectory (path : String)
  | outsideProject (path : String)
  | registration (cause : Fault)
  | retrieval (cause : Fault)
  | removal (cause : Fault)
  -- files
  | fileUnknown (path : String)
  | fileMissing (path : String)
  | reading (cause : Fault)
  | describing (cause : Fault)
  | outsideForFile (cause : Fault)
  -- parsing
  | languageUndetected (path : String)
  | languageNeeded (path : String)
  | languageUnknownFor (path : String)
  | parserUnavailable (language : String) (cause : Fault)
  | invalidParser (shown : String)
  | parsing (path : String) (cause : Fault)
  | undetected (path : String)
  -- queries and search
  | queryLanguageUnknown (path : String)
  | queryLanguageNeeded
  | noExtensions (language : String)
  | querying (path : String) (cause : Fault)
  | queryFailed (cause : Fault)
  | badExpression (reason : String)
  | countTooLarge (reason : String)
  | noTemplate (template language : String)
  | languageOrFileNeeded
  -- analysis
  | noTemplates (language : String) (kinds : String)
  | noImportQuery (language : String)
  | extracting (path : String) (cause : Fault)
  | findingDependencies (path : String) (cause : Fault)
  | measuring (path : String) (cause : Fault)
  | raised (message : String)
  -- measuring
  | runFailed (message : String)
  | invalidJson (message : String)
deriving Repr

namespace Fault

def message : Fault → String
  | .file fault => fault.message
  | .pattern fault => fault.message
  | .engine message => message
  | .unknownGrammar message => message
  | .languageUnavailable name cause =>
    s!"Language {name} not available via tree-sitter-language-pack: {cause.message}"
  | .unknownEncoding name => s!"unknown encoding: {name}"
  | .notWithin path base => s!"Path {path} is not within base directory {base}"
  | .notComparable operator left right =>
    s!"'{operator}' not supported between instances of '{left}' and '{right}'"
  | .badOperands operator left right =>
    s!"unsupported operand type(s) for {operator}: '{left}' and '{right}'"
  | .noAttribute owner member => s!"'{owner}' object has no attribute '{member}'"
  | .notIterable kind => s!"'{kind}' object is not iterable"
  | .notContainer kind => s!"argument of type '{kind}' is not iterable"
  | .notText kind => s!"'in <string>' requires string as left operand, not {kind}"
  | .badSlice => "slice indices must be integers or None or have an __index__ method"
  | .badInteger text => s!"invalid literal for int() with base 10: {Text.quoted text}"
  | .badLevel shown => s!"Level not an integer or a valid string: {shown}"
  | .unknownLevel text => s!"Unknown level: {Text.quoted text}"
  | .levelNameKind => "getattr(): attribute name must be string"
  | .infiniteInteger => "cannot convert float infinity to integer"
  | .integerTooLarge => "int too large to convert to float"
  | .quotientTooLarge => "integer division result too large for a float"
  | .keyMissing key => Text.quoted key
  | .indexOutside owner => s!"{owner} index out of range"
  | .invalidSettings message => message
  | .invalidPath cause => s!"Invalid path: {cause.message}"
  | .outsideRoot path => s!"Access denied: {path} is outside project root"
  | .excludedDirectory name => s!"Access denied to excluded directory: {name}"
  | .extensionDenied suffix => s!"File type not allowed: {suffix}"
  | .fileTooLarge size limit => s!"File too large: {size}MB exceeds limit of {limit}MB"
  | .accessDenied cause => s!"Access denied: {cause.message}"
  | .denied cause => s!"Access denied: {cause.message}"
  | .projectExists name => s!"Project '{name}' already exists"
  | .projectUnknown name => s!"Project '{name}' not found"
  | .pathMissing path => s!"Path does not exist: {path}"
  | .pathNotDirectory path => s!"Path is not a directory: {path}"
  | .outsideProject path => s!"Path '{path}' is outside project root"
  | .registration cause => s!"Failed to register project: {cause.message}"
  | .retrieval cause => s!"Failed to get project: {cause.message}"
  | .removal cause => s!"Failed to remove project: {cause.message}"
  | .fileUnknown path => s!"File not found: {path}"
  | .fileMissing path => s!"File not found: {path}"
  | .reading cause => s!"Error reading file: {cause.message}"
  | .describing cause => s!"Error getting file info: {cause.message}"
  | .outsideForFile cause => cause.message
  | .languageUndetected path => s!"Could not detect language for file: {path}"
  | .languageNeeded path => s!"Language required for parsing file: {path}"
  | .languageUnknownFor path => s!"Could not detect language for {path}"
  | .parserUnavailable language cause =>
    s!"Could not get parser for language '{language}': {cause.message}"
  | .invalidParser shown => s!"Invalid parser or language: {shown}"
  | .parsing path cause => s!"Error parsing {path}: {cause.message}"
  | .undetected path => s!"Could not detect language for {path}"
  | .queryLanguageUnknown path => s!"Could not detect language for {path}"
  | .queryLanguageNeeded => "Language is required when file_path is not provided"
  | .noExtensions language => s!"No file extensions found for language {language}"
  | .querying path cause => s!"Error querying {path}: {cause.message}"
  | .queryFailed cause => s!"Query failed: {cause.message}"
  | .badExpression reason => s!"Invalid regular expression: {reason}"
  | .countTooLarge reason => reason
  | .noTemplate template language => s!"No template '{template}' for language '{language}'"
  | .languageOrFileNeeded => "Either language or file_path must be provided"
  | .noTemplates language kinds => s!"No query templates available for {language} and {kinds}"
  | .noImportQuery language => s!"Import query not available for {language}"
  | .extracting path cause => s!"Error extracting symbols from {path}: {cause.message}"
  | .findingDependencies path cause => s!"Error finding dependencies in {path}: {cause.message}"
  | .measuring path cause => s!"Error analyzing complexity in {path}: {cause.message}"
  | .raised message => message
  | .runFailed message => message
  | .invalidJson message => message

def category : Fault → Category
  | .file (.missing _) => .missingFile
  | .file (.notDirectory _) => .notDirectory
  | .file (.isDirectory _) => .isDirectory
  | .file (.linkLoop _) => .runtime
  | .file .nullCharacter => .value
  | .file .homeUnknown => .runtime
  | .pattern (.unacceptable _) => .value
  | .pattern .notRelative => .notImplemented
  | .pattern .doubleStar => .value
  | .pattern .noComponent => .index
  | .pattern .noSelection => .member
  | .engine _ => .value
  | .unknownGrammar _ => .lookup
  | .languageUnavailable _ _ => .language
  | .unknownEncoding _ => .lookup
  | .notWithin _ _ => .value
  | .notComparable _ _ _ => .type
  | .badOperands _ _ _ => .type
  | .noAttribute _ _ => .member
  | .notIterable _ => .type
  | .notContainer _ => .type
  | .notText _ => .type
  | .badSlice => .type
  | .badInteger _ => .value
  | .badLevel _ => .type
  | .unknownLevel _ => .value
  | .levelNameKind => .type
  | .infiniteInteger => .overflow
  | .integerTooLarge => .overflow
  | .quotientTooLarge => .overflow
  | .keyMissing _ => .key
  | .indexOutside _ => .index
  | .invalidSettings _ => .value
  | .invalidPath _ => .security
  | .outsideRoot _ => .security
  | .excludedDirectory _ => .security
  | .extensionDenied _ => .security
  | .fileTooLarge _ _ => .security
  | .accessDenied _ => .fileAccess
  | .denied _ => .security
  | .projectExists _ => .project
  | .projectUnknown _ => .project
  | .pathMissing _ => .project
  | .pathNotDirectory _ => .project
  | .outsideProject _ => .project
  | .registration _ => .project
  | .retrieval _ => .project
  | .removal _ => .project
  | .fileUnknown _ => .fileAccess
  | .fileMissing _ => .missingFile
  | .reading _ => .fileAccess
  | .describing _ => .fileAccess
  | .outsideForFile _ => .fileAccess
  | .languageUndetected _ => .value
  | .languageNeeded _ => .value
  | .languageUnknownFor _ => .value
  | .parserUnavailable _ _ => .value
  | .invalidParser _ => .value
  | .parsing _ _ => .parsing
  | .undetected _ => .parsing
  | .queryLanguageUnknown _ => .query
  | .queryLanguageNeeded => .query
  | .noExtensions _ => .query
  | .querying _ _ => .query
  | .queryFailed _ => .query
  | .badExpression _ => .value
  | .countTooLarge _ => .overflow
  | .noTemplate _ _ => .value
  | .languageOrFileNeeded => .value
  | .noTemplates _ _ => .value
  | .noImportQuery _ => .value
  | .extracting _ _ => .value
  | .findingDependencies _ _ => .value
  | .measuring _ _ => .value
  | .raised _ => .value
  | .runFailed _ => .runtime
  | .invalidJson _ => .document

end Fault

def liftFile (result : Except FileFault α) : Except Fault α := result.mapError .file

end Arborist
