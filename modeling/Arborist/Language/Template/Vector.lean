import Arborist.Text.Find

/-!
Query templates for languages of vectors and matrices.
-/

namespace Arborist.Template

def julia : List (String × String) := [
  ("functions", Text.joinLines [
    "",
    "        (function_definition",
    "            name: (identifier) @function.name) @function.def",
    "",
    "        (function_definition",
    "            name: (identifier) @function.name",
    "            parameters: (parameter_list) @function.params",
    "            body: (block) @function.body) @function.def",
    "",
    "        (short_function_definition",
    "            name: (identifier) @function.name) @function.short_def",
    "    "]),
  ("modules", Text.joinLines [
    "",
    "        (module_definition",
    "            name: (identifier) @module.name",
    "            body: (block) @module.body) @module.def",
    "    "]),
  ("structs", Text.joinLines [
    "",
    "        (struct_definition",
    "            name: (identifier) @struct.name",
    "            body: (block) @struct.body) @struct.def",
    "",
    "        (mutable_struct_definition",
    "            name: (identifier) @struct.name",
    "            body: (block) @struct.body) @struct.mutable_def",
    "    "]),
  ("imports", Text.joinLines [
    "",
    "        (import_statement) @import",
    "",
    "        (import_statement",
    "            name: (identifier) @import.name) @import.simple",
    "",
    "        (using_statement) @using",
    "",
    "        (using_statement",
    "            name: (identifier) @using.name) @using.simple",
    "",
    "        (import_statement",
    "            name: (dot_expression) @import.qualified) @import.qualified",
    "    "]),
  ("macros", Text.joinLines [
    "",
    "        (macro_definition",
    "            name: (identifier) @macro.name",
    "            body: (block) @macro.body) @macro.def",
    "    "]),
  ("abstractTypes", Text.joinLines [
    "",
    "        (abstract_definition",
    "            name: (identifier) @abstract.name) @abstract.def",
    "    "])]

def apl : List (String × String) := [
  ("functions", Text.joinLines [
    "",
    "        (function_definition",
    "            name: (identifier) @function.name",
    "            body: (block) @function.body) @function.def",
    "    "]),
  ("namespaces", Text.joinLines [
    "",
    "        (namespace_declaration",
    "            name: (identifier) @namespace.name) @namespace.def",
    "    "]),
  ("variables", Text.joinLines [
    "",
    "        (assignment",
    "            left: (identifier) @variable.name) @variable.def",
    "    "]),
  ("imports", Text.joinLines [
    "",
    "        (import_statement",
    "            module: (identifier) @import.module) @import",
    "    "]),
  ("operators", Text.joinLines [
    "",
    "        (operator_definition",
    "            operator: (_) @operator.sym",
    "            body: (block) @operator.body) @operator.def",
    "    "]),
  ("classes", Text.joinLines [
    "",
    "        (class_definition",
    "            name: (identifier) @class.name",
    "            body: (block) @class.body) @class.def",
    "    "])]

end Arborist.Template
