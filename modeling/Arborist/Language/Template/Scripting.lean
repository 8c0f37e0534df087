import Arborist.Text.Find

/-!
Query templates for scripting languages.
-/

namespace Arborist.Template

def python : List (String × String) := [
  ("functions", Text.joinLines [
    "",
    "        (function_definition",
    "            name: (identifier) @function.name",
    "            parameters: (parameters) @function.params",
    "            body: (block) @function.body) @function.def",
    "    "]),
  ("classes", Text.joinLines [
    "",
    "        (class_definition",
    "            name: (identifier) @class.name",
    "            body: (block) @class.body) @class.def",
    "    "]),
  ("imports", Text.joinLines [
    "",
    "        (import_statement",
    "            name: (dotted_name) @import.module) @import",
    "",
    "        (import_from_statement",
    "            module_name: (dotted_name) @import.from",
    "            name: (dotted_name) @import.item) @import",
    "",
    "        ;; Handle aliased imports with 'as' keyword",
    "        (import_from_statement",
    "            module_name: (dotted_name) @import.from",
    "            name: (aliased_import",
    "                name: (dotted_name) @import.item",
    "                alias: (identifier) @import.alias)) @import",
    "    "]),
  ("function_calls", Text.joinLines [
    "",
    "        (call",
    "            function: (identifier) @call.function",
    "            arguments: (argument_list) @call.args) @call",
    "    "]),
  ("assignments", Text.joinLines [
    "",
    "        (assignment",
    "            left: (_) @assign.target",
    "            right: (_) @assign.value) @assign",
    "    "])]

def javascript : List (String × String) := [
  ("functions", Text.joinLines [
    "",
    "        (function_declaration",
    "            name: (identifier) @function.name",
    "            parameters: (formal_parameters) @function.params",
    "            body: (statement_block) @function.body) @function.def",
    "",
    "        (arrow_function",
    "            parameters: (formal_parameters) @function.params",
    "            body: (_) @function.body) @function.def",
    "    "]),
  ("classes", Text.joinLines [
    "",
    "        (class_declaration",
    "            name: (identifier) @class.name",
    "            body: (class_body) @class.body) @class.def",
    "    "]),
  ("imports", Text.joinLines [
    "",
    "        (import_statement) @import",
    "",
    "        (import_statement",
    "            source: (string) @import.source",
    "            specifier: (_) @import.specifier) @import.full",
    "    "]),
  ("function_calls", Text.joinLines [
    "",
    "        (call_expression",
    "            function: (identifier) @call.function",
    "            arguments: (arguments) @call.args) @call",
    "    "]),
  ("assignments", Text.joinLines [
    "",
    "        (variable_declarator",
    "            name: (_) @assign.target",
    "            value: (_) @assign.value) @assign",
    "    "])]

def typescript : List (String × String) := [
  ("functions", Text.joinLines [
    "",
    "        (function_declaration",
    "            name: (identifier) @function.name",
    "            parameters: (formal_parameters) @function.params",
    "            body: (statement_block) @function.body) @function.def",
    "",
    "        (arrow_function",
    "            parameters: (formal_parameters) @function.params",
    "            body: (_) @function.body) @function.def",
    "",
    "        (method_definition",
    "            name: (property_identifier) @method.name",
    "            parameters: (formal_parameters) @method.params",
    "            body: (statement_block) @method.body) @method.def",
    "    "]),
  ("classes", Text.joinLines [
    "",
    "        (class_declaration",
    "            name: (type_identifier) @class.name",
    "            body: (class_body) @class.body) @class.def",
    "    "]),
  ("interfaces", Text.joinLines [
    "",
    "        (interface_declaration",
    "            name: (type_identifier) @interface.name",
    "            body: (object_type) @interface.body) @interface.def",
    "",
    "        (type_alias_declaration",
    "            name: (type_identifier) @alias.name",
    "            value: (_) @alias.value) @alias.def",
    "    "]),
  ("imports", Text.joinLines [
    "",
    "        (import_statement) @import",
    "",
    "        (import_statement",
    "            source: (string) @import.source) @import.source_only",
    "",
    "        (import_statement",
    "            source: (string) @import.source",
    "            specifier: (named_imports",
    "                (import_specifier",
    "                    name: (identifier) @import.name))) @import.named",
    "",
    "        (import_statement",
    "            source: (string) @import.source",
    "            specifier: (namespace_import",
    "                name: (identifier) @import.namespace)) @import.namespace",
    "    "])]

end Arborist.Template
