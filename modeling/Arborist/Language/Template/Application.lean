import Arborist.Text.Find

/-!
Query templates for application languages.
-/

namespace Arborist.Template

def swift : List (String × String) := [
  ("functions", Text.joinLines [
    "",
    "        (function_declaration",
    "            name: (identifier) @function.name) @function.def",
    "",
    "        (function_declaration",
    "            name: (identifier) @function.name",
    "            body: (code_block) @function.body) @function.def",
    "    "]),
  ("classes", Text.joinLines [
    "",
    "        (class_declaration",
    "            name: (type_identifier) @class.name) @class.def",
    "",
    "        (class_declaration",
    "            name: (type_identifier) @class.name",
    "            body: (class_body) @class.body) @class.def",
    "    "]),
  ("structs", Text.joinLines [
    "",
    "        (struct_declaration",
    "            name: (type_identifier) @struct.name) @struct.def",
    "",
    "        (struct_declaration",
    "            name: (type_identifier) @struct.name",
    "            body: (struct_body) @struct.body) @struct.def",
    "    "]),
  ("imports", Text.joinLines [
    "",
    "        (import_declaration) @import",
    "",
    "        (import_declaration",
    "            path: (identifier) @import.path) @import.simple",
    "",
    "        (import_declaration",
    "            path: (_) @import.path) @import.complex",
    "    "]),
  ("protocols", Text.joinLines [
    "",
    "        (protocol_declaration",
    "            name: (type_identifier) @protocol.name) @protocol.def",
    "",
    "        (protocol_declaration",
    "            name: (type_identifier) @protocol.name",
    "            body: (protocol_body) @protocol.body) @protocol.def",
    "    "]),
  ("extensions", Text.joinLines [
    "",
    "        (extension_declaration",
    "            name: (type_identifier) @extension.name) @extension.def",
    "",
    "        (extension_declaration",
    "            name: (type_identifier) @extension.name",
    "            body: (extension_body) @extension.body) @extension.def",
    "    "])]

def java : List (String × String) := [
  ("functions", Text.joinLines [
    "",
    "        (method_declaration",
    "            name: (identifier) @function.name",
    "            parameters: (formal_parameters) @function.params",
    "            body: (block) @function.body) @function.def",
    "",
    "        (constructor_declaration",
    "            name: (identifier) @constructor.name",
    "            parameters: (formal_parameters) @constructor.params",
    "            body: (block) @constructor.body) @constructor.def",
    "    "]),
  ("classes", Text.joinLines [
    "",
    "        (class_declaration",
    "            name: (identifier) @class.name",
    "            body: (class_body) @class.body) @class.def",
    "    "]),
  ("interfaces", Text.joinLines [
    "",
    "        (interface_declaration",
    "            name: (identifier) @interface.name",
    "            body: (class_body) @interface.body) @interface.def",
    "    "]),
  ("imports", Text.joinLines [
    "",
    "        (import_declaration) @import",
    "",
    "        (import_declaration",
    "            name: (qualified_name) @import.name) @import.qualified",
    "",
    "        (import_declaration",
    "            name: (qualified_name",
    "                name: (identifier) @import.class)) @import.class",
    "",
    "        (import_declaration",
    "            asterisk: \"*\") @import.wildcard",
    "    "]),
  ("annotations", Text.joinLines [
    "",
    "        (annotation",
    "            name: (identifier) @annotation.name) @annotation",
    "",
    "        (annotation_type_declaration",
    "            name: (identifier) @annotation.type_name) @annotation.type",
    "    "]),
  ("enums", Text.joinLines [
    "",
    "        (enum_declaration",
    "            name: (identifier) @enum.name",
    "            body: (enum_body) @enum.body) @enum.def",
    "    "])]

def kotlin : List (String × String) := [
  ("functions", Text.joinLines [
    "",
    "        (function_declaration",
    "            name: (simple_identifier) @function.name) @function.def",
    "",
    "        (function_declaration",
    "            name: (simple_identifier) @function.name",
    "            function_body: (function_body) @function.body) @function.def",
    "    "]),
  ("classes", Text.joinLines [
    "",
    "        (class_declaration",
    "            name: (simple_identifier) @class.name) @class.def",
    "",
    "        (class_declaration",
    "            name: (simple_identifier) @class.name",
    "            class_body: (class_body) @class.body) @class.def",
    "    "]),
  ("interfaces", Text.joinLines [
    "",
    "        (interface_declaration",
    "            name: (simple_identifier) @interface.name) @interface.def",
    "",
    "        (interface_declaration",
    "            name: (simple_identifier) @interface.name",
    "            class_body: (class_body) @interface.body) @interface.def",
    "    "]),
  ("imports", Text.joinLines [
    "",
    "        (import_header) @import",
    "",
    "        (import_header",
    "            identifier: (identifier) @import.id) @import.simple",
    "",
    "        (import_header",
    "            identifier: (dot_qualified_expression) @import.qualified) @import.qualified",
    "",
    "        (import_header",
    "            import_alias: (import_alias",
    "                name: (simple_identifier) @import.alias)) @import.aliased",
    "    "]),
  ("properties", Text.joinLines [
    "",
    "        (property_declaration",
    "            variable_declaration: (variable_declaration",
    "                simple_identifier: (simple_identifier) @property.name)) @property.def",
    "    "]),
  ("dataClasses", Text.joinLines [
    "",
    "        (class_declaration",
    "            type: (type_modifiers",
    "                (type_modifier",
    "                    \"data\" @data_class.modifier))",
    "            name: (simple_identifier) @data_class.name) @data_class.def",
    "    "])]

end Arborist.Template
