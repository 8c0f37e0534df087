import Arborist.Text.Find

/-!
Query templates for systems languages.
-/

namespace Arborist.Template

def go : List (String × String) := [
  ("functions", Text.joinLines [
    "",
    "        (function_declaration",
    "            name: (identifier) @function.name",
    "            parameters: (parameter_list) @function.params",
    "            body: (block) @function.body) @function.def",
    "",
    "        (method_declaration",
    "            name: (field_identifier) @method.name",
    "            parameters: (parameter_list) @method.params",
    "            body: (block) @method.body) @method.def",
    "    "]),
  ("structs", Text.joinLines [
    "",
    "        (type_declaration",
    "            (type_spec",
    "                name: (type_identifier) @struct.name",
    "                type: (struct_type) @struct.body)) @struct.def",
    "",
    "        (type_declaration",
    "            (type_spec",
    "                name: (type_identifier) @type.name",
    "                type: (_) @type.body)) @type.def",
    "    "]),
  ("imports", Text.joinLines [
    "",
    "        (import_declaration) @import",
    "",
    "        (import_declaration",
    "            (import_spec_list",
    "                (import_spec) @import.spec)) @import.list",
    "",
    "        (import_declaration",
    "            (import_spec_list",
    "                (import_spec",
    "                    path: (_) @import.path))) @import.path_list",
    "",
    "        (import_declaration",
    "            (import_spec",
    "                path: (_) @import.path)) @import.single",
    "    "]),
  ("interfaces", Text.joinLines [
    "",
    "        (type_declaration",
    "            (type_spec",
    "                name: (type_identifier) @interface.name",
    "                type: (interface_type) @interface.body)) @interface.def",
    "    "])]

def rust : List (String × String) := [
  ("functions", Text.joinLines [
    "",
    "        (function_item",
    "            name: (identifier) @function.name",
    "            parameters: (parameters) @function.params",
    "            body: (block) @function.body) @function.def",
    "    "]),
  ("structs", Text.joinLines [
    "",
    "        (struct_item",
    "            name: (type_identifier) @struct.name",
    "            body: (field_declaration_list) @struct.body) @struct.def",
    "    "]),
  ("enums", Text.joinLines [
    "",
    "        (enum_item",
    "            name: (type_identifier) @enum.name",
    "            body: (enum_variant_list) @enum.body) @enum.def",
    "    "]),
  ("imports", Text.joinLines [
    "",
    "        (use_declaration) @import",
    "",
    "        (use_declaration",
    "            (identifier) @import.name) @import.direct",
    "",
    "        (use_declaration",
    "            (scoped_identifier",
    "                path: (_) @import.path",
    "                name: (identifier) @import.name)) @import.scoped",
    "",
    "        (use_declaration",
    "            (scoped_use_list",
    "                path: (_) @import.path)) @import.list",
    "    "]),
  ("traits", Text.joinLines [
    "",
    "        (trait_item",
    "            name: (type_identifier) @trait.name) @trait.def",
    "    "]),
  ("impls", Text.joinLines [
    "",
    "        (impl_item",
    "            trait: (_)? @impl.trait",
    "            type: (_) @impl.type) @impl.def",
    "    "])]

def c : List (String × String) := [
  ("functions", Text.joinLines [
    "",
    "        (function_definition",
    "            declarator: (function_declarator",
    "                declarator: (identifier) @function.name)) @function.def",
    "",
    "        (declaration",
    "            declarator: (function_declarator",
    "                declarator: (identifier) @function.name)) @function.decl",
    "    "]),
  ("structs", Text.joinLines [
    "",
    "        (struct_specifier",
    "            name: (type_identifier) @struct.name) @struct.def",
    "",
    "        (union_specifier",
    "            name: (type_identifier) @union.name) @union.def",
    "",
    "        (enum_specifier",
    "            name: (type_identifier) @enum.name) @enum.def",
    "    "]),
  ("imports", Text.joinLines [
    "",
    "        (preproc_include) @import",
    "",
    "        (preproc_include",
    "            path: (string_literal) @import.system) @import.system",
    "",
    "        (preproc_include",
    "            path: (system_lib_string) @import.system) @import.system",
    "    "]),
  ("macros", Text.joinLines [
    "",
    "        (preproc_function_def",
    "            name: (identifier) @macro.name) @macro.def",
    "    "])]

def cpp : List (String × String) := [
  ("functions", Text.joinLines [
    "",
    "        (function_definition",
    "            declarator: (function_declarator",
    "                declarator: (identifier) @function.name)) @function.def",
    "",
    "        (declaration",
    "            declarator: (function_declarator",
    "                declarator: (identifier) @function.name)) @function.decl",
    "",
    "        (method_definition",
    "            declarator: (function_declarator",
    "                declarator: (field_identifier) @method.name)) @method.def",
    "    "]),
  ("classes", Text.joinLines [
    "",
    "        (class_specifier",
    "            name: (type_identifier) @class.name) @class.def",
    "    "]),
  ("structs", Text.joinLines [
    "",
    "        (struct_specifier",
    "            name: (type_identifier) @struct.name) @struct.def",
    "",
    "        (union_specifier",
    "            name: (type_identifier) @union.name) @union.def",
    "",
    "        (enum_specifier",
    "            name: (type_identifier) @enum.name) @enum.def",
    "    "]),
  ("imports", Text.joinLines [
    "",
    "        (preproc_include) @import",
    "",
    "        (preproc_include",
    "            path: (string_literal) @import.path) @import.user",
    "",
    "        (preproc_include",
    "            path: (system_lib_string) @import.path) @import.system",
    "",
    "        (namespace_definition",
    "            name: (namespace_identifier) @import.namespace) @import.namespace_def",
    "    "]),
  ("templates", Text.joinLines [
    "",
    "        (template_declaration) @template.def",
    "",
    "        (template_declaration",
    "            declaration: (class_specifier",
    "                name: (type_identifier) @template.class)) @template.class_def",
    "    "])]

end Arborist.Template
