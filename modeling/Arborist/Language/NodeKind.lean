/-!
Descriptions of common kinds of nodes.
-/

namespace Arborist

def nodeKindTable : List (String × List (String × String)) := [
  ("python", [
    ("module", "The root node of a Python file"),
    ("function_definition", "A function definition with name and params"),
    ("class_definition", "A class definition with name and body"),
    ("import_statement", "An import statement"),
    ("import_from_statement", "A from ... import ... statement"),
    ("assignment", "An assignment statement"),
    ("call", "A function call with function name and arguments"),
    ("identifier", "An identifier (name)"),
    ("string", "A string literal"),
    ("integer", "An integer literal"),
    ("float", "A floating-point literal"),
    ("block", "A block of code (indented statements)"),
    ("if_statement", "An if statement with condition and body"),
    ("for_statement", "A for loop with target, iterable, and body"),
    ("while_statement", "A while loop with condition and body")]),
  ("javascript", [
    ("program", "The root node of a JavaScript file"),
    ("function_declaration", "A function declaration with name and params"),
    ("arrow_function", "An arrow function with parameters and body"),
    ("class_declaration", "A class declaration with name and body"),
    ("import_statement", "An import statement"),
    ("export_statement", "An export statement"),
    ("variable_declaration", "A variable declaration"),
    ("call_expression", "A function call with function and arguments"),
    ("identifier", "An identifier (name)"),
    ("string", "A string literal"),
    ("number", "A numeric literal"),
    ("statement_block", "A block of statements"),
    ("if_statement", "An if statement with condition and consequence"),
    ("for_statement", "A for loop"),
    ("while_statement", "A while loop with condition and body")])]

def nodeKinds (language : String) : List (String × String) := (nodeKindTable.lookup language).getD []

end Arborist
