/-! Kinds of syntax nodes and the roles nodes play in their parents.

Only the kinds and roles that decide what is removed have a constructor of their own; every other
one is carried by name. -/
namespace PropShear

inductive Kind where
  | program
  | statementBlock
  | switchCase
  | switchDefault
  | classStaticBlock
  | classBody
  | importStatement
  | importRequireClause
  | callExpression
  | arguments
  | expressionStatement
  | parenthesizedExpression
  | assignmentExpression
  | augmentedAssignmentExpression
  | memberExpression
  | propertyIdentifier
  | identifier
  | string
  | escapeSequence
  | comment
  | lexicalDeclaration
  | variableDeclaration
  | variableDeclarator
  | semicolon
  | error
  | other (name : String)
deriving DecidableEq, Repr

namespace Kind

def name : Kind → String
  | program => "program"
  | statementBlock => "statement_block"
  | switchCase => "switch_case"
  | switchDefault => "switch_default"
  | classStaticBlock => "class_static_block"
  | classBody => "class_body"
  | importStatement => "import_statement"
  | importRequireClause => "import_require_clause"
  | callExpression => "call_expression"
  | arguments => "arguments"
  | expressionStatement => "expression_statement"
  | parenthesizedExpression => "parenthesized_expression"
  | assignmentExpression => "assignment_expression"
  | augmentedAssignmentExpression => "augmented_assignment_expression"
  | memberExpression => "member_expression"
  | propertyIdentifier => "property_identifier"
  | identifier => "identifier"
  | string => "string"
  | escapeSequence => "escape_sequence"
  | comment => "comment"
  | lexicalDeclaration => "lexical_declaration"
  | variableDeclaration => "variable_declaration"
  | variableDeclarator => "variable_declarator"
  | semicolon => ";"
  | error => "ERROR"
  | other name => name

/-- The kinds that have a constructor of their own. -/
def known : List Kind :=
  [program, statementBlock, switchCase, switchDefault, classStaticBlock, classBody, importStatement,
    importRequireClause, callExpression, arguments, expressionStatement, parenthesizedExpression,
    assignmentExpression, augmentedAssignmentExpression, memberExpression, propertyIdentifier,
    identifier, string, escapeSequence, comment, lexicalDeclaration, variableDeclaration,
    variableDeclarator, semicolon, error]

def ofName (s : String) : Kind := (known.find? (·.name == s)).getD (other s)

/-- A node whose children are statements or class members. -/
def isContainer : Kind → Bool
  | program | statementBlock | switchCase | switchDefault | classStaticBlock | classBody => true
  | _ => false

/-- A declaration that lists declarators. -/
def isDeclaration : Kind → Bool
  | lexicalDeclaration | variableDeclaration => true
  | _ => false

def isAssignment : Kind → Bool
  | assignmentExpression | augmentedAssignmentExpression => true
  | _ => false

end Kind

inductive Role where
  | source
  | function
  | arguments
  | left
  | property
  | other (name : String)
deriving DecidableEq, Repr

def Role.ofName : String → Role
  | "source" => .source
  | "function" => .function
  | "arguments" => .arguments
  | "left" => .left
  | "property" => .property
  | name => .other name

end PropShear
