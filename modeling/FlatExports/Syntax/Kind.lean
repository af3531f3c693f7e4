/-!
Kinds of syntax nodes.

The kinds that decide what a module exports have a constructor each; any other
kind is kept by name.  `Kind.ofName` and `Kind.name` go between a kind and the
name it has in the grammar.
-/

namespace FlatExports.Syntax

inductive Kind where
  | program
  | fault
  | exportStatement
  | importStatement
  | expressionStatement
  | exportClause
  | exportSpecifier
  | namespaceExport
  | importClause
  | namespaceImport
  | namedImports
  | importSpecifier
  | importAlias
  | identifier
  | shorthandPattern
  | string
  | functionDeclaration
  | generatorDeclaration
  | functionSignature
  | classDeclaration
  | abstractClassDeclaration
  | enumDeclaration
  | typeAliasDeclaration
  | interfaceDeclaration
  | lexicalDeclaration
  | variableDeclaration
  | variableDeclarator
  | internalModule
  | moduleDeclaration
  | ambientDeclaration
  | functionExpression
  | functionWord
  | generatorExpression
  | classWord
  | pairPattern
  | assignmentPattern
  | objectAssignmentPattern
  | objectPattern
  | arrayPattern
  | restPattern
  | typeWord
  | typeofWord
  | asWord
  | defaultWord
  | namespaceWord
  | comma
  | equals
  | star
  | other (name : String)
  deriving DecidableEq, Repr, Inhabited

namespace Kind

def table : List (String × Kind) :=
  [("program", program), ("ERROR", fault),
   ("export_statement", exportStatement), ("import_statement", importStatement),
   ("expression_statement", expressionStatement), ("export_clause", exportClause),
   ("export_specifier", exportSpecifier), ("namespace_export", namespaceExport),
   ("import_clause", importClause), ("namespace_import", namespaceImport),
   ("named_imports", namedImports), ("import_specifier", importSpecifier),
   ("import_alias", importAlias), ("identifier", identifier),
   ("shorthand_property_identifier_pattern", shorthandPattern), ("string", string),
   ("function_declaration", functionDeclaration),
   ("generator_function_declaration", generatorDeclaration),
   ("function_signature", functionSignature), ("class_declaration", classDeclaration),
   ("abstract_class_declaration", abstractClassDeclaration),
   ("enum_declaration", enumDeclaration), ("type_alias_declaration", typeAliasDeclaration),
   ("interface_declaration", interfaceDeclaration),
   ("lexical_declaration", lexicalDeclaration), ("variable_declaration", variableDeclaration),
   ("variable_declarator", variableDeclarator), ("internal_module", internalModule),
   ("module", moduleDeclaration), ("ambient_declaration", ambientDeclaration),
   ("function_expression", functionExpression), ("function", functionWord),
   ("generator_function", generatorExpression), ("class", classWord),
   ("pair_pattern", pairPattern), ("assignment_pattern", assignmentPattern),
   ("object_assignment_pattern", objectAssignmentPattern), ("object_pattern", objectPattern),
   ("array_pattern", arrayPattern), ("rest_pattern", restPattern), ("type", typeWord),
   ("typeof", typeofWord), ("as", asWord), ("default", defaultWord),
   ("namespace", namespaceWord), (",", comma), ("=", equals), ("*", star)]

def ofName (name : String) : Kind := (table.lookup name).getD (other name)

def name (kind : Kind) : String :=
  match kind with
  | other name => name
  | _ => ((table.find? (·.2 = kind)).map (·.1)).getD ""

/-- Declarations that have their name in the `name` field. -/
def isNamedDeclaration : Kind → Bool
  | functionDeclaration | generatorDeclaration | functionSignature | classDeclaration
  | abstractClassDeclaration | enumDeclaration => true
  | _ => false

def isTypeDeclaration : Kind → Bool
  | typeAliasDeclaration | interfaceDeclaration => true
  | _ => false

def isVariableDeclaration : Kind → Bool
  | lexicalDeclaration | variableDeclaration => true
  | _ => false

def isModuleDeclaration : Kind → Bool
  | internalModule | moduleDeclaration => true
  | _ => false

/-- Function and class expressions, which may have a name. -/
def isNamedExpression : Kind → Bool
  | functionExpression | functionWord | generatorExpression | classWord => true
  | _ => false

def isLocalDeclaration (kind : Kind) : Bool :=
  kind.isNamedDeclaration || kind.isTypeDeclaration || kind.isVariableDeclaration ||
    kind.isModuleDeclaration || kind = ambientDeclaration

end Kind

end FlatExports.Syntax
