/-
# Kinds of syntax nodes

Every inner node of a syntax tree has a kind, and a kind fixes the parts of its
nodes and their order.  The order is the one in which all passes over a tree
visit the parts; it is not always the order of the source: the members of a
class come before its superclass, the test of a loop before its body, the
expressions of a template before its texts.

Where an identifier, a member access or a call stands decides what it is, so
every part has a position.  A member access is an expression of its own unless
it is assigned to or ends an optional chain, and a call unless it ends one.

The kinds are those of modules and scripts with JSX.  Type annotations and the other
nodes of a typed dialect have none, and neither has the proposed `export v from "m"`,
which is not in the language.
-/

import StyleLowering.Syntax.Ident

namespace StyleLowering

/-- Where a part stands. -/
inductive Position where
  | expression
  /-- A pattern, or the name of a function or a class. -/
  | pattern
  /-- The left side of an assignment. -/
  | target
  /-- The member access or call that an optional chain ends in. -/
  | chain
  /-- A property of an object literal. -/
  | property
  | label
  | exportLocal
  | exported
  deriving DecidableEq, Repr

/-- What an identifier does at a position. -/
def Position.role : Position → Role
  | .expression | .chain => .reference
  | .pattern | .target => .binding
  | .property => .shorthand
  | .label => .label
  | .exportLocal => .exportLocal
  | .exported => .exported

/-- A part of a node. -/
structure Field where
  name : String
  position : Position
  deriving DecidableEq, Repr

/-- The kind of an inner node. -/
inductive Kind where
  /-- An argument or an array element. -/
  | argument
  /-- An argument or an array element behind three dots. -/
  | spreadArgument
  /-- The function of a class method. -/
  | methodFunction
  | exportDeclaration
  | exportNamed
  | exportDefaultDeclaration
  | exportDefaultExpression
  | exportAll
  | exportSpecifier
  | exportNamespace
  | functionDeclaration
  | classDeclaration
  | variableDeclaration
  | declarator
  | parameter
  | decorator
  | constructorMember
  | methodMember
  | privateMethod
  | propertyMember
  | privateProperty
  | staticBlock
  | blockStatement
  | expressionStatement
  | returnStatement
  | throwStatement
  | ifStatement
  | switchStatement
  | switchCase
  | whileStatement
  | doWhileStatement
  | forStatement
  | forInStatement
  | forOfStatement
  | tryStatement
  | catchClause
  | withStatement
  | labeledStatement
  | breakStatement
  | continueStatement
  | emptyStatement
  | debuggerStatement
  | arrayPattern
  | objectPattern
  | keyValuePattern
  | assignmentPatternProperty
  | restElement
  | assignmentPattern
  | number
  | boolean
  | nullLiteral
  | regExp
  | bigInt
  | jsxText
  | thisExpression
  | array
  | object
  | functionExpression
  | classExpression
  | arrow
  | unary
  | update
  | binary
  | assignment
  | conditional
  /-- A member access that is an expression. -/
  | member
  /-- A member access that is assigned to or that an optional chain ends in. -/
  | bareMember
  | superProperty
  /-- A member or property name in brackets. -/
  | computed
  | privateName
  | superKeyword
  | importKeyword
  /-- A call that is an expression. -/
  | call
  /-- A call that an optional chain ends in. -/
  | optionalCall
  | new
  | optionalChain
  | sequence
  | template
  | tagged
  | yield
  | await
  | metaProperty
  | paren
  | invalid
  /-- A spread property of an object or of an element. -/
  | spread
  | keyValue
  | assignmentProperty
  | getter
  | setter
  | method
  | jsxElement
  | jsxOpening
  | jsxClosing
  | jsxFragment
  | jsxOpeningFragment
  | jsxClosingFragment
  | jsxMember
  | jsxNamespacedName
  | jsxEmpty
  | jsxAttribute
  | container
  | jsxSpreadChild
  deriving DecidableEq, Repr

namespace Kind

/-- All kinds. -/
def all : List Kind := [
  .argument, .spreadArgument, .methodFunction, .exportDeclaration, .exportNamed,
  .exportDefaultDeclaration, .exportDefaultExpression, .exportAll, .exportSpecifier,
  .exportNamespace, .functionDeclaration, .classDeclaration, .variableDeclaration, .declarator,
  .parameter, .decorator, .constructorMember, .methodMember, .privateMethod, .propertyMember,
  .privateProperty, .staticBlock, .blockStatement, .expressionStatement, .returnStatement,
  .throwStatement, .ifStatement, .switchStatement, .switchCase, .whileStatement,
  .doWhileStatement, .forStatement, .forInStatement, .forOfStatement, .tryStatement, .catchClause,
  .withStatement, .labeledStatement, .breakStatement, .continueStatement, .emptyStatement,
  .debuggerStatement, .arrayPattern, .objectPattern, .keyValuePattern, .assignmentPatternProperty,
  .restElement, .assignmentPattern, .number, .boolean, .nullLiteral, .regExp, .bigInt, .jsxText,
  .thisExpression, .array, .object, .functionExpression, .classExpression, .arrow, .unary,
  .update, .binary, .assignment, .conditional, .member, .bareMember, .superProperty, .computed,
  .privateName, .superKeyword, .importKeyword, .call, .optionalCall, .new, .optionalChain,
  .sequence, .template, .tagged, .yield, .await, .metaProperty, .paren, .invalid, .spread,
  .keyValue, .assignmentProperty, .getter, .setter, .method, .jsxElement, .jsxOpening,
  .jsxClosing, .jsxFragment, .jsxOpeningFragment, .jsxClosingFragment, .jsxMember,
  .jsxNamespacedName, .jsxEmpty, .jsxAttribute, .container, .jsxSpreadChild]

/-- The name under which the interchange format knows nodes of a kind; arguments
and the functions of class methods have none. -/
def typeName : Kind → Option String
  | .argument => none
  | .spreadArgument => none
  | .methodFunction => none
  | .exportDeclaration => some "ExportDeclaration"
  | .exportNamed => some "ExportNamedDeclaration"
  | .exportDefaultDeclaration => some "ExportDefaultDeclaration"
  | .exportDefaultExpression => some "ExportDefaultExpression"
  | .exportAll => some "ExportAllDeclaration"
  | .exportSpecifier => some "ExportSpecifier"
  | .exportNamespace => some "ExportNamespaceSpecifier"
  | .functionDeclaration => some "FunctionDeclaration"
  | .classDeclaration => some "ClassDeclaration"
  | .variableDeclaration => some "VariableDeclaration"
  | .declarator => some "VariableDeclarator"
  | .parameter => some "Parameter"
  | .decorator => some "Decorator"
  | .constructorMember => some "Constructor"
  | .methodMember => some "ClassMethod"
  | .privateMethod => some "PrivateMethod"
  | .propertyMember => some "ClassProperty"
  | .privateProperty => some "PrivateProperty"
  | .staticBlock => some "StaticBlock"
  | .blockStatement => some "BlockStatement"
  | .expressionStatement => some "ExpressionStatement"
  | .returnStatement => some "ReturnStatement"
  | .throwStatement => some "ThrowStatement"
  | .ifStatement => some "IfStatement"
  | .switchStatement => some "SwitchStatement"
  | .switchCase => some "SwitchCase"
  | .whileStatement => some "WhileStatement"
  | .doWhileStatement => some "DoWhileStatement"
  | .forStatement => some "ForStatement"
  | .forInStatement => some "ForInStatement"
  | .forOfStatement => some "ForOfStatement"
  | .tryStatement => some "TryStatement"
  | .catchClause => some "CatchClause"
  | .withStatement => some "WithStatement"
  | .labeledStatement => some "LabeledStatement"
  | .breakStatement => some "BreakStatement"
  | .continueStatement => some "ContinueStatement"
  | .emptyStatement => some "EmptyStatement"
  | .debuggerStatement => some "DebuggerStatement"
  | .arrayPattern => some "ArrayPattern"
  | .objectPattern => some "ObjectPattern"
  | .keyValuePattern => some "KeyValuePatternProperty"
  | .assignmentPatternProperty => some "AssignmentPatternProperty"
  | .restElement => some "RestElement"
  | .assignmentPattern => some "AssignmentPattern"
  | .number => some "NumericLiteral"
  | .boolean => some "BooleanLiteral"
  | .nullLiteral => some "NullLiteral"
  | .regExp => some "RegExpLiteral"
  | .bigInt => some "BigIntLiteral"
  | .jsxText => some "JSXText"
  | .thisExpression => some "ThisExpression"
  | .array => some "ArrayExpression"
  | .object => some "ObjectExpression"
  | .functionExpression => some "FunctionExpression"
  | .classExpression => some "ClassExpression"
  | .arrow => some "ArrowFunctionExpression"
  | .unary => some "UnaryExpression"
  | .update => some "UpdateExpression"
  | .binary => some "BinaryExpression"
  | .assignment => some "AssignmentExpression"
  | .conditional => some "ConditionalExpression"
  | .member => some "MemberExpression"
  | .bareMember => some "MemberExpression"
  | .superProperty => some "SuperPropExpression"
  | .computed => some "Computed"
  | .privateName => some "PrivateName"
  | .superKeyword => some "Super"
  | .importKeyword => some "Import"
  | .call => some "CallExpression"
  | .optionalCall => some "CallExpression"
  | .new => some "NewExpression"
  | .optionalChain => some "OptionalChainingExpression"
  | .sequence => some "SequenceExpression"
  | .template => some "TemplateLiteral"
  | .tagged => some "TaggedTemplateExpression"
  | .yield => some "YieldExpression"
  | .await => some "AwaitExpression"
  | .metaProperty => some "MetaProperty"
  | .paren => some "ParenthesisExpression"
  | .invalid => some "Invalid"
  | .spread => some "SpreadElement"
  | .keyValue => some "KeyValueProperty"
  | .assignmentProperty => some "AssignmentProperty"
  | .getter => some "GetterProperty"
  | .setter => some "SetterProperty"
  | .method => some "MethodProperty"
  | .jsxElement => some "JSXElement"
  | .jsxOpening => some "JSXOpeningElement"
  | .jsxClosing => some "JSXClosingElement"
  | .jsxFragment => some "JSXFragment"
  | .jsxOpeningFragment => some "JSXOpeningFragment"
  | .jsxClosingFragment => some "JSXClosingFragment"
  | .jsxMember => some "JSXMemberExpression"
  | .jsxNamespacedName => some "JSXNamespacedName"
  | .jsxEmpty => some "JSXEmptyExpression"
  | .jsxAttribute => some "JSXAttribute"
  | .container => some "JSXExpressionContainer"
  | .jsxSpreadChild => some "JSXSpreadChild"

/-- The parts of a kind, in the order in which they are visited. -/
def fields : Kind → List Field
  | .argument => [⟨"expression", .expression⟩]
  | .spreadArgument => [⟨"expression", .expression⟩]
  | .methodFunction =>
    [⟨"params", .expression⟩, ⟨"decorators", .expression⟩, ⟨"body", .expression⟩]
  | .exportDeclaration => [⟨"declaration", .expression⟩]
  | .exportNamed => [⟨"specifiers", .expression⟩, ⟨"source", .expression⟩, ⟨"with", .expression⟩]
  | .exportDefaultDeclaration => [⟨"decl", .expression⟩]
  | .exportDefaultExpression => [⟨"expression", .expression⟩]
  | .exportAll => [⟨"source", .expression⟩, ⟨"with", .expression⟩]
  | .exportSpecifier => [⟨"orig", .exportLocal⟩, ⟨"exported", .exported⟩]
  | .exportNamespace => [⟨"name", .exported⟩]
  | .functionDeclaration =>
    [⟨"identifier", .pattern⟩, ⟨"params", .expression⟩, ⟨"decorators", .expression⟩,
     ⟨"body", .expression⟩]
  | .classDeclaration =>
    [⟨"identifier", .pattern⟩, ⟨"decorators", .expression⟩, ⟨"body", .expression⟩,
     ⟨"superClass", .expression⟩]
  | .variableDeclaration => [⟨"declarations", .expression⟩]
  | .declarator => [⟨"id", .pattern⟩, ⟨"init", .expression⟩]
  | .parameter => [⟨"decorators", .expression⟩, ⟨"pat", .pattern⟩]
  | .decorator => [⟨"expression", .expression⟩]
  | .constructorMember => [⟨"key", .expression⟩, ⟨"params", .expression⟩, ⟨"body", .expression⟩]
  | .methodMember => [⟨"key", .expression⟩, ⟨"function", .expression⟩]
  | .privateMethod => [⟨"key", .expression⟩, ⟨"function", .expression⟩]
  | .propertyMember => [⟨"key", .expression⟩, ⟨"value", .expression⟩, ⟨"decorators", .expression⟩]
  | .privateProperty => [⟨"key", .expression⟩, ⟨"value", .expression⟩, ⟨"decorators", .expression⟩]
  | .staticBlock => [⟨"body", .expression⟩]
  | .blockStatement => [⟨"stmts", .expression⟩]
  | .expressionStatement => [⟨"expression", .expression⟩]
  | .returnStatement => [⟨"argument", .expression⟩]
  | .throwStatement => [⟨"argument", .expression⟩]
  | .ifStatement =>
    [⟨"test", .expression⟩, ⟨"consequent", .expression⟩, ⟨"alternate", .expression⟩]
  | .switchStatement => [⟨"discriminant", .expression⟩, ⟨"cases", .expression⟩]
  | .switchCase => [⟨"test", .expression⟩, ⟨"consequent", .expression⟩]
  | .whileStatement => [⟨"test", .expression⟩, ⟨"body", .expression⟩]
  | .doWhileStatement => [⟨"test", .expression⟩, ⟨"body", .expression⟩]
  | .forStatement =>
    [⟨"init", .expression⟩, ⟨"test", .expression⟩, ⟨"update", .expression⟩, ⟨"body", .expression⟩]
  | .forInStatement => [⟨"left", .pattern⟩, ⟨"right", .expression⟩, ⟨"body", .expression⟩]
  | .forOfStatement => [⟨"left", .pattern⟩, ⟨"right", .expression⟩, ⟨"body", .expression⟩]
  | .tryStatement => [⟨"block", .expression⟩, ⟨"handler", .expression⟩, ⟨"finalizer", .expression⟩]
  | .catchClause => [⟨"param", .pattern⟩, ⟨"body", .expression⟩]
  | .withStatement => [⟨"object", .expression⟩, ⟨"body", .expression⟩]
  | .labeledStatement => [⟨"label", .label⟩, ⟨"body", .expression⟩]
  | .breakStatement => [⟨"label", .label⟩]
  | .continueStatement => [⟨"label", .label⟩]
  | .emptyStatement => []
  | .debuggerStatement => []
  | .arrayPattern => [⟨"elements", .pattern⟩]
  | .objectPattern => [⟨"properties", .pattern⟩]
  | .keyValuePattern => [⟨"key", .expression⟩, ⟨"value", .pattern⟩]
  | .assignmentPatternProperty => [⟨"key", .pattern⟩, ⟨"value", .expression⟩]
  | .restElement => [⟨"argument", .pattern⟩]
  | .assignmentPattern => [⟨"left", .pattern⟩, ⟨"right", .expression⟩]
  | .number => []
  | .boolean => []
  | .nullLiteral => []
  | .regExp => []
  | .bigInt => []
  | .jsxText => []
  | .thisExpression => []
  | .array => [⟨"elements", .expression⟩]
  | .object => [⟨"properties", .property⟩]
  | .functionExpression =>
    [⟨"identifier", .pattern⟩, ⟨"params", .expression⟩, ⟨"decorators", .expression⟩,
     ⟨"body", .expression⟩]
  | .classExpression =>
    [⟨"identifier", .pattern⟩, ⟨"decorators", .expression⟩, ⟨"body", .expression⟩,
     ⟨"superClass", .expression⟩]
  | .arrow => [⟨"params", .pattern⟩, ⟨"body", .expression⟩]
  | .unary => [⟨"argument", .expression⟩]
  | .update => [⟨"argument", .expression⟩]
  | .binary => [⟨"left", .expression⟩, ⟨"right", .expression⟩]
  | .assignment => [⟨"left", .target⟩, ⟨"right", .expression⟩]
  | .conditional =>
    [⟨"test", .expression⟩, ⟨"consequent", .expression⟩, ⟨"alternate", .expression⟩]
  | .member => [⟨"object", .expression⟩, ⟨"property", .expression⟩]
  | .bareMember => [⟨"object", .expression⟩, ⟨"property", .expression⟩]
  | .superProperty => [⟨"obj", .expression⟩, ⟨"property", .expression⟩]
  | .computed => [⟨"expression", .expression⟩]
  | .privateName => []
  | .superKeyword => []
  | .importKeyword => []
  | .call => [⟨"callee", .expression⟩, ⟨"arguments", .expression⟩]
  | .optionalCall => [⟨"callee", .expression⟩, ⟨"arguments", .expression⟩]
  | .new => [⟨"callee", .expression⟩, ⟨"arguments", .expression⟩]
  | .optionalChain => [⟨"base", .chain⟩]
  | .sequence => [⟨"expressions", .expression⟩]
  | .template => [⟨"expressions", .expression⟩, ⟨"quasis", .expression⟩]
  | .tagged => [⟨"tag", .expression⟩, ⟨"template", .expression⟩]
  | .yield => [⟨"argument", .expression⟩]
  | .await => [⟨"argument", .expression⟩]
  | .metaProperty => []
  | .paren => [⟨"expression", .expression⟩]
  | .invalid => []
  | .spread => [⟨"arguments", .expression⟩]
  | .keyValue => [⟨"key", .expression⟩, ⟨"value", .expression⟩]
  | .assignmentProperty => [⟨"key", .expression⟩, ⟨"value", .expression⟩]
  | .getter => [⟨"key", .expression⟩, ⟨"body", .expression⟩]
  | .setter => [⟨"key", .expression⟩, ⟨"param", .pattern⟩, ⟨"body", .expression⟩]
  | .method =>
    [⟨"key", .expression⟩, ⟨"params", .expression⟩, ⟨"decorators", .expression⟩,
     ⟨"body", .expression⟩]
  | .jsxElement => [⟨"opening", .expression⟩, ⟨"children", .expression⟩, ⟨"closing", .expression⟩]
  | .jsxOpening => [⟨"name", .expression⟩, ⟨"attributes", .expression⟩]
  | .jsxClosing => [⟨"name", .expression⟩]
  | .jsxFragment => [⟨"opening", .expression⟩, ⟨"children", .expression⟩, ⟨"closing", .expression⟩]
  | .jsxOpeningFragment => []
  | .jsxClosingFragment => []
  | .jsxMember => [⟨"object", .expression⟩, ⟨"property", .expression⟩]
  | .jsxNamespacedName => [⟨"namespace", .expression⟩, ⟨"name", .expression⟩]
  | .jsxEmpty => []
  | .jsxAttribute => [⟨"name", .expression⟩, ⟨"value", .expression⟩]
  | .container => [⟨"expression", .expression⟩]
  | .jsxSpreadChild => [⟨"expression", .expression⟩]

/-- What a node of a kind is at a position. -/
def atPosition : Kind → Position → Kind
  | .member, .target | .member, .chain => .bareMember
  | .call, .chain => .optionalCall
  | k, _ => k

/-- The kind of the nodes of a name at a position. -/
def ofTypeName? (name : String) (p : Position) : Option Kind :=
  (all.find? fun k => k.typeName == some name).map (atPosition · p)

/-- A literal other than a string. -/
def isLiteral : Kind → Bool
  | .number | .boolean | .nullLiteral | .regExp | .bigInt | .jsxText => true
  | _ => false

end Kind
end StyleLowering
