import TypeLoom.TypeScript.Pattern

/-!
# The grammar of TypeScript

TypeScript as an ordered grammar over tokens without comments, those between brackets put together.
It only tells where a construct ends: operators have no precedence, and assignments and
conditionals are read as operators. Lists of array items and object elements may have gaps. A
statement ends at a semicolon, at the end of what is read, or where the next token starts a line and
cannot continue it.
-/

namespace TypeLoom.TypeScript

open Pattern (opt many many1 ahead absent all any sepBy1 call item inside)

/-- The constructs of the language. -/
inductive Rule where
  | statement | statementEnd | block | importStatement | fromClause | importClause | namedImports
  | specifier | attributes | exportStatement | exportList | declaration | variableStatement
  | variableList | declarator | functionDeclaration | classDeclaration | interfaceDeclaration
  | aliasDeclaration | enumDeclaration | namespaceDeclaration | forHeader | switchCase | decorators
  | expression | assignment | arrow | arrowHead | operand | operator | unary | stepped | leftHand
  | newTarget | suffix | arguments | argument | primary | template | array | object | element
  | method | methodModifiers | key | functionExpression | classExpression | classRest
  | implementing | classBody | classMember
  | signature | parameters | parameter | pattern | objectPattern | arrayPattern
  | patternItem | type | typeOperand | functionType | primaryType | typeName | namedType
  | typeArguments | typeList
  | typeParameters | typeParameterList | typeParameter | returnType | objectType | typeMember
  | tupleItem
  deriving DecidableEq, Inhabited, Repr

abbrev Grammar := Pattern Rule

namespace Grammar

def t (text : String) : Grammar := item (.spelled [text])

/-- One of several words or punctuators. -/
def oneOf (texts : List String) : Grammar := item (.spelled texts)

/-- A punctuator that touches the token before it. -/
def tight (text : String) : Grammar := item (.tight text)

def kind (k : TokenKind) : Grammar := item (.kind k)

def identifier : Grammar := item .identifier

def word : Grammar := kind .word

def string : Grammar := kind .string

/-- The next token, if any, starts a line. -/
def newline : Grammar := ahead (item .startsLine)

/-- The next token is on the line of the one before it. -/
def sameLine : Grammar := ahead (item .continuesLine)

def endOfText : Grammar := absent (item .anything)

def braces (p : Grammar) : Grammar := inside .brace p

def parens (p : Grammar) : Grammar := inside .paren p

def brackets (p : Grammar) : Grammar := inside .bracket p

/-- Items with commas between them and perhaps after the last one. -/
def commaList (p : Grammar) : Grammar := opt (.seq (sepBy1 p (t ",")) (opt (t ",")))

/-- Items with one comma or more between them, and any number around them. -/
def gappedList (p : Grammar) : Grammar :=
  all [many (t ","), opt (sepBy1 p (many1 (t ","))), many (t ",")]

/-- Something that can name a property. -/
def keyStart : Grammar :=
  any [word, string, kind .number, kind .privateName, item (.opens .bracket)]

/-- A word that qualifies the property after it. -/
def modifier (texts : List String) : Grammar :=
  .seq (oneOf texts) (ahead (.choice keyStart (t "*")))

def assignmentOperators : List String :=
  ["=", "+=", "-=", "*=", "/=", "%=", "**=", "&=", "|=", "^=", "&&=", "||=", "??="]

def binaryOperators : List String :=
  ["+", "-", "*", "/", "%", "**", "==", "!=", "===", "!==", "<=", "&&", "||", "??", "&", "|", "^",
    "in", "instanceof"]

/-- A dotted name. -/
def dotted : Grammar := sepBy1 word (t ".")

/-- No element of an object literal starts here, other than a name or a spread. -/
def noElement : Grammar := absent (.choice (call .method) (.seq (call .key) (t ":")))

/-- An item, and then the end of a list in angle brackets or a comma and more of the list. What
follows a comma is no element of an object literal around the list. -/
def angleList (p more : Grammar) : Grammar :=
  .seq p (.choice (t ">") (.seq (t ",") (.choice (t ">") (.seq noElement more))))

def rule : Rule → Grammar
  | .statement =>
    any [call .block, t ";", call .importStatement, call .exportStatement, call .declaration,
      all [t "if", parens (call .expression), call .statement,
        opt (.seq (t "else") (call .statement))],
      all [t "for", opt (t "await"), parens (call .forHeader), call .statement],
      all [t "while", parens (call .expression), call .statement],
      all [t "do", call .statement, t "while", parens (call .expression), opt (t ";")],
      all [t "switch", parens (call .expression), braces (many (call .switchCase))],
      all [t "try", call .block,
        opt (all [t "catch", opt (parens (.seq (call .pattern)
          (opt (.seq (t ":") (call .type))))), call .block]),
        opt (.seq (t "finally") (call .block))],
      all [t "with", parens (call .expression), call .statement],
      all [t "return", opt (.seq sameLine (call .expression)), call .statementEnd],
      all [t "throw", call .expression, call .statementEnd],
      all [oneOf ["break", "continue"], opt (.seq sameLine identifier), call .statementEnd],
      all [t "debugger", call .statementEnd],
      all [identifier, t ":", call .statement],
      all [absent (oneOf ["function", "class"]), call .expression, call .statementEnd]]
  | .statementEnd => any [t ";", endOfText, newline]
  | .block => braces (many (call .statement))
  | .importStatement =>
    any [all [t "import", string, opt (call .attributes), call .statementEnd],
      all [t "import", oneOf ["type", "typeof"], call .fromClause, opt (call .attributes),
        call .statementEnd],
      all [t "import", call .fromClause, opt (call .attributes), call .statementEnd],
      all [t "import", opt (t "type"), identifier, t "=", t "require", parens string,
        call .statementEnd],
      all [t "import", opt (t "type"), identifier, t "=", dotted, call .statementEnd]]
  | .fromClause => all [call .importClause, t "from", string]
  | .importClause =>
    let namespace_ := all [t "*", t "as", identifier]
    any [namespace_, call .namedImports,
      .seq identifier (opt (.seq (t ",") (.choice namespace_ (call .namedImports))))]
  | .namedImports => braces (commaList (call .specifier))
  | .specifier =>
    any [all [oneOf ["type", "typeof"], .choice word string, t "as", identifier],
      all [.choice word string, t "as", identifier],
      .seq (oneOf ["type", "typeof"]) identifier, identifier]
  | .attributes => .seq (oneOf ["with", "assert"]) (call .object)
  | .exportStatement =>
    let source := .seq (t "from") (.seq string (opt (call .attributes)))
    any [all [t "export", t "default", any [call .functionDeclaration, call .classDeclaration,
        call .interfaceDeclaration, .seq (call .expression) (call .statementEnd)]],
      all [t "export", opt (t "type"), t "*", opt (.seq (t "as") (.choice word string)), source,
        call .statementEnd],
      all [t "export", opt (t "type"), call .exportList, opt source, call .statementEnd],
      all [t "export", t "=", call .expression, call .statementEnd],
      all [t "export", t "as", t "namespace", identifier, call .statementEnd],
      .seq (t "export") (.choice (call .importStatement) (call .declaration))]
  | .exportList =>
    let name := .choice word string
    braces (commaList (any [all [oneOf ["type", "typeof"], name, t "as", name],
      all [name, t "as", name], .seq (oneOf ["type", "typeof"]) name, name]))
  | .declaration =>
    any [call .enumDeclaration, call .variableStatement, call .functionDeclaration,
      call .classDeclaration, call .interfaceDeclaration, call .aliasDeclaration,
      call .namespaceDeclaration,
      all [t "declare", sameLine, .choice (call .declaration)
        (.seq (t "global") (call .block))]]
  | .variableStatement => .seq (call .variableList) (call .statementEnd)
  | .variableList =>
    .seq (oneOf ["const", "let", "var"]) (sepBy1 (call .declarator) (t ","))
  | .declarator =>
    .choice (all [identifier, t "!", t ":", call .type])
      (all [call .pattern, opt (.seq (t ":") (call .type)), opt (.seq (t "=") (call .assignment))])
  | .functionDeclaration =>
    all [opt (t "async"), t "function", opt (t "*"), opt identifier, call .signature,
      .choice (call .block) (call .statementEnd)]
  | .classDeclaration =>
    all [call .decorators, opt (t "abstract"), t "class", opt (.seq (absent
      (oneOf ["extends", "implements"])) identifier), opt (call .typeParameters), call .classRest]
  | .interfaceDeclaration =>
    all [t "interface", identifier, opt (call .typeParameters),
      opt (.seq (t "extends") (sepBy1 (call .type) (t ","))), call .objectType]
  | .aliasDeclaration =>
    all [t "type", identifier, opt (call .typeParameters), t "=", call .type, call .statementEnd]
  | .enumDeclaration =>
    all [opt (t "const"), t "enum", identifier,
      braces (commaList (.seq (call .key) (opt (.seq (t "=") (call .assignment)))))]
  | .namespaceDeclaration =>
    all [oneOf ["namespace", "module"], sameLine, .choice string dotted,
      .choice (call .block) (call .statementEnd)]
  | .forHeader =>
    any [all [opt (oneOf ["const", "let", "var"]), call .pattern, oneOf ["of", "in"],
        call .expression],
      all [opt (.choice (call .variableList) (call .expression)), t ";",
        opt (call .expression), t ";",
        opt (call .expression)],
      all [call .leftHand, t "of", call .expression],
      call .expression]
  | .switchCase =>
    all [.choice (.seq (t "case") (call .expression)) (t "default"), t ":", many (call .statement)]
  | .decorators => many (.seq (t "@") (call .leftHand))
  | .expression => sepBy1 (call .assignment) (t ",")
  | .assignment =>
    any [call .arrow,
      all [t "yield", opt (t "*"), opt (.seq sameLine (call .assignment))],
      all [call .operand, many (.seq (call .operator) (call .operand)),
        opt (all [t "?", call .assignment, t ":", call .assignment])],
      all [call .pattern, t "=", call .assignment]]
  | .arrow => all [call .arrowHead, t "=>", .choice (call .block) (call .assignment)]
  | .arrowHead =>
    let full := all [opt (call .typeParameters), call .parameters,
      opt (.seq (t ":") (call .returnType))]
    any [all [t "async", sameLine, .choice identifier full], identifier, full]
  | .operand =>
    .choice (call .arrow)
      (.seq (call .unary) (many (all [sameLine, oneOf ["as", "satisfies"],
        .choice (t "const") (call .type)])))
  | .operator =>
    any [oneOf assignmentOperators, oneOf binaryOperators,
      all [t "<", tight "<", opt (tight "=")],
      t "<",
      all [t ">", many (tight ">"), opt (tight "=")]]
  | .unary =>
    any [.seq (oneOf ["delete", "void", "typeof", "await", "+", "-", "!", "~", "++", "--"])
        (call .unary),
      .seq (call .typeArguments) (call .unary),
      call .stepped]
  | .stepped => .seq (call .leftHand) (opt (.seq sameLine (oneOf ["++", "--"])))
  | .leftHand => .seq (.choice (call .newTarget) (call .primary)) (many (call .suffix))
  | .newTarget =>
    .choice (all [t "new", t ".", word])
      (all [t "new", .choice (call .newTarget) (call .primary),
        many (any [.seq (t ".") (.choice word (kind .privateName)), brackets (call .expression)]),
        opt (call .typeArguments), opt (call .arguments)])
  | .suffix =>
    any [.seq (t ".") (.choice word (kind .privateName)),
      .seq (t "?.") (any [call .arguments, brackets (call .expression), word, kind .privateName]),
      brackets (call .expression),
      .seq (opt (call .typeArguments)) (.choice (call .arguments) (call .template)),
      .seq sameLine (t "!")]
  | .arguments => parens (commaList (call .argument))
  | .argument => .seq (opt (t "...")) (call .assignment)
  | .primary =>
    any [call .functionExpression, call .classExpression, identifier,
      kind .number, string, kind .regex, kind .privateName, call .template, call .array,
      call .object, parens (call .expression), oneOf ["this", "super", "null", "true", "false"],
      .seq (t "import") (.choice (ahead (item (.opens .paren))) (.seq (t ".") word))]
  | .template =>
    .choice (kind .template)
      (inside .template (sepBy1 (call .expression) (kind .templateMiddle)))
  | .array => brackets (gappedList (call .argument))
  | .object => braces (gappedList (call .element))
  | .element =>
    any [.seq (t "...") (call .assignment), call .method,
      all [call .key, t ":", call .assignment], identifier]
  | .method => all [call .methodModifiers, call .key, opt (t "?"), call .signature, call .block]
  | .methodModifiers =>
    .seq (many (modifier ["public", "private", "protected", "static", "override", "readonly",
      "async", "get", "set"])) (opt (t "*"))
  | .key =>
    any [word, string, kind .number, kind .privateName, brackets (call .expression)]
  | .functionExpression =>
    all [opt (t "async"), t "function", opt (t "*"), opt identifier, call .signature, call .block]
  | .classExpression =>
    all [call .decorators, t "class", opt (.seq (absent (oneOf ["extends", "implements"]))
      identifier), opt (call .typeParameters), call .classRest]
  | .classRest =>
    .seq (opt (all [t "extends", call .leftHand, opt (call .typeArguments)]))
      (.choice (call .classBody) (.seq (t "implements") (call .implementing)))
  | .implementing =>
    .seq (call .namedType)
      (.choice (call .classBody) (.seq (t ",") (.seq noElement (call .implementing))))
  | .classBody => braces (many (call .classMember))
  | .classMember =>
    let modifiers := many (modifier ["public", "private", "protected", "static", "override",
      "readonly", "abstract", "declare", "async", "get", "set", "accessor"])
    any [t ";", .seq (t "static") (call .block),
      all [call .decorators, modifiers, brackets (all [identifier, t ":", call .type]), t ":",
        call .type, call .statementEnd],
      all [call .decorators, modifiers, opt (t "*"), call .key, opt (t "?"), call .signature,
        .choice (call .block) (call .statementEnd)],
      all [call .decorators, modifiers, call .key, opt (oneOf ["?", "!"]),
        opt (.seq (t ":") (call .type)), opt (.seq (t "=") (call .assignment)),
        call .statementEnd]]
  | .signature =>
    all [opt (call .typeParameters), call .parameters, opt (.seq (t ":") (call .returnType))]
  | .parameters => parens (commaList (call .parameter))
  | .parameter =>
    all [call .decorators, many (.seq (oneOf ["public", "private", "protected", "readonly",
        "override"]) (ahead (any [word, item (.opens .brace),
        item (.opens .bracket)]))),
      opt (t "..."), .choice (call .pattern) (t "this"), opt (t "?"),
      opt (.seq (t ":") (call .type)), opt (.seq (t "=") (call .assignment))]
  | .pattern => any [identifier, call .objectPattern, call .arrayPattern]
  | .objectPattern =>
    braces (commaList (any [.seq (t "...") (call .pattern),
      all [call .key, t ":", call .patternItem],
      .seq identifier (opt (.seq (t "=") (call .assignment)))]))
  | .arrayPattern => brackets (gappedList (.seq (opt (t "...")) (call .patternItem)))
  | .patternItem =>
    .seq (.choice (call .pattern) (call .leftHand)) (opt (.seq (t "=") (call .assignment)))
  | .type =>
    any [call .functionType,
      all [opt (oneOf ["|", "&"]), sepBy1 (call .typeOperand) (oneOf ["|", "&"]),
        opt (all [t "extends", call .type, t "?", call .type, t ":", call .type])]]
  | .functionType =>
    all [opt (t "abstract"), opt (t "new"), opt (call .typeParameters), call .parameters, t "=>",
      call .returnType]
  | .typeOperand =>
    any [.seq (oneOf ["keyof", "unique", "readonly", "infer"]) (call .typeOperand),
      call .functionType,
      .seq (call .primaryType) (many (.seq sameLine (brackets (opt (call .type)))))]
  | .primaryType =>
    any [parens (call .type),
      all [t "typeof",
        .choice (all [t "import", parens string, many (.seq (t ".") word)]) dotted,
        opt (call .typeArguments)],
      all [t "import", parens string, many (.seq (t ".") word), opt (call .typeArguments)],
      call .namedType,
      oneOf ["void", "null", "this", "true", "false", "undefined"],
      string, .seq (opt (t "-")) (kind .number), kind .template,
      inside .template (sepBy1 (call .type) (kind .templateMiddle)),
      call .objectType, brackets (commaList (call .tupleItem))]
  | .typeName => .seq identifier (many (.seq (t ".") word))
  | .namedType => .seq (call .typeName) (opt (call .typeArguments))
  | .typeArguments => .seq (t "<") (call .typeList)
  | .typeList => angleList (call .type) (call .typeList)
  | .typeParameters => .seq (t "<") (call .typeParameterList)
  | .typeParameterList => angleList (call .typeParameter) (call .typeParameterList)
  -- A list of variables is no list of type parameters, so their names are told apart.
  | .typeParameter =>
    all [many (.seq (oneOf ["const", "in", "out"]) (ahead word)), item (.identifierBut "resolvers"),
      opt (.seq (t "extends") (call .type)), opt (.seq (t "=") (call .type))]
  | .returnType =>
    any [all [t "asserts", .choice identifier (t "this"), opt (.seq (t "is") (call .type))],
      all [.choice identifier (t "this"), t "is", call .type],
      call .type]
  | .objectType =>
    braces (.seq (opt (t "|"))
      (opt (all [call .typeMember,
        many (.seq (any [oneOf [";", ","], newline]) (call .typeMember)),
        opt (oneOf [";", ","])])))
  | .typeMember =>
    let optional_ := opt (.seq (opt (oneOf ["+", "-"])) (t "?"))
    any [all [opt (oneOf ["+", "-"]), opt (t "readonly"),
        brackets (.seq identifier (.choice (.seq (t ":") (call .type))
          (all [t "in", call .type, opt (.seq (t "as") (call .type))]))),
        optional_, opt (.seq (t ":") (call .type))],
      .seq (opt (t "new")) (call .signature),
      all [many (modifier ["readonly", "get", "set", "static", "public", "private", "protected"]),
        call .key, opt (t "?"), call .signature],
      all [many (modifier ["readonly", "static", "public", "private", "protected"]), call .key,
        opt (t "?"), opt (.seq (t ":") (call .type))]]
  | .tupleItem =>
    all [opt (t "..."), opt (all [identifier, opt (t "?"), t ":"]), call .type, opt (t "?")]

/-- What is left of a list of nodes after a construct. The bound on the steps leaves room for every
rule to be entered at every token. -/
def after? (r : Rule) (ts : List Tree) : Option (List Tree) :=
  Pattern.run rule (1024 * ((Tree.allTokens ts).length + 1)) (call r) ts

/-- The nodes of a construct and what is left after it. -/
def split? (r : Rule) (ts : List Tree) : Option (List Tree × List Tree) :=
  (after? r ts).map fun rest => (ts.take (ts.length - rest.length), rest)

end Grammar

end TypeLoom.TypeScript
