import Triage.Catalog.Table

set_option autoImplicit false

namespace Triage

def bundledMessages : List (Code × String) :=
  [(1002, "Unterminated string literal."),
   (1003, "Identifier expected."),
   (1005, "'\x7b0\x7d' expected."),
   (1109, "Expression expected."),
   (1128, "Declaration or statement expected."),
   (2304, "Cannot find name '\x7b0\x7d'."),
   (2305, "Module '\x7b0\x7d' has no exported member '\x7b1\x7d'."),
   (2307, "Cannot find module '\x7b0\x7d' or its corresponding type declarations."),
   (2322, "Type '\x7b0\x7d' is not assignable to type '\x7b1\x7d'."),
   (2339, "Property '\x7b0\x7d' does not exist on type '\x7b1\x7d'."),
   (2345, "Argument of type '\x7b0\x7d' is not assignable to parameter of type '\x7b1\x7d'."),
   (2349, "This expression is not callable."),
   (2352,
    "Conversion of type '\x7b0\x7d' to type '\x7b1\x7d' may be a mistake because neither " ++
      "type sufficiently overlaps with the other. If this was intentional, convert the " ++
      "expression to 'unknown' first."),
   (2366,
    "Function lacks ending return statement and return type does not include 'undefined'."),
   (2448, "Block-scoped variable '\x7b0\x7d' used before its declaration."),
   (2451, "Cannot redeclare block-scoped variable '\x7b0\x7d'."),
   (2531, "Object is possibly 'null'."),
   (2532, "Object is possibly 'undefined'."),
   (2551, "Property '\x7b0\x7d' does not exist on type '\x7b1\x7d'. Did you mean '\x7b2\x7d'?"),
   (2554, "Expected \x7b0\x7d arguments, but got \x7b1\x7d."),
   (2564,
    "Property '\x7b0\x7d' has no initializer and is not definitely assigned in the constructor."),
   (2571, "Object is of type 'unknown'."),
   (2683, "'this' implicitly has type 'any' because it does not have a type annotation."),
   (2741,
    "Property '\x7b0\x7d' is missing in type '\x7b1\x7d' but required in type '\x7b2\x7d'."),
   (2769, "No overload matches this call."),
   (5023, "Unknown compiler option '\x7b0\x7d'."),
   (6133, "'\x7b0\x7d' is declared but its value is never read."),
   (6192, "All imports in import declaration are unused."),
   (6196, "'\x7b0\x7d' is declared but never used."),
   (7005, "Variable '\x7b0\x7d' implicitly has an '\x7b1\x7d' type."),
   (7006, "Parameter '\x7b0\x7d' implicitly has an '\x7b1\x7d' type."),
   (7016,
    "Could not find a declaration file for module '\x7b0\x7d'. '\x7b1\x7d' implicitly has " ++
      "an 'any' type."),
   (7027, "Unreachable code detected."),
   (7029, "Fallthrough case in switch."),
   (7030, "Not all code paths return a value."),
   (7031, "Binding element '\x7b0\x7d' implicitly has an '\x7b1\x7d' type."),
   (7053,
    "Element implicitly has an 'any' type because expression of type '\x7b0\x7d' can't be " ++
      "used to index type '\x7b1\x7d'."),
   (18046, "'\x7b0\x7d' is of type 'unknown'."),
   (18047, "'\x7b0\x7d' is possibly 'null'."),
   (18048, "'\x7b0\x7d' is possibly 'undefined'.")]

def bundled : MessageTable :=
  .ofMembers (bundledMessages.map fun m => (m.2.toList, m.1))

end Triage
