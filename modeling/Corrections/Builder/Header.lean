/-
  The text of a generated header.

  * `enums` declares an enumeration for each string parameter with values, `validation` checks the
    bounds of the other parameters, and `body` is the code of the content.
  * `dump` is the whole header: the enumerations, the description as a comment, and the function.
-/
import Corrections.Builder.Basic
import Corrections.Compilation
import Corrections.Text.UpperCase

namespace Corrections.Builder

/-- The name of a value in an enumeration. -/
def enumerator (b : Builder) (value : Datum) : String :=
  Text.upperCase value.text ++ "_" ++ b.name

/-- The enumeration with the given values. -/
def enumDeclaration (b : Builder) (type : VariableType) (values : List Datum) : String :=
  "\n" ++
  "                            typedef enum \x7b\n" ++
  "                                " ++ ", ".intercalate (values.map b.enumerator) ++ "\n" ++
  "                            \x7d " ++ type.code ++ ";\n" ++
  "                            "

/-- The enumeration of a parameter, if it is one and has values. -/
def enumText (b : Builder) (v : Variable) : String :=
  match v.isString, v.values with
  | true, some (value :: values) => b.enumDeclaration v.type (value :: values)
  | _, _ => ""

/-- The enumerations of all parameters. -/
def enums (b : Builder) : String := String.join (b.params.values.map b.enumText)

/-- The check of the bounds of a parameter, unless it is an enumeration. -/
def validationText (b : Builder) (v : Variable) : String :=
  if v.isString then ""
  else
    "\n" ++
    "                    if (" ++ v.name ++ " < " ++ v.min.text ++ " || " ++ v.name ++ " > " ++
      v.max.text ++ ") \x7b fprintf(stderr, \"ERROR: " ++ v.name ++ " is out of bounds.\\n\");\n" ++
    "                    " ++ b.target.failCode ++ "; \x7d;\n" ++
    "               "

/-- The checks of all parameters. -/
def validation (b : Builder) : String := String.join (b.params.values.map b.validationText)

/-- The parameter list of the function. -/
def parameterList (b : Builder) : String :=
  ", ".intercalate (b.params.values.map fun v => "const " ++ v.type.code ++ " " ++ v.name)

/-- The code of the content. There must be a parameter, and a content that is not blank. -/
def body (b : Builder) : Except Failure String :=
  if b.params.entries.isEmpty then .error .noVariables
  else if b.content.isBlank then .error .noContent
  else (b.content.compile b.target).mapError .compile

/-- The header up to the statements of the function. -/
def opening (b : Builder) : String :=
  "\n" ++
  "        #include <stdlib.h>\n" ++
  "        #include <stdio.h>\n" ++
  "        #include <float.h>\n" ++
  "\n" ++
  "        " ++ b.enums ++ "\n" ++
  "        /*\n" ++ b.description ++ "\n*/\n" ++
  "        float " ++ b.name ++ "(" ++ b.parameterList ++ ")\x7b\n"

/-- The line behind the code of the content. It is reached when no branch has returned. -/
def exhaustedLine : String :=
  "        fprintf(stderr, \"ERROR: Exausted branches. This should never happen.\\n\");\n"

/-- The statements of the function around the code of the content. -/
def statementText (b : Builder) (code : String) : String :=
  "        " ++ b.validation ++ "\n" ++
  "\n" ++
  "        " ++ code ++ "\n" ++
  "\n" ++
  exhaustedLine ++
  "        " ++ b.target.failCode ++ ";\n"

/-- The header behind the statements of the function. -/
def closing : String :=
  "        \x7d\n" ++
  "\n" ++
  "        "

/-- The header around the code of the content. -/
def headerText (b : Builder) (code : String) : String := b.opening ++ b.statementText code ++ closing

/-- The whole header. -/
def dump (b : Builder) : Except Failure String := b.body.map b.headerText

end Corrections.Builder
