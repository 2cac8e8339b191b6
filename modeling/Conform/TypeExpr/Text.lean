import Conform.TypeExpr.Basic
import Conform.Value.Display

/-!
The text of type expressions. A class alone is written in pointed brackets, and
by its full name inside another type. A union of two with none is an optional type.
-/
namespace Conform.TypeExpr

def bracketed (name : String) (parts : List (List Char)) : List Char :=
  enclosed (name.toList ++ ['[']) [']'] (separated parts)

mutual

def innerText : TypeExpr → Except Fault (List Char)
  | .text => .ok "str".toList
  | .int => .ok "int".toList
  | .float => .ok "float".toList
  | .bool => .ok "bool".toList
  | .none => .ok "NoneType".toList
  | .any => .ok "typing.Any".toList
  | .undefined => .ok "typehelper.undefined.Undefined".toList
  | .symbol => .ok "enum.Enum".toList
  | .named cls => .ok cls.qualified.toList
  | .list t => do
    let item ← innerText t
    .ok (bracketed "list" [item])
  | .record t => do
    let item ← innerText t
    .ok (bracketed "dict" ["str".toList, item])
  | .tuple ts => do
    let items ← innerTexts ts
    .ok (bracketed "tuple" (if items.isEmpty then [['(', ')']] else items))
  | .literal _ vs => do
    let values ← vs.mapM Value.repr
    .ok (bracketed "typing.Literal" values)
  | .union ts => do
    let parts ← innerTexts ts
    .ok (match ts, parts with
      | [.none, _], [_, part] => bracketed "typing.Optional" [part]
      | [_, .none], [part, _] => bracketed "typing.Optional" [part]
      | _, parts => bracketed "typing.Union" parts)
  | .pipe ts => do
    let parts ← pipeTexts ts
    .ok (List.intercalate [' ', '|', ' '] parts)
  | .struct .. => .ok "typehelper.inference.Struct".toList
termination_by structural t => t

def innerTexts : List TypeExpr → Except Fault (List (List Char))
  | [] => .ok []
  | t :: ts => do
    let part ← innerText t
    let parts ← innerTexts ts
    .ok (part :: parts)
termination_by structural ts => ts

/-- Between bars the type of null is written as the value. -/
def pipeTexts : List TypeExpr → Except Fault (List (List Char))
  | [] => .ok []
  | .none :: ts => do
    let parts ← pipeTexts ts
    .ok ("None".toList :: parts)
  | t :: ts => do
    let part ← innerText t
    let parts ← pipeTexts ts
    .ok (part :: parts)
termination_by structural ts => ts

end

def quotedClass (sort name : String) : List Char :=
  ("<" ++ sort ++ " '" ++ name ++ "'>").toList

def outerText : TypeExpr → Except Fault (List Char)
  | .text => .ok (quotedClass "class" "str")
  | .int => .ok (quotedClass "class" "int")
  | .float => .ok (quotedClass "class" "float")
  | .bool => .ok (quotedClass "class" "bool")
  | .none => .ok (quotedClass "class" "NoneType")
  | .undefined => .ok (quotedClass "enum" "Undefined")
  | .symbol => .ok (quotedClass "enum" "Enum")
  | .named cls =>
    .ok (if cls.isFamily then quotedClass "enum" cls.name else quotedClass "class" cls.qualified)
  | .struct .. => .ok (quotedClass "class" "typehelper.inference.Struct")
  | t => t.innerText

end Conform.TypeExpr
