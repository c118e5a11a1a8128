import Criteria.Token.Basic
/-!
What can go wrong, by cause. Each cause has a code and, unless a document cannot be decoded, a message. An error
is recoverable when the user can go on editing.
-/

namespace Criteria

inductive CatalogError where
  /-- The name is blank, or another parameter has it up to letter case and spacing. -/
  | duplicateName (name : String)
  | duplicateId (id : ParameterId)
  /-- The source of the catalog's data failed. -/
  | source (reason : String)
  deriving DecidableEq, Repr

inductive ExpressionError where
  | illegalKind (expected : KindSet) (got : TokenKind)
  | unclosedParens (depth : Nat)
  | unresolvedParameter (name : String)
  | ambiguousText (index : Nat) (text : String)
  | unknownParameter (name : String)
  | unknownOperator (symbol : String)
  | unknownLogicalOperator (symbol : String)
  | emptyValue (kind : TokenKind)
  | unknownNotAppendable
  | catalog (error : CatalogError)
  | malformedDocument
  deriving DecidableEq, Repr

namespace CatalogError

def message : CatalogError → String
  | .duplicateName name => "参数名称重复: " ++ name
  | .duplicateId id => "参数 ID 重复: " ++ toString id.toInt
  | .source reason => "目录数据源错误: " ++ reason

end CatalogError

namespace ExpressionError

def code : ExpressionError → String
  | .illegalKind _ _ => "GRAMMAR_VIOLATION"
  | .unclosedParens _ => "UNBALANCED_OPEN_PAREN"
  | .unresolvedParameter _ => "UNRESOLVED_PARAMETER_ID"
  | .ambiguousText _ _ => "PARSE_AMBIGUITY"
  | .unknownParameter _ => "UNKNOWN_PARAMETER"
  | .unknownOperator _ => "UNKNOWN_OPERATOR"
  | .unknownLogicalOperator _ => "UNKNOWN_LOGICAL_OPERATOR"
  | .emptyValue _ => "EMPTY_VALUE"
  | .unknownNotAppendable => "UNKNOWN_NOT_APPENDABLE"
  | .catalog _ => "CATALOG_ERROR"
  | .malformedDocument => "JSON_ERROR"

def isRecoverable : ExpressionError → Bool
  | .catalog _ => false
  | .malformedDocument => false
  | _ => true

def message? : ExpressionError → Option String
  | .illegalKind expected got => some ("语法错误: 期望 " ++ expected.text ++ ", 实际 " ++ got.name)
  | .unclosedParens depth => some ("括号未闭合: 仍有 " ++ toString depth ++ " 个左括号")
  | .unresolvedParameter name => some ("参数无法解析为 ID: " ++ name)
  | .ambiguousText index text =>
    some ("表达式存在无法识别的片段: 位置 " ++ toString index ++ " '" ++ text ++ "'")
  | .unknownParameter name => some ("未知参数: " ++ name)
  | .unknownOperator symbol => some ("未知操作符: " ++ symbol)
  | .unknownLogicalOperator symbol => some ("未知逻辑操作符: " ++ symbol)
  | .emptyValue kind => some (kind.name ++ " 的值不能为空")
  | .unknownNotAppendable => some "Unknown 类型的 token 不能直接追加"
  | .catalog error => some ("目录错误: " ++ error.message)
  | .malformedDocument => none

end ExpressionError

end Criteria
