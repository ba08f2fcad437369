/-!
# Pieces of a generated call

A generated function between Python and C++ declares its temporaries, prepares them, makes a call,
and turns what came out into a result.

## Main definitions

* `CallCode` — the texts of these pieces.
-/

namespace Bindery

/-- The pieces of a function that stands between Python and C++. -/
structure CallCode where
  returnType : String := ""
  argList : String := ""
  /-- The declarations of temporaries, one a line. -/
  declarations : String := ""
  preCall : String := ""
  postCall : String := ""
  /-- What stands in front of the call, such as `result = `. -/
  resultAssignment : String := ""
  /-- The arguments of the call. -/
  inputParams : String := ""
  returnStmt : String := ""
  /-- The type that is asked of a Python override. -/
  resultType : String := ""
  deriving DecidableEq, Repr, Inhabited

end Bindery
