namespace ChipEight

abbrev Causes := List String

namespace Causes

/-- All causes on one line. -/
def line (c : Causes) : String :=
  ": ".intercalate c

/-- The lines of the causes behind the first: indented, and numbered if there are several. -/
def behind : List String → List String
  | [] => []
  | [cause] => ["    " ++ cause]
  | causes => causes.zipIdx.map fun (cause, n) =>
    String.ofList ((Nat.toDigits 10 n).leftpad 5 ' ') ++ ": " ++ cause

/-- The first cause, and below a heading the causes behind it. -/
def report : Causes → String
  | [] => ""
  | [cause] => cause
  | cause :: causes => "\n".intercalate ([cause, "", "Caused by:"] ++ behind causes)

end Causes

end ChipEight
