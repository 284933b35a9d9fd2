/-!
# Styles of scalars
-/

namespace Toolchain32.Yaml

inductive ScalarStyle
  | plain
  | singleQuoted
  | doubleQuoted
  | literal
  | folded
  deriving DecidableEq, Repr

end Toolchain32.Yaml
